import MyselfServer.Acceptor
import MyselfServer.Machine

/-!
# The accept loop

The listening socket is made in blocking mode, and nothing changes that. So
the first `accept4` with an empty backlog does not return: from the first
event of the listening socket on, the base loop is inside `handleRead`.
-/

namespace Myself

open Text Machine

/-! ## The construction -/

theorem listenOn_mode {k k' : Kernel} {answers : ListenAnswers} {ip : Bytes} {port : Int}
    {backlog : Nat} {sock : Socket} (h : Socket.listenOn k answers ip port backlog = .ok (sock, k')) :
    ∃ fd, sock.fd = some fd ∧ k'[fd]?.map FileFlags.nonBlocking = some false := by
  unfold Socket.listenOn at h
  split at h
  · cases h
  · rename_i fd hfd
    dsimp only at h
    split at h
    · cases h
    · split at h
      · cases h
      · split at h
        · cases h
        · cases h
          refine ⟨fd, rfl, ?_⟩
          simp only [Socket.setReuseAddr, Std.TreeMap.getElem?_modify_self,
            Std.TreeMap.getElem?_insert_self, Option.map_some]

theorem create_mode {k k' : Kernel} {answers : ListenAnswers} {self : Nat} {ip : Bytes} {port : Int}
    {a : Acceptor} (h : Acceptor.create k answers self ip port = .ok (a, k')) :
    k'[a.channel.fd]?.map FileFlags.nonBlocking = some false := by
  unfold Acceptor.create at h
  split at h
  · cases h
  · rename_i sock k₁ hl
    cases h
    obtain ⟨fd, hfd, hmode⟩ := listenOn_mode hl
    simp only [Socket.move, hfd, Option.getD_some]
    exact hmode

theorem enableReading_events (c : Channel) (r : Reactor) :
    (c.enableReading r).1.isNoneEvent = false := by
  simp only [Channel.enableReading, Channel.update, Channel.isNoneEvent, Channel.kReadEvent,
    beq_eq_false_iff_ne]
  intro h
  have hbit := congrArg (fun m : Mask => m.getLsbD 0) h
  simp [EPOLLIN, EPOLLPRI, EPOLLET] at hbit

theorem updateChannel_contains {r : Reactor} {c : Channel} (h : c.isNoneEvent = false) :
    (r.updateChannel c).channels.contains c.fd = true := by
  unfold Reactor.updateChannel
  split
  · simp [h, Reactor.epollAdd]
  · rename_i self hc
    simp only [h, Bool.false_eq_true, if_false, Reactor.epollModify]
    rw [Std.TreeMap.contains_eq_isSome_getElem?, hc]
    rfl

theorem listen_contains {a : Acceptor} (h : a.channel.removed = false) (r : Reactor) :
    (a.listen r).2.channels.contains a.channel.fd = true := by
  have hev := enableReading_events a.channel r
  simp only [Acceptor.listen, Channel.enableReading, Channel.update, h, Bool.false_eq_true,
    if_false] at hev ⊢
  exact updateChannel_contains hev

namespace BaseLoop

/-! ## Inside `accept4` -/

/-- On a socket in blocking mode `handleRead` returns only when `accept4`
fails for another reason than an empty backlog. -/
theorem accepting_returned (a : Acceptor) (fd : Nat) (arrivals : List Arrival)
    (h : (a.accepting fd false arrivals).returned = true) : ∃ errno, .failed errno ∈ arrivals := by
  induction arrivals with
  | nil => cases h
  | cons x rest ih =>
    cases x with
    | failed errno => exact ⟨errno, List.mem_cons_self ..⟩
    | quiet => exact (ih h).imp fun _ => List.mem_cons_of_mem _
    | connection connfd => exact (ih h).imp fun _ => List.mem_cons_of_mem _
    | interrupted => exact (ih h).imp fun _ => List.mem_cons_of_mem _

/-- On one in non-blocking mode it always returns. -/
theorem accepting_nonBlocking (a : Acceptor) (fd : Nat) (arrivals : List Arrival) :
    (a.accepting fd true arrivals).returned = true := by
  induction arrivals with
  | nil => rfl
  | cons x rest ih =>
    cases x with
    | failed errno => rfl
    | quiet => rfl
    | connection connfd => exact ih
    | interrupted => exact ih

/-- A thread inside `accept4` runs no timers and no other channels. -/
theorem loop_waiting {s : BaseLoop} (h : s.waiting = true) (rounds : List (List (Nat × Mask))) :
    s.loop rounds = s := by
  have hcb : ∀ fd cb, s.callback fd cb = s := by
    intro fd cb
    simp only [callback, h, if_true]
  have hround : ∀ events, s.round events = s := by
    intro events
    have hd : s.dispatch events = s := by
      induction events with
      | nil => rfl
      | cons event events ih =>
        have hone : (if s.reactor.channels.contains event.1 then
            (Channel.handleEvent event.2).foldl (fun s cb => s.callback event.1 cb) s else s) = s := by
          split
          · induction Channel.handleEvent event.2 with
            | nil => rfl
            | cons cb cbs ihcb => rw [List.foldl_cons, hcb, ihcb]
          · rfl
        rw [dispatch, List.foldl_cons, hone]
        exact ih
    simp only [round, hd, h, if_true]
  induction rounds with
  | nil => rfl
  | cons events rounds ih => rw [loop, List.foldl_cons, hround]; exact ih

/-! ## The loop -/

/-- No `accept4` so far, and the listening socket as it was made. -/
structure Untouched (fd : Nat) (s : BaseLoop) : Prop where
  trace : ∀ n nonBlocking, .accept4 n nonBlocking ∉ s.trace
  waiting : s.waiting = false
  channel : s.acceptor.channel.fd = fd
  registered : s.reactor.channels.contains fd = true
  mode : s.nonBlocking fd = false

def Blocked (s : BaseLoop) : Prop := ∃ fd, .accept4 fd false ∈ s.trace

theorem callback_trace (s : BaseLoop) (fd : Nat) (cb : ChannelCallback) {note : BaseNote}
    (h : note ∈ s.trace) : note ∈ (s.callback fd cb).trace := by
  unfold callback
  split
  · exact h
  · split
    · split
      · exact List.mem_append_left _ h
      · exact h
    · exact List.mem_append_left _ h

theorem callback_switches (fd n : Nat) :
    Switches (fun s cb => s.callback n cb) (Untouched fd) Blocked
      fun cb => n = fd ∧ cb = .read where
  stays s cb h hn := by
    simp only [callback, h.waiting, Bool.false_eq_true, if_false, h.channel]
    split
    · rename_i heq
      split
      · exact absurd ⟨heq.symm, rfl⟩ hn
      · exact h
    · refine ⟨?_, rfl, h.channel, h.registered, h.mode⟩
      intro m nonBlocking hm
      rw [List.mem_append, List.mem_singleton] at hm
      rcases hm with hm | hm
      · exact h.trace m nonBlocking hm
      · cases hm
  switches s cb h hr := by
    obtain ⟨rfl, rfl⟩ := hr
    refine ⟨n, ?_⟩
    simp only [callback, h.waiting, Bool.false_eq_true, if_false, h.channel, if_true, h.mode]
    exact List.mem_append_right _ (List.mem_cons_self ..)
  keeps s cb h := h.imp fun _ => callback_trace s n cb

theorem dispatch_switches (fd : Nat) :
    Switches dispatch (Untouched fd) Blocked fun events =>
      ∃ event ∈ events, event.1 = fd ∧ .read ∈ Channel.handleEvent event.2 := by
  apply Switches.foldl
  have hevent := fun n => (callback_switches fd n).foldl
  constructor
  · intro s event h hn
    split
    · apply (hevent event.1).stays s _ h
      rintro ⟨cb, hcb, heq, rfl⟩
      exact hn ⟨heq, hcb⟩
    · exact h
  · rintro s ⟨n, revents⟩ h ⟨heq, hcb⟩
    dsimp only at heq hcb ⊢
    subst heq
    rw [if_pos h.registered]
    exact (hevent n).switches s _ h ⟨.read, hcb, rfl, rfl⟩
  · intro s event h
    split
    · exact (hevent event.1).keeps s _ h
    · exact h

theorem round_switches (fd : Nat) :
    Switches round (Untouched fd) Blocked fun events =>
      ∃ event ∈ events, event.1 = fd ∧ .read ∈ Channel.handleEvent event.2 where
  stays s events h hn := by
    have hd := (dispatch_switches fd).stays s events h hn
    simp only [round, hd.waiting, Bool.false_eq_true, if_false]
    refine ⟨?_, rfl, hd.channel, hd.registered, hd.mode⟩
    intro m nonBlocking hm
    rw [List.mem_append] at hm
    rcases hm with hm | hm
    · exact hd.trace m nonBlocking hm
    · simp at hm
  switches s events h hr := by
    obtain ⟨n, hn⟩ := (dispatch_switches fd).switches s events h hr
    refine ⟨n, ?_⟩
    simp only [round]
    split
    · exact hn
    · exact List.mem_append_left _ hn
  keeps s events h := by
    obtain ⟨n, hn⟩ := (dispatch_switches fd).keeps s events h
    refine ⟨n, ?_⟩
    simp only [round]
    split
    · exact hn
    · exact List.mem_append_left _ hn

def listening (k : Kernel) (a : Acceptor) (r : Reactor) (arrivals : List Arrival) : BaseLoop :=
  { kernel := k
    acceptor := (a.setNewConnectionCallback.listen r).1
    reactor := (a.setNewConnectionCallback.listen r).2
    arrivals := arrivals }

/-- **The accept loop gives control back exactly when it is never entered**:
every `accept4` of `handleRead` is on a socket in blocking mode. -/
theorem givesBack_iff {k k' : Kernel} {answers : ListenAnswers} {self : Nat} {ip : Bytes}
    {port : Int} {a : Acceptor} (h : Acceptor.create k answers self ip port = .ok (a, k'))
    (r : Reactor) (arrivals : List Arrival) (rounds : List (List (Nat × Mask))) :
    (loop (listening k' a r arrivals) rounds).GivesBack ↔
      ∀ events ∈ rounds, ∀ event ∈ events, ¬ (listening k' a r arrivals).Reads event := by
  obtain ⟨f, hf, hmode⟩ := Option.map_eq_some_iff.mp (create_mode h)
  have hremoved : a.channel.removed = false := by
    unfold Acceptor.create at h
    split at h
    · cases h
    · cases h
      rfl
  have hfd : (listening k' a r arrivals).acceptor.channel.fd = a.channel.fd := rfl
  have hstart : Untouched a.channel.fd (listening k' a r arrivals) := by
    refine ⟨?_, rfl, hfd, ?_, ?_⟩
    · intro n nonBlocking hm
      exact absurd hm List.not_mem_nil
    · exact listen_contains (a := a.setNewConnectionCallback) hremoved r
    · simp only [nonBlocking, listening, hf, hmode]
  have hloop := (round_switches a.channel.fd).foldl
  constructor
  · intro hg events hevents event hevent hr
    have hstuck := hloop.switches _ rounds hstart ⟨events, hevents, event, hevent, hr⟩
    obtain ⟨n, hn⟩ := hstuck
    exact absurd (hg.mode n false hn) Bool.false_ne_true
  · intro hn
    have hquiet := hloop.stays _ rounds hstart (by
      rintro ⟨events, hevents, event, hevent, hr⟩
      exact hn events hevents event hevent hr)
    exact ⟨fun n nonBlocking hm => absurd hm (hquiet.trace n nonBlocking), hquiet.waiting⟩

theorem givesBack_idle :
    ∃ a k', Acceptor.create ∅ ⟨.ok 3, none, none, none⟩ 1 (bytes "0.0.0.0") 8080 = .ok (a, k') ∧
      (loop (listening k' a {} [.connection 7]) [[(9, EPOLLIN)], []]).GivesBack := by
  have h : Acceptor.create ∅ ⟨.ok 3, none, none, none⟩ 1 (bytes "0.0.0.0") 8080 = .ok (_, _) := rfl
  refine ⟨_, _, h, (givesBack_iff h {} [.connection 7] [[(9, EPOLLIN)], []]).mpr ?_⟩
  intro events hevents event hevent hr
  simp only [List.mem_cons, List.not_mem_nil, or_false] at hevents
  rcases hevents with rfl | rfl
  · rw [List.mem_singleton] at hevent
    subst hevent
    exact absurd hr.1 (by decide)
  · cases hevent

/-- One connection arrives: it is accepted, the next `accept4` does not
return, and the timers of the round are not run. -/
theorem accept4_waits :
    ∃ a k', Acceptor.create ∅ ⟨.ok 3, none, none, none⟩ 1 (bytes "0.0.0.0") 8080 = .ok (a, k') ∧
      (loop (listening k' a {} [.connection 7]) [[(3, EPOLLIN)]]).trace =
        [.accept4 3 false, .newConnection 7, .accept4 3 false] ∧
      ¬ (loop (listening k' a {} [.connection 7]) [[(3, EPOLLIN)]]).GivesBack := by
  have h : Acceptor.create ∅ ⟨.ok 3, none, none, none⟩ 1 (bytes "0.0.0.0") 8080 = .ok (_, _) := rfl
  refine ⟨_, _, h, by decide, ?_⟩
  intro hg
  exact absurd hg.returned (by decide)

end BaseLoop

end Myself
