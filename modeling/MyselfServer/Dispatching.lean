import MyselfServer.ChannelLives
import MyselfServer.Server

/-!
# Dispatching

What `epoll_wait` reports, the loop finds again by descriptor. While a batch
is dispatched connections are closed, and without IO threads new ones are
accepted and get descriptors that have just become free. `events_reach` says
that every report still reaches the channel whose socket it is of.
-/

namespace Myself

open Machine

namespace Server

variable {s s' : Server}

/-! ## Connections that are queued or open -/

def connections (s : Server) : List Connection := s.queued ++ s.live

inductive Moved (s s' : Server) (e : ServerEvent) : Prop where
  | accepted (connfd : Nat) (hevent : e = .accept connfd) (hfree : connfd ∉ s.openFds)
      (hmain : mainFds s'.main = [connfd]) (hsame : s'.connections = s.connections) (hcreated : s'.created = s.created)
  | same (hmain : (mainFds s'.main).Sublist (mainFds s.main)) (hperm : s'.connections.Perm s.connections)
      (hcreated : s'.created = s.created)
  | created (connfd : Nat) (hmain : mainFds s.main = [connfd]) (hmain' : mainFds s'.main = [])
      (hperm : s'.connections.Perm (⟨s.created, connfd, s.nextLoop⟩ :: s.connections))
      (hcreated : s'.created = s.created + 1)
  | closed (conn : Connection) (hmain : mainFds s'.main = mainFds s.main)
      (hperm : s.connections.Perm (conn :: s'.connections)) (hcreated : s'.created = s.created)

theorem step_moved {e : ServerEvent} (hs : step s e = some s') : Moved s s' e := by
  cases e with
  | accept connfd =>
    simp only [step] at hs
    split at hs
    · cases hs
    · rename_i hfree
      cases hs
      exact .accepted connfd rfl (fun hin => hfree (Or.inr hin)) rfl rfl rfl
  | check =>
    simp only [step] at hs
    split at hs
    · rename_i connfd hm
      split at hs
      · cases hs
        exact .same (List.nil_sublist _) (List.Perm.refl _) rfl
      · cases hs
        refine .same ?_ (List.Perm.refl _) rfl
        rw [hm]
        exact List.Sublist.refl _
    · cases hs
  | handOff =>
    simp only [step] at hs
    split at hs
    · rename_i connfd hm
      have hmain : mainFds s.main = [connfd] := by rw [hm]; rfl
      split at hs
      · cases hs
        refine .created connfd hmain rfl ?_ rfl
        show (s.queued ++ (s.live ++ [_])).Perm _
        rw [← List.append_assoc]
        exact List.perm_append_singleton _ _
      · cases hs
        refine .created connfd hmain rfl ?_ rfl
        show ((s.queued ++ [_]) ++ s.live).Perm _
        rw [List.append_assoc, List.singleton_append]
        exact List.perm_middle
    · cases hs
  | setUp loop =>
    simp only [step] at hs
    split at hs
    · cases hs
    · rename_i conn hf
      split at hs
      · cases hs
      · cases hs
        refine .same (List.Sublist.refl _) ?_ rfl
        show (s.queued.erase conn ++ (s.live ++ [conn])).Perm (s.queued ++ s.live)
        rw [← List.append_assoc]
        refine (List.perm_append_singleton _ _).trans ?_
        rw [← List.cons_append]
        exact (List.perm_cons_erase (List.mem_of_find?_eq_some hf)).symm.append_right _
  | closeSocket conn =>
    simp only [step] at hs
    split at hs
    · rename_i hcond
      cases hs
      refine .closed conn rfl ?_ rfl
      show (s.queued ++ s.live).Perm (conn :: (s.queued ++ s.live.erase conn))
      exact ((List.perm_cons_erase hcond.1).append_left _).trans List.perm_middle
    · cases hs
  | closeCallback loop =>
    simp only [step] at hs
    split at hs
    · cases hs
    · cases hs
      exact .same (List.Sublist.refl _) (List.Perm.refl _) rfl

theorem openFds_eq : s.openFds = mainFds s.main ++ s.connections.map Connection.fd := by
  rw [connections, List.map_append]
  rfl

structure Opened (s : Server) : Prop where
  fds : s.openFds.Nodup
  ids : (s.connections.map Connection.id).Nodup
  created : ∀ conn ∈ s.connections, conn.id < s.created

theorem opened_init (ioThreads maxConnections : Nat) : (init ioThreads maxConnections).Opened where
  fds := by simp [openFds, init, mainFds]
  ids := by simp [connections, init]
  created := by simp [connections, init]

/-- Descriptors that are open after a step were open before, but for the one
that is accepted. -/
theorem openFds_moved {e : ServerEvent} {fd : Nat} (h : Moved s s' e) (hfd : fd ∈ s'.openFds) :
    fd ∈ s.openFds ∨ e = .accept fd := by
  simp only [openFds_eq, List.mem_append] at hfd ⊢
  cases h with
  | accepted connfd hevent _ hmain hsame _ =>
    rw [hmain, hsame, List.mem_singleton] at hfd
    rcases hfd with rfl | hfd
    · exact Or.inr hevent
    · exact Or.inl (Or.inr hfd)
  | same hmain hperm _ =>
    left
    exact hfd.imp (hmain.subset ·) ((hperm.map Connection.fd).mem_iff.mp ·)
  | created connfd hmain hmain' hperm _ =>
    left
    rw [hmain', (hperm.map Connection.fd).mem_iff, List.map_cons, List.mem_cons] at hfd
    rw [hmain, List.mem_singleton]
    rcases hfd with hfd | hfd | hfd
    · cases hfd
    · exact Or.inl hfd
    · exact Or.inr hfd
  | closed conn hmain hperm _ =>
    left
    rw [hmain] at hfd
    refine hfd.imp_right fun hin => ?_
    rw [(hperm.map Connection.fd).mem_iff]
    exact List.mem_cons_of_mem _ hin

theorem opened_moved {e : ServerEvent} (h : s.Opened) (hm : Moved s s' e) : s'.Opened := by
  have hfds := h.fds
  rw [openFds_eq] at hfds
  cases hm with
  | accepted connfd _ hfree hmain hsame hcreated =>
    refine ⟨?_, hsame ▸ h.ids, hsame ▸ hcreated ▸ h.created⟩
    rw [openFds_eq, hmain, hsame]
    rw [openFds_eq] at hfree
    apply List.nodup_cons.mpr
    exact ⟨fun hin => hfree (List.mem_append_right _ hin), (List.nodup_append.mp hfds).2.1⟩
  | same hmain hperm hcreated =>
    refine ⟨?_, (hperm.map Connection.id).nodup_iff.mpr h.ids, ?_⟩
    · rw [openFds_eq, ((hperm.map Connection.fd).append_left _).nodup_iff]
      exact hfds.sublist (hmain.append_right _)
    · intro conn hc
      rw [hcreated]
      exact h.created conn (hperm.mem_iff.mp hc)
  | created connfd hmain hmain' hperm hcreated =>
    rw [hmain] at hfds
    refine ⟨?_, ?_, ?_⟩
    · rw [openFds_eq, hmain', ((hperm.map Connection.fd).append_left _).nodup_iff]
      exact hfds
    · rw [(hperm.map Connection.id).nodup_iff, List.map_cons, List.nodup_cons]
      refine ⟨?_, h.ids⟩
      intro hin
      obtain ⟨conn, hc, heq⟩ := List.mem_map.mp hin
      have hlt := h.created conn hc
      simp only at heq
      omega
    · intro conn hc
      rw [hcreated]
      rcases List.mem_cons.mp (hperm.mem_iff.mp hc) with heq | hc
      · rw [heq]
        exact Nat.lt_succ_self _
      · exact Nat.lt_succ_of_lt (h.created conn hc)
  | closed conn hmain hperm hcreated =>
    refine ⟨?_, ?_, ?_⟩
    · rw [openFds_eq, hmain]
      rw [((hperm.map Connection.fd).append_left _).nodup_iff] at hfds
      exact hfds.sublist ((List.sublist_cons_self _ _).append_left _)
    · exact ((hperm.map Connection.id).nodup_iff.mp h.ids).of_cons
    · intro conn' hc
      rw [hcreated]
      exact h.created conn' (hperm.mem_iff.mpr (List.mem_cons_of_mem _ hc))

/-- What a step does to the open connections. -/
theorem step_live {e : ServerEvent} (hs : step s e = some s') :
    (∃ conn ∈ s.live, e = .closeSocket conn ∧ s'.live = s.live.erase conn) ∨
    (∃ conn, s.adds e = some conn ∧ s'.live = s.live ++ [conn]) ∨
    ((∀ conn, e ≠ .closeSocket conn) ∧ s.adds e = none ∧ s'.live = s.live) := by
  cases e with
  | accept connfd =>
    simp only [step] at hs
    split at hs <;> cases hs
    exact Or.inr (Or.inr ⟨fun _ => ServerEvent.noConfusion, rfl, rfl⟩)
  | check =>
    simp only [step] at hs
    split at hs
    · split at hs <;> cases hs <;> exact Or.inr (Or.inr ⟨fun _ => ServerEvent.noConfusion, rfl, rfl⟩)
    · cases hs
  | handOff =>
    simp only [step] at hs
    split at hs
    · rename_i connfd hm
      split at hs
      · rename_i hio
        cases hs
        exact Or.inr (Or.inl ⟨_, by simp [adds, hm, hio], rfl⟩)
      · rename_i hio
        cases hs
        exact Or.inr (Or.inr ⟨fun _ => ServerEvent.noConfusion, by simp [adds, hm, hio], rfl⟩)
    · cases hs
  | setUp loop =>
    simp only [step] at hs
    split at hs
    · cases hs
    · rename_i conn hf
      split at hs <;> cases hs
      exact Or.inr (Or.inl ⟨conn, hf, rfl⟩)
  | closeSocket conn =>
    simp only [step] at hs
    split at hs
    · rename_i hcond
      cases hs
      exact Or.inl ⟨conn, hcond.1, rfl, rfl⟩
    · cases hs
  | closeCallback loop =>
    simp only [step] at hs
    split at hs <;> cases hs
    exact Or.inr (Or.inr ⟨fun _ => ServerEvent.noConfusion, rfl, rfl⟩)

/-- A connection that is set up has a descriptor and a number of its own. -/
theorem adds_fresh (h : s.Opened) {e : ServerEvent} {conn : Connection} (ha : s.adds e = some conn) :
    conn.fd ∈ s.openFds ∧ ∀ c ∈ s.live, c.fd ≠ conn.fd ∧ c.id ≠ conn.id := by
  have hfds := h.fds
  rw [openFds_eq, connections, List.map_append] at hfds
  have hids := h.ids
  rw [connections, List.map_append] at hids
  cases e with
  | handOff =>
    simp only [adds] at ha
    split at ha
    · rename_i connfd hm
      split at ha
      · cases ha
        rw [hm] at hfds
        refine ⟨by simp [openFds, hm, mainFds], ?_⟩
        intro c hc
        constructor
        · intro heq
          apply (List.nodup_append.mp hfds).2.2 connfd (by simp [mainFds]) c.fd ?_ heq.symm
          exact List.mem_append_right _ (List.mem_map_of_mem hc)
        · exact Nat.ne_of_lt (h.created c (List.mem_append_right _ hc))
      · cases ha
    · cases ha
  | setUp loop =>
    have hin : conn ∈ s.queued := List.mem_of_find?_eq_some ha
    refine ⟨?_, ?_⟩
    · rw [openFds_eq]
      exact List.mem_append_right _ (List.mem_map_of_mem (List.mem_append_left _ hin))
    · intro c hc
      constructor
      · intro heq
        exact (List.nodup_append.mp (List.nodup_append.mp hfds).2.1).2.2 conn.fd (List.mem_map_of_mem hin) c.fd
          (List.mem_map_of_mem hc) heq.symm
      · intro heq
        exact (List.nodup_append.mp hids).2.2 conn.id (List.mem_map_of_mem hin) c.id (List.mem_map_of_mem hc) heq.symm
  | accept _ => cases ha
  | check => cases ha
  | closeSocket _ => cases ha
  | closeCallback _ => cases ha

end Server

/-! ## The loops of the server -/

/-- An event that `epoll_wait` reports. The loop is told the descriptor; the
channel is the one whose socket the event is of. -/
structure Report where
  channel : Nat
  fd : Nat
  revents : Mask
  deriving DecidableEq

/-- Where a loop is in its round: inside `epoll_wait`, with a batch of which
`rest` is still to come while the callbacks of one channel run, or with the
timers and the functors. -/
inductive RoundPhase where
  | waiting
  | dispatching (rest : List Report) (running : Option Nat)
  | tasks

structure RoundLoop where
  channelLoop : ChannelLoop
  phase : RoundPhase := .waiting
  reported : List Report := []
  dispatched : List (Report × Option Nat) := []

namespace RoundLoop

def rest (l : RoundLoop) : List Report :=
  match l.phase with
  | .dispatching rest _ => rest
  | _ => []

def running (l : RoundLoop) : Option Nat :=
  match l.phase with
  | .dispatching _ running => running
  | _ => none

def inTasks (l : RoundLoop) : Bool :=
  match l.phase with
  | .tasks => true
  | _ => false

/-- The kernel reports a descriptor that it was told of, once in a batch. -/
def Reports (l : RoundLoop) (reports : List Report) : Prop :=
  (∀ r ∈ reports, (r.channel, r.fd) ∈ l.channelLoop.objects ∧
    l.channelLoop.reactor.interest.contains r.fd = true) ∧ (reports.map Report.fd).Nodup

instance (l : RoundLoop) (reports : List Report) : Decidable (l.Reports reports) :=
  inferInstanceAs (Decidable (_ ∧ _))

end RoundLoop

inductive LoopsEvent where
  | epollReturn (loop : LoopId) (reports : List Report)
  | dispatch (loop : LoopId)
  | callbackDone (loop : LoopId)
  | dispatched (loop : LoopId)
  | roundDone (loop : LoopId)
  | write (conn : Connection) (enable : Bool)
  | server (e : ServerEvent)

/-- The server with its loops. `fixed` are the listening socket and the
eventfds, which stay open. -/
structure Loops where
  server : Server
  fixed : List Nat
  loops : LoopId → RoundLoop

namespace Loops

/-- The channel objects: the eventfd's, the acceptor's, those of connections. -/
def wakeupChannel : Nat := 0

def acceptorChannel : Nat := 1

def channelOf (conn : Connection) : Nat := conn.id + 2

def start (maxConnections listenFd baseFd : Nat) (ioFds : List Nat) : Loops where
  server := .init ioFds.length maxConnections
  fixed := listenFd :: baseFd :: ioFds
  loops
    | none => ⟨((ChannelLoop.start []).connect wakeupChannel baseFd).connect acceptorChannel listenFd, .waiting, [], []⟩
    | some i =>
      match ioFds[i]? with
      | none => ⟨.start [], .waiting, [], []⟩
      | some fd => ⟨(ChannelLoop.start []).connect wakeupChannel fd, .waiting, [], []⟩

def mayTouch (s : Loops) (conn : Connection) : Bool :=
  (s.loops conn.loop).inTasks || (s.loops conn.loop).running = some (channelOf conn)

/-- What runs where: `accept4` in the acceptor's callback, a set-up as a
functor of its loop, `handleClose` where a connection is touched. -/
def mayRun (s : Loops) : ServerEvent → Bool
  | .accept connfd => connfd ∉ s.fixed && (s.loops none).running = some acceptorChannel
  | .setUp loop => (s.loops (some loop)).inTasks
  | .closeSocket conn => s.mayTouch conn
  | _ => true

def setLoop (s : Loops) (loop : LoopId) (l : RoundLoop) : Loops :=
  { s with loops := Function.update s.loops loop l }

def setChannel (s : Loops) (conn : Connection) (f : ChannelLoop → ChannelLoop) : Loops :=
  s.setLoop conn.loop { s.loops conn.loop with channelLoop := f (s.loops conn.loop).channelLoop }

/-- What an event does to the channels: a connection that is set up starts to
read, one that is closed is removed from its loop. -/
def follow (s : Loops) (e : ServerEvent) : Loops :=
  match e with
  | .closeSocket conn => s.setChannel conn fun l => l.disconnect (channelOf conn)
  | _ =>
    match s.server.adds e with
    | none => s
    | some conn => s.setChannel conn fun l => l.connect (channelOf conn) conn.fd

def step (s : Loops) : LoopsEvent → Option Loops
  | .epollReturn loop reports =>
    let l := s.loops loop
    match l.phase with
    | .waiting =>
      if l.Reports reports then
        some (s.setLoop loop { l with phase := .dispatching reports none, reported := l.reported ++ reports })
      else none
    | _ => none
  | .dispatch loop =>
    let l := s.loops loop
    match l.phase with
    | .dispatching (r :: rest) none =>
      -- a descriptor that is not in the table any more is passed over
      let found := l.channelLoop.reactor.channels[r.fd]?
      some (s.setLoop loop { l with phase := .dispatching rest found, dispatched := l.dispatched ++ [(r, found)] })
    | _ => none
  | .callbackDone loop =>
    let l := s.loops loop
    match l.phase with
    | .dispatching rest (some _) =>
      if s.server.busy loop then none else some (s.setLoop loop { l with phase := .dispatching rest none })
    | _ => none
  | .dispatched loop =>
    let l := s.loops loop
    match l.phase with
    | .dispatching [] none => some (s.setLoop loop { l with phase := .tasks })
    | _ => none
  | .roundDone loop =>
    let l := s.loops loop
    match l.phase with
    | .tasks => if s.server.busy loop then none else some (s.setLoop loop { l with phase := .waiting })
    | _ => none
  | .write conn enable =>
    if conn ∈ s.server.live ∧ s.mayTouch conn = true then
      some (s.setChannel conn fun l => l.act (channelOf conn) (if enable then .enableWriting else .disableWriting))
    else none
  | .server e =>
    if s.mayRun e then
      match s.server.step e with
      | none => none
      | some server => some { s.follow e with server := server }
    else none

/-! ## Reports reach their channels -/

structure LoopOk (fixed : List Nat) (live : List Connection) (loop : LoopId) (l : RoundLoop) : Prop where
  tended : l.channelLoop.Tended
  objects : ∀ o ∈ l.channelLoop.objects, (o.1 < 2 ∧ o.2 ∈ fixed) ∨
    ∃ conn ∈ live, conn.loop = loop ∧ o = (channelOf conn, conn.fd)
  live : ∀ conn ∈ live, conn.loop = loop → (channelOf conn, conn.fd) ∈ l.channelLoop.objects
  rest : ∀ r ∈ l.rest, (r.channel, r.fd) ∈ l.channelLoop.objects
  restFds : (l.rest.map Report.fd).Nodup
  running : ∀ self, l.running = some self → ∀ r ∈ l.rest, r.channel ≠ self
  reached : ∀ n ∈ l.dispatched, n.2 = some n.1.channel
  order : l.reported = l.dispatched.map Prod.fst ++ l.rest

structure Inv (s : Loops) : Prop where
  opened : s.server.Opened
  fixed : ∀ fd ∈ s.server.openFds, fd ∉ s.fixed
  loops : ∀ loop, LoopOk s.fixed s.server.live loop (s.loops loop)

theorem inv_setLoop {s : Loops} {loop : LoopId} {l : RoundLoop} (h : s.Inv)
    (hl : LoopOk s.fixed s.server.live loop l) : (s.setLoop loop l).Inv := by
  refine ⟨h.opened, h.fixed, ?_⟩
  intro n
  by_cases hn : n = loop
  · subst hn
    simp only [setLoop, Function.update_self]
    exact hl
  · simp only [setLoop, Function.update_of_ne hn]
    exact h.loops n

section
variable {fixed : List Nat} {live : List Connection} {loop : LoopId} {l : RoundLoop}

theorem loopOk_epollReturn {reports : List Report} (h : LoopOk fixed live loop l) (hphase : l.phase = .waiting)
    (hr : l.Reports reports) :
    LoopOk fixed live loop { l with phase := .dispatching reports none, reported := l.reported ++ reports } where
  tended := h.tended
  objects := h.objects
  live := h.live
  rest r hr' := (hr.1 r hr').1
  restFds := hr.2
  running _ hself := by cases hself
  reached := h.reached
  order := by
    have hrest : l.rest = [] := by rw [RoundLoop.rest, hphase]
    have horder := h.order
    rw [hrest, List.append_nil] at horder
    exact congrArg (· ++ reports) horder

/-- **The next report** finds its channel, and the ones behind it are for
other channels. -/
theorem loopOk_dispatch {r : Report} {rest : List Report} (h : LoopOk fixed live loop l)
    (hphase : l.phase = .dispatching (r :: rest) none) :
    LoopOk fixed live loop { l with
      phase := .dispatching rest l.channelLoop.reactor.channels[r.fd]?
      dispatched := l.dispatched ++ [(r, l.channelLoop.reactor.channels[r.fd]?)] } := by
  have hrest : l.rest = r :: rest := by rw [RoundLoop.rest, hphase]
  have hobjects := h.rest
  have hnodup := h.restFds
  have horder := h.order
  rw [hrest] at hobjects hnodup horder
  rw [List.map_cons, List.nodup_cons] at hnodup
  have hown := hobjects r (List.mem_cons_self ..)
  have hfound := h.tended.table.mpr hown
  refine ⟨h.tended, h.objects, h.live, ?_, hnodup.2, ?_, ?_, ?_⟩
  · intro r' hr'
    exact hobjects r' (List.mem_cons_of_mem _ hr')
  · intro self hself r' hr' heq
    -- one channel has one descriptor
    simp only [RoundLoop.running, hfound] at hself
    cases hself
    have hother := hobjects r' (List.mem_cons_of_mem _ hr')
    rw [heq] at hother
    have hfd := h.tended.fd_eq hown hother
    exact hnodup.1 (hfd ▸ List.mem_map_of_mem hr')
  · intro n hn
    rcases List.mem_append.mp hn with hn | hn
    · exact h.reached n hn
    · rw [List.mem_singleton.mp hn]
      exact hfound
  · show l.reported = (l.dispatched ++ [_]).map Prod.fst ++ rest
    rw [List.map_append, List.append_assoc]
    exact horder

/-- The rest of the batch stays when its loop goes on. -/
theorem loopOk_phase {phase : RoundPhase} (h : LoopOk fixed live loop l)
    (hrest : ({ l with phase := phase } : RoundLoop).rest = l.rest)
    (hrunning : ({ l with phase := phase } : RoundLoop).running = none) :
    LoopOk fixed live loop { l with phase := phase } where
  tended := h.tended
  objects := h.objects
  live := h.live
  rest r hr := h.rest r (hrest ▸ hr)
  restFds := hrest ▸ h.restFds
  running self hself := by
    rw [hrunning] at hself
    cases hself
  reached := h.reached
  order := h.order.trans (by rw [hrest])

theorem loopOk_channels {live' : List Connection} {c : ChannelLoop} (h : LoopOk fixed live loop l) (htended : c.Tended)
    (hobjects : ∀ o ∈ c.objects, (o.1 < 2 ∧ o.2 ∈ fixed) ∨
      ∃ conn ∈ live', conn.loop = loop ∧ o = (channelOf conn, conn.fd))
    (hlive : ∀ conn ∈ live', conn.loop = loop → (channelOf conn, conn.fd) ∈ c.objects)
    (hrest : ∀ r ∈ l.rest, (r.channel, r.fd) ∈ c.objects) :
    LoopOk fixed live' loop { l with channelLoop := c } :=
  ⟨htended, hobjects, hlive, hrest, h.restFds, h.running, h.reached, h.order⟩

theorem loopOk_other {live' : List Connection} (h : LoopOk fixed live loop l)
    (hlive : ∀ conn, conn.loop = loop → (conn ∈ live' ↔ conn ∈ live)) : LoopOk fixed live' loop l :=
  loopOk_channels h h.tended
    (fun o ho => (h.objects o ho).imp_right fun ⟨conn, hc, hl, heq⟩ => ⟨conn, (hlive conn hl).mpr hc, hl, heq⟩)
    (fun conn hc hl => h.live conn ((hlive conn hl).mp hc) hl) h.rest

theorem loopOk_connect {conn : Connection} (h : LoopOk fixed live conn.loop l) (hfixed : conn.fd ∉ fixed)
    (hfresh : ∀ c ∈ live, c.fd ≠ conn.fd ∧ c.id ≠ conn.id) :
    LoopOk fixed (live ++ [conn]) conn.loop
      { l with channelLoop := l.channelLoop.connect (channelOf conn) conn.fd } := by
  have hself : channelOf conn ∉ l.channelLoop.objects.map Prod.fst := by
    intro hin
    obtain ⟨o, ho, heq⟩ := List.mem_map.mp hin
    rcases h.objects o ho with hlow | ⟨c, hc, -, rfl⟩
    · have := hlow.1
      simp only [channelOf] at heq
      omega
    · simp only [channelOf] at heq
      exact (hfresh c hc).2 (by omega)
  have hfd : conn.fd ∉ l.channelLoop.objects.map Prod.snd := by
    intro hin
    obtain ⟨o, ho, heq⟩ := List.mem_map.mp hin
    rcases h.objects o ho with hlow | ⟨c, hc, -, rfl⟩
    · exact hfixed (heq ▸ hlow.2)
    · exact (hfresh c hc).1 heq
  obtain ⟨htended, hobjects⟩ := ChannelLoop.tended_connect h.tended hself hfd
  apply loopOk_channels h htended
  · intro o ho
    rw [hobjects] at ho
    rcases List.mem_append.mp ho with ho | ho
    · refine (h.objects o ho).imp_right fun ⟨c, hc, hrest⟩ => ?_
      exact ⟨c, List.mem_append_left _ hc, hrest⟩
    · exact Or.inr ⟨conn, by simp, rfl, List.mem_singleton.mp ho⟩
  · intro c hc hl
    rw [hobjects]
    rcases List.mem_append.mp hc with hc | hc
    · exact List.mem_append_left _ (h.live c hc hl)
    · rw [List.mem_singleton.mp hc]
      exact List.mem_append_right _ (List.mem_singleton_self _)
  · intro r hr
    rw [hobjects]
    exact List.mem_append_left _ (h.rest r hr)

theorem loopOk_disconnect {conn : Connection} (h : LoopOk fixed live conn.loop l)
    (hids : (live.map Connection.id).Nodup) (hconn : conn ∈ live)
    (htouch : l.inTasks = true ∨ l.running = some (channelOf conn)) :
    LoopOk fixed (live.erase conn) conn.loop
      { l with channelLoop := l.channelLoop.disconnect (channelOf conn) } := by
  have hlive : ∀ c, c ∈ live.erase conn ↔ c ≠ conn ∧ c ∈ live := by
    intro c
    exact (hids.of_map _).mem_erase_iff
  have hsame : ∀ c ∈ live, channelOf c = channelOf conn → c = conn := by
    intro c hc heq
    apply List.inj_on_of_nodup_map hids hc hconn
    simp only [channelOf] at heq
    omega
  obtain ⟨htended, hobjects⟩ := @ChannelLoop.tended_disconnect _ (channelOf conn) h.tended
  have hkept : ∀ {o : Nat × Nat}, o ∈ l.channelLoop.objects → o.1 ≠ channelOf conn →
      o ∈ (l.channelLoop.disconnect (channelOf conn)).objects := by
    intro o ho hne
    rw [hobjects]
    exact List.mem_filter.mpr ⟨ho, by simpa using hne⟩
  apply loopOk_channels h htended
  · intro o ho
    rw [hobjects] at ho
    obtain ⟨ho, hne⟩ := List.mem_filter.mp ho
    refine (h.objects o ho).imp_right fun ⟨c, hc, hl, heq⟩ => ⟨c, (hlive c).mpr ⟨?_, hc⟩, hl, heq⟩
    rintro rfl
    rw [heq] at hne
    simp at hne
  · intro c hc hl
    obtain ⟨hne, hc⟩ := (hlive c).mp hc
    exact hkept (h.live c hc hl) fun heq => hne (hsame c hc heq)
  · -- a callback closes its own connection only, and the batch ahead is for others
    intro r hr
    apply hkept (h.rest r hr)
    rcases htouch with htasks | hrunning
    · have hnone : l.rest = [] := by
        unfold RoundLoop.inTasks at htasks
        unfold RoundLoop.rest
        split at htasks
        · rename_i hphase
          rw [hphase]
        · cases htasks
      rw [hnone] at hr
      cases hr
    · exact h.running _ hrunning r hr

end

variable {s s' : Loops}

theorem inv_setChannel {server : Server} {conn : Connection} {f : ChannelLoop → ChannelLoop} (h : s.Inv)
    (hopened : server.Opened) (hfixed : ∀ fd ∈ server.openFds, fd ∉ s.fixed)
    (hown : LoopOk s.fixed server.live conn.loop
      { s.loops conn.loop with channelLoop := f (s.loops conn.loop).channelLoop })
    (hother : ∀ c, c.loop ≠ conn.loop → (c ∈ server.live ↔ c ∈ s.server.live)) :
    ({ s.setChannel conn f with server := server } : Loops).Inv := by
  refine ⟨hopened, hfixed, ?_⟩
  intro n
  by_cases hn : n = conn.loop
  · subst hn
    simp only [setChannel, setLoop, Function.update_self]
    exact hown
  · simp only [setChannel, setLoop, Function.update_of_ne hn]
    exact loopOk_other (h.loops n) fun c hc => hother c (hc ▸ hn)

theorem inv_server {e : ServerEvent} (h : s.Inv) (hs : step s (.server e) = some s') : s'.Inv := by
  simp only [step] at hs
  split at hs
  · rename_i hrun
    split at hs
    · cases hs
    · rename_i server hserver
      cases hs
      have hmoved := Server.step_moved hserver
      have hopened := Server.opened_moved h.opened hmoved
      have hfixed : ∀ fd ∈ server.openFds, fd ∉ s.fixed := by
        intro fd hfd
        rcases Server.openFds_moved hmoved hfd with hfd | rfl
        · exact h.fixed fd hfd
        · simp only [mayRun, Bool.and_eq_true, decide_eq_true_eq] at hrun
          exact hrun.1
      have hids : (s.server.live.map Connection.id).Nodup := by
        have hall := h.opened.ids
        rw [Server.connections, List.map_append] at hall
        exact (List.nodup_append.mp hall).2.1
      rcases Server.step_live hserver with ⟨conn, hconn, rfl, hlive⟩ | ⟨conn, hadds, hlive⟩ | ⟨hclose, hadds, hlive⟩
      · have htouch : (s.loops conn.loop).inTasks = true ∨ (s.loops conn.loop).running = some (channelOf conn) := by
          simpa [mayRun, mayTouch] using hrun
        apply inv_setChannel h hopened hfixed
        · rw [hlive]
          exact loopOk_disconnect (h.loops conn.loop) hids hconn htouch
        · intro c hc
          rw [hlive, (hids.of_map _).mem_erase_iff]
          exact ⟨fun hin => hin.2, fun hin => ⟨fun heq => hc (heq ▸ rfl), hin⟩⟩
      · obtain ⟨hopen, hfresh⟩ := Server.adds_fresh h.opened hadds
        have hfollow : s.follow e = s.setChannel conn fun l => l.connect (channelOf conn) conn.fd := by
          unfold follow
          split
          · cases hadds
          · rw [hadds]
        rw [hfollow]
        apply inv_setChannel h hopened hfixed
        · rw [hlive]
          exact loopOk_connect (h.loops conn.loop) (h.fixed _ hopen) hfresh
        · intro c hc
          rw [hlive, List.mem_append, List.mem_singleton]
          exact ⟨fun hin => hin.resolve_right fun heq => hc (heq ▸ rfl), Or.inl⟩
      · have hfollow : s.follow e = s := by
          unfold follow
          split
          · rename_i conn
            exact absurd rfl (hclose conn)
          · rw [hadds]
        rw [hfollow]
        refine ⟨hopened, hfixed, ?_⟩
        intro n
        rw [hlive]
        exact h.loops n
  · cases hs

theorem inv_step {e : LoopsEvent} (h : s.Inv) (hs : step s e = some s') : s'.Inv := by
  cases e with
  | epollReturn loop reports =>
    simp only [step] at hs
    split at hs
    · rename_i hphase
      split at hs
      · rename_i hr
        cases hs
        exact inv_setLoop h (loopOk_epollReturn (h.loops loop) hphase hr)
      · cases hs
    · cases hs
  | dispatch loop =>
    simp only [step] at hs
    split at hs
    · rename_i r rest hphase
      cases hs
      exact inv_setLoop h (loopOk_dispatch (h.loops loop) hphase)
    · cases hs
  | callbackDone loop =>
    simp only [step] at hs
    split at hs
    · rename_i rest self hphase
      split at hs
      · cases hs
      · cases hs
        apply inv_setLoop h (loopOk_phase (h.loops loop) ?_ rfl)
        simp only [RoundLoop.rest, hphase]
    · cases hs
  | dispatched loop =>
    simp only [step] at hs
    split at hs
    · rename_i hphase
      cases hs
      apply inv_setLoop h (loopOk_phase (h.loops loop) ?_ rfl)
      simp only [RoundLoop.rest, hphase]
    · cases hs
  | roundDone loop =>
    simp only [step] at hs
    split at hs
    · rename_i hphase
      split at hs
      · cases hs
      · cases hs
        apply inv_setLoop h (loopOk_phase (h.loops loop) ?_ rfl)
        simp only [RoundLoop.rest, hphase]
    · cases hs
  | write conn enable =>
    simp only [step] at hs
    split at hs
    · cases hs
      have hl := h.loops conn.loop
      have hop : (if enable then ChannelOp.enableWriting else .disableWriting) = .enableReading ∨
          (if enable then ChannelOp.enableWriting else .disableWriting) = .enableWriting ∨
          (if enable then ChannelOp.enableWriting else .disableWriting) = .disableWriting := by
        cases enable <;> simp
      have htended := @ChannelLoop.tended_act _ (channelOf conn) hl.tended _ hop
      have hobjects := @ChannelLoop.objects_act _ (channelOf conn) hl.tended.inv hl.tended.selfs
        (if enable then .enableWriting else .disableWriting)
      apply inv_setLoop h
      apply loopOk_channels hl htended <;> rw [hobjects]
      · exact hl.objects
      · exact hl.live
      · exact hl.rest
    · cases hs
  | server e => exact inv_server h hs

theorem tended_start : (ChannelLoop.start []).Tended := by
  refine ⟨ChannelLoop.inv_start List.nodup_nil, List.nodup_nil, ?_⟩
  intro c hc
  cases hc

theorem loopOk_start {fixed : List Nat} {loop : LoopId} {c : ChannelLoop} (h : c.Tended)
    (hobjects : ∀ o ∈ c.objects, o.1 < 2 ∧ o.2 ∈ fixed) : LoopOk fixed [] loop ⟨c, .waiting, [], []⟩ := by
  refine ⟨h, fun o ho => Or.inl (hobjects o ho), ?_, ?_, List.nodup_nil, ?_, ?_, rfl⟩
  · intro conn hc
    cases hc
  · intro r hr
    cases hr
  · intro self hself
    cases hself
  · intro n hn
    cases hn

theorem tended_wakeup (fd : Nat) : ((ChannelLoop.start []).connect wakeupChannel fd).Tended ∧
    ((ChannelLoop.start []).connect wakeupChannel fd).objects = [(wakeupChannel, fd)] :=
  ChannelLoop.tended_connect tended_start List.not_mem_nil List.not_mem_nil

theorem inv_start {maxConnections listenFd baseFd : Nat} {ioFds : List Nat} (h : listenFd ≠ baseFd) :
    (start maxConnections listenFd baseFd ioFds).Inv := by
  refine ⟨Server.opened_init _ _, ?_, ?_⟩
  · intro fd hfd
    simp [start, Server.openFds, Server.init, Server.mainFds] at hfd
  · intro loop
    cases loop with
    | none =>
      obtain ⟨htended, hobjects⟩ := tended_wakeup baseFd
      obtain ⟨htended', hobjects'⟩ := @ChannelLoop.tended_connect _ acceptorChannel listenFd htended
        (by rw [hobjects]; simp [wakeupChannel, acceptorChannel]) (by rw [hobjects]; simpa using h)
      apply loopOk_start htended'
      rw [hobjects', hobjects]
      simp [start, wakeupChannel, acceptorChannel]
    | some i =>
      simp only [start]
      cases hfd : ioFds[i]? with
      | none =>
        apply loopOk_start tended_start
        intro o ho
        cases ho
      | some fd =>
        obtain ⟨htended, hobjects⟩ := tended_wakeup fd
        apply loopOk_start htended
        rw [hobjects]
        simp [wakeupChannel, List.mem_of_getElem? hfd]

structure Dispatched (s : Loops) (loop : LoopId) : Prop where
  /-- A report goes to the channel whose socket it is of, and none is passed over. -/
  reached : ∀ n ∈ (s.loops loop).dispatched, n.2 = some n.1.channel
  /-- Each report is taken once, in the order of the kernel. -/
  order : (s.loops loop).reported = (s.loops loop).dispatched.map Prod.fst ++ (s.loops loop).rest
  /-- The table has the open connections of the loop, and nothing that is gone. -/
  table : ∀ fd self, (s.loops loop).channelLoop.reactor.channels[fd]? = some self → fd ∉ s.fixed →
    ∃ conn ∈ s.server.live, conn.loop = loop ∧ conn.fd = fd ∧ self = channelOf conn
  live : ∀ conn ∈ s.server.live, conn.loop = loop →
    (s.loops loop).channelLoop.reactor.channels[conn.fd]? = some (channelOf conn)
  /-- Every call of `epoll_ctl` fits what the kernel has. -/
  calls : EpollCtl.AllFit ∅ (s.loops loop).channelLoop.reactor.calls

/-- **Every event reaches its own connection**, however descriptors are given
out again while the loops dispatch. -/
theorem events_reach {maxConnections listenFd baseFd : Nat} {ioFds : List Nat} (hfds : listenFd ≠ baseFd)
    (h : Reached step Any (start maxConnections listenFd baseFd ioFds) s) (loop : LoopId) : s.Dispatched loop := by
  have hinv : s.Inv := h.invariant (inv_start hfds) fun _ _ _ hi _ hs => inv_step hi hs
  have hok := hinv.loops loop
  refine ⟨hok.reached, hok.order, ?_, ?_, hok.tended.inv.fit⟩
  · intro fd self hfound hfd
    rcases hok.objects _ (hok.tended.table.mp hfound) with hlow | ⟨conn, hc, hl, heq⟩
    · exact absurd hlow.2 hfd
    · cases heq
      exact ⟨conn, hc, hl, rfl, rfl⟩
  · intro conn hc hl
    exact hok.tended.table.mpr (hok.live conn hc hl)

/-- Connection 0 is closed in the middle of a batch, and connection 1 is
accepted with its descriptor before the batch is over. -/
theorem events_reach_reused : ∃ s, Reached step Any (start 0 3 4 []) s ∧
    (s.loops none).dispatched =
      [(⟨1, 3, EPOLLIN⟩, some 1), (⟨2, 7, EPOLLIN⟩, some 2), (⟨1, 3, EPOLLIN⟩, some 1), (⟨3, 7, EPOLLIN⟩, some 3)] ∧
    s.Dispatched none := by
  have hrun : run step (start 0 3 4 [])
      [.epollReturn none [⟨1, 3, EPOLLIN⟩], .dispatch none, .server (.accept 7), .server .check, .server .handOff,
        .callbackDone none, .dispatched none, .roundDone none,
        .epollReturn none [⟨2, 7, EPOLLIN⟩, ⟨1, 3, EPOLLIN⟩],
        .dispatch none, .server (.closeSocket ⟨0, 7, none⟩), .server (.closeCallback none), .callbackDone none,
        .dispatch none, .server (.accept 7), .server .check, .server .handOff, .callbackDone none,
        .dispatched none, .roundDone none,
        .epollReturn none [⟨3, 7, EPOLLIN⟩], .dispatch none] = some _ := rfl
  have h := Reached.of_run_any hrun
  exact ⟨_, h, rfl, events_reach (by decide) h none⟩

end Loops

end Myself
