import MyselfServer.ChannelTable

/-!
# Channels that come and go

The channels of a loop are not the same ones all the time: connections are
set up and closed, and a descriptor can come back with another channel. At
any time the table has the channels that are alive, by descriptor.
-/

namespace Myself

open Machine

namespace ChannelLoop

variable {s : ChannelLoop} {self fd : Nat}

def construct (s : ChannelLoop) (self fd : Nat) : ChannelLoop :=
  { s with channels := s.channels ++ [{ self := self, fd := fd }] }

def act (s : ChannelLoop) (self : Nat) (op : ChannelOp) : ChannelLoop :=
  match s.channels.findIdx? fun c => c.self = self with
  | none => s
  | some i => (s.step (i, op)).getD s

def refresh (s : ChannelLoop) (self : Nat) : ChannelLoop :=
  match s.channels.find? fun c => c.self = self with
  | none => s
  | some c => { s with reactor := s.reactor.updateChannel c }

def forget (s : ChannelLoop) (self : Nat) : ChannelLoop :=
  { s with channels := s.channels.filter fun c => c.self ≠ self }

/-- `TcpConnection::start` on a new channel. -/
def connect (s : ChannelLoop) (self fd : Nat) : ChannelLoop :=
  ((s.construct self fd).act self .enableReading).refresh self

/-- What `TcpConnection::handleClose` does with its channel and its socket. -/
def disconnect (s : ChannelLoop) (self : Nat) : ChannelLoop :=
  ((s.act self .disableAll).act self .remove).forget self

theorem perform_self (op : ChannelOp) (c : Channel) (r : Reactor) : (op.perform c r).1.self = c.self := by
  cases op with
  | remove =>
    simp only [ChannelOp.perform, Channel.remove]
    split <;> rfl
  | _ => rfl

theorem inv_construct (h : s.Inv) (hfd : ∀ c ∈ s.channels, c.fd ≠ fd) : (s.construct self fd).Inv := by
  have hsplit : ∀ {P : Channel → Prop}, (∀ c ∈ (s.construct self fd).channels, P c) →
      (∀ c ∈ s.channels, P c) ∧ P { self := self, fd := fd } := by
    intro P hall
    exact ⟨fun c hc => hall c (List.mem_append_left _ hc), hall _ (by simp [construct])⟩
  refine ⟨?_, ?_, ?_, ?_, h.count, h.fit, h.applied⟩
  · rw [construct, List.map_append, List.map_singleton]
    apply List.Nodup.append h.fds (List.nodup_singleton _)
    rw [List.disjoint_singleton]
    intro hin
    obtain ⟨c, hc, heq⟩ := List.mem_map.mp hin
    exact hfd c hc heq
  · intro c hc
    rcases List.mem_append.mp hc with hc | hc
    · exact h.known c hc
    · rw [List.mem_singleton.mp hc]
      exact ⟨h.channels fd hfd, h.interest fd hfd⟩
  · intro n hall
    exact h.channels n (hsplit hall).1
  · intro n hall
    exact h.interest n (hsplit hall).1

theorem inv_act (h : s.Inv) (op : ChannelOp) : (s.act self op).Inv := by
  unfold act
  split
  · exact h
  · rename_i i hi
    cases hs : s.step (i, op) with
    | none => exact h
    | some s' => exact inv_step h hs

theorem inv_refresh (h : s.Inv) (hactive : ∀ c ∈ s.channels, c.self = self → c.removed = false) :
    (s.refresh self).Inv := by
  unfold refresh
  split
  · exact h
  · rename_i c hc
    have hmem := List.mem_of_find?_eq_some hc
    have hself : c.self = self := by simpa using List.find?_some hc
    have hrep := replaces_updateChannel (h.known c hmem) h.count rfl rfl (hactive c hmem hself)
    have hcalls := fit_more h.fit h.applied hrep
    refine ⟨h.fds, ?_, ?_, ?_, hrep.count, hcalls.1, hcalls.2⟩
    · intro d hd
      by_cases hfd : c.fd = d.fd
      · have hsame : c = d := List.inj_on_of_nodup_map h.fds hmem hd hfd
        rw [← hsame]
        exact hrep.known
      · refine ⟨?_, ?_⟩
        · rw [hrep.channels d.fd hfd]
          exact (h.known d hd).table
        · rw [hrep.interest d.fd hfd]
          exact (h.known d hd).interest
    · intro n hall
      rw [hrep.channels n (hall c hmem)]
      exact h.channels n hall
    · intro n hall
      rw [hrep.interest n (hall c hmem)]
      exact h.interest n hall

theorem inv_forget (h : s.Inv) (hgone : ∀ c ∈ s.channels, c.self = self → c.listed = false) :
    (s.forget self).Inv := by
  have hheld : ∀ {α : Type} {held : Option α} {get : Channel → α} {n : Nat},
      (∀ c ∈ (s.forget self).channels, c.fd ≠ n) → ((∀ c ∈ s.channels, c.fd ≠ n) → held = none) →
      (∀ c ∈ s.channels, c.fd = n → held = if c.listed then some (get c) else none) → held = none := by
    intro α held get n hall hother hknown
    by_cases hsome : ∃ c ∈ s.channels, c.fd = n
    · obtain ⟨c, hc, heq⟩ := hsome
      have hself : c.self = self := by
        by_contra hne
        exact hall c (List.mem_filter.mpr ⟨hc, by simpa using hne⟩) heq
      rw [hknown c hc heq, hgone c hc hself]
      rfl
    · apply hother
      intro c hc heq
      exact hsome ⟨c, hc, heq⟩
  refine ⟨?_, ?_, ?_, ?_, h.count, h.fit, h.applied⟩
  · exact h.fds.sublist (List.filter_sublist.map _)
  · intro c hc
    exact h.known c (List.mem_of_mem_filter hc)
  · intro n hall
    exact hheld hall (h.channels n) fun c hc heq => heq ▸ (h.known c hc).table
  · intro n hall
    exact hheld hall (h.interest n) fun c hc heq => heq ▸ (h.known c hc).interest

theorem act_channels (h : (s.channels.map Channel.self).Nodup) (op : ChannelOp) :
    (s.act self op).channels =
      s.channels.map fun c => if c.self = self then (op.perform c s.reactor).1 else c := by
  unfold act
  split
  · rename_i hnone
    rw [List.findIdx?_eq_none_iff] at hnone
    have hsame : s.channels.map (fun c => if c.self = self then (op.perform c s.reactor).1 else c) =
        s.channels.map id := by
      apply List.map_congr_left
      intro c hc
      exact if_neg (by simpa using hnone c hc)
    rw [hsame, List.map_id]
  · rename_i i hi
    obtain ⟨hlt, hself, -⟩ := List.findIdx?_eq_some_iff_getElem.mp hi
    have hself : s.channels[i].self = self := by simpa using hself
    have hget : s.channels[i]? = some s.channels[i] := List.getElem?_eq_getElem hlt
    simp only [step, hget, Option.getD_some]
    apply List.ext_getElem?
    intro j
    rw [List.getElem?_set, List.getElem?_map]
    by_cases hij : i = j
    · subst hij
      simp [hlt, hself]
    · rw [if_neg hij]
      by_cases hj : j < s.channels.length
      · have hne : s.channels[j].self ≠ self := by
          intro heq
          apply hij
          have hlen : i < (s.channels.map Channel.self).length := by simpa using hlt
          apply (List.getElem?_inj hlen h).mp
          simp [hlt, hj, hself, heq]
        simp [hj, hne]
      · simp [hj]

/-! ## Channels that are all read -/

def objects (s : ChannelLoop) : List (Nat × Nat) := s.channels.map fun c => (c.self, c.fd)

structure Tended (s : ChannelLoop) : Prop where
  inv : s.Inv
  selfs : (s.channels.map Channel.self).Nodup
  reading : ∀ c ∈ s.channels, c.events.getLsbD 0 = true ∧ c.removed = false

theorem listed_reading {c : Channel} (h : c.events.getLsbD 0 = true ∧ c.removed = false) : c.listed = true := by
  apply listed_iff.mpr
  refine ⟨?_, h.2⟩
  intro hzero
  have hbit := h.1
  rw [hzero] at hbit
  simp at hbit

theorem Tended.table (h : s.Tended) : s.reactor.channels[fd]? = some self ↔ (self, fd) ∈ s.objects := by
  rw [h.inv.agrees.table]
  constructor
  · intro hin
    obtain ⟨c, hc, rfl, rfl, -⟩ := hin
    exact List.mem_map.mpr ⟨c, hc, rfl⟩
  · intro hin
    obtain ⟨c, hc, heq⟩ := List.mem_map.mp hin
    cases heq
    exact ⟨c, hc, rfl, rfl, listed_iff.mp (listed_reading (h.reading c hc))⟩

theorem objects_act (hinv : s.Inv) (hselfs : (s.channels.map Channel.self).Nodup) (op : ChannelOp) :
    (s.act self op).objects = s.objects := by
  unfold objects
  rw [act_channels hselfs, List.map_map]
  apply List.map_congr_left
  intro c hc
  by_cases hself : c.self = self
  · have hfd := (replaces_perform (hinv.known c hc) hinv.count op).fd
    simp only [Function.comp_apply, if_pos hself, perform_self, hfd]
  · simp only [Function.comp_apply, if_neg hself]

theorem selfs_objects : s.channels.map Channel.self = s.objects.map Prod.fst := by
  rw [objects, List.map_map]
  rfl

theorem selfs_act (hinv : s.Inv) (hselfs : (s.channels.map Channel.self).Nodup) (op : ChannelOp) :
    ((s.act self op).channels.map Channel.self).Nodup := by
  rw [selfs_objects, objects_act hinv hselfs, ← selfs_objects]
  exact hselfs

/-- What an operation makes of the channels. -/
theorem mem_act (hselfs : (s.channels.map Channel.self).Nodup) {op : ChannelOp} {c' : Channel}
    (hc : c' ∈ (s.act self op).channels) : ∃ c ∈ s.channels, c'.self = c.self ∧
      (c.self ≠ self → c' = c) ∧ (c.self = self → c' = (op.perform c s.reactor).1) := by
  rw [act_channels hselfs] at hc
  obtain ⟨c, hmem, rfl⟩ := List.mem_map.mp hc
  by_cases hself : c.self = self
  · rw [if_pos hself]
    exact ⟨c, hmem, perform_self op c s.reactor, fun hne => absurd hself hne, fun _ => rfl⟩
  · rw [if_neg hself]
    exact ⟨c, hmem, rfl, fun _ => rfl, fun heq => absurd heq hself⟩

theorem reading_write {c : Channel} (h : c.events.getLsbD 0 = true ∧ c.removed = false) (r : Reactor) {op : ChannelOp}
    (hop : op = .enableReading ∨ op = .enableWriting ∨ op = .disableWriting) :
    (op.perform c r).1.events.getLsbD 0 = true ∧ (op.perform c r).1.removed = false := by
  rcases hop with rfl | rfl | rfl
  · refine ⟨?_, h.2⟩
    show (c.events ||| Channel.kReadEvent).getLsbD 0 = true
    simp [h.1]
  · refine ⟨?_, h.2⟩
    show (c.events ||| Channel.kWriteEvent).getLsbD 0 = true
    simp [h.1]
  · refine ⟨?_, h.2⟩
    show (c.events &&& ~~~Channel.kWriteEvent).getLsbD 0 = true
    simp [h.1, Channel.kWriteEvent, EPOLLOUT, EPOLLET]

theorem tended_act (h : s.Tended) {op : ChannelOp}
    (hop : op = .enableReading ∨ op = .enableWriting ∨ op = .disableWriting) : (s.act self op).Tended := by
  refine ⟨inv_act h.inv op, selfs_act h.inv h.selfs op, ?_⟩
  intro c' hc'
  obtain ⟨c, hc, -, hother, hown⟩ := mem_act h.selfs hc'
  by_cases hself : c.self = self
  · rw [hown hself]
    exact reading_write (h.reading c hc) s.reactor hop
  · rw [hother hself]
    exact h.reading c hc

theorem Tended.fd_eq {fd' : Nat} (h : s.Tended) (hfd : (self, fd) ∈ s.objects) (hfd' : (self, fd') ∈ s.objects) :
    fd = fd' := by
  have hselfs := h.selfs
  rw [selfs_objects] at hselfs
  exact congrArg Prod.snd (List.inj_on_of_nodup_map hselfs hfd hfd' rfl)

/-! ## A connection is set up -/

theorem objects_construct : (s.construct self fd).objects = s.objects ++ [(self, fd)] := by
  simp [construct, objects]

theorem channels_refresh : (s.refresh self).channels = s.channels := by
  unfold refresh
  split <;> rfl

theorem tended_connect (h : s.Tended) (hself : self ∉ s.objects.map Prod.fst) (hfd : fd ∉ s.objects.map Prod.snd) :
    (s.connect self fd).Tended ∧ (s.connect self fd).objects = s.objects ++ [(self, fd)] := by
  have hfds : ∀ c ∈ s.channels, c.fd ≠ fd := by
    intro c hc heq
    exact hfd (List.mem_map.mpr ⟨(c.self, c.fd), List.mem_map_of_mem hc, heq⟩)
  have hinv : (s.construct self fd).Inv := inv_construct h.inv hfds
  have hselfs : ((s.construct self fd).channels.map Channel.self).Nodup := by
    rw [selfs_objects, objects_construct, List.map_append]
    apply List.Nodup.append
    · rw [← selfs_objects]
      exact h.selfs
    · exact List.nodup_singleton _
    · exact List.disjoint_singleton.mpr hself
  have hreading : ∀ c ∈ ((s.construct self fd).act self .enableReading).channels,
      c.events.getLsbD 0 = true ∧ c.removed = false := by
    intro c' hc'
    obtain ⟨c, hc, -, hother, hown⟩ := mem_act hselfs hc'
    have hremoved : c.removed = false := by
      rcases List.mem_append.mp hc with hc | hc
      · exact (h.reading c hc).2
      · rw [List.mem_singleton.mp hc]
    by_cases heq : c.self = self
    · rw [hown heq]
      refine ⟨?_, hremoved⟩
      show (c.events ||| Channel.kReadEvent).getLsbD 0 = true
      simp [Channel.kReadEvent, EPOLLIN, EPOLLPRI, EPOLLET]
    · rw [hother heq]
      rcases List.mem_append.mp hc with hc | hc
      · exact h.reading c hc
      · rw [List.mem_singleton.mp hc] at heq
        exact absurd rfl heq
  refine ⟨⟨?_, ?_, ?_⟩, ?_⟩
  · exact inv_refresh (inv_act hinv _) fun c hc _ => (hreading c hc).2
  · rw [connect, channels_refresh]
    exact selfs_act hinv hselfs _
  · rw [connect, channels_refresh]
    exact hreading
  · rw [connect, objects, channels_refresh, ← objects, objects_act hinv hselfs, objects_construct]

/-! ## A connection is closed -/

theorem objects_forget : (s.forget self).objects = s.objects.filter fun o => o.1 ≠ self := by
  rw [objects, forget, objects, List.filter_map]
  rfl

theorem tended_disconnect (h : s.Tended) : (s.disconnect self).Tended ∧
    (s.disconnect self).objects = s.objects.filter fun o => o.1 ≠ self := by
  have hinv₁ := @inv_act _ self h.inv .disableAll
  have hselfs₁ := @selfs_act _ self h.inv h.selfs .disableAll
  have hinv₂ := @inv_act _ self hinv₁ .remove
  have hselfs₂ := @selfs_act _ self hinv₁ hselfs₁ .remove
  have hgone : ∀ c ∈ ((s.act self .disableAll).act self .remove).channels, c.self = self → c.listed = false := by
    intro c' hc' heq
    obtain ⟨c, -, hsame, -, hown⟩ := mem_act hselfs₁ hc'
    rw [hown (hsame ▸ heq)]
    simp only [ChannelOp.perform, Channel.remove]
    split <;> simp_all [Channel.listed]
  refine ⟨⟨inv_forget hinv₂ hgone, ?_, ?_⟩, ?_⟩
  · exact hselfs₂.sublist (List.filter_sublist.map _)
  · intro c'' hc''
    obtain ⟨hc'', hne⟩ := List.mem_filter.mp hc''
    have hne : c''.self ≠ self := by simpa using hne
    obtain ⟨c', hc', hsame', hother', -⟩ := mem_act hselfs₁ hc''
    obtain ⟨c, hc, hsame, hother, -⟩ := mem_act h.selfs hc'
    rw [hother' (hsame' ▸ hne), hother (hsame ▸ hsame' ▸ hne)]
    exact h.reading c hc
  · rw [disconnect, objects_forget, objects_act hinv₁ hselfs₁, objects_act h.inv h.selfs]

end ChannelLoop

end Myself
