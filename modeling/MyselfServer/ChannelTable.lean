import MyselfServer.Channel
import MyselfServer.Machine

/-!
# The channels of a loop

Three places know the channels of a loop: the table, its count, and the
kernel, which is told by `epoll_ctl`. `channels_agree` says that they hold the
same after any operations on channels whose descriptors differ.
-/

namespace Myself

open Machine

abbrev Interest := Std.TreeMap Nat Mask compare

namespace EpollCtl

def apply (interest : Interest) : EpollCtl → Interest
  | add fd events => interest.insert fd events
  | modify fd events => interest.insert fd events
  | remove fd => interest.erase fd

/-- `ADD` is for a descriptor that is not registered, `MOD` and `DEL` are for
one that is. -/
def Fits (interest : Interest) : EpollCtl → Prop
  | add fd _ => interest.contains fd = false
  | modify fd _ => interest.contains fd = true
  | remove fd => interest.contains fd = true

def AllFit : Interest → List EpollCtl → Prop
  | _, [] => True
  | interest, call :: calls => call.Fits interest ∧ AllFit (call.apply interest) calls

def applyAll (interest : Interest) (calls : List EpollCtl) : Interest := calls.foldl apply interest

theorem applyAll_append (interest : Interest) (calls calls' : List EpollCtl) :
    applyAll interest (calls ++ calls') = applyAll (applyAll interest calls) calls' :=
  List.foldl_append

theorem allFit_append {interest : Interest} {calls calls' : List EpollCtl} :
    AllFit interest (calls ++ calls') ↔
      AllFit interest calls ∧ AllFit (applyAll interest calls) calls' := by
  induction calls generalizing interest with
  | nil => simp [AllFit, applyAll]
  | cons call calls ih => simp [AllFit, applyAll, ih, and_assoc]

end EpollCtl

inductive ChannelOp where
  | enableReading
  | enableWriting
  | disableWriting
  | disableAll
  | remove
  deriving DecidableEq

namespace ChannelOp

def perform (c : Channel) (r : Reactor) : ChannelOp → Channel × Reactor
  | enableReading => c.enableReading r
  | enableWriting => c.enableWriting r
  | disableWriting => c.disableWriting r
  | disableAll => c.disableAll r
  | remove => c.remove r

end ChannelOp

structure ChannelLoop where
  channels : List Channel
  reactor : Reactor := {}

namespace Channel

def listed (c : Channel) : Bool := !c.isNoneEvent && !c.removed

structure Known (c : Channel) (r : Reactor) : Prop where
  table : r.channels[c.fd]? = if c.listed then some c.self else none
  interest : r.interest[c.fd]? = if c.listed then some c.events else none

end Channel

structure Replaces (c c' : Channel) (r r' : Reactor) : Prop where
  fd : c'.fd = c.fd
  self : c'.self = c.self
  known : c'.Known r'
  channels : ∀ fd, c.fd ≠ fd → r'.channels[fd]? = r.channels[fd]?
  interest : ∀ fd, c.fd ≠ fd → r'.interest[fd]? = r.interest[fd]?
  count : r'.channelCount = r'.channels.size
  calls : ∃ calls, r'.calls = r.calls ++ calls ∧ EpollCtl.AllFit r.interest calls ∧
    EpollCtl.applyAll r.interest calls = r'.interest

section
variable {c c' : Channel} {r : Reactor}

theorem contains_interest (h : c.Known r) : r.interest.contains c.fd = c.listed := by
  rw [Std.TreeMap.contains_eq_isSome_getElem?, h.interest]
  cases c.listed <;> rfl

theorem contains_channels (h : c.Known r) : r.channels.contains c.fd = c.listed := by
  rw [Std.TreeMap.contains_eq_isSome_getElem?, h.table]
  cases c.listed <;> rfl

theorem replaces_same (h : c.Known r) (hcount : r.channelCount = r.channels.size)
    (hfd : c'.fd = c.fd) (hself : c'.self = c.self) (hold : c.listed = false)
    (hnew : c'.listed = false) : Replaces c c' r r where
  fd := hfd
  self := hself
  known := by
    have htable := h.table
    have hinterest := h.interest
    rw [hold] at htable hinterest
    refine ⟨?_, ?_⟩
    · rw [hfd, hnew]
      exact htable
    · rw [hfd, hnew]
      exact hinterest
  channels _ _ := rfl
  interest _ _ := rfl
  count := hcount
  calls := ⟨[], (List.append_nil _).symm, trivial, rfl⟩

theorem replaces_removeChannel (h : c.Known r) (hcount : r.channelCount = r.channels.size)
    (hfd : c'.fd = c.fd) (hself : c'.self = c.self) (hnew : c'.listed = false) :
    Replaces c c' r (r.removeChannel c') := by
  cases hl : c.listed with
  | false =>
    have htable : r.channels[c'.fd]? = none := by
      rw [hfd, h.table, hl]
      rfl
    simp only [Reactor.removeChannel, htable]
    exact replaces_same h hcount hfd hself hl hnew
  | true =>
    have htable : r.channels[c.fd]? = some c.self := by
      rw [h.table, hl]
      rfl
    have hchannels := contains_channels h
    have hinterest := contains_interest h
    simp only [Reactor.removeChannel, hfd, htable]
    refine ⟨hfd, hself, ⟨?_, ?_⟩, ?_, ?_, ?_, [.remove c'.fd], rfl, ?_, ?_⟩
    · simp [hfd, hnew]
    · simp [hfd, hnew, Reactor.epollRemove]
    · intro fd hne
      simp [Std.TreeMap.getElem?_erase, hne]
    · intro fd hne
      simp [Reactor.epollRemove, hfd, Std.TreeMap.getElem?_erase, hne]
    · simp [Std.TreeMap.size_erase, hchannels.trans hl, hcount]
    · rw [hfd]
      exact ⟨hinterest.trans hl, trivial⟩
    · rfl

theorem replaces_updateChannel (h : c.Known r) (hcount : r.channelCount = r.channels.size)
    (hfd : c'.fd = c.fd) (hself : c'.self = c.self) (hactive : c'.removed = false) :
    Replaces c c' r (r.updateChannel c') := by
  have hnew : c'.listed = !c'.isNoneEvent := by simp [Channel.listed, hactive]
  cases hnone : c'.isNoneEvent with
  | true =>
    rw [hnone] at hnew
    have hremove := replaces_removeChannel h hcount hfd hself hnew
    cases htable : r.channels[c'.fd]? with
    | none =>
      simp only [Reactor.removeChannel, htable] at hremove
      simp only [Reactor.updateChannel, htable, hnone, if_true]
      exact hremove
    | some self =>
      simp only [Reactor.updateChannel, htable, hnone, if_true]
      exact hremove
  | false =>
    rw [hnone] at hnew
    have hchannels := contains_channels h
    have hinterest := contains_interest h
    cases hl : c.listed with
    | false =>
      have htable : r.channels[c.fd]? = none := by
        rw [h.table, hl]
        rfl
      have hin : r.interest.contains c.fd = false := hinterest.trans hl
      simp only [Reactor.updateChannel, hfd, htable, hnone, Bool.false_eq_true, if_false,
        Reactor.epollAdd, hin]
      refine ⟨hfd, hself, ⟨?_, ?_⟩, ?_, ?_, ?_, [.add c.fd c'.events], rfl, ⟨hin, trivial⟩, rfl⟩
      · simp [hfd, hnew]
      · simp [hfd, hnew]
      · intro fd hne
        simp [Std.TreeMap.getElem?_insert, hne]
      · intro fd hne
        simp [Std.TreeMap.getElem?_insert, hne]
      · simp [Std.TreeMap.size_insert, hchannels.trans hl, hcount]
    | true =>
      have htable : r.channels[c.fd]? = some c.self := by
        rw [h.table, hl]
        rfl
      have hin : r.interest.contains c.fd = true := hinterest.trans hl
      simp only [Reactor.updateChannel, hfd, htable, hnone, Bool.false_eq_true, if_false,
        Reactor.epollModify, hin, if_true]
      refine ⟨hfd, hself, ⟨?_, ?_⟩, ?_, ?_, hcount, [.modify c.fd c'.events], rfl, ⟨hin, trivial⟩, rfl⟩
      · simp [hfd, hnew, hself, htable]
      · simp [hfd, hnew]
      · exact fun _ _ => rfl
      · intro fd hne
        simp [Std.TreeMap.getElem?_insert, hne]

theorem replaces_update (h : c.Known r) (hcount : r.channelCount = r.channels.size) (events : Mask) :
    Replaces c { c with events := events } r ({ c with events := events }.update r).2 := by
  by_cases hremoved : c.removed = true
  · simp only [Channel.update, hremoved, if_true]
    exact replaces_same h hcount rfl rfl (by simp [Channel.listed, hremoved])
      (by simp [Channel.listed])
  · have hactive : { c with events := events }.removed = false := by simpa using hremoved
    rw [Channel.update_active hactive]
    exact replaces_updateChannel h hcount rfl rfl hactive

theorem replaces_perform (h : c.Known r) (hcount : r.channelCount = r.channels.size) (op : ChannelOp) :
    Replaces c (op.perform c r).1 r (op.perform c r).2 := by
  cases op with
  | enableReading => exact replaces_update h hcount _
  | enableWriting => exact replaces_update h hcount _
  | disableWriting => exact replaces_update h hcount _
  | disableAll => exact replaces_update h hcount _
  | remove =>
    simp only [ChannelOp.perform, Channel.remove]
    split
    · rename_i hremoved
      have hl : c.listed = false := by simp [Channel.listed, hremoved]
      exact replaces_same h hcount rfl rfl hl hl
    · have hnew : { c with removed := true }.listed = false := by simp [Channel.listed]
      exact @replaces_removeChannel _ { c with removed := true } _ h hcount rfl rfl hnew

end

namespace ChannelLoop

variable {s s' : ChannelLoop}

def start (objects : List (Nat × Nat)) : ChannelLoop :=
  { channels := objects.map fun o => { self := o.1, fd := o.2 } }

def step (s : ChannelLoop) (e : Nat × ChannelOp) : Option ChannelLoop :=
  match s.channels[e.1]? with
  | none => none
  | some c => some {
      channels := s.channels.set e.1 (e.2.perform c s.reactor).1
      reactor := (e.2.perform c s.reactor).2 }

structure Inv (s : ChannelLoop) : Prop where
  fds : (s.channels.map Channel.fd).Nodup
  known : ∀ c ∈ s.channels, c.Known s.reactor
  channels : ∀ fd, (∀ c ∈ s.channels, c.fd ≠ fd) → s.reactor.channels[fd]? = none
  interest : ∀ fd, (∀ c ∈ s.channels, c.fd ≠ fd) → s.reactor.interest[fd]? = none
  count : s.reactor.channelCount = s.reactor.channels.size
  fit : EpollCtl.AllFit ∅ s.reactor.calls
  applied : EpollCtl.applyAll ∅ s.reactor.calls = s.reactor.interest

/-- The calls fit after more calls that fit what the kernel has. -/
theorem fit_more {r r' : Reactor} (hfit : EpollCtl.AllFit ∅ r.calls)
    (happlied : EpollCtl.applyAll ∅ r.calls = r.interest) {c c' : Channel} (h : Replaces c c' r r') :
    EpollCtl.AllFit ∅ r'.calls ∧ EpollCtl.applyAll ∅ r'.calls = r'.interest := by
  obtain ⟨calls, hcalls, hnew, hafter⟩ := h.calls
  rw [hcalls, EpollCtl.allFit_append, EpollCtl.applyAll_append, happlied]
  exact ⟨⟨hfit, hnew⟩, hafter⟩

theorem inv_start {objects : List (Nat × Nat)} (h : (objects.map Prod.snd).Nodup) :
    (start objects).Inv where
  fds := by
    rw [start, List.map_map]
    exact h
  known := by
    intro c hc
    obtain ⟨o, -, rfl⟩ := List.mem_map.mp hc
    refine ⟨?_, ?_⟩
    · simp [start, Channel.listed, Channel.isNoneEvent]
    · simp [start, Channel.listed, Channel.isNoneEvent]
  channels _ _ := by simp [start]
  interest _ _ := by simp [start]
  count := rfl
  fit := trivial
  applied := rfl

theorem inv_step {e : Nat × ChannelOp} (h : s.Inv) (hs : s.step e = some s') : s'.Inv := by
  obtain ⟨i, op⟩ := e
  simp only [step] at hs
  split at hs
  · cases hs
  rename_i c hc
  cases hs
  have hmem := List.mem_of_getElem? hc
  have hrep := replaces_perform (h.known c hmem) h.count op
  have hfds : (s.channels.set i (op.perform c s.reactor).1).map Channel.fd = s.channels.map Channel.fd := by
    rw [List.map_set, hrep.fd]
    apply List.ext_getElem?
    intro k
    rw [List.getElem?_set]
    split
    · rename_i hik
      subst hik
      obtain ⟨hlt, hget⟩ := List.getElem?_eq_some_iff.mp hc
      simp [hlt, hget]
    · rfl
  have hfdmem : ∀ fd, (∀ d ∈ s.channels.set i (op.perform c s.reactor).1, d.fd ≠ fd) →
      ∀ d ∈ s.channels, d.fd ≠ fd := by
    intro fd hall d hd heq
    have hin : fd ∈ (s.channels.set i (op.perform c s.reactor).1).map Channel.fd := by
      rw [hfds]
      exact List.mem_map.mpr ⟨d, hd, heq⟩
    obtain ⟨d', hd', heq'⟩ := List.mem_map.mp hin
    exact hall d' hd' heq'
  have hcalls := fit_more h.fit h.applied hrep
  refine ⟨?_, ?_, ?_, ?_, hrep.count, hcalls.1, hcalls.2⟩
  · rw [hfds]
    exact h.fds
  · intro d hd
    obtain ⟨k, hk⟩ := List.mem_iff_getElem?.mp hd
    rw [List.getElem?_set] at hk
    split at hk
    · split at hk
      · cases hk
        exact hrep.known
      · cases hk
    · -- the other channels have other descriptors
      rename_i hik
      have hne : c.fd ≠ d.fd := by
        intro heq
        have hget : ∀ {j : Nat} {x : Channel}, s.channels[j]? = some x →
            (s.channels.map Channel.fd)[j]? = some x.fd := by
          intro j x hx
          rw [List.getElem?_map, hx]
          rfl
        obtain ⟨hlt, -⟩ := List.getElem?_eq_some_iff.mp (hget hc)
        exact hik ((List.getElem?_inj hlt h.fds).mp (by rw [hget hc, hget hk, heq]))
      have hknown := h.known d (List.mem_of_getElem? hk)
      refine ⟨?_, ?_⟩
      · rw [hrep.channels d.fd hne]
        exact hknown.table
      · rw [hrep.interest d.fd hne]
        exact hknown.interest
  · intro fd hall
    have hold := hfdmem fd hall
    rw [hrep.channels fd (hold c hmem)]
    exact h.channels fd hold
  · intro fd hall
    have hold := hfdmem fd hall
    rw [hrep.interest fd (hold c hmem)]
    exact h.interest fd hold

/-- The table has the channels with a mask that were not removed, the count
is its size, and the kernel has the masks of the same channels. -/
structure Agrees (s : ChannelLoop) : Prop where
  table : ∀ fd self, s.reactor.channels[fd]? = some self ↔
    ∃ c ∈ s.channels, c.fd = fd ∧ c.self = self ∧ c.events ≠ 0 ∧ c.removed = false
  count : s.reactor.channelCount = s.reactor.channels.size
  interest : ∀ fd events, s.reactor.interest[fd]? = some events ↔
    ∃ c ∈ s.channels, c.fd = fd ∧ c.events = events ∧ c.events ≠ 0 ∧ c.removed = false

theorem listed_iff {c : Channel} : c.listed = true ↔ c.events ≠ 0 ∧ c.removed = false := by
  simp [Channel.listed, Channel.isNoneEvent]

/-- What is held under a descriptor is what the channel of the descriptor says. -/
theorem held_iff {α : Type} {channels : List Channel} {held : Option α} {get : Channel → α} {fd : Nat}
    {v : α} (hknown : ∀ c ∈ channels, c.fd = fd → held = if c.listed then some (get c) else none)
    (hother : (∀ c ∈ channels, c.fd ≠ fd) → held = none) :
    held = some v ↔ ∃ c ∈ channels, c.fd = fd ∧ get c = v ∧ c.events ≠ 0 ∧ c.removed = false := by
  constructor
  · intro hv
    by_contra hno
    have hnone : ∀ c ∈ channels, c.fd ≠ fd := by
      intro c hc hfd
      have hheld := hknown c hc hfd
      rw [hv] at hheld
      split at hheld
      · rename_i hl
        exact hno ⟨c, hc, hfd, (Option.some.inj hheld).symm, listed_iff.mp hl⟩
      · cases hheld
    rw [hother hnone] at hv
    cases hv
  · rintro ⟨c, hc, hfd, rfl, hl⟩
    rw [hknown c hc hfd, if_pos (listed_iff.mpr hl)]

theorem Inv.agrees (h : s.Inv) : s.Agrees where
  table _ _ := held_iff (fun c hc hfd => hfd ▸ (h.known c hc).table) (h.channels _)
  count := h.count
  interest _ _ := held_iff (fun c hc hfd => hfd ▸ (h.known c hc).interest) (h.interest _)

/-- **The table, its count and the kernel agree**, and every call of
`epoll_ctl` fits the kernel's list as the calls before it have left it. -/
theorem channels_agree {objects : List (Nat × Nat)} (hfds : (objects.map Prod.snd).Nodup)
    (h : Reached step Any (start objects) s) :
    s.Agrees ∧ EpollCtl.AllFit ∅ s.reactor.calls ∧
      EpollCtl.applyAll ∅ s.reactor.calls = s.reactor.interest := by
  have hinv : s.Inv := h.invariant (inv_start hfds) fun _ _ _ hi _ hs => inv_step hi hs
  exact ⟨hinv.agrees, hinv.fit, hinv.applied⟩

/-- A channel that is closed while another one stays: disabled, then removed. -/
theorem channels_agree_closed : ∃ s, Reached step Any (start [(1, 5), (2, 7)]) s ∧
    s.reactor.calls = [.add 5 Channel.kReadEvent, .add 7 Channel.kReadEvent,
      .modify 7 (Channel.kReadEvent ||| Channel.kWriteEvent), .remove 7] ∧
    s.Agrees ∧ EpollCtl.AllFit ∅ s.reactor.calls ∧
      EpollCtl.applyAll ∅ s.reactor.calls = s.reactor.interest := by
  have hrun : run step (start [(1, 5), (2, 7)]) [(0, .enableReading), (1, .enableReading),
      (1, .enableWriting), (1, .disableAll), (1, .remove)] = some _ := rfl
  have h := Reached.of_run_any hrun
  exact ⟨_, h, by decide, channels_agree (by decide) h⟩

end ChannelLoop

end Myself
