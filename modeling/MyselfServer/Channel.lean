import Mathlib.Data.BitVec
import Std.Data.TreeMap

/-!
# Channels

A `Channel` is a descriptor with the events it waits for; its loop keeps the
channels by descriptor and tells epoll which events to report. The event
masks are those of `sys/epoll.h`. Note that `EPOLLET` is part of both the
read and the write mask.
-/

namespace Myself

abbrev Mask := BitVec 32

def EPOLLIN : Mask := 0x1
def EPOLLPRI : Mask := 0x2
def EPOLLOUT : Mask := 0x4
def EPOLLERR : Mask := 0x8
def EPOLLHUP : Mask := 0x10
def EPOLLRDHUP : Mask := 0x2000
def EPOLLET : Mask := 0x80000000

/-- `self` stands for the address of the object. -/
structure Channel where
  self : Nat
  fd : Nat
  events : Mask := 0
  removed : Bool := false

inductive ChannelCallback where
  | read
  | write
  | close
  | error
  deriving DecidableEq, Repr

namespace Channel

def kReadEvent : Mask := EPOLLIN ||| EPOLLPRI ||| EPOLLET

def kWriteEvent : Mask := EPOLLOUT ||| EPOLLET

def isWriting (c : Channel) : Bool := c.events &&& kWriteEvent != 0

abbrev hasOut (c : Channel) : Bool := c.events[2]

def isNoneEvent (c : Channel) : Bool := c.events == 0

def handleEvent (revents : Mask) : List ChannelCallback :=
  if revents &&& EPOLLHUP ≠ 0 then [.close]
  else if revents &&& (EPOLLERR ||| EPOLLRDHUP) ≠ 0 then [.error]
  else (if revents &&& kReadEvent ≠ 0 then [.read] else []) ++
    (if revents &&& kWriteEvent ≠ 0 then [.write] else [])

end Channel

/-- A call of `epoll_ctl`, with the event mask that `ADD` and `MOD` pass. -/
inductive EpollCtl where
  | add (fd : Nat) (events : Mask)
  | modify (fd : Nat) (events : Mask)
  | remove (fd : Nat)
  deriving DecidableEq

/-- What an `EventLoop` keeps of its channels: the table by descriptor, the
events registered with epoll, and the count; with its calls of `epoll_ctl`. -/
structure Reactor where
  channels : Std.TreeMap Nat Nat compare := ∅
  interest : Std.TreeMap Nat Mask compare := ∅
  channelCount : Nat := 0
  calls : List EpollCtl := []

namespace Reactor

/-- `EPOLL_CTL_ADD` fails on a descriptor that is registered, `EPOLL_CTL_MOD`
on one that is not. -/
def epollAdd (r : Reactor) (c : Channel) : Reactor :=
  { r with
    interest := if r.interest.contains c.fd then r.interest else r.interest.insert c.fd c.events
    calls := r.calls ++ [.add c.fd c.events] }

def epollModify (r : Reactor) (c : Channel) : Reactor :=
  { r with
    interest := if r.interest.contains c.fd then r.interest.insert c.fd c.events else r.interest
    calls := r.calls ++ [.modify c.fd c.events] }

def epollRemove (r : Reactor) (c : Channel) : Reactor :=
  { r with
    interest := r.interest.erase c.fd
    calls := r.calls ++ [.remove c.fd] }

def removeChannel (r : Reactor) (c : Channel) : Reactor :=
  match r.channels[c.fd]? with
  | none => r
  | some _ =>
    { r.epollRemove c with
      channels := r.channels.erase c.fd
      channelCount := r.channelCount - 1 }

def updateChannel (r : Reactor) (c : Channel) : Reactor :=
  match r.channels[c.fd]? with
  | none =>
    if c.isNoneEvent then r
    else { { r with channels := r.channels.insert c.fd c.self }.epollAdd c with
      channelCount := r.channelCount + 1 }
  | some _ => if c.isNoneEvent then r.removeChannel c else r.epollModify c

end Reactor

namespace Channel

def update (c : Channel) (r : Reactor) : Channel × Reactor :=
  (c, if c.removed then r else r.updateChannel c)

def enableReading (c : Channel) (r : Reactor) : Channel × Reactor :=
  { c with events := c.events ||| kReadEvent }.update r

def enableWriting (c : Channel) (r : Reactor) : Channel × Reactor :=
  { c with events := c.events ||| kWriteEvent }.update r

def disableWriting (c : Channel) (r : Reactor) : Channel × Reactor :=
  { c with events := c.events &&& ~~~kWriteEvent }.update r

def disableAll (c : Channel) (r : Reactor) : Channel × Reactor :=
  { c with events := 0 }.update r

def remove (c : Channel) (r : Reactor) : Channel × Reactor :=
  if c.removed then (c, r) else ({ c with removed := true }, r.removeChannel c)

/-! ## Masks -/

theorem and_EPOLLOUT (m : Mask) : (m &&& EPOLLOUT != 0) = m[2] := by
  have hbit : ∀ i < 32, EPOLLOUT.getLsbD i = decide (i = 2) := by decide
  cases h : m[2] with
  | true =>
    rw [bne_iff_ne]
    intro h0
    have hbit2 := congrArg (fun x : Mask => x[2]) h0
    simp [EPOLLOUT, h] at hbit2
  | false =>
    rw [bne_eq_false_iff_eq]
    apply BitVec.eq_of_getLsbD_eq
    intro i hi
    rw [BitVec.getLsbD_and, hbit i hi]
    by_cases h2 : i = 2
    · subst h2
      simpa using h
    · simp [h2]

theorem or_kReadEvent (m : Mask) :
    (m ||| kReadEvent)[0] = true ∧ (m ||| kReadEvent)[2] = m[2] := by
  simp [kReadEvent, EPOLLIN, EPOLLPRI, EPOLLET]

theorem or_kWriteEvent (m : Mask) :
    (m ||| kWriteEvent)[2] = true ∧ (m ||| kWriteEvent)[0] = m[0] := by
  simp [kWriteEvent, EPOLLOUT, EPOLLET]

theorem and_not_kWriteEvent (m : Mask) :
    (m &&& ~~~kWriteEvent)[2] = false ∧ (m &&& ~~~kWriteEvent)[0] = m[0] := by
  simp [kWriteEvent, EPOLLOUT, EPOLLET]

/-- The converse fails: `EPOLLET` alone makes `isWriting` true. -/
theorem isWriting_false {c : Channel} (h : c.isWriting = false) : c.hasOut = false := by
  simp only [isWriting, bne_eq_false_iff_eq] at h
  have hbit2 := congrArg (fun x : Mask => x[2]) h
  simpa [kWriteEvent, EPOLLOUT, EPOLLET] using hbit2

theorem isNoneEvent_false {c : Channel} (h : c.events[0] = true) : c.isNoneEvent = false := by
  rw [isNoneEvent, beq_eq_false_iff_ne]
  intro h0
  rw [h0] at h
  cases h

/-! ## Registered channels -/

structure Attached (c : Channel) (r : Reactor) : Prop where
  active : c.removed = false
  reading : c.events[0] = true
  channel : r.channels.contains c.fd = true
  interest : r.interest[c.fd]? = some c.events

theorem update_active {c : Channel} (h : c.removed = false) (r : Reactor) :
    c.update r = (c, r.updateChannel c) := by
  rw [Channel.update, h]
  rfl

theorem Attached.updateChannel {c : Channel} {r : Reactor} (h : c.Attached r) {c' : Channel}
    (hfd : c'.fd = c.fd) (ha : c'.removed = false) (hm : c'.events[0] = true) :
    c'.Attached (r.updateChannel c') := by
  have hnone : c'.isNoneEvent = false := isNoneEvent_false hm
  have hin : r.interest.contains c'.fd = true := by
    rw [Std.TreeMap.contains_eq_isSome_getElem?, hfd, h.interest]
    rfl
  have hch := h.channel
  rw [Std.TreeMap.contains_eq_isSome_getElem?, Option.isSome_iff_exists, ← hfd] at hch
  obtain ⟨self, hself⟩ := hch
  have hr : r.updateChannel c' = { r with
      interest := r.interest.insert c'.fd c'.events
      calls := r.calls ++ [.modify c'.fd c'.events] } := by
    simp only [Reactor.updateChannel, hself, hnone, Bool.false_eq_true, if_false,
      Reactor.epollModify, hin, if_true]
  rw [hr]
  exact ⟨ha, hm, hfd ▸ h.channel, Std.TreeMap.getElem?_insert_self⟩

theorem Attached.enableWriting {c : Channel} {r : Reactor} (h : c.Attached r) :
    (c.enableWriting r).1.Attached (c.enableWriting r).2 := by
  have hm := (or_kWriteEvent c.events).2.trans h.reading
  rw [Channel.enableWriting, update_active (c := { c with events := c.events ||| kWriteEvent })
    h.active]
  exact h.updateChannel rfl h.active hm

theorem Attached.disableWriting {c : Channel} {r : Reactor} (h : c.Attached r) :
    (c.disableWriting r).1.Attached (c.disableWriting r).2 := by
  have hm := (and_not_kWriteEvent c.events).2.trans h.reading
  rw [Channel.disableWriting, update_active (c := { c with events := c.events &&& ~~~kWriteEvent })
    h.active]
  exact h.updateChannel rfl h.active hm

/-- A new channel of a descriptor its loop does not know is registered. -/
theorem attached_enableReading {c : Channel} {r : Reactor} (ha : c.removed = false)
    (hc : r.channels[c.fd]? = none) (hi : r.interest[c.fd]? = none) :
    (c.enableReading r).1.Attached (c.enableReading r).2 := by
  have hm := (or_kReadEvent c.events).1
  have hnone : { c with events := c.events ||| kReadEvent }.isNoneEvent = false :=
    isNoneEvent_false hm
  have hin : r.interest.contains c.fd = false := by
    rw [Std.TreeMap.contains_eq_isSome_getElem?, hi]
    rfl
  rw [Channel.enableReading, update_active (c := { c with events := c.events ||| kReadEvent }) ha]
  have hr : r.updateChannel { c with events := c.events ||| kReadEvent } =
      { r with
        channels := r.channels.insert c.fd c.self
        interest := r.interest.insert c.fd (c.events ||| kReadEvent)
        channelCount := r.channelCount + 1
        calls := r.calls ++ [.add c.fd (c.events ||| kReadEvent)] } := by
    simp only [Reactor.updateChannel, hc, hnone, Bool.false_eq_true, if_false, Reactor.epollAdd,
      hin]
  rw [hr]
  exact ⟨ha, hm, by simp, Std.TreeMap.getElem?_insert_self⟩

end Channel

end Myself
