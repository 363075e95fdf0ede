import MyselfServer.Machine
import MyselfServer.TimerQueue

/-!
# The timers of a loop

The loop thread and the other threads as a machine over a `TimerQueue`.
`addTimer` and `cancel` act at once on the loop thread and are posted to it
by other threads; `handleExpiredTimers` takes a batch and runs it timer by
timer, and between two timers the callback that runs may call both. The log
keeps what was inserted, cancelled and started, in this order.
-/

namespace Myself

open Machine

variable {κ : Type}

inductive TimerTask (κ : Type) where
  | insertInLoop (timer : Timer κ)
  | cancelInLoop (timerId : TimerId)

inductive TimerPhase (κ : Type) where
  | idle
  | handleExpired (currentTime : Timestamp) (rest : List (Timer κ)) (running : Option Nat)

/-- `inserted` is written once for a timer, when it enters the queue for the first time. -/
inductive TimerNote where
  | inserted (sequence : Nat)
  | cancelled (sequence : Nat)
  | started (sequence : Nat)
  deriving DecidableEq

structure TimerLoop (κ : Type) where
  queue : TimerQueue κ
  counter : Nat := 1
  pendingFunctors : List (TimerTask κ) := []
  phase : TimerPhase κ := .idle
  log : List TimerNote := []

inductive TimerEvent (κ : Type) where
  /-- Another queue takes a number from `nextTimerSequence`. -/
  | elsewhere
  | postAddTimer (callback : κ) (when : Timestamp) (intervalSeconds : Rat)
  | postCancel (timerId : TimerId)
  | runFunctor
  | addTimer (callback : κ) (when : Timestamp) (intervalSeconds : Rat)
  | cancel (timerId : TimerId)
  | handleExpiredTimers (currentTime : Timestamp)
  | runNext
  | finish

namespace TimerLoop

def init (self : Nat) : TimerLoop κ := { queue := { self := self } }

def batch (s : TimerLoop κ) : List (Timer κ) :=
  match s.phase with
  | .idle => []
  | .handleExpired _ rest _ => rest

/-- Loop-thread code other than the queue's own runs between two rounds of
the queue and in the callback of a timer. -/
def callsAllowed (s : TimerLoop κ) : Bool :=
  match s.phase with
  | .idle => true
  | .handleExpired _ _ running => running.isSome

def insertInLoop (s : TimerLoop κ) (timer : Timer κ) : TimerLoop κ :=
  { s with queue := s.queue.insertInLoop timer, log := s.log ++ [.inserted timer.sequence] }

def cancelInLoop (s : TimerLoop κ) (timerId : TimerId) : TimerLoop κ :=
  { s with
    queue := s.queue.cancelInLoop timerId
    log := if timerId.owner = some s.queue.self then s.log ++ [.cancelled timerId.sequence]
      else s.log }

def perform (s : TimerLoop κ) : TimerTask κ → TimerLoop κ
  | .insertInLoop timer => s.insertInLoop timer
  | .cancelInLoop timerId => s.cancelInLoop timerId

def step (s : TimerLoop κ) : TimerEvent κ → Option (TimerLoop κ)
  | .elsewhere => some { s with counter := s.counter + 1 }
  | .postAddTimer callback when intervalSeconds =>
    some { s with
      counter := s.counter + 1
      pendingFunctors :=
        s.pendingFunctors ++ [.insertInLoop ⟨callback, when, intervalSeconds, s.counter⟩] }
  | .postCancel timerId =>
    if timerId.valid then
      some { s with pendingFunctors := s.pendingFunctors ++ [.cancelInLoop timerId] }
    else some s
  | .runFunctor =>
    match s.phase, s.pendingFunctors with
    | .idle, task :: rest => some ({ s with pendingFunctors := rest }.perform task)
    | _, _ => none
  | .addTimer callback when intervalSeconds =>
    if s.callsAllowed then
      some ({ s with counter := s.counter + 1 }.insertInLoop
        ⟨callback, when, intervalSeconds, s.counter⟩)
    else none
  | .cancel timerId =>
    if s.callsAllowed then some (if timerId.valid then s.cancelInLoop timerId else s) else none
  | .handleExpiredTimers currentTime =>
    match s.phase with
    | .handleExpired _ _ _ => none
    | .idle =>
      let (expired, entries) := TimerQueue.takeExpired currentTime s.queue.entries
      some { s with
        queue := { s.queue with entries := entries }
        phase := .handleExpired currentTime expired none }
  | .runNext =>
    match s.phase with
    | .handleExpired currentTime (timer :: rest) _ =>
      some { s with
        queue := s.queue.beforeRun currentTime timer
        phase := .handleExpired currentTime rest (some timer.sequence)
        log := s.log ++ [.started timer.sequence] }
    | _ => none
  | .finish =>
    match s.phase with
    | .handleExpired _ [] _ => some { s with phase := .idle }
    | _ => none

/-! ## Cancelled timers -/

def Cancelled (log : List TimerNote) (n : Nat) : Prop :=
  ∃ before after, log = before ++ .cancelled n :: after ∧ .inserted n ∈ before

/-- No callback is started once its timer is cancelled. -/
def NeverAgain (log : List TimerNote) : Prop :=
  ∀ n before after, log = before ++ .cancelled n :: after → .inserted n ∈ before →
    .started n ∉ after

/-- A cancel on the loop thread is for no timer of the batch that has not run yet. -/
def SparesBatch (s : TimerLoop κ) : TimerEvent κ → Prop
  | .cancel timerId => timerId.owner = some s.queue.self →
      ∀ t ∈ s.batch, t.sequence ≠ timerId.sequence
  | _ => True

end TimerLoop

end Myself
