import MyselfServer.Machine
import MyselfServer.Rounds
import MyselfServer.TimerLoop

/-!
# The event loop and its callers

`EventLoop` as a machine whose steps are the atomic operations of the loop
thread and of the threads that call it: the loads and stores of `quit_` and
`callingPendingFunctors_`, the sections under the mutex, the reads and writes
of the eventfd, and what `epoll_wait` returns. The eventfd is registered
edge-triggered: `ready` says that epoll has a write of it still to report.
The callbacks, timers and functors that run on the loop thread are known by
the calls they make on the loop. The phases before `loop` and after it are
those of `EventLoopThread::threadFunc`.
-/

namespace Myself

variable {κ : Type}

/-- What is queued: a task of the timer queue, or any other call. -/
inductive Functor (κ : Type) where
  | timer (task : TimerTask κ)
  | call

structure Posted (κ : Type) extends Rounds.Task where
  functor : Functor κ

/-- `published` holds from `loop_ = &loop` on. In `dispatching` the flag says
that the callback of the eventfd has not come back yet. -/
inductive LoopPhase (κ : Type) where
  | constructed
  | published
  | testing
  | computing
  | waiting (computedAt : Timestamp) (waitMs : Int)
  | dispatching (wakeup : Bool)
  | expiring (currentTime : Timestamp) (rest : List (Timer κ)) (inCall : Bool)
  | swapping
  | running (functors : List (Posted κ)) (inCall : Bool)
  | returned
  | destroyed

/-- A thread outside of the loop's functions, between the two halves of
`queueInLoop`, or between those of `quit`. -/
inductive Client where
  | idle
  | queueing
  | quitting
  deriving DecidableEq

structure EventLoop (κ : Type) where
  timerQueue : TimerQueue κ
  nextTimerSequence : Nat := 1
  quit : Bool := false
  callingPendingFunctors : Bool := false
  pendingFunctors : List (Posted κ) := []
  eventfd : Nat := 0
  ready : Bool := false
  phase : LoopPhase κ := .constructed
  own : Client := .idle
  clients : Nat → Client := fun _ => .idle
  tickets : Nat := 0
  log : List Rounds.Note := []

inductive TimerCall (κ : Type) where
  | addTimer (callback : κ) (when : Timestamp) (intervalSeconds : Rat)
  | cancel (timerId : TimerId)

inductive LoopEvent (κ : Type) where
  | publish
  | reset
  | test
  | nextTimeoutMs (now : Timestamp)
  | epollReturn (wakeup : Bool)
  | readWakeup
  | handleExpiredTimers (currentTime : Timestamp)
  | runTimer
  | callPendingFunctors
  | swap
  | runFunctor
  | endFunctors
  | destroy
  | ownQueue (functor : Functor κ)
  | ownWakeup
  | ownTimer (call : TimerCall κ)
  | ownQuit
  | queue (thread : Nat) (functor : Functor κ)
  | timer (thread : Nat) (call : TimerCall κ)
  | quit (thread : Nat)
  | wakeup (thread : Nat)

namespace TimerQueue

def kMaxTimeoutMs : Int := 24 * 60 * 60 * 1000

def msUntil (now when : Timestamp) : Int := if when ≤ now then 0 else (when - now).tdiv 1000000

def nextTimeoutMs (q : TimerQueue κ) (now : Timestamp) : Int :=
  match q.entries with
  | [] => -1
  | e :: _ =>
    let ms := msUntil now e.when
    if ms ≤ 0 then 0 else min ms kMaxTimeoutMs

def perform (q : TimerQueue κ) : TimerTask κ → TimerQueue κ
  | .insertInLoop timer => q.insertInLoop timer
  | .cancelInLoop timerId => q.cancelInLoop timerId

end TimerQueue

/-- What is handed to `runInLoop`; a cancel without a valid handle does nothing. -/
def TimerCall.task (sequence : Nat) : TimerCall κ → Option (TimerTask κ)
  | .addTimer callback when intervalSeconds =>
    some (.insertInLoop ⟨callback, when, intervalSeconds, sequence⟩)
  | .cancel timerId => if timerId.valid then some (.cancelInLoop timerId) else none

def TimerCall.timers : TimerCall κ → Nat
  | .addTimer _ _ _ => 1
  | .cancel _ => 0

def setClient (clients : Nat → Client) (t : Nat) (c : Client) : Nat → Client :=
  fun u => if u = t then c else clients u

@[simp]
theorem setClient_self (clients : Nat → Client) (t : Nat) (c : Client) :
    setClient clients t c t = c := if_pos rfl

theorem setClient_ne (clients : Nat → Client) {t u : Nat} (c : Client) (h : u ≠ t) :
    setClient clients t c u = clients u := if_neg h

namespace EventLoop

def init (self : Nat) : EventLoop κ := { timerQueue := { self := self } }

def shared (s : EventLoop κ) : Bool :=
  match s.phase with
  | .constructed => false
  | .destroyed => false
  | _ => true

/-- A callback, a timer or a functor may be running, or the init callback of the thread. -/
def inCallback (s : EventLoop κ) : Bool :=
  match s.phase with
  | .published => true
  | .dispatching _ => true
  | .expiring _ _ inCall => inCall
  | .running _ inCall => inCall
  | _ => false

def looping (s : EventLoop κ) : Bool :=
  match s.phase with
  | .constructed => false
  | .published => false
  | .returned => false
  | .destroyed => false
  | _ => true

def push (s : EventLoop κ) (thread : Option Nat) (functor : Functor κ) : EventLoop κ :=
  { s with
    pendingFunctors := s.pendingFunctors ++ [⟨⟨s.tickets, thread⟩, functor⟩]
    tickets := s.tickets + 1
    log := s.log ++ Rounds.Task.notes ⟨s.tickets, thread⟩ }

def EVENTFD_MAX : Nat := 2 ^ 64 - 2

/-- `wakeup`: a write that does not fit fails, and epoll has nothing to report. -/
def writeWakeup (s : EventLoop κ) : EventLoop κ :=
  if s.eventfd < EVENTFD_MAX then { s with eventfd := s.eventfd + 1, ready := true } else s

def queueFrom (s : EventLoop κ) (t : Nat) (functor : Functor κ) : EventLoop κ :=
  let s := s.push (some t) functor
  { s with clients := setClient s.clients t .queueing }

/-- `queueInLoop` on the loop thread; only within the functors is there a wake-up. -/
def queueOwn (s : EventLoop κ) (functor : Functor κ) : EventLoop κ :=
  let s := s.push none functor
  if s.callingPendingFunctors then { s with own := .queueing } else s

def execute (s : EventLoop κ) (f : Posted κ) (rest : List (Posted κ)) : EventLoop κ :=
  let s := { s with log := s.log ++ [Rounds.Note.executed f.ticket] }
  match f.functor with
  | .timer task =>
    { s with timerQueue := s.timerQueue.perform task, phase := .running rest false }
  | .call => { s with phase := .running rest true }

def loopStep (s : EventLoop κ) : LoopEvent κ → Option (EventLoop κ)
  | .publish =>
    match s.phase with
    | .constructed => some { s with phase := .published }
    | _ => none
  | .reset =>
    match s.phase with
    | .published => some { s with quit := false, phase := .testing }
    | _ => none
  | .test =>
    match s.phase with
    | .testing =>
      if s.quit then some { s with phase := .returned, log := s.log ++ [.returned] }
      else some { s with phase := .computing }
    | _ => none
  | .nextTimeoutMs now =>
    match s.phase with
    | .computing => some { s with phase := .waiting now (s.timerQueue.nextTimeoutMs now) }
    | _ => none
  | .epollReturn wakeup =>
    match s.phase with
    | .waiting _ _ =>
      if wakeup then
        if s.ready then some { s with ready := false, phase := .dispatching true } else none
      else some { s with phase := .dispatching false }
    | _ => none
  | .readWakeup =>
    match s.phase with
    | .dispatching true =>
      if s.eventfd > 0 then some { s with eventfd := 0 }
      else some { s with phase := .dispatching false }
    | _ => none
  | .handleExpiredTimers currentTime =>
    match s.phase with
    | .dispatching false =>
      let (expired, entries) := TimerQueue.takeExpired currentTime s.timerQueue.entries
      some { s with
        timerQueue := { s.timerQueue with entries := entries }
        phase := .expiring currentTime expired false }
    | _ => none
  | .runTimer =>
    match s.phase with
    | .expiring currentTime (timer :: rest) _ =>
      some { s with
        timerQueue := s.timerQueue.beforeRun currentTime timer
        phase := .expiring currentTime rest true }
    | _ => none
  | .callPendingFunctors =>
    match s.phase with
    | .expiring _ [] _ => some { s with callingPendingFunctors := true, phase := .swapping }
    | _ => none
  | .swap =>
    match s.phase with
    | .swapping => some { s with pendingFunctors := [], phase := .running s.pendingFunctors false }
    | _ => none
  | .runFunctor =>
    match s.phase with
    | .running (f :: rest) _ => some (s.execute f rest)
    | _ => none
  | .endFunctors =>
    match s.phase with
    | .running [] _ => some { s with callingPendingFunctors := false, phase := .testing }
    | _ => none
  | .destroy =>
    match s.phase with
    | .returned => some { s with phase := .destroyed }
    | _ => none
  | _ => none

def ownStep (s : EventLoop κ) : LoopEvent κ → Option (EventLoop κ)
  | .ownQueue functor => some (s.queueOwn functor)
  | .ownTimer call =>
    some { s with
      timerQueue := match call.task s.nextTimerSequence with
        | none => s.timerQueue
        | some task => s.timerQueue.perform task
      nextTimerSequence := s.nextTimerSequence + call.timers }
  | .ownQuit => some { s with quit := true }
  | _ => none

def clientStep (s : EventLoop κ) : LoopEvent κ → Option (EventLoop κ)
  | .queue t functor => if s.clients t = .idle then some (s.queueFrom t functor) else none
  | .timer t call =>
    if s.clients t = .idle then
      let s' := { s with nextTimerSequence := s.nextTimerSequence + call.timers }
      match call.task s.nextTimerSequence with
      | none => some s'
      | some task => some (s'.queueFrom t (.timer task))
    else none
  | .quit t =>
    if s.clients t = .idle then
      some { s with
        quit := true
        clients := setClient s.clients t .quitting
        log := s.log ++ [.quit t] }
    else none
  | .wakeup t =>
    if s.clients t = .idle then none
    else
      let s' := s.writeWakeup
      some { s' with clients := setClient s'.clients t .idle }
  | _ => none

/-- The loop thread makes one call at a time; the other threads need the loop. -/
def step (s : EventLoop κ) : LoopEvent κ → Option (EventLoop κ)
  | .ownWakeup => if s.own = .idle then none else some { s.writeWakeup with own := .idle }
  | .queue t functor => if s.shared then s.clientStep (.queue t functor) else none
  | .timer t call => if s.shared then s.clientStep (.timer t call) else none
  | .quit t => if s.shared then s.clientStep (.quit t) else none
  | .wakeup t => if s.shared then s.clientStep (.wakeup t) else none
  | .ownQueue functor =>
    if s.own = .idle ∧ s.inCallback then s.ownStep (.ownQueue functor) else none
  | .ownTimer call => if s.own = .idle ∧ s.inCallback then s.ownStep (.ownTimer call) else none
  | .ownQuit => if s.own = .idle ∧ s.inCallback then s.ownStep .ownQuit else none
  | e => if s.own = .idle then s.loopStep e else none

/-! ## What a step can do -/

inductive LoopMove (s : EventLoop κ) : EventLoop κ → Prop where
  | publish (h : s.phase = .constructed) : LoopMove s { s with phase := .published }
  | reset (h : s.phase = .published) : LoopMove s { s with quit := false, phase := .testing }
  | finish (h : s.phase = .testing) (hq : s.quit = true) :
      LoopMove s { s with phase := .returned, log := s.log ++ [.returned] }
  | goOn (h : s.phase = .testing) (hq : s.quit = false) : LoopMove s { s with phase := .computing }
  | wait (now : Timestamp) (h : s.phase = .computing) :
      LoopMove s { s with phase := .waiting now (s.timerQueue.nextTimeoutMs now) }
  | report (computedAt : Timestamp) (waitMs : Int) (h : s.phase = .waiting computedAt waitMs)
      (hr : s.ready = true) : LoopMove s { s with ready := false, phase := .dispatching true }
  | wake (computedAt : Timestamp) (waitMs : Int) (h : s.phase = .waiting computedAt waitMs) :
      LoopMove s { s with phase := .dispatching false }
  | read (h : s.phase = .dispatching true) : LoopMove s { s with eventfd := 0 }
  | drained (h : s.phase = .dispatching true) (hz : s.eventfd = 0) :
      LoopMove s { s with phase := .dispatching false }
  | expire (currentTime : Timestamp) (h : s.phase = .dispatching false) :
      LoopMove s { s with
        timerQueue := { s.timerQueue with
          entries := (TimerQueue.takeExpired currentTime s.timerQueue.entries).2 }
        phase := .expiring currentTime
          (TimerQueue.takeExpired currentTime s.timerQueue.entries).1 false }
  | runTimer (currentTime : Timestamp) (timer : Timer κ) (rest : List (Timer κ)) (inCall : Bool)
      (h : s.phase = .expiring currentTime (timer :: rest) inCall) :
      LoopMove s { s with
        timerQueue := s.timerQueue.beforeRun currentTime timer
        phase := .expiring currentTime rest true }
  | callPendingFunctors (currentTime : Timestamp) (inCall : Bool)
      (h : s.phase = .expiring currentTime [] inCall) :
      LoopMove s { s with callingPendingFunctors := true, phase := .swapping }
  | swap (h : s.phase = .swapping) :
      LoopMove s { s with pendingFunctors := [], phase := .running s.pendingFunctors false }
  | execute (f : Posted κ) (rest : List (Posted κ)) (inCall : Bool)
      (h : s.phase = .running (f :: rest) inCall) : LoopMove s (s.execute f rest)
  | endFunctors (inCall : Bool) (h : s.phase = .running [] inCall) :
      LoopMove s { s with callingPendingFunctors := false, phase := .testing }
  | destroy (h : s.phase = .returned) : LoopMove s { s with phase := .destroyed }

inductive Move (s : EventLoop κ) (e : LoopEvent κ) : EventLoop κ → Prop where
  | loop (s' : EventLoop κ) (ho : s.own = .idle) (h : LoopMove s s') : Move s e s'
  | ownQueue (functor : Functor κ) (he : e = .ownQueue functor) (ho : s.own = .idle)
      (hc : s.inCallback = true) :
      Move s e (s.queueOwn functor)
  | ownTimer (tasks : List (TimerTask κ)) (n : Nat) (ho : s.own = .idle)
      (hc : s.inCallback = true) :
      Move s e { s with
        timerQueue := tasks.foldl TimerQueue.perform s.timerQueue
        nextTimerSequence := n }
  | ownQuit (ho : s.own = .idle) (hc : s.inCallback = true) : Move s e { s with quit := true }
  | ownWakeup (ho : s.own ≠ .idle) : Move s e { s.writeWakeup with own := .idle }
  | queue (t : Nat) (functor : Functor κ) (n : Nat) (hs : s.shared = true)
      (hc : s.clients t = .idle) :
      Move s e (queueFrom { s with nextTimerSequence := n } t functor)
  | cancelNothing (n : Nat) : Move s e { s with nextTimerSequence := n }
  | quit (t : Nat) (he : e = .quit t) (hs : s.shared = true) (hc : s.clients t = .idle) :
      Move s e { s with
        quit := true, clients := setClient s.clients t .quitting, log := s.log ++ [.quit t] }
  | wakeup (t : Nat) (hc : s.clients t ≠ .idle) :
      Move s e { s.writeWakeup with clients := setClient s.clients t .idle }

theorem writeWakeup_same (s : EventLoop κ) : ∃ eventfd ready,
    s.writeWakeup = { s with eventfd := eventfd, ready := ready } := by
  unfold writeWakeup
  split
  · exact ⟨_, _, rfl⟩
  · exact ⟨s.eventfd, s.ready, rfl⟩

theorem loopStep_move {s s' : EventLoop κ} {e : LoopEvent κ} (hs : s.loopStep e = some s') :
    LoopMove s s' := by
  cases e with
  | publish =>
    simp only [loopStep] at hs
    split at hs
    · rename_i h
      cases hs
      exact .publish h
    · cases hs
  | reset =>
    simp only [loopStep] at hs
    split at hs
    · rename_i h
      cases hs
      exact .reset h
    · cases hs
  | test =>
    simp only [loopStep] at hs
    split at hs
    · rename_i h
      split at hs
      · rename_i hq
        cases hs
        exact .finish h hq
      · rename_i hq
        cases hs
        exact .goOn h (by simpa using hq)
    · cases hs
  | nextTimeoutMs now =>
    simp only [loopStep] at hs
    split at hs
    · rename_i h
      cases hs
      exact .wait now h
    · cases hs
  | epollReturn wakeup =>
    simp only [loopStep] at hs
    split at hs
    · rename_i at' ms h
      split at hs
      · split at hs
        · rename_i hr
          cases hs
          exact .report at' ms h hr
        · cases hs
      · cases hs
        exact .wake at' ms h
    · cases hs
  | readWakeup =>
    simp only [loopStep] at hs
    split at hs
    · rename_i h
      split at hs
      · cases hs
        exact .read h
      · rename_i hz
        cases hs
        exact .drained h (by omega)
    · cases hs
  | handleExpiredTimers currentTime =>
    simp only [loopStep] at hs
    split at hs
    · rename_i h
      cases hs
      exact .expire currentTime h
    · cases hs
  | runTimer =>
    simp only [loopStep] at hs
    split at hs
    · rename_i currentTime timer rest inCall h
      cases hs
      exact .runTimer currentTime timer rest inCall h
    · cases hs
  | callPendingFunctors =>
    simp only [loopStep] at hs
    split at hs
    · rename_i currentTime inCall h
      cases hs
      exact .callPendingFunctors currentTime inCall h
    · cases hs
  | swap =>
    simp only [loopStep] at hs
    split at hs
    · rename_i h
      cases hs
      exact .swap h
    · cases hs
  | runFunctor =>
    simp only [loopStep] at hs
    split at hs
    · rename_i f rest inCall h
      cases hs
      exact .execute f rest inCall h
    · cases hs
  | endFunctors =>
    simp only [loopStep] at hs
    split at hs
    · rename_i inCall h
      cases hs
      exact .endFunctors inCall h
    · cases hs
  | destroy =>
    simp only [loopStep] at hs
    split at hs
    · rename_i h
      cases hs
      exact .destroy h
    · cases hs
  | ownQueue _ => cases hs
  | ownWakeup => cases hs
  | ownTimer _ => cases hs
  | ownQuit => cases hs
  | queue _ _ => cases hs
  | timer _ _ => cases hs
  | quit _ => cases hs
  | wakeup _ => cases hs

theorem clientStep_move {s s' : EventLoop κ} {e : LoopEvent κ} (hshared : s.shared = true)
    (hs : s.clientStep e = some s') : Move s e s' := by
  unfold clientStep at hs
  split at hs
  · rename_i t functor
    split at hs
    · rename_i hc
      cases hs
      exact .queue t functor s.nextTimerSequence hshared hc
    · cases hs
  · rename_i t call
    split at hs
    · rename_i hc
      dsimp only at hs
      split at hs
      · cases hs
        exact .cancelNothing _
      · rename_i task htask
        cases hs
        exact .queue t (.timer task) _ hshared hc
    · cases hs
  · rename_i t
    split at hs
    · rename_i hc
      cases hs
      exact .quit t rfl hshared hc
    · cases hs
  · rename_i t
    split at hs
    · cases hs
    · rename_i hc
      cases hs
      obtain ⟨eventfd, ready, hw⟩ := writeWakeup_same s
      have hmove : Move s (.wakeup t) { s.writeWakeup with clients := setClient s.clients t .idle } :=
        .wakeup t hc
      rw [hw] at hmove ⊢
      exact hmove
  · cases hs

theorem step_move {s s' : EventLoop κ} {e : LoopEvent κ} (hs : step s e = some s') :
    Move s e s' := by
  have hloop : ∀ e : LoopEvent κ, (if s.own = .idle then s.loopStep e else none) = some s' →
      Move s e s' := by
    intro e h
    split at h
    · rename_i ho
      exact .loop s' ho (loopStep_move h)
    · cases h
  have hclient : ∀ e : LoopEvent κ, (if s.shared then s.clientStep e else none) = some s' →
      Move s e s' := by
    intro e h
    split at h
    · rename_i hshared
      exact clientStep_move hshared h
    · cases h
  cases e with
  | ownWakeup =>
    simp only [step] at hs
    split at hs
    · cases hs
    · rename_i ho
      cases hs
      exact .ownWakeup ho
  | ownQueue functor =>
    simp only [step] at hs
    split at hs
    · rename_i h
      cases hs
      exact .ownQueue functor rfl h.1 h.2
    · cases hs
  | ownTimer call =>
    simp only [step] at hs
    split at hs
    · rename_i h
      cases hs
      have hmove := Move.ownTimer (e := .ownTimer call) (call.task s.nextTimerSequence).toList
        (s.nextTimerSequence + call.timers) h.1 h.2
      cases htask : call.task s.nextTimerSequence <;> rw [htask] at hmove <;> exact hmove
    · cases hs
  | ownQuit =>
    simp only [step] at hs
    split at hs
    · rename_i h
      cases hs
      exact .ownQuit h.1 h.2
    · cases hs
  | queue t functor => exact hclient _ hs
  | timer t call => exact hclient _ hs
  | quit t => exact hclient _ hs
  | wakeup t => exact hclient _ hs
  | publish => exact hloop _ hs
  | reset => exact hloop _ hs
  | test => exact hloop _ hs
  | nextTimeoutMs now => exact hloop _ hs
  | epollReturn wakeup => exact hloop _ hs
  | readWakeup => exact hloop _ hs
  | handleExpiredTimers currentTime => exact hloop _ hs
  | runTimer => exact hloop _ hs
  | callPendingFunctors => exact hloop _ hs
  | swap => exact hloop _ hs
  | runFunctor => exact hloop _ hs
  | endFunctors => exact hloop _ hs
  | destroy => exact hloop _ hs

end EventLoop

end Myself
