import MyselfServer.Machine
import MyselfServer.Places

/-!
# The worker pool

`ThreadPool` as a machine: the sections under the mutex are single steps, and
so are a wait on the condition variable, a wake-up, which may be spurious, and
the beginning and the end of a task. `start` and `stop` are called by one
thread that is no worker, `submit` by any thread; between its section and its
`notify_one` other threads may run. A task is a value: what it does besides
its end is not seen here.
-/

namespace Myself

variable {τ : Type}

/-- A worker is about to take the mutex, waits for a notification, has a task
from the queue, is in it, or has left `workerLoop`. -/
inductive WorkerThread (τ : Type) where
  | locking
  | waiting
  | took (task : τ)
  | executing (task : τ)
  | exited

def WorkerThread.notified : WorkerThread τ → WorkerThread τ
  | .waiting => .locking
  | w => w

inductive TaskEnd where
  | returned
  | threw (what : String)
  | threwUnknown

structure ThreadPool (τ : Type) where
  threadCount : Nat
  name : String
  threads : List (WorkerThread τ) := []
  tasks : List τ := []
  running : Bool := false

namespace ThreadPool

def start (p : ThreadPool τ) : ThreadPool τ × List String :=
  if p.running then (p, [])
  else
    ({ p with
        running := true
        threads := p.threads ++ List.replicate p.threadCount .locking },
      ["worker pool " ++ p.name ++ " started with " ++ toString p.threadCount ++ " thread(s)"])

def submit (p : ThreadPool τ) (task : τ) : Except String (ThreadPool τ) :=
  if p.running then .ok { p with tasks := p.tasks ++ [task] }
  else .error ("thread pool [" ++ p.name ++ "] is not running")

def setThread (p : ThreadPool τ) (i : Nat) (w : WorkerThread τ) : ThreadPool τ :=
  { p with threads := p.threads.set i w }

/-- The section under the mutex at the top of `workerLoop`: the test of the
wait and what follows it, with the task that is taken. -/
def workerSection (p : ThreadPool τ) (i : Nat) : ThreadPool τ × Option τ :=
  if !p.running || !p.tasks.isEmpty then
    match p.tasks with
    | [] => if !p.running then (p.setThread i .exited, none) else (p.setThread i .locking, none)
    | task :: tasks => ({ p with tasks := tasks }.setThread i (.took task), some task)
  else (p.setThread i .waiting, none)

def logTaskEnd (p : ThreadPool τ) : TaskEnd → List String
  | .returned => []
  | .threw what => ["worker pool " ++ p.name ++ " task failed: " ++ what]
  | .threwUnknown => ["worker pool " ++ p.name ++ " task failed: unknown exception"]

end ThreadPool

/-- The thread that calls `start` and `stop`: outside of them, or in `stop`
before `notify_all` or about to join the thread number `k`. -/
inductive PoolOwner where
  | outside
  | notifying
  | joining (k : Nat)
  deriving DecidableEq

/-- `notifying` counts the threads between the two halves of `submit`. Of the
tasks: `accepted` are those whose `submit` did not throw, `taken` those from
the queue, each in the order of the mutex; `begun` and `finished` are in the
order in which they began and ended. -/
structure PoolUse (τ : Type) where
  pool : ThreadPool τ
  owner : PoolOwner := .outside
  notifying : Nat := 0
  accepted : List τ := []
  taken : List τ := []
  begun : List τ := []
  finished : List τ := []
  thrown : List String := []
  logged : List String := []

/-- `lock`, `call` and `finish` are steps of the worker number `i`; `wake` is
spurious. -/
inductive PoolEvent (τ : Type) where
  | start
  | stop
  | notifyAll
  | join
  | submit (task : τ)
  | notifyOne (i : Nat)
  | wake (i : Nat)
  | lock (i : Nat)
  | call (i : Nat)
  | finish (i : Nat) (how : TaskEnd)

namespace PoolUse

def create (threadCount : Nat) (name : String) : PoolUse τ := { pool := { threadCount, name } }

def anyWaiting (s : PoolUse τ) : Bool :=
  s.pool.threads.any fun w => match w with
    | .waiting => true
    | _ => false

def step (s : PoolUse τ) : PoolEvent τ → Option (PoolUse τ)
  | .start =>
    match s.owner with
    | .outside =>
      some { s with pool := s.pool.start.1, logged := s.logged ++ s.pool.start.2 }
    | _ => none
  | .stop =>
    match s.owner with
    | .outside =>
      if s.pool.running then
        some { s with pool := { s.pool with running := false }, owner := .notifying }
      else some s
    | _ => none
  | .notifyAll =>
    match s.owner with
    | .notifying =>
      some { s with
        pool := { s.pool with threads := s.pool.threads.map WorkerThread.notified }
        owner := .joining 0 }
    | _ => none
  | .join =>
    match s.owner with
    | .joining k =>
      match s.pool.threads[k]? with
      | none => some { s with pool := { s.pool with threads := [] }, owner := .outside }
      | some .exited => some { s with owner := .joining (k + 1) }
      | some _ => none
    | _ => none
  | .submit task =>
    match s.pool.submit task with
    | .error what => some { s with thrown := s.thrown ++ [what] }
    | .ok pool =>
      some { s with pool, notifying := s.notifying + 1, accepted := s.accepted ++ [task] }
  | .notifyOne i =>
    if s.notifying = 0 then none
    else
      match s.pool.threads[i]? with
      | some .waiting => some { s with pool := s.pool.setThread i .locking, notifying := s.notifying - 1 }
      | _ => if s.anyWaiting then none else some { s with notifying := s.notifying - 1 }
  | .wake i =>
    match s.pool.threads[i]? with
    | some .waiting => some { s with pool := s.pool.setThread i .locking }
    | _ => none
  | .lock i =>
    match s.pool.threads[i]? with
    | some .locking =>
      let r := s.pool.workerSection i
      some { s with pool := r.1, taken := s.taken ++ r.2.toList }
    | _ => none
  | .call i =>
    match s.pool.threads[i]? with
    | some (.took task) =>
      some { s with pool := s.pool.setThread i (.executing task), begun := s.begun ++ [task] }
    | _ => none
  | .finish i how =>
    match s.pool.threads[i]? with
    | some (.executing task) =>
      some { s with
        pool := s.pool.setThread i .locking
        finished := s.finished ++ [task]
        logged := s.logged ++ s.pool.logTaskEnd how }
    | _ => none

variable {s s' : PoolUse τ} {i : Nat}

/-- What a worker does under the mutex. -/
theorem lock_cases (hs : s.step (.lock i) = some s') :
    s.pool.threads[i]? = some .locking ∧
      ((∃ task tasks, s.pool.tasks = task :: tasks ∧
          s' = { s with
            pool := { s.pool with tasks := tasks, threads := s.pool.threads.set i (.took task) }
            taken := s.taken ++ [task] }) ∨
        (s.pool.tasks = [] ∧ s.pool.running = true ∧ s' = { s with pool := s.pool.setThread i .waiting }) ∨
        (s.pool.tasks = [] ∧ s.pool.running = false ∧ s' = { s with pool := s.pool.setThread i .exited })) := by
  simp only [step] at hs
  split at hs
  · rename_i hi
    refine ⟨hi, ?_⟩
    cases hs
    cases htasks : s.pool.tasks with
    | nil =>
      cases hrunning : s.pool.running with
      | true => exact .inr (.inl (by simp [ThreadPool.workerSection, htasks, hrunning]))
      | false => exact .inr (.inr (by simp [ThreadPool.workerSection, htasks, hrunning]))
    | cons task tasks =>
      exact .inl ⟨task, tasks, rfl, by simp [ThreadPool.workerSection, htasks, ThreadPool.setThread]⟩
  · cases hs

theorem call_cases (hs : s.step (.call i) = some s') :
    ∃ task, s.pool.threads[i]? = some (.took task) ∧
      s' = { s with pool := s.pool.setThread i (.executing task), begun := s.begun ++ [task] } := by
  simp only [step] at hs
  split at hs
  · rename_i task hi
    cases hs
    exact ⟨task, hi, rfl⟩
  · cases hs

theorem finish_cases {how : TaskEnd} (hs : s.step (.finish i how) = some s') :
    ∃ task, s.pool.threads[i]? = some (.executing task) ∧
      s' = { s with
        pool := s.pool.setThread i .locking
        finished := s.finished ++ [task]
        logged := s.logged ++ s.pool.logTaskEnd how } := by
  simp only [step] at hs
  split at hs
  · rename_i task hi
    cases hs
    exact ⟨task, hi, rfl⟩
  · cases hs

theorem notifyOne_cases (hs : s.step (.notifyOne i) = some s') :
    0 < s.notifying ∧
      ((s.pool.threads[i]? = some .waiting ∧
          s' = { s with pool := s.pool.setThread i .locking, notifying := s.notifying - 1 }) ∨
        (.waiting ∉ s.pool.threads ∧ s' = { s with notifying := s.notifying - 1 })) := by
  simp only [step] at hs
  split at hs
  · cases hs
  · rename_i hpos
    refine ⟨Nat.pos_of_ne_zero hpos, ?_⟩
    split at hs
    · rename_i hi
      cases hs
      exact .inl ⟨hi, rfl⟩
    · split at hs
      · cases hs
      · rename_i hnone
        cases hs
        refine .inr ⟨fun hw => hnone ?_, rfl⟩
        exact List.any_eq_true.mpr ⟨_, hw, rfl⟩

theorem wake_cases (hs : s.step (.wake i) = some s') :
    s.pool.threads[i]? = some .waiting ∧ s' = { s with pool := s.pool.setThread i .locking } := by
  simp only [step] at hs
  split at hs
  · rename_i hi
    cases hs
    exact ⟨hi, rfl⟩
  · cases hs

theorem submit_cases {task : τ} (hs : s.step (.submit task) = some s') :
    (s.pool.running = true ∧
        s' = { s with
          pool := { s.pool with tasks := s.pool.tasks ++ [task] }
          notifying := s.notifying + 1
          accepted := s.accepted ++ [task] }) ∨
      (s.pool.running = false ∧
        s' = { s with thrown := s.thrown ++ ["thread pool [" ++ s.pool.name ++ "] is not running"] }) := by
  cases hrunning : s.pool.running with
  | true => exact .inl ⟨rfl, by simpa [step, ThreadPool.submit, hrunning] using hs.symm⟩
  | false => exact .inr ⟨rfl, by simpa [step, ThreadPool.submit, hrunning] using hs.symm⟩

theorem start_cases (hs : s.step .start = some s') :
    s.owner = .outside ∧
      ((s.pool.running = true ∧ s' = s) ∨
        (s.pool.running = false ∧
          s' = { s with
            pool := s.pool.start.1
            logged := s.logged ++ s.pool.start.2 } ∧
          s.pool.start.1 = { s.pool with
            running := true
            threads := s.pool.threads ++ List.replicate s.pool.threadCount .locking })) := by
  simp only [step] at hs
  split at hs
  · rename_i howner
    cases hs
    refine ⟨howner, ?_⟩
    cases hrunning : s.pool.running with
    | true => exact .inl ⟨rfl, by simp [ThreadPool.start, hrunning]⟩
    | false => exact .inr ⟨rfl, rfl, by simp [ThreadPool.start, hrunning]⟩
  · cases hs

theorem stop_cases (hs : s.step .stop = some s') :
    s.owner = .outside ∧
      ((s.pool.running = true ∧
          s' = { s with pool := { s.pool with running := false }, owner := .notifying }) ∨
        (s.pool.running = false ∧ s' = s)) := by
  simp only [step] at hs
  split at hs
  · rename_i howner
    refine ⟨howner, ?_⟩
    split at hs
    · rename_i hrunning
      cases hs
      exact .inl ⟨hrunning, rfl⟩
    · rename_i hrunning
      cases hs
      exact .inr ⟨Bool.eq_false_iff.mpr hrunning, rfl⟩
  · cases hs

theorem notifyAll_cases (hs : s.step .notifyAll = some s') :
    s.owner = .notifying ∧
      s' = { s with
        pool := { s.pool with threads := s.pool.threads.map WorkerThread.notified }
        owner := .joining 0 } := by
  simp only [step] at hs
  split at hs
  · rename_i howner
    cases hs
    exact ⟨howner, rfl⟩
  · cases hs

theorem join_cases (hs : s.step .join = some s') :
    ∃ k, s.owner = .joining k ∧
      ((s.pool.threads.length ≤ k ∧
          s' = { s with pool := { s.pool with threads := [] }, owner := .outside }) ∨
        (s.pool.threads[k]? = some .exited ∧ s' = { s with owner := .joining (k + 1) })) := by
  simp only [step] at hs
  split at hs
  · rename_i k howner
    refine ⟨k, howner, ?_⟩
    split at hs
    · rename_i hk
      cases hs
      exact .inl ⟨List.getElem?_eq_none_iff.mp hk, rfl⟩
    · rename_i hk
      cases hs
      exact .inr ⟨hk, rfl⟩
    · cases hs
  · cases hs

end PoolUse

end Myself
