import MyselfServer.ThreadPool

/-!
# The tasks of the worker pool

What holds of the pool at any time: where each accepted task is, which threads
there are, that no worker is gone while tasks are left, and that as many tasks
as are queued are about to be looked for while a worker waits.
-/

namespace Myself

open Machine Places

variable {τ : Type}

def WorkerThread.held : WorkerThread τ → Option τ
  | .took task => some task
  | _ => none

def WorkerThread.inside : WorkerThread τ → Option τ
  | .executing task => some task
  | _ => none

def WorkerThread.isLocking : WorkerThread τ → Nat
  | .locking => 1
  | _ => 0

@[simp]
theorem WorkerThread.held_notified (w : WorkerThread τ) : w.notified.held = w.held := by
  cases w <;> rfl

@[simp]
theorem WorkerThread.inside_notified (w : WorkerThread τ) : w.notified.inside = w.inside := by
  cases w <;> rfl

theorem WorkerThread.notified_ne_waiting (w : WorkerThread τ) : w.notified ≠ .waiting := by
  cases w <;> simp [WorkerThread.notified]

theorem WorkerThread.notified_eq_exited {w : WorkerThread τ} (h : w.notified = .exited) : w = .exited := by
  cases w <;> simp_all [WorkerThread.notified]

namespace PoolUse

def held (s : PoolUse τ) : List τ := s.pool.threads.filterMap WorkerThread.held

def inside (s : PoolUse τ) : List τ := s.pool.threads.filterMap WorkerThread.inside

def locking (s : PoolUse τ) : Nat := (s.pool.threads.map WorkerThread.isLocking).sum

/-! ## Where the tasks are -/

structure Tasks (n : Nat) (s : PoolUse τ) : Prop where
  queued : s.accepted = s.taken ++ s.pool.tasks
  taken : s.taken.Perm (s.begun ++ s.held)
  inOrder : n = 1 → s.taken = s.begun ++ s.held
  begun : s.begun.Perm (s.finished ++ s.inside)

structure Threads (n : Nat) (s : PoolUse τ) : Prop where
  count : s.pool.threadCount = n
  stopped : s.owner = .outside → s.pool.running = false → s.pool.threads = [] ∧ s.pool.tasks = []
  staffed : s.pool.running = true ∨ s.owner ≠ .outside → s.pool.threads.length = n
  stopping : s.owner ≠ .outside → s.pool.running = false
  joined : ∀ k, s.owner = .joining k → ∀ j < k, s.pool.threads[j]? = some .exited
  woken : ∀ k, s.owner = .joining k → .waiting ∉ s.pool.threads
  exits : .exited ∈ s.pool.threads → s.pool.running = false ∧ s.pool.tasks = []

def Noticed (s : PoolUse τ) : Prop :=
  .waiting ∈ s.pool.threads → s.pool.tasks.length ≤ s.locking + s.notifying

section
variable {n : Nat} {s s' : PoolUse τ} {i : Nat} {w w' : WorkerThread τ}

theorem Threads.length_eq (h : s.Threads n) (hi : s.pool.threads[i]? = some w) :
    s.pool.threads.length = n := by
  by_cases hout : s.owner = .outside
  · cases hrunning : s.pool.running with
    | true => exact h.staffed (.inl hrunning)
    | false =>
      rw [(h.stopped hout hrunning).1] at hi
      cases hi
  · exact h.staffed (.inr hout)

theorem Threads.set (h : s.Threads n) (hi : s.pool.threads[i]? = some w) (hw : w ≠ .exited)
    (hexit : w' = .exited → s.pool.running = false ∧ s.pool.tasks = [])
    (hwait : w' = .waiting → s.pool.running = true)
    (hthreads : s'.pool.threads = s.pool.threads.set i w') (hcount : s'.pool.threadCount = s.pool.threadCount)
    (hrunning : s'.pool.running = s.pool.running) (howner : s'.owner = s.owner)
    (htasks : s.pool.tasks = [] → s'.pool.tasks = []) : s'.Threads n := by
  have hlen := h.length_eq hi
  refine ⟨?_, ?_, ?_, ?_, ?_, ?_, ?_⟩
  · rw [hcount]
    exact h.count
  · intro hout hstop
    rw [howner] at hout
    rw [hrunning] at hstop
    rw [(h.stopped hout hstop).1] at hi
    cases hi
  · intro _
    rw [hthreads, List.length_set]
    exact hlen
  · rw [howner, hrunning]
    exact h.stopping
  · intro k hk j hj
    rw [howner] at hk
    have hold := h.joined k hk j hj
    have hne : i ≠ j := by
      rintro rfl
      rw [hi] at hold
      exact hw (Option.some.inj hold)
    rw [hthreads, List.getElem?_set_ne hne]
    exact hold
  · intro k hk hmem
    rw [howner] at hk
    rw [hthreads] at hmem
    rcases List.mem_or_eq_of_mem_set hmem with hmem | heq
    · exact h.woken k hk hmem
    · have hrun := hwait heq.symm
      rw [h.stopping (by rw [hk]; simp)] at hrun
      cases hrun
  · intro hmem
    rw [hthreads] at hmem
    rw [hrunning]
    rcases List.mem_or_eq_of_mem_set hmem with hmem | heq
    · exact ⟨(h.exits hmem).1, htasks (h.exits hmem).2⟩
    · exact ⟨(hexit heq.symm).1, htasks (hexit heq.symm).2⟩

theorem threads_step (hn : 0 < n) (h : s.Threads n) {e : PoolEvent τ} (hs : s.step e = some s') :
    s'.Threads n := by
  cases e with
  | start =>
    obtain ⟨howner, ⟨-, rfl⟩ | ⟨hstop, rfl, hpool⟩⟩ := start_cases hs
    · exact h
    · have hthreads : s.pool.start.1.threads = List.replicate n .locking := by
        rw [hpool, ← h.count]
        simp [(h.stopped howner hstop).1]
      have hrunning : s.pool.start.1.running = true := by rw [hpool]
      refine ⟨?_, ?_, ?_, ?_, ?_, ?_, ?_⟩
      · dsimp only
        rw [hpool]
        exact h.count
      · intro _ hfalse
        rw [hrunning] at hfalse
        cases hfalse
      · intro _
        rw [hthreads, List.length_replicate]
      · intro hne
        exact absurd howner hne
      · intro k hk
        rw [howner] at hk
        cases hk
      · intro k hk
        rw [howner] at hk
        cases hk
      · intro hmem
        rw [hthreads] at hmem
        cases List.eq_of_mem_replicate hmem
  | stop =>
    obtain ⟨howner, ⟨hrunning, rfl⟩ | ⟨-, rfl⟩⟩ := stop_cases hs
    · refine ⟨h.count, ?_, fun _ => h.staffed (.inl hrunning), fun _ => rfl, ?_, ?_, ?_⟩
      · intro hout
        cases hout
      · intro k hk
        cases hk
      · intro k hk
        cases hk
      · intro hmem
        exact ⟨rfl, (h.exits hmem).2⟩
    · exact h
  | notifyAll =>
    obtain ⟨howner, rfl⟩ := notifyAll_cases hs
    have hne : s.owner ≠ .outside := by simp [howner]
    refine ⟨h.count, ?_, ?_, fun _ => h.stopping hne, ?_, ?_, ?_⟩
    · intro hout
      cases hout
    · intro _
      rw [List.length_map]
      exact h.staffed (.inr hne)
    · intro k hk j hj
      cases hk
      cases hj
    · intro k _ hmem
      obtain ⟨w, -, hw⟩ := List.mem_map.mp hmem
      exact w.notified_ne_waiting hw
    · intro hmem
      obtain ⟨w, hw, heq⟩ := List.mem_map.mp hmem
      rw [WorkerThread.notified_eq_exited heq] at hw
      exact h.exits hw
  | join =>
    obtain ⟨k, howner, ⟨hk, rfl⟩ | ⟨hk, rfl⟩⟩ := join_cases hs
    · -- all threads have been joined, so that the queue is empty
      have hlen := h.staffed (.inr (by simp [howner]))
      have hfirst := h.joined k howner 0 (by omega)
      have hempty := (h.exits (List.mem_of_getElem? hfirst)).2
      refine ⟨h.count, fun _ _ => ⟨rfl, hempty⟩, ?_, fun hne => absurd rfl hne, ?_, ?_, ?_⟩
      · rintro (hrunning | hne)
        · rw [h.stopping (by simp [howner])] at hrunning
          cases hrunning
        · exact absurd rfl hne
      · intro k hk
        cases hk
      · intro k hk
        cases hk
      · intro hmem
        cases hmem
    · have hne : s.owner ≠ .outside := by simp [howner]
      refine ⟨h.count, ?_, fun _ => h.staffed (.inr hne), fun _ => h.stopping hne, ?_, ?_, h.exits⟩
      · intro hout
        cases hout
      · intro m hm j hj
        cases hm
        rcases Nat.lt_succ_iff_lt_or_eq.mp hj with hlt | rfl
        · exact h.joined k howner j hlt
        · exact hk
      · intro _ _
        exact h.woken k howner
  | submit task =>
    rcases submit_cases hs with ⟨hrunning, rfl⟩ | ⟨-, rfl⟩
    · refine { h with stopped := ?_, exits := ?_ }
      · intro _ hfalse
        rw [hrunning] at hfalse
        cases hfalse
      · intro hmem
        rw [(h.exits hmem).1] at hrunning
        cases hrunning
    · exact { h with }
  | notifyOne i =>
    obtain ⟨-, ⟨hi, rfl⟩ | ⟨-, rfl⟩⟩ := notifyOne_cases hs
    · exact h.set hi (by simp) (by simp) (by simp) rfl rfl rfl rfl id
    · exact { h with }
  | wake i =>
    obtain ⟨hi, rfl⟩ := wake_cases hs
    exact h.set hi (by simp) (by simp) (by simp) rfl rfl rfl rfl id
  | lock i =>
    obtain ⟨hi, ⟨task, tasks, htasks, rfl⟩ | ⟨hempty, hrunning, rfl⟩ | ⟨hempty, hstop, rfl⟩⟩ := lock_cases hs
    · exact h.set hi (by simp) (by simp) (by simp) rfl rfl rfl rfl (by simp [htasks])
    · exact h.set hi (by simp) (by simp) (fun _ => hrunning) rfl rfl rfl rfl id
    · exact h.set hi (by simp) (fun _ => ⟨hstop, hempty⟩) (by simp) rfl rfl rfl rfl id
  | call i =>
    obtain ⟨task, hi, rfl⟩ := call_cases hs
    exact h.set hi (by simp) (by simp) (by simp) rfl rfl rfl rfl id
  | finish i how =>
    obtain ⟨task, hi, rfl⟩ := finish_cases hs
    exact h.set hi (by simp) (by simp) (by simp) rfl rfl rfl rfl id

/-- When the last thread has been joined, no worker has a task. -/
theorem Threads.joined_empty (h : s.Threads n) {k : Nat} (howner : s.owner = .joining k)
    (hk : s.pool.threads.length ≤ k) : s.held = [] ∧ s.inside = [] := by
  have hall : ∀ w ∈ s.pool.threads, w = .exited := by
    intro w hw
    obtain ⟨j, hj⟩ := List.getElem?_of_mem hw
    have hlt : j < s.pool.threads.length := (List.getElem?_eq_some_iff.mp hj).1
    rw [h.joined k howner j (by omega)] at hj
    exact (Option.some.inj hj).symm
  constructor
  · refine List.filterMap_eq_nil_iff.mpr fun w hw => ?_
    rw [hall w hw]
    rfl
  · refine List.filterMap_eq_nil_iff.mpr fun w hw => ?_
    rw [hall w hw]
    rfl

/-- A worker goes on, without a task before and after. -/
theorem Tasks.set_idle (h : s.Tasks n) (hi : s.pool.threads[i]? = some w) (hw : w.held = none ∧ w.inside = none)
    (hw' : w'.held = none ∧ w'.inside = none) (hthreads : s'.pool.threads = s.pool.threads.set i w')
    (hsame : s'.accepted = s.accepted ∧ s'.taken = s.taken ∧ s'.begun = s.begun ∧ s'.finished = s.finished ∧
      s'.pool.tasks = s.pool.tasks) : s'.Tasks n := by
  obtain ⟨haccepted, htaken, hbegun, hfinished, htasks⟩ := hsame
  have hheld : s'.held = s.held := by
    rw [held, hthreads]
    exact filterMap_set_keeps hi hw.1 hw'.1
  have hinside : s'.inside = s.inside := by
    rw [inside, hthreads]
    exact filterMap_set_keeps hi hw.2 hw'.2
  refine ⟨?_, ?_, ?_, ?_⟩
  · rw [haccepted, htaken, htasks]
    exact h.queued
  · rw [htaken, hbegun, hheld]
    exact h.taken
  · rw [htaken, hbegun, hheld]
    exact h.inOrder
  · rw [hbegun, hfinished, hinside]
    exact h.begun

theorem tasks_step (ht : s.Threads n) (h : s.Tasks n) {e : PoolEvent τ} (hs : s.step e = some s') :
    s'.Tasks n := by
  cases e with
  | start =>
    obtain ⟨howner, ⟨-, rfl⟩ | ⟨hstop, rfl, hpool⟩⟩ := start_cases hs
    · exact h
    · have hheld : held { s with pool := s.pool.start.1, logged := s.logged ++ s.pool.start.2 } = s.held := by
        simp [held, hpool, List.filterMap_append, WorkerThread.held]
      refine ⟨?_, ?_, ?_, ?_⟩
      · dsimp only
        rw [hpool]
        exact h.queued
      · rw [hheld]
        exact h.taken
      · rw [hheld]
        exact h.inOrder
      · have hinside : inside { s with pool := s.pool.start.1, logged := s.logged ++ s.pool.start.2 } = s.inside := by
          simp [inside, hpool, List.filterMap_append, WorkerThread.inside]
        rw [hinside]
        exact h.begun
  | stop =>
    obtain ⟨howner, ⟨hrunning, rfl⟩ | ⟨-, rfl⟩⟩ := stop_cases hs
    · exact ⟨h.queued, h.taken, h.inOrder, h.begun⟩
    · exact h
  | notifyAll =>
    obtain ⟨howner, rfl⟩ := notifyAll_cases hs
    refine ⟨h.queued, ?_, ?_, ?_⟩
    · simpa [held, List.filterMap_map, Function.comp_def] using h.taken
    · simpa [held, List.filterMap_map, Function.comp_def] using h.inOrder
    · simpa [inside, List.filterMap_map, Function.comp_def] using h.begun
  | join =>
    obtain ⟨k, howner, ⟨hk, rfl⟩ | ⟨hk, rfl⟩⟩ := join_cases hs
    · obtain ⟨hheld, hinside⟩ := ht.joined_empty howner hk
      refine ⟨h.queued, ?_, ?_, ?_⟩
      · have hsame := h.taken
        rw [hheld] at hsame
        exact hsame
      · have hsame := h.inOrder
        rw [hheld] at hsame
        exact hsame
      · have hsame := h.begun
        rw [hinside] at hsame
        exact hsame
    · exact ⟨h.queued, h.taken, h.inOrder, h.begun⟩
  | submit task =>
    rcases submit_cases hs with ⟨hrunning, rfl⟩ | ⟨-, rfl⟩
    · refine ⟨?_, h.taken, h.inOrder, h.begun⟩
      dsimp only
      rw [h.queued, List.append_assoc]
    · exact ⟨h.queued, h.taken, h.inOrder, h.begun⟩
  | notifyOne i =>
    obtain ⟨-, ⟨hi, rfl⟩ | ⟨-, rfl⟩⟩ := notifyOne_cases hs
    · exact h.set_idle hi ⟨rfl, rfl⟩ ⟨rfl, rfl⟩ rfl ⟨rfl, rfl, rfl, rfl, rfl⟩
    · exact ⟨h.queued, h.taken, h.inOrder, h.begun⟩
  | wake i =>
    obtain ⟨hi, rfl⟩ := wake_cases hs
    exact h.set_idle hi ⟨rfl, rfl⟩ ⟨rfl, rfl⟩ rfl ⟨rfl, rfl, rfl, rfl, rfl⟩
  | lock i =>
    obtain ⟨hi, ⟨task, tasks, htasks, rfl⟩ | ⟨hempty, hrunning, rfl⟩ | ⟨hempty, hstop, rfl⟩⟩ := lock_cases hs
    · have hheld := filterMap_set_gains (b := .took task) hi (f := WorkerThread.held) rfl rfl
      have hinside := filterMap_set_keeps (b := .took task) hi (f := WorkerThread.inside) rfl rfl
      refine ⟨?_, ?_, ?_, ?_⟩
      · have hqueued := h.queued
        rw [htasks] at hqueued
        simpa using hqueued
      · calc (s.taken ++ [task]).Perm (task :: s.taken) := List.perm_append_singleton _ _
          _ |>.Perm (task :: (s.begun ++ s.held)) := h.taken.cons task
          _ |>.Perm (s.begun ++ task :: s.held) := List.perm_middle.symm
          _ |>.Perm (s.begun ++ _) := hheld.symm.append_left _
      · intro hone
        obtain ⟨hbefore, hafter⟩ := set_single (by rw [ht.length_eq hi, hone]) hi (.took task)
        have horder := h.inOrder hone
        rw [held, hbefore] at horder
        simp only [held, hafter]
        simpa [List.filterMap_cons, WorkerThread.held] using horder
      · have hsame := h.begun
        rw [inside, ← hinside] at hsame
        exact hsame
    · exact h.set_idle hi ⟨rfl, rfl⟩ ⟨rfl, rfl⟩ rfl ⟨rfl, rfl, rfl, rfl, rfl⟩
    · exact h.set_idle hi ⟨rfl, rfl⟩ ⟨rfl, rfl⟩ rfl ⟨rfl, rfl, rfl, rfl, rfl⟩
  | call i =>
    obtain ⟨task, hi, rfl⟩ := call_cases hs
    have hheld := filterMap_set_loses (b := .executing task) hi (f := WorkerThread.held) rfl rfl
    have hinside := filterMap_set_gains (b := .executing task) hi (f := WorkerThread.inside) rfl rfl
    refine ⟨h.queued, ?_, ?_, ?_⟩
    · have hmove := h.taken.trans (hheld.append_left s.begun)
      rw [List.append_cons] at hmove
      exact hmove
    · intro hone
      obtain ⟨hbefore, hafter⟩ := set_single (by rw [ht.length_eq hi, hone]) hi (.executing task)
      have horder := h.inOrder hone
      rw [held, hbefore] at horder
      simp only [held, ThreadPool.setThread, hafter]
      simpa [List.filterMap_cons, WorkerThread.held] using horder
    · calc (s.begun ++ [task]).Perm (task :: s.begun) := List.perm_append_singleton _ _
        _ |>.Perm (task :: (s.finished ++ s.inside)) := h.begun.cons task
        _ |>.Perm (s.finished ++ task :: s.inside) := List.perm_middle.symm
        _ |>.Perm (s.finished ++ _) := hinside.symm.append_left _
  | finish i how =>
    obtain ⟨task, hi, rfl⟩ := finish_cases hs
    have hheld := filterMap_set_keeps (b := .locking) hi (f := WorkerThread.held) rfl rfl
    have hinside := filterMap_set_loses (b := .locking) hi (f := WorkerThread.inside) rfl rfl
    refine ⟨h.queued, ?_, ?_, ?_⟩
    · have hsame := h.taken
      rw [held, ← hheld] at hsame
      exact hsame
    · have hsame := h.inOrder
      rw [held, ← hheld] at hsame
      exact hsame
    · have hmove := h.begun.trans (hinside.append_left s.finished)
      rw [List.append_cons] at hmove
      exact hmove

/-- Another notification or another worker on its way makes up for each task. -/
theorem Noticed.set (h : s.Noticed) (hi : s.pool.threads[i]? = some w)
    (hthreads : s'.pool.threads = s.pool.threads.set i w')
    (hwait : w' = .waiting → s'.pool.tasks = [])
    (hless : s'.pool.tasks.length + s.notifying + w.isLocking ≤
      s.pool.tasks.length + s'.notifying + w'.isLocking) : s'.Noticed := by
  intro hmem
  rw [hthreads] at hmem
  rcases List.mem_or_eq_of_mem_set hmem with hmem | heq
  · have hnoticed := h hmem
    have hsum := sum_set WorkerThread.isLocking hi w'
    rw [locking] at hnoticed
    rw [locking, hthreads]
    omega
  · rw [hwait heq.symm]
    exact Nat.zero_le _

theorem noticed_step (ht : s.Threads n) (h : s.Noticed) {e : PoolEvent τ} (hs : s.step e = some s') :
    s'.Noticed := by
  cases e with
  | start =>
    obtain ⟨howner, ⟨-, rfl⟩ | ⟨hstop, rfl, hpool⟩⟩ := start_cases hs
    · exact h
    · intro hmem
      dsimp only
      rw [hpool]
      dsimp only
      rw [(ht.stopped howner hstop).2]
      exact Nat.zero_le _
  | stop =>
    obtain ⟨howner, ⟨hrunning, rfl⟩ | ⟨-, rfl⟩⟩ := stop_cases hs
    · exact h
    · exact h
  | notifyAll =>
    obtain ⟨howner, rfl⟩ := notifyAll_cases hs
    intro hmem
    obtain ⟨w, -, hw⟩ := List.mem_map.mp hmem
    exact absurd hw w.notified_ne_waiting
  | join =>
    obtain ⟨k, howner, ⟨hk, rfl⟩ | ⟨hk, rfl⟩⟩ := join_cases hs
    · intro hmem
      cases hmem
    · exact h
  | submit task =>
    rcases submit_cases hs with ⟨hrunning, rfl⟩ | ⟨-, rfl⟩
    · intro hmem
      have hnoticed := h hmem
      rw [locking] at hnoticed
      simp only [locking, List.length_append, List.length_singleton]
      omega
    · exact h
  | notifyOne i =>
    obtain ⟨hpos, ⟨hi, rfl⟩ | ⟨hnone, rfl⟩⟩ := notifyOne_cases hs
    · refine h.set hi rfl (by simp) ?_
      simp only [ThreadPool.setThread, WorkerThread.isLocking]
      omega
    · intro hmem
      exact absurd hmem hnone
  | wake i =>
    obtain ⟨hi, rfl⟩ := wake_cases hs
    exact h.set hi rfl (by simp) (by simp [ThreadPool.setThread, WorkerThread.isLocking])
  | lock i =>
    obtain ⟨hi, ⟨task, tasks, htasks, rfl⟩ | ⟨hempty, hrunning, rfl⟩ | ⟨hempty, hstop, rfl⟩⟩ := lock_cases hs
    · refine h.set hi rfl (by simp) ?_
      simp only [htasks, List.length_cons, WorkerThread.isLocking]
      omega
    · intro _
      rw [show (s.pool.setThread i .waiting).tasks = [] from hempty]
      exact Nat.zero_le _
    · intro _
      rw [show (s.pool.setThread i .exited).tasks = [] from hempty]
      exact Nat.zero_le _
  | call i =>
    obtain ⟨task, hi, rfl⟩ := call_cases hs
    exact h.set hi rfl (by simp) (by simp [ThreadPool.setThread, WorkerThread.isLocking])
  | finish i how =>
    obtain ⟨task, hi, rfl⟩ := finish_cases hs
    exact h.set hi rfl (by simp) (by simp [ThreadPool.setThread, WorkerThread.isLocking])

structure Ok (n : Nat) (s : PoolUse τ) : Prop where
  threads : s.Threads n
  tasks : s.Tasks n
  noticed : s.Noticed

theorem ok_step (hn : 0 < n) (h : s.Ok n) {e : PoolEvent τ} (hs : s.step e = some s') : s'.Ok n :=
  ⟨threads_step hn h.threads hs, tasks_step h.threads h.tasks hs, noticed_step h.threads h.noticed hs⟩

theorem ok_create (n : Nat) (name : String) : (create n name : PoolUse τ).Ok n := by
  refine ⟨⟨rfl, fun _ _ => ⟨rfl, rfl⟩, ?_, fun hne => absurd rfl hne, ?_, ?_, ?_⟩,
    ⟨rfl, .refl _, fun _ => rfl, .refl _⟩, ?_⟩
  · rintro (hrunning | hne)
    · cases hrunning
    · exact absurd rfl hne
  · intro k hk
    cases hk
  · intro k hk
    cases hk
  · intro hmem
    cases hmem
  · intro hmem
    cases hmem

theorem Ok.of_reached {name : String} (hn : 0 < n) (h : Reached step Any (create n name) s) : s.Ok n :=
  h.invariant (I := Ok n) (ok_create n name) fun _ _ _ hi _ => ok_step hn hi

end

end PoolUse

end Myself
