import MyselfServer.PoolTasks

/-!
# Runs of the worker pool

No accepted task waits forever: as long as one is not finished some worker can
go on or a notification is on its way, and the workers make only so many steps
before a given task is taken. The same holds of a call of `stop`.
-/

namespace Myself

open Machine Places

variable {τ : Type}

def PoolEvent.isWork : PoolEvent τ → Bool
  | .lock _ => true
  | .call _ => true
  | .finish _ _ => true
  | _ => false

def PoolEvent.isStopping : PoolEvent τ → Bool
  | .notifyAll => true
  | .join => true
  | e => e.isWork

/-- As many steps are left until the worker looks for a task. -/
def WorkerThread.busy : WorkerThread τ → Nat
  | .took _ => 2
  | .executing _ => 1
  | _ => 0

/-- As many steps are left until the worker exits, once it finds no task. -/
def WorkerThread.left : WorkerThread τ → Nat
  | .exited => 0
  | w => w.busy + 1

@[simp]
theorem WorkerThread.busy_notified (w : WorkerThread τ) : w.notified.busy = w.busy := by
  cases w <;> rfl

@[simp]
theorem WorkerThread.left_notified (w : WorkerThread τ) : w.notified.left = w.left := by
  cases w <;> rfl

namespace PoolUse

/-- No more steps of workers than this come before the task number `k` is taken. -/
def rank (k : Nat) (s : PoolUse τ) : Nat :=
  3 * (k + 1 - s.taken.length) + (s.pool.threads.map WorkerThread.busy).sum

def ownerRank (n : Nat) : PoolOwner → Nat
  | .outside => 0
  | .notifying => n + 2
  | .joining k => n + 1 - k

/-- No more steps of workers and of `stop` than this come before it returns. -/
def stopRank (s : PoolUse τ) : Nat :=
  4 * s.pool.tasks.length + (s.pool.threads.map WorkerThread.left).sum + ownerRank s.pool.threadCount s.owner

section
variable {n k : Nat} {s s' : PoolUse τ} {i : Nat} {e : PoolEvent τ} {w : WorkerThread τ}

theorem accepted_step (hs : s.step e = some s') : s.accepted <+: s'.accepted := by
  cases e with
  | start => obtain ⟨-, ⟨-, rfl⟩ | ⟨-, rfl, -⟩⟩ := start_cases hs <;> exact List.prefix_rfl
  | stop => obtain ⟨-, ⟨-, rfl⟩ | ⟨-, rfl⟩⟩ := stop_cases hs <;> exact List.prefix_rfl
  | notifyAll =>
    obtain ⟨-, rfl⟩ := notifyAll_cases hs
    exact List.prefix_rfl
  | join => obtain ⟨k, -, ⟨-, rfl⟩ | ⟨-, rfl⟩⟩ := join_cases hs <;> exact List.prefix_rfl
  | submit task =>
    rcases submit_cases hs with ⟨-, rfl⟩ | ⟨-, rfl⟩
    · exact List.prefix_append _ _
    · exact List.prefix_rfl
  | notifyOne i => obtain ⟨-, ⟨-, rfl⟩ | ⟨-, rfl⟩⟩ := notifyOne_cases hs <;> exact List.prefix_rfl
  | wake i =>
    obtain ⟨-, rfl⟩ := wake_cases hs
    exact List.prefix_rfl
  | lock i => obtain ⟨-, ⟨_, _, -, rfl⟩ | ⟨-, -, rfl⟩ | ⟨-, -, rfl⟩⟩ := lock_cases hs <;> exact List.prefix_rfl
  | call i =>
    obtain ⟨task, -, rfl⟩ := call_cases hs
    exact List.prefix_rfl
  | finish i how =>
    obtain ⟨task, -, rfl⟩ := finish_cases hs
    exact List.prefix_rfl

/-- Every step of a worker brings the task number `k` closer, and no other step
moves it away. -/
theorem rank_step (h : s.Ok n) (htaken : s.taken.length ≤ k) (hk : k < s.accepted.length)
    (hs : s.step e = some s') : rank k s' + (if e.isWork then 1 else 0) ≤ rank k s := by
  have htasks : s.pool.tasks ≠ [] := by
    intro hempty
    rw [h.tasks.queued, hempty, List.append_nil] at hk
    omega
  cases e with
  | start =>
    obtain ⟨howner, ⟨-, rfl⟩ | ⟨hstop, -, -⟩⟩ := start_cases hs
    · exact Nat.le_refl _
    · exact absurd (h.threads.stopped howner hstop).2 htasks
  | stop =>
    obtain ⟨-, ⟨-, rfl⟩ | ⟨-, rfl⟩⟩ := stop_cases hs
    · exact Nat.le_refl _
    · exact Nat.le_refl _
  | notifyAll =>
    obtain ⟨-, rfl⟩ := notifyAll_cases hs
    simp [rank, PoolEvent.isWork, List.map_map, Function.comp_def]
  | join =>
    obtain ⟨_, -, ⟨-, rfl⟩ | ⟨-, rfl⟩⟩ := join_cases hs
    · simp [rank, PoolEvent.isWork]
    · exact Nat.le_refl _
  | submit task =>
    rcases submit_cases hs with ⟨-, rfl⟩ | ⟨-, rfl⟩
    · exact Nat.le_refl _
    · exact Nat.le_refl _
  | notifyOne i =>
    obtain ⟨-, ⟨hi, rfl⟩ | ⟨-, rfl⟩⟩ := notifyOne_cases hs
    · have hsum := sum_set WorkerThread.busy hi .locking
      simp only [rank, ThreadPool.setThread, PoolEvent.isWork, WorkerThread.busy, Bool.false_eq_true,
        if_false] at hsum ⊢
      omega
    · exact Nat.le_refl _
  | wake i =>
    obtain ⟨hi, rfl⟩ := wake_cases hs
    have hsum := sum_set WorkerThread.busy hi .locking
    simp only [rank, ThreadPool.setThread, PoolEvent.isWork, WorkerThread.busy, Bool.false_eq_true,
      if_false] at hsum ⊢
    omega
  | lock i =>
    obtain ⟨hi, ⟨task, tasks, -, rfl⟩ | ⟨hempty, -, -⟩ | ⟨hempty, -, -⟩⟩ := lock_cases hs
    · have hsum := sum_set WorkerThread.busy hi (.took task)
      simp only [rank, PoolEvent.isWork, WorkerThread.busy, List.length_append, List.length_singleton,
        if_true] at hsum ⊢
      omega
    · exact absurd hempty htasks
    · exact absurd hempty htasks
  | call i =>
    obtain ⟨task, hi, rfl⟩ := call_cases hs
    have hsum := sum_set WorkerThread.busy hi (.executing task)
    simp only [rank, ThreadPool.setThread, PoolEvent.isWork, WorkerThread.busy, if_true] at hsum ⊢
    omega
  | finish i how =>
    obtain ⟨task, hi, rfl⟩ := finish_cases hs
    have hsum := sum_set WorkerThread.busy hi .locking
    simp only [rank, ThreadPool.setThread, PoolEvent.isWork, WorkerThread.busy, if_true] at hsum ⊢
    omega

theorem taken_within (hn : 0 < n) {es : List (PoolEvent τ)} (h : s.Ok n) (hk : k < s.accepted.length)
    (hm : Meets step (fun s _ => s.taken.length ≤ k) s es) (hrun : run step s es = some s') :
    es.countP PoolEvent.isWork ≤ rank k s := by
  have hcount := countP_le_rank (rank k) PoolEvent.isWork (I := fun s => s.Ok n ∧ k < s.accepted.length) ?_ ?_
    ⟨h, hk⟩ hm hrun
  · omega
  · intro s e s' hi hs
    exact ⟨ok_step hn hi.1 hs, Nat.lt_of_lt_of_le hi.2 (accepted_step hs).length_le⟩
  · intro s e s' hi hc hs
    exact rank_step hi.1 hc hi.2 hs

/-- While `stop` is on its way, every step of it and of the workers brings it
closer to its end. -/
theorem stopRank_step (h : s.Ok n) (howner : s.owner ≠ .outside) (hs : s.step e = some s') :
    stopRank s' + (if e.isStopping then 1 else 0) ≤ stopRank s := by
  have hstop := h.threads.stopping howner
  have hcount := h.threads.count
  have hlen := h.threads.staffed (.inr howner)
  cases e with
  | start => exact absurd (start_cases hs).1 howner
  | stop => exact absurd (stop_cases hs).1 howner
  | notifyAll =>
    obtain ⟨hnotifying, rfl⟩ := notifyAll_cases hs
    have hsum : ((s.pool.threads.map WorkerThread.notified).map WorkerThread.left).sum =
        (s.pool.threads.map WorkerThread.left).sum := by
      simp [List.map_map, Function.comp_def]
    simp only [stopRank, PoolEvent.isStopping, ownerRank, hnotifying, hsum, if_true]
    omega
  | join =>
    obtain ⟨k, hjoining, ⟨hk, rfl⟩ | ⟨hk, rfl⟩⟩ := join_cases hs
    · have hle : k ≤ n := by
        by_contra hgt
        have hnone := h.threads.joined k hjoining n (by omega)
        rw [List.getElem?_eq_none (by omega)] at hnone
        cases hnone
      simp only [stopRank, PoolEvent.isStopping, ownerRank, hjoining, hcount, List.map_nil, List.sum_nil, if_true]
      omega
    · have hlt := (List.getElem?_eq_some_iff.mp hk).1
      simp only [stopRank, PoolEvent.isStopping, ownerRank, hjoining, hcount, if_true]
      omega
  | submit task =>
    rcases submit_cases hs with ⟨hrunning, -⟩ | ⟨-, rfl⟩
    · rw [hstop] at hrunning
      cases hrunning
    · exact Nat.le_refl _
  | notifyOne i =>
    obtain ⟨-, ⟨hi, rfl⟩ | ⟨-, rfl⟩⟩ := notifyOne_cases hs
    · have hsum := sum_set WorkerThread.left hi .locking
      simp only [stopRank, ThreadPool.setThread, PoolEvent.isStopping, PoolEvent.isWork, WorkerThread.left,
        WorkerThread.busy, Bool.false_eq_true, if_false] at hsum ⊢
      omega
    · exact Nat.le_refl _
  | wake i =>
    obtain ⟨hi, rfl⟩ := wake_cases hs
    have hsum := sum_set WorkerThread.left hi .locking
    simp only [stopRank, ThreadPool.setThread, PoolEvent.isStopping, PoolEvent.isWork, WorkerThread.left,
      WorkerThread.busy, Bool.false_eq_true, if_false] at hsum ⊢
    omega
  | lock i =>
    obtain ⟨hi, ⟨task, tasks, htasks, rfl⟩ | ⟨-, hrunning, -⟩ | ⟨-, -, rfl⟩⟩ := lock_cases hs
    · have hsum := sum_set WorkerThread.left hi (.took task)
      simp only [stopRank, PoolEvent.isStopping, PoolEvent.isWork, WorkerThread.left, WorkerThread.busy, htasks,
        List.length_cons, if_true] at hsum ⊢
      omega
    · rw [hstop] at hrunning
      cases hrunning
    · have hsum := sum_set WorkerThread.left hi .exited
      simp only [stopRank, ThreadPool.setThread, PoolEvent.isStopping, PoolEvent.isWork, WorkerThread.left,
        WorkerThread.busy, if_true] at hsum ⊢
      omega
  | call i =>
    obtain ⟨task, hi, rfl⟩ := call_cases hs
    have hsum := sum_set WorkerThread.left hi (.executing task)
    simp only [stopRank, ThreadPool.setThread, PoolEvent.isStopping, PoolEvent.isWork, WorkerThread.left,
      WorkerThread.busy, if_true] at hsum ⊢
    omega
  | finish i how =>
    obtain ⟨task, hi, rfl⟩ := finish_cases hs
    have hsum := sum_set WorkerThread.left hi .locking
    simp only [stopRank, ThreadPool.setThread, PoolEvent.isStopping, PoolEvent.isWork, WorkerThread.left,
      WorkerThread.busy, if_true] at hsum ⊢
    omega

theorem stop_within (hn : 0 < n) {es : List (PoolEvent τ)} (h : s.Ok n)
    (hm : Meets step (fun s _ => s.owner ≠ .outside) s es) (hrun : run step s es = some s') :
    es.countP PoolEvent.isStopping ≤ stopRank s := by
  have hcount := countP_le_rank stopRank PoolEvent.isStopping (I := Ok n) ?_ ?_ h hm hrun
  · omega
  · exact fun _ _ _ hi hs => ok_step hn hi hs
  · exact fun _ _ _ hi hc hs => stopRank_step hi hc hs

/-! ## Nobody waits for nothing -/

/-- A worker that neither waits nor has exited can go on. -/
theorem work_enabled (hi : s.pool.threads[i]? = some w) (hwait : w ≠ .waiting) (hexit : w ≠ .exited) :
    ∃ e : PoolEvent τ, e.isWork = true ∧ (s.step e).isSome = true := by
  cases w with
  | locking => exact ⟨.lock i, rfl, by simp [step, hi]⟩
  | waiting => exact absurd rfl hwait
  | took task => exact ⟨.call i, rfl, by simp [step, hi]⟩
  | executing task => exact ⟨.finish i .returned, rfl, by simp [step, hi]⟩
  | exited => exact absurd rfl hexit

def CanWork (s : PoolUse τ) : Prop :=
  ∃ e : PoolEvent τ, (e.isWork = true ∨ ∃ i, e = .notifyOne i ∧ s.pool.threads[i]? = some .waiting) ∧
    (s.step e).isSome = true

theorem canWork_queued (hn : 0 < n) (h : s.Ok n) (htasks : s.pool.tasks ≠ []) : s.CanWork := by
  have hlen : s.pool.threads.length = n := by
    apply h.threads.staffed
    by_contra hnone
    push Not at hnone
    exact htasks (h.threads.stopped hnone.2 (Bool.eq_false_iff.mpr hnone.1)).2
  have hexit : ∀ w ∈ s.pool.threads, w ≠ .exited := by
    rintro w hw rfl
    exact htasks (h.threads.exits hw).2
  by_cases hall : ∀ w ∈ s.pool.threads, w = .waiting
  · -- all workers wait, so that the task's notification is still to come
    have hfirst : s.pool.threads[0]? = some .waiting := by
      have hlt : 0 < s.pool.threads.length := by omega
      rw [List.getElem?_eq_getElem hlt, hall _ (List.getElem_mem hlt)]
    have hnone : s.locking = 0 := by
      refine List.sum_eq_zero fun x hx => ?_
      obtain ⟨w, hw, rfl⟩ := List.mem_map.mp hx
      rw [hall w hw]
      rfl
    have hnoticed := h.noticed (List.mem_of_getElem? hfirst)
    have hpos := List.length_pos_iff.mpr htasks
    have hnotifying : s.notifying ≠ 0 := by omega
    exact ⟨.notifyOne 0, .inr ⟨0, rfl, hfirst⟩, by simp [step, hnotifying, hfirst]⟩
  · push Not at hall
    obtain ⟨w, hw, hwait⟩ := hall
    obtain ⟨i, hi⟩ := List.getElem?_of_mem hw
    obtain ⟨e, he, hs⟩ := work_enabled hi hwait (hexit w hw)
    exact ⟨e, .inl he, hs⟩

/-- As long as an accepted task has not finished. -/
theorem canWork_unfinished (hn : 0 < n) (h : s.Ok n) (hless : s.finished.length < s.accepted.length) :
    s.CanWork := by
  by_cases htasks : s.pool.tasks = []
  · have htaken := h.tasks.taken.length_eq
    have hbegun := h.tasks.begun.length_eq
    rw [h.tasks.queued, htasks, List.append_nil] at hless
    rw [List.length_append] at htaken hbegun
    have hbusy : s.held ≠ [] ∨ s.inside ≠ [] := by
      by_contra hnone
      push Not at hnone
      rw [hnone.1] at htaken
      rw [hnone.2] at hbegun
      simp only [List.length_nil] at htaken hbegun
      omega
    have hsome : ∃ w ∈ s.pool.threads, w ≠ .waiting ∧ w ≠ .exited := by
      rcases hbusy with hheld | hinside
      · obtain ⟨task, htask⟩ := List.exists_mem_of_ne_nil _ hheld
        obtain ⟨w, hw, heq⟩ := List.mem_filterMap.mp htask
        refine ⟨w, hw, ?_, ?_⟩ <;> rintro rfl <;> cases heq
      · obtain ⟨task, htask⟩ := List.exists_mem_of_ne_nil _ hinside
        obtain ⟨w, hw, heq⟩ := List.mem_filterMap.mp htask
        refine ⟨w, hw, ?_, ?_⟩ <;> rintro rfl <;> cases heq
    obtain ⟨w, hw, hwait, hexit⟩ := hsome
    obtain ⟨i, hi⟩ := List.getElem?_of_mem hw
    obtain ⟨e, he, hs⟩ := work_enabled hi hwait hexit
    exact ⟨e, .inl he, hs⟩
  · exact canWork_queued hn h htasks

theorem stopping_enabled (h : s.Ok n) (howner : s.owner ≠ .outside) :
    ∃ e : PoolEvent τ, e.isStopping = true ∧ (s.step e).isSome = true := by
  cases hphase : s.owner with
  | outside => exact absurd hphase howner
  | notifying => exact ⟨.notifyAll, rfl, by simp [step, hphase]⟩
  | joining k =>
    cases hk : s.pool.threads[k]? with
    | none => exact ⟨.join, rfl, by simp [step, hphase, hk]⟩
    | some w =>
      by_cases hexit : w = .exited
      · exact ⟨.join, rfl, by simp [step, hphase, hk, hexit]⟩
      · have hwait : w ≠ .waiting := by
          rintro rfl
          exact h.threads.woken k hphase (List.mem_of_getElem? hk)
        obtain ⟨e, he, hs⟩ := work_enabled hk hwait hexit
        refine ⟨e, ?_, hs⟩
        cases e <;> simp_all [PoolEvent.isStopping, PoolEvent.isWork]

end

/-! ## Every task once -/

section
variable {n : Nat} {name : String} {s : PoolUse τ}

/-- Whatever the threads do: the accepted tasks are taken from the queue in the
order of their `submit`s, and each is begun once by the worker that took it;
when `stop` has returned all have finished; outside of a running pool `submit`
throws; and neither a task nor `stop` waits forever. -/
theorem every_task_once (hn : 0 < n) (h : Reached step Any (create n name) s) :
    (s.accepted = s.taken ++ s.pool.tasks ∧ s.taken.Perm (s.begun ++ s.held) ∧
        (n = 1 → s.taken = s.begun ++ s.held)) ∧
      (s.owner = .outside → s.pool.running = false → s.accepted.Perm s.begun ∧ s.accepted.Perm s.finished) ∧
      (∀ task s', s.pool.running = false → s.step (.submit task) = some s' →
        s' = { s with thrown := s.thrown ++ ["thread pool [" ++ s.pool.name ++ "] is not running"] }) ∧
      (s.finished.length < s.accepted.length → s.CanWork) ∧
      (∀ k < s.accepted.length, ∀ es s', run step s es = some s' →
        Meets step (fun s _ => s.taken.length ≤ k) s es → es.countP PoolEvent.isWork ≤ rank k s) ∧
      (s.owner ≠ .outside → (∃ e : PoolEvent τ, e.isStopping = true ∧ (s.step e).isSome = true) ∧
        ∀ es s', run step s es = some s' → Meets step (fun s _ => s.owner ≠ .outside) s es →
          es.countP PoolEvent.isStopping ≤ stopRank s) := by
  have hok := Ok.of_reached hn h
  refine ⟨⟨hok.tasks.queued, hok.tasks.taken, hok.tasks.inOrder⟩, ?_, ?_, canWork_unfinished hn hok, ?_, ?_⟩
  · intro howner hstop
    obtain ⟨hthreads, htasks⟩ := hok.threads.stopped howner hstop
    have hheld : s.held = [] := by rw [held, hthreads]; rfl
    have hinside : s.inside = [] := by rw [inside, hthreads]; rfl
    have hbegun := hok.tasks.taken
    have hfinished := hok.tasks.begun
    rw [hheld, List.append_nil] at hbegun
    rw [hinside, List.append_nil] at hfinished
    rw [hok.tasks.queued, htasks, List.append_nil]
    exact ⟨hbegun, hbegun.trans hfinished⟩
  · intro task s' hstop hs
    rcases submit_cases hs with ⟨hrunning, -⟩ | ⟨-, heq⟩
    · rw [hstop] at hrunning
      cases hrunning
    · exact heq
  · intro k hk es s' hrun hm
    exact taken_within hn hok hk hm hrun
  · intro howner
    exact ⟨stopping_enabled hok howner, fun es s' hrun hm => stop_within hn hok hm hrun⟩

end

def overtaking : List (PoolEvent Nat) :=
  [.start, .submit 1, .submit 2, .notifyOne 0, .lock 0, .lock 1, .call 1, .call 0]

theorem every_task_once_overtaking :
    ∃ s, run step (create 2 "worker") overtaking = some s ∧ s.accepted = s.taken ++ s.pool.tasks := by
  have hrun : run step (create 2 "worker") overtaking = some _ := rfl
  exact ⟨_, hrun, (every_task_once (by decide) (.of_run_any hrun)).1.1⟩

/-- Between the queue and its task a worker does not hold the mutex. -/
theorem begun_out_of_order :
    ∃ s, run step (create 2 "worker") overtaking = some s ∧ s.accepted = [1, 2] ∧ s.begun = [2, 1] :=
  ⟨_, rfl, rfl, rfl⟩

end PoolUse

end Myself
