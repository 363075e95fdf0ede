import Mathlib.Data.List.TakeWhile
import Mathlib.Logic.Relation

/-!
# Tasks that are taken over in rounds

Threads put numbered tasks into a list. A worker takes over the whole list,
runs what it has taken, and then looks at a flag that tells it to stop. A
thread that raises the flag while its tasks are still in the list relies on
the worker to take the list over once more before it looks: `ahead` says that
it will. If every thread that raises the flag finds it so, or has nothing in
the list, then nothing it put there is left behind (`reached_tasksRun`).
-/

namespace Rounds

inductive Note where
  | posted (thread ticket : Nat)
  | quit (thread : Nat)
  | executed (ticket : Nat)
  | returned
  deriving DecidableEq

/-- A task of no thread is the worker's own. -/
structure Task where
  ticket : Nat
  thread : Option Nat
  deriving DecidableEq

def Task.notes (task : Task) : List Note :=
  match task.thread with
  | none => []
  | some t => [.posted t task.ticket]

structure State where
  pending : List Task := []
  running : List Task := []
  ahead : Bool := false
  ended : Bool := false
  log : List Note := []

/-- The thread may raise the flag without leaving a task of its own behind. -/
def State.Safe (f : State) (t : Nat) : Prop :=
  f.ahead = true ∨ ∀ task ∈ f.pending, task.thread ≠ some t

inductive Step : State → State → Prop where
  | post (f : State) (task : Task) :
      Step f { f with pending := f.pending ++ [task], log := f.log ++ task.notes }
  | quit (f : State) (t : Nat) (h : f.Safe t) : Step f { f with log := f.log ++ [.quit t] }
  | goOn (f : State) (ho : f.ended = false) : Step f { f with ahead := true }
  | takeOver (f : State) (ho : f.ended = false) (hr : f.running = []) :
      Step f { f with pending := [], running := f.pending, ahead := false }
  | execute (f : State) (task : Task) (rest : List Task) (h : f.running = task :: rest) :
      Step f { f with running := rest, log := f.log ++ [.executed task.ticket] }
  | finish (f : State) (ho : f.ended = false) (hr : f.running = []) (ha : f.ahead = false) :
      Step f { f with ended := true, log := f.log ++ [.returned] }

abbrev Reached : State → Prop := Relation.ReflTransGen Step {}

def Promised (log : List Note) (t n : Nat) : Prop :=
  ∃ before after, log = before ++ .quit t :: after ∧ .posted t n ∈ before

def ExecutedInTime (log : List Note) (n : Nat) : Prop :=
  .executed n ∈ log.takeWhile (· ≠ .returned)

def TasksRun (log : List Note) : Prop :=
  .returned ∈ log → ∀ t n, Promised log t n → ExecutedInTime log n

theorem promised_append {log notes : List Note} {t n : Nat} (h : .quit t ∉ notes)
    (hp : Promised (log ++ notes) t n) : Promised log t n := by
  obtain ⟨before, after, heq, hin⟩ := hp
  rcases List.append_eq_append_iff.mp heq with ⟨mid, rfl, hmid⟩ | ⟨mid, rfl, hmid⟩
  · exact absurd (hmid ▸ List.mem_append_right mid (List.mem_cons_self ..)) h
  · cases mid with
    | nil =>
      rw [List.nil_append] at hmid
      exact absurd (hmid ▸ List.mem_cons_self ..) h
    | cons x mid =>
      simp only [List.cons_append, List.cons.injEq] at hmid
      obtain ⟨rfl, -⟩ := hmid
      exact ⟨before, mid, rfl, hin⟩

theorem promised_quit {log : List Note} {t u n : Nat} (hp : Promised (log ++ [.quit u]) t n) :
    Promised log t n ∨ t = u ∧ .posted t n ∈ log := by
  obtain ⟨before, after, heq, hin⟩ := hp
  rcases List.eq_nil_or_concat after with rfl | ⟨after, last, rfl⟩
  · obtain ⟨rfl, hlast⟩ := List.append_inj' heq rfl
    simp only [List.cons.injEq, Note.quit.injEq, and_true] at hlast
    exact Or.inr ⟨hlast.symm, hin⟩
  · rw [List.concat_eq_append, ← List.cons_append, ← List.append_assoc] at heq
    exact Or.inl ⟨before, after, (List.append_inj' heq rfl).1, hin⟩

theorem executedInTime_append {log : List Note} {n : Nat} (notes : List Note)
    (h : ExecutedInTime log n) : ExecutedInTime (log ++ notes) n := by
  unfold ExecutedInTime at *
  rw [List.takeWhile_append]
  split
  · exact List.mem_append_left _ (List.takeWhile_subset _ h)
  · exact h

structure Inv (f : State) : Prop where
  posted : ∀ t n, .posted t n ∈ f.log →
    .executed n ∈ f.log ∨ ⟨n, some t⟩ ∈ f.running ∨ ⟨n, some t⟩ ∈ f.pending
  promised : ∀ t n, Promised f.log t n →
    .executed n ∈ f.log ∨ ⟨n, some t⟩ ∈ f.running ∨ f.ahead = true ∧ ⟨n, some t⟩ ∈ f.pending
  running : .returned ∉ f.log → f.ended = false
  ended : .returned ∈ f.log → f.ended = true ∧ f.running = [] ∧ f.ahead = false
  inTime : ∀ n, .executed n ∈ f.log → ExecutedInTime f.log n

theorem inv_init : Inv {} where
  posted _ _ h := absurd h List.not_mem_nil
  promised t n h := by
    obtain ⟨before, after, heq, -⟩ := h
    simp at heq
  running _ := rfl
  ended h := absurd h List.not_mem_nil
  inTime _ h := absurd h List.not_mem_nil

theorem Inv.post {f : State} (h : Inv f) (task : Task) :
    Inv { f with pending := f.pending ++ [task], log := f.log ++ task.notes } := by
  have hnotes : ∀ x ∈ task.notes, ∃ t, task.thread = some t ∧ x = .posted t task.ticket := by
    intro x hx
    unfold Task.notes at hx
    split at hx
    · cases hx
    · rename_i t ht
      exact ⟨t, ht, List.mem_singleton.mp hx⟩
  have hpending : ∀ x : Task, x ∈ f.pending → x ∈ f.pending ++ [task] :=
    fun _ hx => List.mem_append_left _ hx
  refine
    { posted := fun t n hp => ?_, promised := fun t n hp => ?_, running := fun hr => ?_
      ended := fun hr => ?_, inTime := fun n he => ?_ }
  · rcases List.mem_append.mp hp with hp | hp
    · exact (h.posted t n hp).imp (List.mem_append_left _) (Or.imp_right (hpending _))
    · obtain ⟨u, hu, heq⟩ := hnotes _ hp
      cases heq
      refine Or.inr (Or.inr (List.mem_append_right _ (List.mem_singleton.mpr ?_)))
      cases task
      cases hu
      rfl
  · have hquit : .quit t ∉ task.notes := by
      intro hq
      obtain ⟨u, -, heq⟩ := hnotes _ hq
      cases heq
    exact (h.promised t n (promised_append hquit hp)).imp (List.mem_append_left _)
      (Or.imp_right (And.imp_right (hpending _)))
  · exact h.running fun hin => hr (List.mem_append_left _ hin)
  · rcases List.mem_append.mp hr with hr | hr
    · exact h.ended hr
    · obtain ⟨u, -, heq⟩ := hnotes _ hr
      cases heq
  · rcases List.mem_append.mp he with he | he
    · exact executedInTime_append _ (h.inTime n he)
    · obtain ⟨u, -, heq⟩ := hnotes _ he
      cases heq

theorem Inv.quit {f : State} (h : Inv f) {t : Nat} (hsafe : f.Safe t) :
    Inv { f with log := f.log ++ [.quit t] } where
  posted u n hp := by
    rcases List.mem_append.mp hp with hp | hp
    · exact (h.posted u n hp).imp_left (List.mem_append_left _)
    · cases List.mem_singleton.mp hp
  promised u n hp := by
    rcases promised_quit hp with hp | ⟨rfl, hposted⟩
    · exact (h.promised u n hp).imp_left (List.mem_append_left _)
    -- what this thread has in the list is taken over once more
    · rcases h.posted u n hposted with he | hr | hpending
      · exact Or.inl (List.mem_append_left _ he)
      · exact Or.inr (Or.inl hr)
      · refine Or.inr (Or.inr ⟨?_, hpending⟩)
        rcases hsafe with ha | hnone
        · exact ha
        · exact absurd rfl (hnone _ hpending)
  running hr := h.running fun hin => hr (List.mem_append_left _ hin)
  ended hr := by
    rcases List.mem_append.mp hr with hr | hr
    · exact h.ended hr
    · cases List.mem_singleton.mp hr
  inTime n he := by
    rcases List.mem_append.mp he with he | he
    · exact executedInTime_append _ (h.inTime n he)
    · cases List.mem_singleton.mp he

theorem Inv.takeOver {f : State} (h : Inv f) (ho : f.ended = false) (hr : f.running = []) :
    Inv { f with pending := [], running := f.pending, ahead := false } where
  posted t n hp := by
    have := h.posted t n hp
    simp only [hr, List.not_mem_nil, false_or] at this
    exact this.imp_right Or.inl
  promised t n hp := by
    have := h.promised t n hp
    simp only [hr, List.not_mem_nil, false_or] at this
    exact this.imp_right fun hpending => Or.inl hpending.2
  running := h.running
  ended hin := by
    have := (h.ended hin).1
    rw [ho] at this
    cases this
  inTime := h.inTime

theorem Inv.execute {f : State} (h : Inv f) {task : Task} {rest : List Task}
    (hr : f.running = task :: rest) :
    Inv { f with running := rest, log := f.log ++ [.executed task.ticket] } := by
  have hopen : .returned ∉ f.log := by
    intro hin
    have := (h.ended hin).2.1
    rw [hr] at this
    cases this
  have hnow : ExecutedInTime (f.log ++ [.executed task.ticket]) task.ticket := by
    have hall : ∀ x ∈ f.log ++ [.executed task.ticket], decide (x ≠ Note.returned) = true := by
      intro x hx
      apply decide_eq_true
      rintro rfl
      rcases List.mem_append.mp hx with hx | hx
      · exact hopen hx
      · cases List.mem_singleton.mp hx
    rw [ExecutedInTime, List.takeWhile_eq_self_iff.mpr hall]
    exact List.mem_append_right _ (List.mem_singleton.mpr rfl)
  -- a task that was running runs still or is this one
  have hrun : ∀ {t n : Nat}, ⟨n, some t⟩ ∈ f.running →
      .executed n ∈ f.log ++ [.executed task.ticket] ∨ (⟨n, some t⟩ : Task) ∈ rest := by
    intro t n hin
    rw [hr] at hin
    rcases List.mem_cons.mp hin with heq | hin
    · exact Or.inl (List.mem_append_right _ (List.mem_singleton.mpr (by rw [← heq])))
    · exact Or.inr hin
  refine
    { posted := fun t n hp => ?_, promised := fun t n hp => ?_, running := fun hin => ?_
      ended := fun hin => ?_, inTime := fun n he => ?_ }
  · rcases List.mem_append.mp hp with hp | hp
    · rcases h.posted t n hp with he | hin | hpending
      · exact Or.inl (List.mem_append_left _ he)
      · exact (hrun hin).imp_right Or.inl
      · exact Or.inr (Or.inr hpending)
    · cases List.mem_singleton.mp hp
  · have hquit : .quit t ∉ [Note.executed task.ticket] := by simp
    rcases h.promised t n (promised_append hquit hp) with he | hin | hpending
    · exact Or.inl (List.mem_append_left _ he)
    · exact (hrun hin).imp_right Or.inl
    · exact Or.inr (Or.inr hpending)
  · exact h.running fun hr => hin (List.mem_append_left _ hr)
  · rcases List.mem_append.mp hin with hin | hin
    · exact absurd hin hopen
    · cases List.mem_singleton.mp hin
  · rcases List.mem_append.mp he with he | he
    · exact executedInTime_append _ (h.inTime n he)
    · cases List.mem_singleton.mp he
      exact hnow

theorem Inv.finish {f : State} (h : Inv f) (hr : f.running = []) (ha : f.ahead = false) :
    Inv { f with ended := true, log := f.log ++ [.returned] } where
  posted t n hp := by
    rcases List.mem_append.mp hp with hp | hp
    · exact (h.posted t n hp).imp_left (List.mem_append_left _)
    · cases List.mem_singleton.mp hp
  promised t n hp := by
    have hquit : .quit t ∉ [Note.returned] := by simp
    exact (h.promised t n (promised_append hquit hp)).imp_left (List.mem_append_left _)
  running hin := absurd (List.mem_append_right _ (List.mem_singleton.mpr rfl)) hin
  ended _ := ⟨rfl, hr, ha⟩
  inTime n he := by
    rcases List.mem_append.mp he with he | he
    · exact executedInTime_append _ (h.inTime n he)
    · cases List.mem_singleton.mp he

theorem inv_step {f f' : State} (h : Inv f) (hs : Step f f') : Inv f' := by
  cases hs with
  | post task => exact h.post task
  | quit t hsafe => exact h.quit hsafe
  | goOn ho =>
    have hopen : .returned ∉ f.log := by
      intro hin
      have := (h.ended hin).1
      rw [ho] at this
      cases this
    refine { h with promised := fun t n hp => ?_, ended := fun hin => absurd hin hopen }
    exact (h.promised t n hp).imp_right (Or.imp_right (And.imp_left fun _ => rfl))
  | takeOver ho hr => exact h.takeOver ho hr
  | execute task rest hr => exact h.execute hr
  | finish ho hr ha => exact h.finish hr ha

/-- **Nothing is left behind.** -/
theorem reached_tasksRun {f : State} (h : Reached f) : TasksRun f.log := by
  have hinv : Inv f := by
    induction h with
    | refl => exact inv_init
    | tail _ hs ih => exact inv_step ih hs
  intro hover t n hp
  obtain ⟨-, hrunning, hahead⟩ := hinv.ended hover
  have := hinv.promised t n hp
  simp only [hrunning, hahead, List.not_mem_nil, Bool.false_eq_true, false_and, or_false] at this
  exact hinv.inTime n this

end Rounds
