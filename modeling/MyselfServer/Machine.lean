import Mathlib.Data.List.Basic

/-!
# Machines and the states they reach

A machine is a partial step function. Whoever lets it run picks the event;
an event that cannot happen in a state has no next state. `Reached` collects
the states of the runs whose steps all meet a condition, and
`Reached.invariant` is the only induction over runs.
-/

namespace Machine

section
variable {σ ε : Type}

inductive Reached (step : σ → ε → Option σ) (C : σ → ε → Prop) (s₀ : σ) : σ → Prop where
  | start : Reached step C s₀ s₀
  | next {s s' : σ} {e : ε} (h : Reached step C s₀ s) (hc : C s e) (hs : step s e = some s') :
      Reached step C s₀ s'

def Any (_ : σ) (_ : ε) : Prop := True

def run (step : σ → ε → Option σ) : σ → List ε → Option σ
  | s, [] => some s
  | s, e :: es =>
    match step s e with
    | none => none
    | some s' => run step s' es

/-- Every step of the run meets the condition. -/
def Meets (step : σ → ε → Option σ) (C : σ → ε → Prop) : σ → List ε → Prop
  | _, [] => True
  | s, e :: es => C s e ∧ ∀ s', step s e = some s' → Meets step C s' es

def runIf (step : σ → ε → Option σ) (C : σ → ε → Prop) [∀ s e, Decidable (C s e)] :
    σ → List ε → Option σ
  | s, [] => some s
  | s, e :: es =>
    if C s e then
      match step s e with
      | none => none
      | some s' => runIf step C s' es
    else none

variable {step : σ → ε → Option σ} {C : σ → ε → Prop} {s₀ s s' : σ}

theorem Reached.invariant {I : σ → Prop} (h₀ : I s₀)
    (hstep : ∀ s e s', I s → C s e → step s e = some s' → I s') (h : Reached step C s₀ s) : I s := by
  induction h with
  | start => exact h₀
  | next _ hc hs ih => exact hstep _ _ _ ih hc hs

theorem Reached.trans (h : Reached step C s₀ s) (h' : Reached step C s s') :
    Reached step C s₀ s' := by
  induction h' with
  | start => exact h
  | next _ hc hs ih => exact ih.next hc hs

/-- Every step of the run is one of the other machine, so the run is one of it. -/
theorem Reached.simulated {σ' ε' : Type} {step' : σ' → ε' → Option σ'} {C' : σ' → ε' → Prop} {R : σ → σ' → Prop}
    {a₀ : σ'} (h₀ : R s₀ a₀)
    (hstep : ∀ s e s' a, R s a → Reached step' C' a₀ a → C s e → step s e = some s' →
      ∃ e' a', C' a e' ∧ step' a e' = some a' ∧ R s' a') (h : Reached step C s₀ s) :
    ∃ a, Reached step' C' a₀ a ∧ R s a := by
  induction h with
  | start => exact ⟨a₀, .start, h₀⟩
  | next _ hc hs ih =>
    obtain ⟨a, ha, hr⟩ := ih
    obtain ⟨e', a', hc', hs', hr'⟩ := hstep _ _ _ a hr ha hc hs
    exact ⟨a', ha.next hc' hs', hr'⟩

theorem Reached.of_run {es : List ε} (h : run step s₀ es = some s) (hm : Meets step C s₀ es) :
    Reached step C s₀ s := by
  induction es generalizing s₀ with
  | nil =>
    cases h
    exact .start
  | cons e es ih =>
    simp only [run] at h
    split at h
    · cases h
    · rename_i s₁ hs
      have hone : Reached step C s₀ s₁ := Reached.start.next hm.1 hs
      exact hone.trans (ih h (hm.2 s₁ hs))

theorem Reached.of_runIf [∀ s e, Decidable (C s e)] {es : List ε}
    (h : runIf step C s₀ es = some s) : Reached step C s₀ s := by
  induction es generalizing s₀ with
  | nil =>
    cases h
    exact .start
  | cons e es ih =>
    simp only [runIf] at h
    split at h
    · rename_i hc
      split at h
      · cases h
      · rename_i s₁ hs
        have hone : Reached step C s₀ s₁ := Reached.start.next hc hs
        exact hone.trans (ih h)
    · cases h

theorem Reached.of_run_any {es : List ε} (h : run step s₀ es = some s) :
    Reached step Any s₀ s := by
  apply Reached.of_run h
  clear h
  induction es generalizing s₀ with
  | nil => trivial
  | cons e es ih => exact ⟨trivial, fun s' _ => ih⟩

theorem run_append {es es' : List ε} :
    run step s₀ (es ++ es') = (run step s₀ es).bind fun s => run step s es' := by
  induction es generalizing s₀ with
  | nil => rfl
  | cons e es ih =>
    simp only [List.cons_append, run]
    cases step s₀ e with
    | none => rfl
    | some s₁ => exact ih

theorem Meets.of_forall {P : ε → Prop} {es : List ε} (h : ∀ e ∈ es, P e) :
    Meets step (fun _ e => P e) s₀ es := by
  induction es generalizing s₀ with
  | nil => trivial
  | cons e es ih =>
    rw [List.forall_mem_cons] at h
    exact ⟨h.1, fun s' _ => ih h.2⟩

/-- Events that use up a rank are no more than the rank. -/
theorem countP_le_rank (rank : σ → Nat) (w : ε → Bool) {I : σ → Prop}
    (hkeep : ∀ s e s', I s → step s e = some s' → I s')
    (hstep : ∀ s e s', I s → C s e → step s e = some s' → rank s' + (if w e then 1 else 0) ≤ rank s)
    {es : List ε} (h₀ : I s₀) (hm : Meets step C s₀ es) (h : run step s₀ es = some s) :
    es.countP w + rank s ≤ rank s₀ := by
  induction es generalizing s₀ with
  | nil =>
    cases h
    simp
  | cons e es ih =>
    simp only [run] at h
    split at h
    · cases h
    · rename_i s₁ hs
      have hone := hstep _ _ _ h₀ hm.1 hs
      have hrest := ih (hkeep _ _ _ h₀ hs) (hm.2 s₁ hs) h
      rw [List.countP_cons]
      omega

end

/-! ## Loops that switch -/

section
variable {σ α : Type} {g : σ → α → σ} {Q S : σ → Prop} {R : α → Prop}

/-- A loop body that keeps `Q` until it meets an element of the kind `R`, and
`S` from then on. -/
structure Switches (g : σ → α → σ) (Q S : σ → Prop) (R : α → Prop) : Prop where
  stays : ∀ s x, Q s → ¬ R x → Q (g s x)
  switches : ∀ s x, Q s → R x → S (g s x)
  keeps : ∀ s x, S s → S (g s x)

theorem Switches.foldl (h : Switches g Q S R) :
    Switches (fun s xs => List.foldl g s xs) Q S fun xs => ∃ x ∈ xs, R x where
  stays s xs := by
    induction xs generalizing s with
    | nil => exact fun hq _ => hq
    | cons x xs ih =>
      intro hq hn
      apply ih
      · exact h.stays s x hq fun hr => hn ⟨x, List.mem_cons_self .., hr⟩
      · rintro ⟨y, hy, hr⟩
        exact hn ⟨y, List.mem_cons_of_mem _ hy, hr⟩
  switches s xs := by
    induction xs generalizing s with
    | nil => rintro - ⟨x, hx, -⟩; cases hx
    | cons x xs ih =>
      rintro hq ⟨y, hy, hr⟩
      by_cases hx : R x
      · exact List.foldlRecOn xs g (h.switches s x hq hx) fun s hs y _ => h.keeps s y hs
      · rcases List.mem_cons.mp hy with rfl | hy
        · exact absurd hr hx
        · exact ih (g s x) (h.stays s x hq hx) ⟨y, hy, hr⟩
  keeps s xs hs := List.foldlRecOn xs g hs fun s hs y _ => h.keeps s y hs

end

end Machine
