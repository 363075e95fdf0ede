import Mathlib.Data.List.Basic

/-!
# Loops over unread input

A parser that is fed in pieces works in rounds on its state and on the input
nobody has read yet. `run` repeats a round until it returns. A round is
`Resumable` when what it does on some input it also does on that input with
more behind it; `run_resumable` lifts this to the whole loop, and
`feedAll_eq` says that such a loop does not see where its input was cut.
-/

namespace Stream

/-- What one round does: go round again, leave the loop for the phase after
it, wait for more input, or return with a verdict. -/
inductive Step (σ α : Type) where
  | next (s : σ) (rest : List α)
  | moved (s : σ) (rest : List α)
  | more (s : σ) (rest : List α)
  | done (s : σ) (rest : List α)
  | bad (s : σ) (rest : List α)

abbrev Round (σ α : Type) := σ → List α → Step σ α

section
variable {σ α ω : Type}

def runFuel (f : Round σ α) : Nat → Round σ α
  | 0, s, b => .more s b
  | n + 1, s, b =>
    match f s b with
    | .next s' r => runFuel f n s' r
    | o => o

/-- The rounds of `f` until it returns; `μ` bounds how many there can be. -/
def run (f : Round σ α) (μ : σ → List α → Nat) : Round σ α :=
  fun s b => runFuel f (μ s b + 1) s b

/-- Going round again makes the bound smaller, so the fuel of `run` is enough. -/
def Decreases (f : Round σ α) (μ : σ → List α → Nat) : Prop :=
  ∀ s b s' r, f s b = .next s' r → μ s' r < μ s b

theorem runFuel_eq {f : Round σ α} {μ : σ → List α → Nat} (hd : Decreases f μ) :
    ∀ (n m : Nat) (s : σ) (b : List α), μ s b < n → μ s b < m → runFuel f n s b = runFuel f m s b
  | 0, _, _, _, hn, _ => absurd hn (Nat.not_lt_zero _)
  | _, 0, _, _, _, hm => absurd hm (Nat.not_lt_zero _)
  | n + 1, m + 1, s, b, hn, hm => by
    simp only [runFuel]
    cases hf : f s b with
    | next s' r =>
      have := hd s b s' r hf
      exact runFuel_eq hd n m s' r (by omega) (by omega)
    | moved _ _ => rfl
    | more _ _ => rfl
    | done _ _ => rfl
    | bad _ _ => rfl

theorem run_eq {f : Round σ α} {μ : σ → List α → Nat} (hd : Decreases f μ) (s : σ) (b : List α) :
    run f μ s b = match f s b with
      | .next s' r => run f μ s' r
      | o => o := by
  unfold run
  rw [runFuel]
  cases hf : f s b with
  | next s' r =>
    have := hd s b s' r hf
    exact runFuel_eq hd _ _ s' r this (Nat.lt_succ_self _)
  | moved _ _ => rfl
  | more _ _ => rfl
  | done _ _ => rfl
  | bad _ _ => rfl

section
variable {f : Round σ α} {μ : σ → List α → Nat} (hd : Decreases f μ) {s s' : σ} {b r : List α}
include hd

theorem run_next (h : f s b = .next s' r) : run f μ s b = run f μ s' r := by
  rw [run_eq hd, h]

theorem run_stop (h : ∀ s' r, f s b ≠ .next s' r) : run f μ s b = f s b := by
  rw [run_eq hd]
  cases hf : f s b with
  | next s₁ r₁ => exact absurd hf (h s₁ r₁)
  | moved _ _ => rfl
  | more _ _ => rfl
  | done _ _ => rfl
  | bad _ _ => rfl

theorem run_moved (h : f s b = .moved s' r) : run f μ s b = .moved s' r := by
  rw [run_eq hd, h]

theorem run_more (h : f s b = .more s' r) : run f μ s b = .more s' r := by
  rw [run_eq hd, h]

theorem run_done (h : f s b = .done s' r) : run f μ s b = .done s' r := by
  rw [run_eq hd, h]

theorem run_bad (h : f s b = .bad s' r) : run f μ s b = .bad s' r := by
  rw [run_eq hd, h]

end

theorem run_induction {f : Round σ α} {μ : σ → List α → Nat} (hd : Decreases f μ)
    {P : σ → List α → Prop}
    (h : ∀ s b, (∀ s' r, f s b = .next s' r → P s' r) → P s b) : ∀ s b, P s b := by
  have key : ∀ n s b, μ s b < n → P s b := by
    intro n
    induction n with
    | zero => intro s b hn; exact absurd hn (Nat.not_lt_zero _)
    | succ n ih =>
      intro s b hn
      refine h s b fun s' r hf => ih s' r ?_
      have := hd s b s' r hf
      omega
  exact fun s b => key _ s b (Nat.lt_succ_self _)

theorem run_not_next {f : Round σ α} {μ : σ → List α → Nat} (hd : Decreases f μ) :
    ∀ (s : σ) (b : List α) (s' : σ) (r : List α), run f μ s b ≠ .next s' r := by
  refine run_induction hd fun s b ih s' r h => ?_
  rw [run_eq hd] at h
  cases hf : f s b with
  | next s₁ r₁ => rw [hf] at h; exact ih s₁ r₁ hf s' r h
  | moved _ _ => rw [hf] at h; cases h
  | more _ _ => rw [hf] at h; cases h
  | done _ _ => rw [hf] at h; cases h
  | bad _ _ => rw [hf] at h; cases h

def Step.rest : Step σ α → List α
  | .next _ r => r
  | .moved _ r => r
  | .more _ r => r
  | .done _ r => r
  | .bad _ r => r

theorem run_shrinks {f : Round σ α} {μ : σ → List α → Nat} (hd : Decreases f μ)
    (h : ∀ s b, (f s b).rest.length ≤ b.length) (s : σ) (b : List α) :
    (run f μ s b).rest.length ≤ b.length := by
  induction s, b using run_induction hd with | h s b ih =>
  have hb := h s b
  rw [run_eq hd]
  cases hf : f s b with
  | next s' r =>
    rw [hf] at hb
    exact Nat.le_trans (ih s' r hf) hb
  | moved _ _ => rw [hf] at hb; exact hb
  | more _ _ => rw [hf] at hb; exact hb
  | done _ _ => rw [hf] at hb; exact hb
  | bad _ _ => rw [hf] at hb; exact hb

/-- A property that rounds keep when they go on or wait holds where the loop waits. -/
theorem run_more_inv {f : Round σ α} {μ : σ → List α → Nat} (hd : Decreases f μ) {I : σ → Prop}
    (hnext : ∀ s b s' r, I s → f s b = .next s' r → I s')
    (hmore : ∀ s b s' r, I s → f s b = .more s' r → I s') {s s' : σ} {b r : List α} (hs : I s)
    (hr : run f μ s b = .more s' r) : I s' := by
  induction s, b using run_induction hd with | h s b ih =>
  rw [run_eq hd] at hr
  cases hf : f s b with
  | next s₁ r₁ => rw [hf] at hr; exact ih s₁ r₁ hf (hnext s b s₁ r₁ hs hf) hr
  | more s₁ r₁ => rw [hf] at hr; cases hr; exact hmore s b _ _ hs hf
  | moved _ _ => rw [hf] at hr; cases hr
  | done _ _ => rw [hf] at hr; cases hr
  | bad _ _ => rw [hf] at hr; cases hr

def Step.state : Step σ α → σ
  | .next s _ => s
  | .moved s _ => s
  | .more s _ => s
  | .done s _ => s
  | .bad s _ => s

/-- What every round keeps the loop keeps, however it ends. -/
theorem run_inv {f : Round σ α} {μ : σ → List α → Nat} (hd : Decreases f μ) {I : σ → Prop}
    (h : ∀ s b, I s → I (f s b).state) (s : σ) (b : List α) (hs : I s) : I (run f μ s b).state := by
  induction s, b using run_induction hd with | h s b ih =>
  have hI := h s b hs
  rw [run_eq hd]
  cases hf : f s b with
  | next s' r =>
    rw [hf] at hI
    exact ih s' r hf hI
  | moved _ _ => rw [hf] at hI; exact hI
  | more _ _ => rw [hf] at hI; exact hI
  | done _ _ => rw [hf] at hI; exact hI
  | bad _ _ => rw [hf] at hI; exact hI

/-- The loop returns what its last round does, and what its rounds keep when
they go on holds before that round. -/
theorem run_last {f : Round σ α} {μ : σ → List α → Nat} (hd : Decreases f μ)
    {I : σ → List α → Prop} (hnext : ∀ s b s' r, I s b → f s b = .next s' r → I s' r) (s : σ)
    (b : List α) (hs : I s b) : ∃ s₁ b₁, I s₁ b₁ ∧ run f μ s b = f s₁ b₁ := by
  induction s, b using run_induction hd with | h s b ih =>
  cases hf : f s b with
  | next s' r =>
    obtain ⟨s₁, b₁, hi, hrun⟩ := ih s' r hf (hnext s b s' r hs hf)
    exact ⟨s₁, b₁, hi, (run_next hd hf).trans hrun⟩
  | moved _ _ => exact ⟨s, b, hs, (run_moved hd hf).trans hf.symm⟩
  | more _ _ => exact ⟨s, b, hs, (run_more hd hf).trans hf.symm⟩
  | done _ _ => exact ⟨s, b, hs, (run_done hd hf).trans hf.symm⟩
  | bad _ _ => exact ⟨s, b, hs, (run_bad hd hf).trans hf.symm⟩

/-- A loop is done where one of its rounds is. -/
theorem run_done_of {f : Round σ α} {μ : σ → List α → Nat} (hd : Decreases f μ) {s s' : σ}
    {b r : List α} (h : run f μ s b = .done s' r) : ∃ s₁ b₁, f s₁ b₁ = .done s' r := by
  induction s, b using run_induction hd with | h s b ih =>
  rw [run_eq hd] at h
  cases hf : f s b with
  | next s₁ r₁ => rw [hf] at h; exact ih s₁ r₁ hf h
  | done _ _ => rw [hf] at h; cases h; exact ⟨s, b, hf⟩
  | moved _ _ => rw [hf] at h; cases h
  | more _ _ => rw [hf] at h; cases h
  | bad _ _ => rw [hf] at h; cases h

/-! ## Resuming -/

/-- More input behind what a round has seen changes nothing of what it did.
After a rejection only the observation `obs` is kept. -/
structure Resumable (obs : σ → ω) (f : Round σ α) : Prop where
  next : ∀ {s b s' r} (c : List α), f s b = .next s' r → f s (b ++ c) = .next s' (r ++ c)
  moved : ∀ {s b s' r} (c : List α), f s b = .moved s' r → f s (b ++ c) = .moved s' (r ++ c)
  done : ∀ {s b s' r} (c : List α), f s b = .done s' r → f s (b ++ c) = .done s' (r ++ c)
  bad : ∀ {s b s' r} (c : List α), f s b = .bad s' r →
    ∃ s'' r', f s (b ++ c) = .bad s'' r' ∧ obs s'' = obs s'
  more : ∀ {s b s' r} (c : List α), f s b = .more s' r → f s (b ++ c) = f s' (r ++ c)

def Step.append (c : List α) : Step σ α → Step σ α
  | .next s r => .next s (r ++ c)
  | .moved s r => .moved s (r ++ c)
  | .more s r => .more s (r ++ c)
  | .done s r => .done s (r ++ c)
  | .bad s r => .bad s (r ++ c)

inductive Resumes (obs : σ → ω) (f : Round σ α) (s : σ) (b c : List α) : Prop
  | same (hm : ∀ s' r, f s b ≠ .more s' r) (h : f s (b ++ c) = (f s b).append c)
  | bad (s' s'' : σ) (r r' : List α) (hf : f s b = .bad s' r) (h : f s (b ++ c) = .bad s'' r')
      (ho : obs s'' = obs s')
  | more (s' : σ) (r : List α) (hf : f s b = .more s' r) (h : f s (b ++ c) = f s' (r ++ c))

theorem Resumable.of_resumes {obs : σ → ω} {f : Round σ α} (h : ∀ s b c, Resumes obs f s b c) :
    Resumable obs f where
  next {s b s' r} c hf := by
    rcases h s b c with ⟨_, hs⟩ | ⟨_, _, _, _, hb, _, _⟩ | ⟨_, _, hm, _⟩
    · rw [hs, hf]; rfl
    · rw [hf] at hb; cases hb
    · rw [hf] at hm; cases hm
  moved {s b s' r} c hf := by
    rcases h s b c with ⟨_, hs⟩ | ⟨_, _, _, _, hb, _, _⟩ | ⟨_, _, hm, _⟩
    · rw [hs, hf]; rfl
    · rw [hf] at hb; cases hb
    · rw [hf] at hm; cases hm
  done {s b s' r} c hf := by
    rcases h s b c with ⟨_, hs⟩ | ⟨_, _, _, _, hb, _, _⟩ | ⟨_, _, hm, _⟩
    · rw [hs, hf]; rfl
    · rw [hf] at hb; cases hb
    · rw [hf] at hm; cases hm
  bad {s b s' r} c hf := by
    rcases h s b c with ⟨_, hs⟩ | ⟨_, s'', _, r', hb, hb', ho⟩ | ⟨_, _, hm, _⟩
    · exact ⟨s', r ++ c, by rw [hs, hf]; rfl, rfl⟩
    · rw [hf] at hb; cases hb; exact ⟨s'', r', hb', ho⟩
    · rw [hf] at hm; cases hm
  more {s b s' r} c hf := by
    rcases h s b c with ⟨hn, _⟩ | ⟨_, _, _, _, hb, _, _⟩ | ⟨_, _, hm, hs⟩
    · exact absurd hf (hn s' r)
    · rw [hf] at hb; cases hb
    · rw [hf] at hm; cases hm; exact hs

theorem Resumable.resumes {obs : σ → ω} {f : Round σ α} (h : Resumable obs f) (s : σ)
    (b c : List α) : Resumes obs f s b c := by
  cases hf : f s b with
  | next s' r => exact .same (by simp [hf]) (by rw [h.next c hf, hf]; rfl)
  | moved s' r => exact .same (by simp [hf]) (by rw [h.moved c hf, hf]; rfl)
  | done s' r => exact .same (by simp [hf]) (by rw [h.done c hf, hf]; rfl)
  | bad s' r =>
    obtain ⟨s'', r', hb, ho⟩ := h.bad c hf
    exact .bad s' s'' r r' hf hb ho
  | more s' r => exact .more s' r hf (h.more c hf)

theorem run_resumable {obs : σ → ω} {f : Round σ α} {μ : σ → List α → Nat} (hd : Decreases f μ)
    (h : Resumable obs f) : Resumable obs (run f μ) where
  next c hr := absurd hr (run_not_next hd _ _ _ _)
  moved {s b s' r} c hr := by
    induction s, b using run_induction hd with | h s b ih =>
    rw [run_eq hd] at hr
    cases hf : f s b with
    | next s₁ r₁ =>
      rw [hf] at hr
      rw [run_next hd (h.next c hf)]
      exact ih s₁ r₁ hf hr
    | moved s₁ r₁ =>
      rw [hf] at hr
      cases hr
      exact run_moved hd (h.moved c hf)
    | more _ _ => rw [hf] at hr; cases hr
    | done _ _ => rw [hf] at hr; cases hr
    | bad _ _ => rw [hf] at hr; cases hr
  done {s b s' r} c hr := by
    induction s, b using run_induction hd with | h s b ih =>
    rw [run_eq hd] at hr
    cases hf : f s b with
    | next s₁ r₁ =>
      rw [hf] at hr
      rw [run_next hd (h.next c hf)]
      exact ih s₁ r₁ hf hr
    | moved _ _ => rw [hf] at hr; cases hr
    | done s₁ r₁ =>
      rw [hf] at hr
      cases hr
      exact run_done hd (h.done c hf)
    | more _ _ => rw [hf] at hr; cases hr
    | bad _ _ => rw [hf] at hr; cases hr
  bad {s b s' r} c hr := by
    induction s, b using run_induction hd with | h s b ih =>
    rw [run_eq hd] at hr
    cases hf : f s b with
    | next s₁ r₁ =>
      rw [hf] at hr
      rw [run_next hd (h.next c hf)]
      exact ih s₁ r₁ hf hr
    | bad s₁ r₁ =>
      rw [hf] at hr
      cases hr
      obtain ⟨s₂, r₂, hb, ho⟩ := h.bad c hf
      exact ⟨s₂, r₂, run_bad hd hb, ho⟩
    | moved _ _ => rw [hf] at hr; cases hr
    | more _ _ => rw [hf] at hr; cases hr
    | done _ _ => rw [hf] at hr; cases hr
  more {s b s' r} c hr := by
    induction s, b using run_induction hd with | h s b ih =>
    rw [run_eq hd] at hr
    cases hf : f s b with
    | next s₁ r₁ =>
      rw [hf] at hr
      rw [run_next hd (h.next c hf)]
      exact ih s₁ r₁ hf hr
    | more s₁ r₁ =>
      rw [hf] at hr
      cases hr
      -- the loop stopped where its round did, and takes that round again
      rw [run_eq hd, h.more c hf, ← run_eq hd]
    | moved _ _ => rw [hf] at hr; cases hr
    | done _ _ => rw [hf] at hr; cases hr
    | bad _ _ => rw [hf] at hr; cases hr

/-! ## Feeding a loop in chunks -/

/-- A fed loop: waiting with unread input, or stopped for good. -/
inductive Feed (σ α ω : Type) where
  | live (s : σ) (unread : List α)
  | dead (o : ω)

def feed (obs : σ → ω) (f : Round σ α) : Feed σ α ω → List α → Feed σ α ω
  | .live s b, c =>
    match f s (b ++ c) with
    | .next s' r => .live s' r
    | .moved s' r => .live s' r
    | .more s' r => .live s' r
    | .done s' r => .live s' r
    | .bad s' _ => .dead (obs s')
  | .dead o, _ => .dead o

def Feed.Holds (I : σ → Prop) (J : ω → Prop) : Feed σ α ω → Prop
  | .live s _ => I s
  | .dead o => J o

/-- What every call of the loop keeps holds after all chunks. -/
theorem feedAll_inv {obs : σ → ω} {f : Round σ α} {I : σ → Prop} {J : ω → Prop}
    (h : ∀ s b, I s → I (f s b).state) (hJ : ∀ s, I s → J (obs s)) :
    ∀ (cs : List (List α)) (x : Feed σ α ω), x.Holds I J → (cs.foldl (feed obs f) x).Holds I J
  | [], _, hx => hx
  | c :: cs, x, hx => by
    refine feedAll_inv h hJ cs _ ?_
    cases x with
    | dead o => exact hx
    | live s b =>
      have hI := h s (b ++ c) hx
      simp only [feed]
      cases hf : f s (b ++ c) with
      | bad s' _ => rw [hf] at hI; exact hJ s' hI
      | next _ _ => rw [hf] at hI; exact hI
      | moved _ _ => rw [hf] at hI; exact hI
      | more _ _ => rw [hf] at hI; exact hI
      | done _ _ => rw [hf] at hI; exact hI

def Waits (f : Round σ α) : Prop :=
  ∀ s b, (∃ s' r, f s b = .more s' r) ∨ ∃ s' r, f s b = .bad s' r

theorem feed_feed {obs : σ → ω} {f : Round σ α} (h : Resumable obs f) (hw : Waits f)
    (x : Feed σ α ω) (c d : List α) : feed obs f (feed obs f x c) d = feed obs f x (c ++ d) := by
  cases x with
  | dead o => rfl
  | live s b =>
    simp only [feed, ← List.append_assoc]
    rcases hw s (b ++ c) with ⟨s', r, hf⟩ | ⟨s', r, hf⟩
    · rw [hf, h.more d hf]
    · obtain ⟨s'', r', hb, ho⟩ := h.bad d hf
      simp only [hf, hb, ho]

/-- **Chunking invariance.** A resumable loop ends where it would have ended
on the whole input. -/
theorem feedAll_eq {obs : σ → ω} {f : Round σ α} (h : Resumable obs f) (hw : Waits f) :
    ∀ (cs : List (List α)) (x : Feed σ α ω) (c : List α),
      (c :: cs).foldl (feed obs f) x = feed obs f x (c :: cs).flatten
  | [], x, c => by simp
  | d :: cs, x, c => by
    rw [List.foldl_cons, feedAll_eq h hw cs, feed_feed h hw]
    simp

end

end Stream
