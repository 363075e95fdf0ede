import Mathlib.Data.List.Basic

/-!
# Programs that call on an environment

A program changes a world and returns a value, or waits in a call that its
environment has not answered. `wp` is what has to hold before it, so that
one assertion holds where it returns and another one where it waits; the
simp set runs a program step by step, and `wp_loop` is the rule for loops.
`Keeps` says that a program leaves a part of the world alone.
-/

namespace Prog

inductive Outcome (W α : Type) where
  | returned (a : α) (w : W)
  | waits (w : W)

def Outcome.world {W α : Type} : Outcome W α → W
  | .returned _ w => w
  | .waits w => w

end Prog

def Prog (W α : Type) : Type := W → Prog.Outcome W α

namespace Prog

section
variable {W α β γ : Type}

instance : Monad (Prog W) where
  pure a := fun w => .returned a w
  bind p k := fun w =>
    match p w with
    | .returned a w' => k a w'
    | .waits w' => .waits w'

def world : Prog W W := fun w => .returned w w

def update (f : W → W) : Prog W Unit := fun w => .returned () (f w)

def wait : Prog W α := fun w => .waits w

/-! ## Weakest preconditions -/

def wp (p : Prog W α) (Q : α → W → Prop) (E : W → Prop) (w : W) : Prop :=
  match p w with
  | .returned a w' => Q a w'
  | .waits w' => E w'

variable {Q Q' : α → W → Prop} {E E' : W → Prop} {w : W}

@[simp] theorem wp_pure (a : α) : wp (pure a) Q E w ↔ Q a w := Iff.rfl

@[simp] theorem wp_world {Q : W → W → Prop} : wp world Q E w ↔ Q w w := Iff.rfl

@[simp] theorem wp_update {Q : Unit → W → Prop} (f : W → W) :
    wp (update f) Q E w ↔ Q () (f w) := Iff.rfl

@[simp] theorem wp_wait : wp (wait : Prog W α) Q E w ↔ E w := Iff.rfl

@[simp] theorem wp_bind {Q : β → W → Prop} (p : Prog W α) (k : α → Prog W β) :
    wp (p >>= k) Q E w ↔ wp p (fun a w' => wp (k a) Q E w') E w := by
  unfold wp
  show (match (match p w with
    | .returned a w' => k a w'
    | .waits w' => .waits w') with
    | .returned a w' => Q a w'
    | .waits w' => E w') ↔ _
  cases p w with
  | returned a w' => exact Iff.rfl
  | waits w' => exact Iff.rfl

@[simp] theorem wp_ite {c : Prop} [Decidable c] (p q : Prog W α) :
    wp (if c then p else q) Q E w ↔ if c then wp p Q E w else wp q Q E w := by
  split <;> exact Iff.rfl

instance (p : Prog W α) [∀ a w', Decidable (Q a w')] [∀ w', Decidable (E w')] :
    Decidable (wp p Q E w) :=
  match h : p w with
  | .returned a w' => decidable_of_iff (Q a w') (by rw [wp, h])
  | .waits w' => decidable_of_iff (E w') (by rw [wp, h])

theorem wp_mono {p : Prog W α} (h : wp p Q E w) (hq : ∀ a w', Q a w' → Q' a w')
    (he : ∀ w', E w' → E' w') : wp p Q' E' w := by
  unfold wp at h ⊢
  cases hp : p w with
  | returned a w' => rw [hp] at h; exact hq a w' h
  | waits w' => rw [hp] at h; exact he w' h

theorem wp_and {p : Prog W α} (h : wp p Q E w) (h' : wp p Q' E' w) :
    wp p (fun a w' => Q a w' ∧ Q' a w') (fun w' => E w' ∧ E' w') w := by
  unfold wp at h h' ⊢
  cases hp : p w with
  | returned a w' => rw [hp] at h h'; exact ⟨h, h'⟩
  | waits w' => rw [hp] at h h'; exact ⟨h, h'⟩

theorem wp_of_forall {p : Prog W α} (hq : ∀ a w', Q a w') (he : ∀ w', E w') : wp p Q E w := by
  unfold wp
  cases p w with
  | returned a w' => exact hq a w'
  | waits w' => exact he w'

/-! ## Loops -/

def loopFuel (body : α → Prog W (α ⊕ β)) : Nat → α → Prog W β
  | 0, _ => wait
  | n + 1, a => body a >>= fun r => r.elim (loopFuel body n) pure

/-- Run `body` until it returns on the right; `μ` bounds how often it can go on. -/
def loop (μ : W → Nat) (body : α → Prog W (α ⊕ β)) (a : α) : Prog W β :=
  fun w => loopFuel body (μ w + 1) a w

/-- Going on makes the bound smaller, so the fuel of `loop` is enough. -/
def Decreases (μ : W → Nat) (body : α → Prog W (α ⊕ β)) : Prop :=
  ∀ a w a' w', body a w = .returned (.inl a') w' → μ w' < μ w

variable {μ : W → Nat} {body : α → Prog W (α ⊕ β)}

theorem Decreases.of_wp
    (h : ∀ a w, wp (body a) (fun r w' => ∀ a', r = .inl a' → μ w' < μ w) (fun _ => True) w) :
    Decreases μ body := by
  intro a w a' w' hb
  have := h a w
  unfold wp at this
  rw [hb] at this
  exact this a' rfl

theorem loopFuel_eq (hd : Decreases μ body) :
    ∀ (n m : Nat) (a : α) (w : W), μ w < n → μ w < m → loopFuel body n a w = loopFuel body m a w
  | 0, _, _, _, hn, _ => absurd hn (Nat.not_lt_zero _)
  | _, 0, _, _, _, hm => absurd hm (Nat.not_lt_zero _)
  | n + 1, m + 1, a, w, hn, hm => by
    simp only [loopFuel, bind]
    cases hb : body a w with
    | waits w' => rfl
    | returned r w' =>
      cases r with
      | inr b => rfl
      | inl a' =>
        have := hd a w a' w' hb
        exact loopFuel_eq hd n m a' w' (by omega) (by omega)

/-- **A loop unfolds**: no fuel is left in this equation. -/
theorem loop_eq (hd : Decreases μ body) (a : α) :
    loop μ body a = body a >>= fun r => r.elim (loop μ body) pure := by
  funext w
  simp only [loop, loopFuel, bind]
  cases hb : body a w with
  | waits w' => rfl
  | returned r w' =>
    cases r with
    | inr b => rfl
    | inl a' => exact loopFuel_eq hd _ _ a' w' (hd a w a' w' hb) (Nat.lt_succ_self _)

/-- The rule for loops: an invariant that the body keeps while it goes on. -/
theorem wp_loop (hd : Decreases μ body) {I : α → W → Prop} {Q : β → W → Prop}
    (h : ∀ a w, I a w →
      wp (body a) (fun r w' => r.elim (fun a' => I a' w') fun b => Q b w') E w) :
    ∀ a w, I a w → wp (loop μ body a) Q E w := by
  have key : ∀ n a w, μ w < n → I a w → wp (loop μ body a) Q E w := by
    intro n
    induction n with
    | zero => intro a w hn; exact absurd hn (Nat.not_lt_zero _)
    | succ n ih =>
      intro a w hn hi
      rw [loop_eq hd, wp_bind]
      have hbody := h a w hi
      unfold wp at hbody ⊢
      cases hb : body a w with
      | waits w' => rw [hb] at hbody; exact hbody
      | returned r w' =>
        rw [hb] at hbody
        cases r with
        | inr b => exact hbody
        | inl a' =>
          have := hd a w a' w' hb
          exact ih a' w' (by omega) hbody
  exact fun a w hi => key _ a w (Nat.lt_succ_self _) hi

/-- Where nothing is asked of the states it waits in, a loop needs no bound. -/
theorem wp_loop_returns {I : α → W → Prop} {Q : β → W → Prop}
    (h : ∀ a w, I a w → wp (body a)
      (fun r w' => r.elim (fun a' => I a' w') fun b => Q b w') (fun _ => True) w) :
    ∀ a w, I a w → wp (loop μ body a) Q (fun _ => True) w := by
  have key : ∀ n a w, I a w → wp (loopFuel body n a) Q (fun _ => True) w := by
    intro n
    induction n with
    | zero => exact fun _ _ _ => trivial
    | succ n ih =>
      intro a w hi
      rw [loopFuel, wp_bind]
      refine wp_mono (h a w hi) ?_ fun _ h => h
      intro r w' hr
      cases r with
      | inl a' => exact ih a' w' hr
      | inr b => exact hr
  exact fun a w hi => key _ a w hi

/-! ## What a program leaves alone -/

/-- The program does not change `g`, also where it waits. -/
def Keeps (g : W → γ) (p : Prog W α) : Prop := ∀ w, g (p w).world = g w

variable {g : W → γ}

theorem Keeps.pure (a : α) : Keeps g (pure a : Prog W α) := fun _ => rfl

theorem Keeps.world : Keeps g (world : Prog W W) := fun _ => rfl

theorem Keeps.wait : Keeps g (wait : Prog W α) := fun _ => rfl

theorem Keeps.update {f : W → W} (h : ∀ w, g (f w) = g w) : Keeps g (update f) := h

theorem Keeps.bind {p : Prog W α} {k : α → Prog W β} (hp : Keeps g p) (hk : ∀ a, Keeps g (k a)) :
    Keeps g (p >>= k) := by
  intro w
  have := hp w
  simp only [Bind.bind]
  cases h : p w with
  | returned a w' => rw [h] at this; exact (hk a w').trans this
  | waits w' => rw [h] at this; exact this

theorem Keeps.update_bind {f : W → W} {k : Unit → Prog W β} (h : ∀ w, g (f w) = g w)
    (hk : Keeps g (k ())) : Keeps g (Prog.update f >>= k) :=
  Keeps.bind (Keeps.update h) fun _ => hk

theorem Keeps.ite {c : Prop} [Decidable c] {p q : Prog W α} (hp : Keeps g p) (hq : Keeps g q) :
    Keeps g (if c then p else q) := by
  split
  · exact hp
  · exact hq

theorem Keeps.loop (h : ∀ a, Keeps g (body a)) (a : α) : Keeps g (loop μ body a) := by
  have key : ∀ n a, Keeps g (loopFuel body n a) := by
    intro n
    induction n with
    | zero => intro a; exact Keeps.wait
    | succ n ih =>
      intro a
      apply Keeps.bind (h a)
      intro r
      cases r with
      | inl a' => exact ih a'
      | inr b => exact Keeps.pure b
  exact fun w => key _ a w

/-- What a program keeps can be carried along. -/
theorem Keeps.wp {p : Prog W α} (hk : Keeps g p) : wp p (fun _ w' => g w' = g w)
    (fun w' => g w' = g w) w := by
  have := hk w
  unfold Prog.wp
  cases h : p w with
  | returned a w' => rw [h] at this; exact this
  | waits w' => rw [h] at this; exact this

/-! ## What a program maintains -/

def Maintains (I : W → Prop) (p : Prog W α) : Prop := ∀ w, I w → Prog.wp p (fun _ w' => I w') I w

variable {I : W → Prop}

theorem Maintains.pure (a : α) : Maintains I (pure a : Prog W α) := fun _ h => h

theorem Maintains.world : Maintains I (world : Prog W W) := fun _ h => h

theorem Maintains.update {f : W → W} (h : ∀ w, I w → I (f w)) : Maintains I (update f) := h

theorem Maintains.bind {p : Prog W α} {k : α → Prog W β} (hp : Maintains I p)
    (hk : ∀ a, Maintains I (k a)) : Maintains I (p >>= k) := by
  intro w h
  rw [wp_bind]
  exact wp_mono (hp w h) (fun a w' h' => hk a w' h') (fun _ h' => h')

theorem Maintains.update_bind {f : W → W} {k : Unit → Prog W β} (h : ∀ w, I w → I (f w))
    (hk : Maintains I (k ())) : Maintains I (Prog.update f >>= k) :=
  Maintains.bind (Maintains.update h) fun _ => hk

theorem Maintains.ite {c : Prop} [Decidable c] {p q : Prog W α} (hp : Maintains I p)
    (hq : Maintains I q) : Maintains I (if c then p else q) := by
  split
  · exact hp
  · exact hq

theorem Maintains.loop (h : ∀ a, Maintains I (body a)) (a : α) : Maintains I (loop μ body a) := by
  have key : ∀ n a, Maintains I (loopFuel body n a) := by
    intro n
    induction n with
    | zero => exact fun _ _ h => h
    | succ n ih =>
      intro a
      apply Maintains.bind (h a)
      intro r
      cases r with
      | inl a' => exact ih a'
      | inr b => exact Maintains.pure b
  exact fun w => key _ a w

theorem Keeps.maintains {p : Prog W α} (hk : Keeps g p) (hI : ∀ w w', g w' = g w → I w → I w') :
    Maintains I p :=
  fun w h => wp_mono hk.wp (fun _ w' hg => hI w w' hg h) fun w' hg => hI w w' hg h

/-- A program that maintains every value of `g` keeps `g`. -/
theorem keeps_of_maintains {p : Prog W α} (h : ∀ v, Maintains (fun w => g w = v) p) : Keeps g p := by
  intro w
  have := h (g w) w rfl
  unfold Prog.wp at this
  cases hp : p w with
  | returned a w' => rw [hp] at this; exact this
  | waits w' => rw [hp] at this; exact this

end

end Prog
