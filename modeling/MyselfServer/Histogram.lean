import Mathlib.Algebra.BigOperators.Group.List.Basic
import Mathlib.Algebra.GroupWithZero.Nat
import Mathlib.Algebra.Order.Field.Rat
import Mathlib.Data.Finset.Max

/-!
# Histograms

Samples are put into slots between ascending bounds. What the slots count up
to a bound is what the samples up to the bound are, and the sample of a rank
lies in the slot where the counts reach the rank.
-/

namespace Histogram

section
variable {α : Type}

def tally (f : α → Nat) (xs : List α) (i : Nat) : Nat := xs.countP fun x => f x = i

theorem tally_cons (f : α → Nat) (x : α) (xs : List α) (i : Nat) :
    tally f (x :: xs) i = tally f xs i + if f x = i then 1 else 0 := by
  simp [tally, List.countP_cons]

theorem countP_succ (f : α → Nat) (xs : List α) (k : Nat) :
    (xs.countP fun x => f x < k + 1) = (xs.countP fun x => f x < k) + tally f xs k := by
  induction xs with
  | nil => simp [tally]
  | cons x xs ih =>
    simp only [tally_cons, List.countP_cons, decide_eq_true_eq, ih]
    split_ifs <;> omega

theorem sum_tally (f : α → Nat) (xs : List α) (k : Nat) :
    ((List.range k).map (tally f xs)).sum = xs.countP fun x => f x < k := by
  induction k with
  | zero => simp
  | succ k ih =>
    rw [List.range_succ, List.map_append, List.sum_append, ih, countP_succ]
    simp

end

section
variable {α : Type} [LinearOrder α] {bounds : List α} {x y b : α} {i : Nat}

def slot : List α → α → Nat
  | [], _ => 0
  | b :: bs, x => if x ≤ b then 0 else slot bs x + 1

theorem slot_le_length : slot bounds x ≤ bounds.length := by
  induction bounds with
  | nil => exact Nat.le_refl _
  | cons b bs ih =>
    simp only [slot, List.length_cons]
    split <;> omega

theorem slot_mono (h : x ≤ y) : slot bounds x ≤ slot bounds y := by
  induction bounds with
  | nil => exact Nat.le_refl _
  | cons b bs ih =>
    simp only [slot]
    by_cases hy : y ≤ b
    · simp [hy, h.trans hy]
    · rw [if_neg hy]
      split <;> omega

theorem slot_le_iff (hs : bounds.Pairwise (· < ·)) (hi : bounds[i]? = some b) : slot bounds x ≤ i ↔ x ≤ b := by
  induction bounds generalizing i with
  | nil => cases hi
  | cons c bs ih =>
    obtain ⟨hc, hbs⟩ := List.pairwise_cons.mp hs
    cases i with
    | zero =>
      obtain rfl : c = b := by simpa using hi
      simp [slot]
    | succ i =>
      have hi : bs[i]? = some b := by simpa using hi
      simp only [slot]
      split
      · rename_i hx
        exact iff_of_true (Nat.zero_le _) (hx.trans (hc b (List.mem_of_getElem? hi)).le)
      · rw [Nat.add_le_add_iff_right, ih hbs hi]

/-- The smallest sample such that no fewer than `t` samples are at most it. -/
structure Ranked (xs : List α) (t : ℚ) (x : α) : Prop where
  mem : x ∈ xs
  reaches : t ≤ (xs.countP (· ≤ x) : Nat)
  least : ∀ y ∈ xs, t ≤ (xs.countP (· ≤ y) : Nat) → x ≤ y

variable {xs : List α} {t : ℚ}

theorem exists_max {p : α → Bool} (h : 0 < xs.countP p) : ∃ y ∈ xs, p y = true ∧ xs.countP p ≤ xs.countP (· ≤ y) := by
  obtain ⟨z, hz, hp⟩ := List.countP_pos_iff.mp h
  obtain ⟨y, hy, hmax⟩ := (xs.toFinset.filter fun y => p y = true).exists_max_image id ⟨z, by simp [hz, hp]⟩
  simp only [Finset.mem_filter, List.mem_toFinset] at hy hmax
  refine ⟨y, hy.1, hy.2, List.countP_mono_left fun w hw hpw => ?_⟩
  simpa using hmax w ⟨hw, hpw⟩

theorem exists_ranked (h0 : 0 < t) (h1 : t ≤ xs.length) : ∃ x, Ranked xs t x := by
  have hpos : 0 < xs.countP fun _ => true := by
    have : (0 : ℚ) < xs.length := h0.trans_le h1
    simpa using this
  obtain ⟨z, hz, -, hall⟩ := exists_max hpos
  have hz' : t ≤ (xs.countP (· ≤ z) : Nat) := by
    rw [List.countP_true] at hall
    exact h1.trans (by exact_mod_cast hall)
  obtain ⟨x, hx, hmin⟩ := (xs.toFinset.filter fun y => t ≤ (xs.countP (· ≤ y) : Nat)).exists_min_image id
    ⟨z, by simp [hz, hz']⟩
  simp only [Finset.mem_filter, List.mem_toFinset] at hx hmin
  exact ⟨x, hx.1, hx.2, fun y hy ht => hmin y ⟨hy, ht⟩⟩

/-- The counts up to a slot reach the rank first at the slot of the sample of
that rank. -/
theorem Ranked.slot_reaches (h : Ranked xs t x) (h0 : 0 < t) {f : α → Nat} (hf : ∀ {x y}, x ≤ y → f x ≤ f y) :
    ((xs.countP fun y => f y < f x : Nat) : ℚ) < t ∧ t ≤ (xs.countP fun y => f y < f x + 1 : Nat) := by
  constructor
  · by_contra hle
    have hle : t ≤ (xs.countP fun y => f y < f x : Nat) := not_lt.mp hle
    have hpos : 0 < xs.countP fun y => f y < f x := by
      have : (0 : ℚ) < (xs.countP fun y => f y < f x : Nat) := h0.trans_le hle
      exact_mod_cast this
    obtain ⟨y, hy, hlow, hcount⟩ := exists_max hpos
    have hxy : x ≤ y := h.least y hy (hle.trans (by exact_mod_cast hcount))
    have hback := hf hxy
    simp only [decide_eq_true_eq] at hlow
    omega
  · have hcount : xs.countP (· ≤ x) ≤ xs.countP fun y => f y < f x + 1 := by
      refine List.countP_mono_left fun y _ hy => ?_
      have hle := hf (of_decide_eq_true hy)
      simp only [decide_eq_true_eq]
      omega
    exact h.reaches.trans (by exact_mod_cast hcount)

end

end Histogram
