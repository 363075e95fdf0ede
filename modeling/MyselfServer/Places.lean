import Mathlib.Algebra.BigOperators.Group.List.Basic
import Mathlib.Algebra.GroupWithZero.Nat
import Mathlib.Data.List.Perm.Basic

/-!
# Places that change one at a time

A list of parties, of which one takes another state. What is collected over
all places then changes by what the one place gave before and gives now.
-/

namespace Places

variable {α β : Type} {xs : List α} {i : Nat} {a b : α}

theorem perm_of_getElem? (h : xs[i]? = some a) : xs.Perm (a :: xs.eraseIdx i) := by
  obtain ⟨hi, rfl⟩ := List.getElem?_eq_some_iff.mp h
  exact (List.getElem_cons_eraseIdx_perm hi).symm

theorem set_perm (h : xs[i]? = some a) (b : α) : (xs.set i b).Perm (b :: xs.eraseIdx i) := by
  obtain ⟨hi, -⟩ := List.getElem?_eq_some_iff.mp h
  exact List.set_perm_cons_eraseIdx hi b

theorem set_single (hone : xs.length = 1) (h : xs[i]? = some a) (b : α) : xs = [a] ∧ xs.set i b = [b] := by
  obtain ⟨x, rfl⟩ := List.length_eq_one_iff.mp hone
  cases i with
  | zero =>
    cases h
    exact ⟨rfl, rfl⟩
  | succ i => cases h

theorem filterMap_set_gains {f : α → Option β} {y : β} (h : xs[i]? = some a) (ha : f a = none)
    (hb : f b = some y) : ((xs.set i b).filterMap f).Perm (y :: xs.filterMap f) := by
  have hnew := (set_perm h b).filterMap f
  have hold := (perm_of_getElem? h).filterMap f
  rw [List.filterMap_cons_some hb] at hnew
  rw [List.filterMap_cons_none ha] at hold
  exact hnew.trans (hold.symm.cons y)

theorem filterMap_set_loses {f : α → Option β} {y : β} (h : xs[i]? = some a) (ha : f a = some y)
    (hb : f b = none) : (xs.filterMap f).Perm (y :: (xs.set i b).filterMap f) := by
  have hnew := (set_perm h b).filterMap f
  have hold := (perm_of_getElem? h).filterMap f
  rw [List.filterMap_cons_none hb] at hnew
  rw [List.filterMap_cons_some ha] at hold
  exact hold.trans (hnew.symm.cons y)

theorem filterMap_set_keeps {f : α → Option β} (h : xs[i]? = some a) (ha : f a = none) (hb : f b = none) :
    (xs.set i b).filterMap f = xs.filterMap f := by
  induction xs generalizing i with
  | nil => rfl
  | cons x xs ih =>
    cases i with
    | zero =>
      cases h
      rw [List.set_cons_zero, List.filterMap_cons_none hb, List.filterMap_cons_none ha]
    | succ i =>
      have hrest : (xs.set i b).filterMap f = xs.filterMap f := ih (by simpa using h)
      rw [List.set_cons_succ, List.filterMap_cons, List.filterMap_cons, hrest]

/-- What is there stays there, if the place that changes still gives it. -/
theorem mem_map_set {f : α → β} {y : β} (h : xs[i]? = some a) (hy : y ∈ xs.map f) (hab : f a = y → f b = y) :
    y ∈ (xs.set i b).map f := by
  have hold : y ∈ (a :: xs.eraseIdx i).map f := ((perm_of_getElem? h).map f).mem_iff.mp hy
  have hnew : y ∈ (b :: xs.eraseIdx i).map f → y ∈ (xs.set i b).map f := ((set_perm h b).map f).mem_iff.mpr
  apply hnew
  rw [List.map_cons, List.mem_cons] at hold ⊢
  rcases hold with hfirst | hrest
  · exact Or.inl (hab hfirst.symm).symm
  · exact Or.inr hrest

theorem sum_set (w : α → Nat) (h : xs[i]? = some a) (b : α) :
    ((xs.set i b).map w).sum + w a = (xs.map w).sum + w b := by
  have hold := ((perm_of_getElem? h).map w).sum_eq
  have hnew := ((set_perm h b).map w).sum_eq
  simp only [List.map_cons, List.sum_cons] at hold hnew
  omega

/-- Two numbers that differ by a sum over the places. -/
theorem balance {w : α → Nat} (h : xs[i]? = some a) {b : α} {x y x' y' : Nat} (hold : x = y + (xs.map w).sum)
    (hmove : x' + y + w a = x + y' + w b) : x' = y' + ((xs.set i b).map w).sum := by
  have hsum := sum_set w h b
  omega

theorem balance_int {w : α → Nat} (h : xs[i]? = some a) {b : α} {x y x' y' : Int}
    (hold : x = y + ((xs.map w).sum : Nat)) (hmove : x' + y + w a = x + y' + w b) :
    x' = y' + (((xs.set i b).map w).sum : Nat) := by
  have hsum := sum_set w h b
  omega

end Places
