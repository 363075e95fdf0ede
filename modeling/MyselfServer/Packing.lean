import Mathlib.Data.List.Basic

/-!
# Records in containers

Records are put one after another into containers, and containers into larger
ones. `Packs` says that none is lost, changed, moved or cut; `Packs.trans` that
this holds of the outer containers when it holds of each level.
-/

namespace Packing

section
variable {α : Type}

/-- Each container holds a run of the records, in order. -/
inductive Packs : List (List α) → List (List α) → Prop where
  | nil : Packs [] []
  | cons {xs ys : List (List α)} (g : List (List α)) (h : Packs xs ys) : Packs (g ++ xs) (g.flatten :: ys)

variable {xs xs' ys ys' zs : List (List α)} {x y : List α}

namespace Packs

theorem flatten (h : Packs xs ys) : ys.flatten = xs.flatten := by
  induction h with
  | nil => rfl
  | cons g _ ih => simp [ih]

theorem append (h : Packs xs ys) (h' : Packs xs' ys') : Packs (xs ++ xs') (ys ++ ys') := by
  induction h with
  | nil => exact h'
  | cons g _ ih =>
    rw [List.append_assoc, List.cons_append]
    exact ih.cons g

theorem one (g : List (List α)) : Packs g [g.flatten] := by
  have h := Packs.cons g (nil (α := α))
  rwa [List.append_nil] at h

/-- A record in a container of its own. -/
theorem concat (h : Packs xs ys) (x : List α) : Packs (xs ++ [x]) (ys ++ [x]) := by
  have hone := one [x]
  rw [List.flatten_singleton] at hone
  exact h.append hone

/-- A container with nothing in it. -/
theorem empty (h : Packs xs ys) : Packs xs (ys ++ [[]]) := by
  have hone := h.append (one (α := α) [])
  rwa [List.append_nil] at hone

theorem split (h : Packs xs (ys ++ zs)) : ∃ front behind, xs = front ++ behind ∧ Packs front ys ∧ Packs behind zs := by
  induction ys generalizing xs with
  | nil => exact ⟨[], xs, rfl, .nil, h⟩
  | cons y ys ih =>
    cases h with
    | cons g h =>
      obtain ⟨front, behind, rfl, hfront, hbehind⟩ := ih h
      exact ⟨g ++ front, behind, by rw [List.append_assoc], hfront.cons g, hbehind⟩

theorem of_singleton (h : Packs xs [y]) : xs.flatten = y := by
  rw [← h.flatten, List.flatten_singleton]

/-- One more record in the last container. -/
theorem fill (h : Packs xs (ys ++ [y])) (x : List α) : Packs (xs ++ [x]) (ys ++ [y ++ x]) := by
  obtain ⟨front, behind, rfl, hfront, hbehind⟩ := h.split
  have hone := one (behind ++ [x])
  rw [List.flatten_concat, hbehind.of_singleton] at hone
  rw [List.append_assoc]
  exact hfront.append hone

/-- **Records that are whole in their containers** are whole in what these are put in. -/
theorem trans (h : Packs xs ys) (h' : Packs ys zs) : Packs xs zs := by
  induction h' generalizing xs with
  | nil => exact h
  | cons g _ ih =>
    obtain ⟨front, behind, rfl, hfront, hbehind⟩ := h.split
    rw [hfront.flatten]
    exact (ih hbehind).cons front

end Packs

end

end Packing
