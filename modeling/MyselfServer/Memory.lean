import Mathlib.Data.List.Basic

/-!
# Bytes in a block of memory

A block is a list of cells. `slice` reads a range of it, `write` overwrites
one, and `copy` moves one to the front, cell by cell from its first one on: the
ranges may overlap, as every cell is read before it is overwritten.
-/

namespace Memory

variable {α : Type}

def slice (m : List α) (start n : Nat) : List α := (m.drop start).take n

def write (m : List α) (start : Nat) (xs : List α) : List α :=
  m.take start ++ xs ++ m.drop (start + xs.length)

def copy : Nat → List α → Nat → Nat → List α
  | 0, m, _, _ => m
  | n + 1, m, src, dst =>
    match m[src]? with
    | none => m
    | some x => copy n (m.set dst x) (src + 1) (dst + 1)

section
variable {m xs : List α} {start n k src dst : Nat}

theorem length_slice (h : start + n ≤ m.length) : (slice m start n).length = n := by
  simp only [slice, List.length_take, List.length_drop]
  omega

theorem slice_append (h : start + n ≤ m.length) (ys : List α) :
    slice (m ++ ys) start n = slice m start n := by
  rw [slice, slice, List.drop_append_of_le_length (by omega),
    List.take_append_of_le_length (by simp only [List.length_drop]; omega)]

theorem slice_take (h : start + n ≤ k) : slice (m.take k) start n = slice m start n := by
  rw [slice, slice, List.drop_take, List.take_take]
  congr 1
  omega

theorem slice_add : slice m start (n + k) = slice m start n ++ slice m (start + n) k := by
  rw [slice, slice, slice, List.take_add, List.drop_drop]

theorem drop_slice : (slice m start n).drop k = slice m (start + k) (n - k) := by
  rw [slice, slice, List.drop_take, List.drop_drop]

theorem take_slice (h : k ≤ n) : (slice m start n).take k = slice m start k := by
  rw [slice, slice, List.take_take, Nat.min_eq_left h]

theorem length_write (h : start + xs.length ≤ m.length) : (write m start xs).length = m.length := by
  simp only [write, List.length_append, List.length_take, List.length_drop]
  omega

theorem slice_write (h : start + xs.length ≤ m.length) : slice (write m start xs) start xs.length = xs := by
  have hlen : (m.take start).length = start := by
    rw [List.length_take]
    omega
  rw [slice, write, List.append_assoc, List.drop_append_of_le_length (by omega), List.drop_of_length_le
    (by omega), List.nil_append, List.take_left]

/-- What is in front of the range stays. -/
theorem slice_write_front (h : start + xs.length ≤ m.length) (hn : k + n ≤ start) :
    slice (write m start xs) k n = slice m k n := by
  have hlen : (m.take start).length = start := by
    rw [List.length_take]
    omega
  rw [write, List.append_assoc, slice_append (by omega), slice_take hn]

theorem take_write (h : start ≤ m.length) :
    (write m start xs).take (start + xs.length) = m.take start ++ xs := by
  have hlen : (m.take start ++ xs).length = start + xs.length := by
    rw [List.length_append, List.length_take, Nat.min_eq_left h]
  rw [write, ← hlen, List.take_left]

theorem take_write_front (hk : k ≤ start) (h : start ≤ m.length) :
    (write m start xs).take k = m.take k := by
  have hlen : (m.take start).length = start := by
    rw [List.length_take, Nat.min_eq_left h]
  rw [write, List.append_assoc, List.take_append_of_le_length (by omega), List.take_take,
    Nat.min_eq_left hk]

theorem set_eq_write {x : α} (h : start < m.length) : m.set start x = write m start [x] := by
  rw [List.set_eq_take_append_cons_drop, if_pos h, write, List.append_assoc]
  rfl

/-- Writing from behind: a range, then the one in front of it. -/
theorem write_write {ys : List α} (h : start + xs.length + ys.length ≤ m.length) :
    write (write m (start + xs.length) ys) start xs = write m start (xs ++ ys) := by
  have hlen : (m.take (start + xs.length)).length = start + xs.length := by
    rw [List.length_take, Nat.min_eq_left (by omega)]
  have hdrop : (write m (start + xs.length) ys).drop (start + xs.length) =
      ys ++ m.drop (start + xs.length + ys.length) := by
    rw [write, List.append_assoc]
    exact List.drop_left' hlen
  rw [write, hdrop, take_write_front (by omega) (by omega), write, List.length_append, Nat.add_assoc]
  simp only [List.append_assoc]

theorem length_copy (n : Nat) (m : List α) (src dst : Nat) : (copy n m src dst).length = m.length := by
  induction n generalizing m src dst with
  | zero => rfl
  | succ n ih =>
    simp only [copy]
    split
    · rfl
    · rw [ih, List.length_set]

/-- Cell by cell: the target has what the source had, and all else stays. -/
theorem getElem?_copy (hsrc : src + n ≤ m.length) (hdst : dst ≤ src) (i : Nat) :
    (copy n m src dst)[i]? = if dst ≤ i ∧ i < dst + n then m[src + (i - dst)]? else m[i]? := by
  induction n generalizing m src dst with
  | zero =>
    rw [if_neg (by omega)]
    rfl
  | succ n ih =>
    have hx : m[src]? = some m[src] := List.getElem?_eq_getElem (by omega)
    simp only [copy, hx]
    rw [ih (by rw [List.length_set]; omega) (by omega), List.getElem?_set, List.getElem?_set]
    by_cases hi : dst = i
    · subst hi
      rw [if_neg (by omega), if_pos rfl, if_pos (by omega), if_pos (by omega), Nat.sub_self, Nat.add_zero, hx]
    · by_cases hin : dst ≤ i ∧ i < dst + (n + 1)
      · -- the cell is copied later, and its source has not been overwritten before
        have hsum : src + 1 + (i - (dst + 1)) = src + (i - dst) := by omega
        rw [if_pos (by omega), if_pos hin, if_neg (by omega), hsum]
      · rw [if_neg (by omega), if_neg hin, if_neg hi]

theorem slice_copy (hsrc : src + n ≤ m.length) (hdst : dst ≤ src) :
    slice (copy n m src dst) dst n = slice m src n := by
  apply List.ext_getElem?
  intro i
  simp only [slice, List.getElem?_take, List.getElem?_drop]
  by_cases hi : i < n
  · rw [if_pos hi, if_pos hi, getElem?_copy hsrc hdst, if_pos (by omega)]
    congr 1
    omega
  · rw [if_neg hi, if_neg hi]

end

end Memory
