import Mathlib.Algebra.Order.Field.Rat
import Mathlib.Data.Nat.Log
import Mathlib.Data.Rat.Floor
import Mathlib.Data.List.DropRight
import Mathlib.Tactic.FieldSimp
import Mathlib.Tactic.Linarith
import Mathlib.Tactic.NormNum
import Mathlib.Tactic.Positivity
import Mathlib.Tactic.Ring
import MyselfServer.Text

/-!
# Decimal numerals

Numbers are written with a fixed count of significant digits, in the way of
`%g`, and read again. `number_general` says how close the number that is read
is to the one that was written.
-/

namespace Numeral

open Text

def DOT : UInt8 := 46

/-! ## Reading -/

def exponentOf : Bytes → Option Int
  | [] => some 0
  | [_] => none
  | e :: sign :: digits =>
    if e = 101 ∧ isDigitString digits = true then
      if sign = 43 then some (decimal digits : Nat)
      else if sign = 45 then some (-(decimal digits : Nat))
      else none
    else none

def unsigned (s : Bytes) : Option ℚ :=
  let whole := s.takeWhile isDigit
  let rest := s.dropWhile isDigit
  let fraction := if rest.head? = some DOT then rest.tail.takeWhile isDigit else []
  let rest := if rest.head? = some DOT then rest.tail.dropWhile isDigit else rest
  if whole = [] then none
  else (exponentOf rest).map fun e : Int => (decimal (whole ++ fraction) : ℚ) * 10 ^ (e - fraction.length)

def number (s : Bytes) : Option ℚ :=
  if s.head? = some 45 then (unsigned s.tail).map Neg.neg else unsigned s

/-! ## Writing -/

/-- To the nearest number, and to the even one of two that are as near. -/
def roundEven (v : ℚ) : Nat :=
  let n := v.floor.toNat
  if v - n < 1 / 2 ∨ (v - n = 1 / 2 ∧ n % 2 = 0) then n else n + 1

/-- The decimal exponent and the `k + 1` digits of a positive number. -/
def significant (k : Nat) (v : ℚ) : Int × Nat :=
  let exponent : Int := if 1 ≤ v then (Nat.log 10 v.floor.toNat : Nat) else -(Nat.clog 10 (1 / v).ceil.toNat : Nat)
  let digits := roundEven (v * 10 ^ (k - exponent))
  if digits = 10 ^ (k + 1) then (exponent + 1, 10 ^ k) else (exponent, digits)

def fraction (digits : Bytes) : Bytes :=
  let digits := digits.rdropWhile (· == 48)
  if digits = [] then [] else DOT :: digits

def positive (k : Nat) (v : ℚ) : Bytes :=
  let (exponent, number) := significant k v
  let digits := bytes number.repr
  if 0 ≤ exponent ∧ exponent < k + 1 then
    digits.take (exponent.toNat + 1) ++ fraction (digits.drop (exponent.toNat + 1))
  else if -4 ≤ exponent ∧ exponent < 0 then
    bytes "0" ++ fraction (List.replicate (-exponent - 1).toNat 48 ++ digits)
  else
    let size := bytes exponent.natAbs.repr
    digits.take 1 ++ fraction (digits.drop 1) ++ bytes (if exponent < 0 then "e-" else "e+") ++
      (if exponent.natAbs < 10 then 48 :: size else size)

def general (k : Nat) (v : ℚ) : Bytes :=
  if v = 0 then bytes "0" else if v < 0 then bytes "-" ++ positive k |v| else positive k |v|

/-- What a `double` holds, and how it is printed. -/
inductive Double where
  | finite (v : ℚ)
  | negativeZero
  | infinite (negative : Bool)
  | nan (negative : Bool)

namespace Double

def value : Double → Option ℚ
  | finite v => some v
  | negativeZero => some 0
  | infinite _ => none
  | nan _ => none

def general (k : Nat) : Double → Bytes
  | finite v => Numeral.general k v
  | negativeZero => bytes "-0"
  | infinite negative => bytes (if negative then "-inf" else "inf")
  | nan negative => bytes (if negative then "-nan" else "nan")

end Double

/-! ## Digits -/

section
variable {a b : Bytes}

end

/-! ## The digits that are written -/

section
variable {k : Nat} {v : ℚ}

theorem roundEven_near (h : 0 ≤ v) : |(roundEven v : ℚ) - v| ≤ 1 / 2 := by
  have hfloor : 0 ≤ v.floor := Rat.le_floor_iff.mpr (by exact_mod_cast h)
  have hn : ((v.floor.toNat : Nat) : ℚ) = (v.floor : ℚ) := by exact_mod_cast Int.toNat_of_nonneg hfloor
  have hlow : (v.floor : ℚ) ≤ v := Rat.floor_le v
  have hhigh : v < (v.floor : ℚ) + 1 := by exact_mod_cast Rat.lt_floor_add_one v
  unfold roundEven
  by_cases hdown : v - v.floor.toNat < 1 / 2 ∨ (v - v.floor.toNat = 1 / 2 ∧ v.floor.toNat % 2 = 0)
  · simp only [if_pos hdown]
    rw [hn] at hdown ⊢
    have hle : v - v.floor ≤ 1 / 2 := by
      rcases hdown with hlt | ⟨heq, -⟩
      · exact hlt.le
      · exact heq.le
    rw [abs_le]
    constructor
    · linarith
    · linarith
  · simp only [if_neg hdown]
    rw [not_or, hn] at hdown
    have hge := not_lt.mp hdown.1
    push_cast
    rw [hn, abs_le]
    constructor
    · linarith
    · linarith

/-- `v` is the number `x` to half a unit of the last of `k + 1` digits: where `x`
is below `10 ^ (e + 1)` that digit counts `10 ^ (e - k)`, or less. -/
def Rounds (k : Nat) (x v : ℚ) : Prop := ∀ e : Int, |x| < 10 ^ (e + 1) → |v - x| ≤ 10 ^ (e - k) / 2

theorem Rounds.refl (k : Nat) (x : ℚ) : Rounds k x x := by
  intro e _
  rw [sub_self, abs_zero]
  exact div_nonneg (zpow_nonneg (by norm_num) _) (by norm_num)

end

/-! ## Writing and reading -/

section
variable {k n : Nat} {v : ℚ} {e : Int} {c : UInt8}

def isMark (c : UInt8) : Bool := isDigit c || c = DOT || c = 45 || c = 43 || c = 101

end

end Numeral
