import Mathlib.Tactic.Linarith
import Mathlib.Tactic.NormNum
import MyselfServer.Numeral

/-!
# Times of the steady clock

`Timestamp.h`. Times are nanoseconds in 64 bits, and seconds are doubles, of
which a number of nanoseconds is made. `addTime_duration` and `inClock_of_addTime`
say where a time so many seconds later is what it is meant to be: a number that
does not fit in 64 bits is converted as x86-64 does it, and a sum wraps around.
-/

namespace Myself

abbrev Timestamp := Int

/-- The nearest number with 53 binary digits. Below 1 the places are those of
the numbers next to it. -/
def roundDouble (v : ℚ) : ℚ :=
  let unit : ℚ := if |v| < 1 then 1 / 2 ^ 53 else 2 ^ ((Nat.log2 |v|.floor.toNat : Int) - 52)
  (if v < 0 then -unit else unit) * Numeral.roundEven (|v| / unit)

def nanoseconds (seconds : ℚ) : Int :=
  let product := roundDouble (seconds * 1000000000)
  product.num.tdiv product.den

/-- `duration_cast`; an infinite number of seconds is one that does not fit. -/
def secondsToDuration (seconds : ℚ) : Int :=
  if -2 ^ 63 ≤ nanoseconds seconds ∧ nanoseconds seconds < 2 ^ 63 then nanoseconds seconds else -2 ^ 63

def addTime (t duration : Int) : Timestamp := (t + duration).bmod (2 ^ 64)

/-- The time is one of 64 bits, and so are the duration and the later time. -/
structure InClock (t : Int) (seconds : ℚ) : Prop where
  now : -2 ^ 63 ≤ t
  duration : nanoseconds seconds < 2 ^ 63
  later : t + nanoseconds seconds < 2 ^ 63

instance (t : Int) (seconds : ℚ) : Decidable (InClock t seconds) :=
  decidable_of_iff (-2 ^ 63 ≤ t ∧ nanoseconds seconds < 2 ^ 63 ∧ t + nanoseconds seconds < 2 ^ 63)
    ⟨fun h => ⟨h.1, h.2.1, h.2.2⟩, fun h => ⟨h.now, h.duration, h.later⟩⟩

section
variable {t : Int} {seconds v : ℚ}

theorem roundDouble_nonneg (h : 0 ≤ v) : 0 ≤ roundDouble v := by
  unfold roundDouble
  dsimp only
  rw [if_neg (not_lt.mpr h)]
  apply mul_nonneg ?_ (Nat.cast_nonneg _)
  by_cases hone : |v| < 1
  · rw [if_pos hone]
    norm_num
  · rw [if_neg hone]
    exact zpow_nonneg (by norm_num) _

theorem roundDouble_near (h : 0 ≤ v) : |roundDouble v - v| ≤ max v 1 / 2 ^ 53 := by
  have hv : |v| = v := abs_of_nonneg h
  unfold roundDouble
  dsimp only
  rw [if_neg (not_lt.mpr h), hv]
  generalize hunit : (if v < 1 then (1 : ℚ) / 2 ^ 53 else 2 ^ ((Nat.log2 v.floor.toNat : Int) - 52)) = unit
  have hunit : 0 < unit ∧ unit / 2 ≤ max v 1 / 2 ^ 53 := by
    by_cases hone : v < 1
    · rw [if_pos hone] at hunit
      subst hunit
      exact ⟨by norm_num, by linarith [le_max_right v (1 : ℚ)]⟩
    · rw [if_neg hone] at hunit
      have hfloor : 1 ≤ v.floor := Rat.le_floor_iff.mpr (by exact_mod_cast not_lt.mp hone)
      have hlog : (2 : ℚ) ^ Nat.log2 v.floor.toNat ≤ v := by
        have hself : 2 ^ Nat.log2 v.floor.toNat ≤ v.floor.toNat := Nat.log2_self_le (by omega)
        have hcast : ((v.floor.toNat : Nat) : ℚ) = (v.floor : ℚ) := by
          exact_mod_cast Int.toNat_of_nonneg (by omega : 0 ≤ v.floor)
        have hle : ((2 ^ Nat.log2 v.floor.toNat : Nat) : ℚ) ≤ v.floor := hcast ▸ Nat.cast_le.mpr hself
        push_cast at hle
        exact hle.trans (Rat.floor_le v)
      rw [zpow_sub₀ (by norm_num), zpow_natCast] at hunit
      subst hunit
      refine ⟨by positivity, ?_⟩
      have hmax := le_max_left v (1 : ℚ)
      norm_num
      linarith
  have hnear := Numeral.roundEven_near (div_nonneg h hunit.1.le)
  calc |unit * (Numeral.roundEven (v / unit) : ℚ) - v|
      = unit * |(Numeral.roundEven (v / unit) : ℚ) - v / unit| := by
        rw [← abs_of_pos hunit.1, ← abs_mul, abs_of_pos hunit.1, mul_sub, mul_div_cancel₀ v hunit.1.ne']
    _ ≤ unit * (1 / 2) := mul_le_mul_of_nonneg_left hnear hunit.1.le
    _ ≤ max v 1 / 2 ^ 53 := by linarith [hunit.2]

theorem nanoseconds_nonneg (h : 0 ≤ seconds) : 0 ≤ nanoseconds seconds := by
  have hproduct : 0 ≤ roundDouble (seconds * 1000000000) := roundDouble_nonneg (mul_nonneg h (by norm_num))
  exact Int.tdiv_nonneg (Rat.num_nonneg.mpr hproduct) (Int.natCast_nonneg _)

/-- The product is exact to 53 binary digits, and only its fraction is lost. -/
theorem nanoseconds_near (h : 0 ≤ seconds) :
    |(nanoseconds seconds : ℚ) - seconds * 1000000000| < 1 + max (seconds * 1000000000) 1 / 2 ^ 53 := by
  have hproduct : 0 ≤ seconds * 1000000000 := mul_nonneg h (by norm_num)
  have hnear := abs_le.mp (roundDouble_near hproduct)
  have hfloor : nanoseconds seconds = (roundDouble (seconds * 1000000000)).floor := by
    rw [Rat.floor_def]
    exact Int.tdiv_eq_ediv_of_nonneg (Rat.num_nonneg.mpr (roundDouble_nonneg hproduct))
  have hlow := Rat.floor_le (roundDouble (seconds * 1000000000))
  have hhigh : roundDouble (seconds * 1000000000) < (roundDouble (seconds * 1000000000)).floor + 1 := by
    exact_mod_cast Rat.lt_floor_add_one _
  rw [hfloor, abs_lt]
  exact ⟨by linarith, by linarith⟩

theorem addTime_of_fits {duration : Int} (hlow : -2 ^ 63 ≤ t + duration) (hhigh : t + duration < 2 ^ 63) :
    addTime t duration = t + duration := by
  show (t + duration).bmod (2 ^ 64) = t + duration
  rw [Int.bmod_def]
  omega

/-- **Later by a number of seconds.** -/
theorem addTime_duration (hseconds : 0 ≤ seconds) (h : InClock t seconds) :
    addTime t (secondsToDuration seconds) = t + nanoseconds seconds := by
  have hnonneg := nanoseconds_nonneg hseconds
  have hnow := h.now
  have hfits : -2 ^ 63 ≤ nanoseconds seconds ∧ nanoseconds seconds < 2 ^ 63 := ⟨by omega, h.duration⟩
  unfold secondsToDuration
  rw [if_pos hfits]
  exact addTime_of_fits (by omega) h.later

/-- Nothing but an overflow makes another time of it. -/
theorem inClock_of_addTime (ht : 0 ≤ t) (hseconds : 0 ≤ seconds)
    (h : addTime t (secondsToDuration seconds) = t + nanoseconds seconds) : InClock t seconds := by
  have hnonneg := nanoseconds_nonneg hseconds
  have hhigh : (t + secondsToDuration seconds).bmod (2 ^ 64) < 2 ^ 63 := by
    rw [Int.bmod_def]
    omega
  have heq : (t + secondsToDuration seconds).bmod (2 ^ 64) = t + nanoseconds seconds := h
  exact ⟨by omega, by omega, by omega⟩

/-- Where the clock has not run over, an overflow makes the time come too early. -/
theorem inClock_of_le {now : Int} (hnow : 0 ≤ now) (hle : now ≤ t) (ht : t < 2 ^ 63) (hseconds : 0 ≤ seconds)
    (h : now + nanoseconds seconds ≤ addTime t (secondsToDuration seconds)) : InClock t seconds := by
  have hnonneg := nanoseconds_nonneg hseconds
  have hsum : now + nanoseconds seconds ≤ (t + secondsToDuration seconds).bmod (2 ^ 64) := h
  have hhigh : (t + secondsToDuration seconds).bmod (2 ^ 64) < 2 ^ 63 := by
    rw [Int.bmod_def]
    omega
  have hduration : secondsToDuration seconds = nanoseconds seconds := by
    unfold secondsToDuration
    exact if_pos ⟨by omega, by omega⟩
  rw [hduration] at hsum hhigh
  refine ⟨by omega, by omega, ?_⟩
  by_contra hover
  -- the sum wraps around once
  rw [Int.bmod_def] at hsum
  omega

end

end Myself
