import Mathlib.Algebra.Group.Int.Defs
import MyselfServer.LogStream
import MyselfServer.Memory
import MyselfServer.HttpResponse

/-!
# Integers in a log line

`RawBuffer` is `FixedBuffer` with all of its array. An access outside the
array has no result, and neither has a `memcpy` whose ranges overlap. The
digits are written from behind into the unused part of the array, and the
text is then moved to where it belongs.
-/

namespace Myself

open Text Memory

structure RawBuffer (SIZE : Nat) where
  data : Bytes
  cur : Nat
  size : data.length = SIZE
  room : cur < SIZE

/-- As many bytes behind `cur_` as any number takes. -/
def kMaxNumericSize : Nat := 48

def kDigits : Bytes := bytes "9876543210123456789" ++ [0]

def kZeroDigit (digit : Int) : Option UInt8 :=
  if 0 ≤ 9 + digit then kDigits[(9 + digit).toNat]? else none

def MINUS : UInt8 := 45

inductive IntegerType where
  | short
  | unsignedShort
  | int
  | unsignedInt
  | long
  | unsignedLong
  | longLong
  | unsignedLongLong
  deriving DecidableEq

namespace IntegerType

def bits : IntegerType → Nat
  | short => 16
  | unsignedShort => 16
  | int => 32
  | unsignedInt => 32
  | long => 64
  | unsignedLong => 64
  | longLong => 64
  | unsignedLongLong => 64

def signed : IntegerType → Bool
  | short => true
  | unsignedShort => false
  | int => true
  | unsignedInt => false
  | long => true
  | unsignedLong => false
  | longLong => true
  | unsignedLongLong => false

def least (t : IntegerType) : Int := if t.signed then -2 ^ (t.bits - 1) else 0

def greatest (t : IntegerType) : Int := if t.signed then 2 ^ (t.bits - 1) - 1 else 2 ^ t.bits - 1

def Value (t : IntegerType) : Type := { value : Int // t.least ≤ value ∧ value ≤ t.greatest }

/-- No value has more than twenty digits. -/
theorem natAbs_lt (t : IntegerType) (value : t.Value) : value.1.natAbs < 10 ^ 20 := by
  obtain ⟨value, hleast, hgreatest⟩ := value
  have hbounds : -2 ^ 63 ≤ t.least ∧ t.greatest ≤ 2 ^ 64 - 1 := by
    cases t <;> decide
  obtain ⟨hlow, hhigh⟩ := hbounds
  dsimp only
  omega

end IntegerType

/-! ## Decimal text -/

theorem toText_eq (value : Int) :
    toText value = (if decide (value < 0) then [MINUS] else []) ++ bytes value.natAbs.repr := by
  cases value with
  | ofNat n => rfl
  | negSucc n =>
    have hneg : Int.negSucc n < 0 := Int.negSucc_lt_zero n
    rw [decide_eq_true hneg]
    simp only [toText, bytes, toString, Int.repr, String.toList_append, List.map_append]
    rfl

theorem length_toText (t : IntegerType) (value : t.Value) : (toText value.1).length ≤ 21 := by
  have hdigits : (bytes value.1.natAbs.repr).length ≤ 20 :=
    length_repr_le (by decide) (t.natAbs_lt value)
  rw [toText_eq, List.length_append]
  split <;> simp <;> omega

/-- A minus sign for the negative values only, then the digits of the number
with no zero in front of them. -/
def CanonicalDecimal (text : Bytes) (value : Int) : Prop :=
  ∃ digits, text = (if value < 0 then [MINUS] else []) ++ digits ∧ isDigitString digits = true ∧
    decimal digits = value.natAbs ∧ (digits.head? = some 48 → digits = [48])

theorem toText_canonical (value : Int) : CanonicalDecimal (toText value) value := by
  refine ⟨bytes value.natAbs.repr, ?_, isDigitString_repr _, decimal_repr _, ?_⟩
  · rw [toText_eq]
    simp
  · intro hzero
    by_cases hv : value.natAbs = 0
    · rw [hv]
      exact repr_zero
    · exact absurd hzero (head_repr hv)

/-! ## The array -/

namespace RawBuffer

variable {SIZE : Nat}

def text (b : RawBuffer SIZE) : Bytes := b.data.take b.cur

def avail (b : RawBuffer SIZE) : Nat := SIZE - b.cur - 1

def store (b : RawBuffer SIZE) (i : Nat) (c : UInt8) : Option (RawBuffer SIZE) :=
  if i < SIZE then
    some { b with data := b.data.set i c, size := List.length_set.trans b.size }
  else none

def memcpy (b : RawBuffer SIZE) (dst src len : Nat) : Option (RawBuffer SIZE) :=
  if h : dst + len ≤ SIZE ∧ src + len ≤ SIZE ∧ (dst + len ≤ src ∨ src + len ≤ dst) then
    some
      { b with
        data := write b.data dst (slice b.data src len)
        size := by
          have hsize := b.size
          have hlen : (slice b.data src len).length = len := length_slice (by omega)
          rw [length_write (by omega), hsize] }
  else none

def add (b : RawBuffer SIZE) (len : Nat) : Option (RawBuffer SIZE) :=
  if h : b.cur + len < SIZE then some { b with cur := b.cur + len, room := h } else none

def append (b : RawBuffer SIZE) (start len : Nat) : Option (RawBuffer SIZE) :=
  if b.avail > len then
    (b.memcpy b.cur start len).bind fun b => (b.add len).bind fun b => b.store b.cur 0
  else some b

def writeDigits (b : RawBuffer SIZE) : Nat → Int → Option (RawBuffer SIZE × Nat)
  | 0, _ => none
  | start + 1, value =>
    (kZeroDigit (value.tmod 10)).bind fun c =>
      (b.store start c).bind fun b =>
        if value.tdiv 10 ≠ 0 then b.writeDigits start (value.tdiv 10) else some (b, start)

def writeSign (b : RawBuffer SIZE) (negative : Bool) (start : Nat) : Option (RawBuffer SIZE × Nat) :=
  if negative then
    if start = 0 then none else (b.store (start - 1) MINUS).map fun b => (b, start - 1)
  else some (b, start)

def formatInteger (b : RawBuffer SIZE) (value : Int) : Option (RawBuffer SIZE) :=
  if b.avail < kMaxNumericSize then some b
  else
    let finish := b.cur + kMaxNumericSize
    (b.writeDigits finish value).bind fun (b, start) =>
      (b.writeSign (decide (value < 0)) start).bind fun (b, start) =>
        b.append start (finish - start)

section
variable {b b' : RawBuffer SIZE} {start : Nat} {value : Int}

def Wrote (b b' : RawBuffer SIZE) (start : Nat) (xs : Bytes) : Prop :=
  b'.cur = b.cur ∧ b'.data = write b.data start xs

theorem store_wrote {i : Nat} (c : UInt8) (h : i < SIZE) :
    ∃ b', b.store i c = some b' ∧ b.Wrote b' i [c] := by
  refine ⟨_, if_pos h, rfl, set_eq_write ?_⟩
  rw [b.size]
  exact h

theorem Wrote.front {b₁ : RawBuffer SIZE} {xs ys : Bytes} (h : b.Wrote b₁ (start + xs.length) ys)
    (h' : b₁.Wrote b' start xs) (hroom : start + xs.length + ys.length ≤ SIZE) :
    b.Wrote b' start (xs ++ ys) := by
  refine ⟨h'.1.trans h.1, ?_⟩
  rw [h'.2, h.2]
  exact write_write (by rw [b.size]; exact hroom)

/-- The table has the same digit on both sides of its zero. -/
theorem kZeroDigit_tmod (value : Int) :
    kZeroDigit (value.tmod 10) = some (UInt8.ofNat (48 + value.natAbs % 10)) := by
  have htable : ∀ d < 10, kZeroDigit (Int.ofNat d) = some (UInt8.ofNat (48 + d)) ∧
      kZeroDigit (-Int.ofNat d) = some (UInt8.ofNat (48 + d)) := by
    decide
  obtain ⟨hpos, hneg⟩ := htable (value.natAbs % 10) (Nat.mod_lt _ (by decide))
  rcases Int.natAbs_eq value with hv | hv
  · have hmod : value.tmod 10 = Int.ofNat (value.natAbs % 10) := by
      conv_lhs => rw [hv]
      rfl
    rw [hmod, hpos]
  · have hmod : value.tmod 10 = -Int.ofNat (value.natAbs % 10) := by
      conv_lhs => rw [hv, Int.neg_tmod]
      rfl
    rw [hmod, hneg]

theorem natAbs_tdiv (value : Int) : (value.tdiv 10).natAbs = value.natAbs / 10 :=
  Int.natAbs_tdiv value 10

/-- The loop leaves the numeral in front of where it started. -/
theorem writeDigits_wrote (hroom : (bytes value.natAbs.repr).length ≤ start) (hsize : start ≤ SIZE) :
    ∃ b', b.writeDigits start value =
        some (b', start - (bytes value.natAbs.repr).length) ∧
      b.Wrote b' (start - (bytes value.natAbs.repr).length) (bytes value.natAbs.repr) := by
  induction start generalizing b value with
  | zero =>
    rw [repr_eq] at hroom
    simp at hroom
  | succ start ih =>
    obtain ⟨b₁, hstore, hwrote⟩ := store_wrote (b := b) (UInt8.ofNat (48 + value.natAbs % 10))
      (Nat.lt_of_succ_le hsize)
    rw [writeDigits, kZeroDigit_tmod, Option.bind_some, hstore, Option.bind_some]
    have habs := natAbs_tdiv value
    by_cases hlast : value.tdiv 10 = 0
    · have hlt : value.natAbs < 10 := by omega
      rw [repr_eq, if_pos hlt, List.nil_append, List.length_singleton, Nat.add_sub_cancel,
        if_neg (not_not_intro hlast)]
      exact ⟨b₁, rfl, hwrote⟩
    · have hge : ¬ value.natAbs < 10 := by omega
      have hrepr := repr_eq value.natAbs
      rw [if_neg hge, ← habs] at hrepr
      have hlen := congrArg List.length hrepr
      rw [List.length_append, List.length_singleton] at hlen
      obtain ⟨b', hdigits, hfront⟩ := @ih b₁ (value.tdiv 10) (by omega) (by omega)
      have hstart : start + 1 - (bytes value.natAbs.repr).length =
          start - (bytes (value.tdiv 10).natAbs.repr).length := by
        omega
      rw [if_pos hlast, hdigits, hstart]
      refine ⟨b', rfl, ?_⟩
      rw [hrepr]
      refine Wrote.front ?_ hfront (by rw [List.length_singleton]; omega)
      rw [Nat.sub_add_cancel (by omega)]
      exact hwrote

theorem writeSign_wrote (negative : Bool) (hroom : 0 < start) (hsize : start ≤ SIZE) :
    ∃ b', b.writeSign negative start = some (b', start - (if negative then [MINUS] else []).length) ∧
      b.Wrote b' (start - (if negative then [MINUS] else []).length)
        (if negative then [MINUS] else []) := by
  cases negative with
  | false =>
    refine ⟨b, rfl, rfl, ?_⟩
    simp [write]
  | true =>
    obtain ⟨b', hstore, hwrote⟩ := store_wrote (b := b) MINUS (i := start - 1) (by omega)
    refine ⟨b', ?_, hwrote⟩
    rw [writeSign, if_pos rfl, if_neg (by omega), hstore]
    rfl

theorem length_text : b.text.length = b.cur := by
  have hroom := b.room
  rw [text, List.length_take, b.size]
  omega

theorem memcpy_wrote (dst : Nat) {src len : Nat} (hdst : dst + len ≤ SIZE) (hsrc : src + len ≤ SIZE)
    (happart : dst + len ≤ src ∨ src + len ≤ dst) :
    ∃ b', b.memcpy dst src len = some b' ∧ b.Wrote b' dst (slice b.data src len) :=
  ⟨_, dif_pos ⟨hdst, hsrc, happart⟩, rfl, rfl⟩

theorem add_cur (len : Nat) (h : b.cur + len < SIZE) :
    ∃ b', b.add len = some b' ∧ b'.cur = b.cur + len ∧ b'.data = b.data :=
  ⟨_, dif_pos h, rfl, rfl⟩

theorem append_text (len : Nat) (havail : b.avail > len) (happart : b.cur + len ≤ start)
    (hsize : start + len ≤ SIZE) :
    ∃ b', b.append start len = some b' ∧ b'.text = b.text ++ slice b.data start len := by
  have hroom := b.room
  have hdata := b.size
  have hnext : b.cur + len < SIZE := by
    rw [avail] at havail
    omega
  have hlen : (slice b.data start len).length = len := length_slice (by omega)
  obtain ⟨b₁, hcopy, hcur₁, hdata₁⟩ := memcpy_wrote (b := b) b.cur (by omega) hsize (.inl happart)
  obtain ⟨b₂, hadd, hcur₂, hdata₂⟩ := add_cur (b := b₁) len (by omega)
  obtain ⟨b₃, hstore, hcur₃, hdata₃⟩ := store_wrote (b := b₂) (i := b₂.cur) 0 (by omega)
  refine ⟨b₃, ?_, ?_⟩
  · rw [append, if_pos havail, hcopy, Option.bind_some, hadd, Option.bind_some, hstore]
  · have hfront := @take_write _ b.data (slice b.data start len) b.cur (by omega)
    have hsize₂ := b₂.size
    rw [hlen] at hfront
    rw [text, hcur₃, hdata₃, take_write_front (Nat.le_refl _) (by omega), hcur₂, hdata₂, hcur₁, hdata₁,
      hfront, text]

theorem formatInteger_short (h : b.avail < kMaxNumericSize) : b.formatInteger value = some b :=
  if_pos h

theorem formatInteger_text (h : kMaxNumericSize ≤ b.avail) (hvalue : value.natAbs < 10 ^ 20) :
    ∃ b', b.formatInteger value = some b' ∧ b'.text = b.text ++ toText value := by
  have hroom : b.cur + kMaxNumericSize < SIZE := by
    simp only [avail, kMaxNumericSize] at h ⊢
    omega
  have hdigits : (bytes value.natAbs.repr).length ≤ 20 := length_repr_le (by decide) hvalue
  have hsign : (if decide (value < 0) then [MINUS] else []).length ≤ 1 := by
    split <;> simp
  have hlen := congrArg List.length (toText_eq value)
  rw [List.length_append] at hlen
  simp only [kMaxNumericSize] at h hroom
  obtain ⟨b₁, hwrite, hwrote⟩ := @writeDigits_wrote _ b
    (b.cur + kMaxNumericSize) value (by simp only [kMaxNumericSize]; omega)
    (by simp only [kMaxNumericSize]; omega)
  obtain ⟨b₂, hsigned, hwrote'⟩ := @writeSign_wrote _ b₁
    (b.cur + kMaxNumericSize - (bytes value.natAbs.repr).length) (decide (value < 0))
    (by simp only [kMaxNumericSize]; omega) (by simp only [kMaxNumericSize]; omega)
  simp only [kMaxNumericSize] at hwrite hsigned hwrote hwrote'
  have hstart : b.cur + 48 - (bytes value.natAbs.repr).length -
      (if decide (value < 0) then [MINUS] else []).length = b.cur + 48 - (toText value).length := by
    omega
  rw [hstart] at hsigned hwrote'
  -- the sign and the digits stand next to each other
  have hboth : b.Wrote b₂ (b.cur + 48 - (toText value).length) (toText value) := by
    have hfront : b.cur + 48 - (toText value).length +
        (if decide (value < 0) then [MINUS] else []).length =
          b.cur + 48 - (bytes value.natAbs.repr).length := by
      omega
    have hnumber := Wrote.front (by rw [hfront]; exact hwrote) hwrote' (by omega)
    rw [← toText_eq] at hnumber
    exact hnumber
  obtain ⟨hcur, hdata⟩ := hboth
  have hsize := b.size
  have havail : b₂.avail = b.avail := by
    rw [avail, avail, hcur]
  have hfinish : b.cur + 48 - (b.cur + 48 - (toText value).length) = (toText value).length := by
    omega
  obtain ⟨b', happend, htext⟩ := @append_text _ b₂ (b.cur + 48 - (toText value).length)
    (toText value).length (by omega) (by omega) (by omega)
  refine ⟨b', ?_, ?_⟩
  · rw [formatInteger, if_neg (by simp only [kMaxNumericSize]; omega)]
    simp only [kMaxNumericSize]
    rw [hwrite, Option.bind_some, hsigned, Option.bind_some, hfinish]
    exact happend
  · rw [htext, hdata, slice_write (by omega), text, text, hcur, hdata,
      take_write_front (by omega) (by omega)]

/-- **An integer is written as its decimal text or not at all**, and every
access stays in the array. -/
theorem formatInteger_exact (b : RawBuffer SIZE) (t : IntegerType) (value : t.Value) :
    ∃ b', b.formatInteger value.1 = some b' ∧
      (kMaxNumericSize ≤ b.avail →
        ∃ text, CanonicalDecimal text value.1 ∧ b'.text = b.text ++ text) ∧
      (b.avail < kMaxNumericSize → b' = b) := by
  by_cases h : b.avail < kMaxNumericSize
  · exact ⟨b, formatInteger_short h, fun hroom => absurd h (Nat.not_lt.mpr hroom), fun _ => rfl⟩
  · obtain ⟨b', hformat, htext⟩ := formatInteger_text (Nat.not_lt.mp h) (t.natAbs_lt value)
    exact ⟨b', hformat, fun _ => ⟨_, toText_canonical value.1, htext⟩, fun hlt => absurd hlt h⟩

end

end RawBuffer

namespace FixedBuffer

variable {SIZE : Nat}

def formatInteger (b : FixedBuffer SIZE) (value : Int) : FixedBuffer SIZE :=
  if b.avail < kMaxNumericSize then b else b.append (toText value)

end FixedBuffer

namespace RawBuffer

variable {SIZE : Nat}

def fixed (b : RawBuffer SIZE) : FixedBuffer SIZE :=
  ⟨b.text, by
    rw [length_text]
    exact b.room⟩

theorem formatInteger_fixed (b : RawBuffer SIZE) (t : IntegerType) (value : t.Value) :
    (b.formatInteger value.1).map fixed = some (b.fixed.formatInteger value.1) := by
  have havail : b.fixed.avail = b.avail := by
    rw [FixedBuffer.avail, FixedBuffer.length, avail]
    exact congrArg (SIZE - · - 1) length_text
  rw [FixedBuffer.formatInteger, havail]
  by_cases h : b.avail < kMaxNumericSize
  · rw [if_pos h, formatInteger_short h]
    rfl
  · have hvalue := t.natAbs_lt value
    obtain ⟨b', hformat, htext⟩ := formatInteger_text (Nat.not_lt.mp h) hvalue
    rw [if_neg h, hformat, Option.map_some, Option.some_inj]
    have hlong := length_toText t value
    have hfit : b.fixed.avail > (toText value.1).length := by
      simp only [kMaxNumericSize] at h
      omega
    apply FixedBuffer.ext
    rw [FixedBuffer.data_append hfit]
    exact htext

end RawBuffer

end Myself
