import Mathlib.Algebra.Ring.Nat
import Mathlib.Data.List.DropRight
import Mathlib.Data.List.Infix

/-!
# Byte strings: search, trimming, letter case, numerals

The string functions of the C++ and C libraries the server uses, on lists.
`search` is `std::search` (and `string::find`, for one character a pattern
of length one); its lemmas say where the first occurrence is and what more
text behind the string does to it.
-/

namespace Text

/-! ## Search -/

section
variable {α : Type} [DecidableEq α]

def search (pat : List α) : List α → Option Nat
  | [] => if pat = [] then some 0 else none
  | x :: xs => if pat <+: x :: xs then some 0 else (search pat xs).map (· + 1)

def findFrom (c : α) (xs : List α) (pos : Nat) : Option Nat :=
  (search [c] (xs.drop pos)).map (· + pos)

theorem search_cons_pos {pat : List α} {x : α} {xs : List α} (h : pat <+: x :: xs) :
    search pat (x :: xs) = some 0 := by
  simp [search, h]

theorem search_cons_neg {pat : List α} {x : α} {xs : List α} (h : ¬ pat <+: x :: xs) :
    search pat (x :: xs) = (search pat xs).map (· + 1) := by
  simp [search, h]

theorem search_split {pat : List α} : ∀ {xs : List α} {k : Nat}, search pat xs = some k →
    ∃ b, xs = xs.take k ++ (pat ++ b) ∧ b = xs.drop (k + pat.length)
  | [], k, h => by
    simp only [search] at h
    split at h
    · rename_i hp
      cases h
      exact ⟨[], by simp [hp], by simp⟩
    · cases h
  | x :: xs, k, h => by
    by_cases hp : pat <+: x :: xs
    · rw [search_cons_pos hp] at h
      cases h
      obtain ⟨b, hb⟩ := hp
      refine ⟨b, by simp [hb], ?_⟩
      rw [← hb, Nat.zero_add, List.drop_left]
    · rw [search_cons_neg hp] at h
      obtain ⟨k', hk', rfl⟩ := Option.map_eq_some_iff.mp h
      obtain ⟨b, hb, hd⟩ := search_split hk'
      refine ⟨b, ?_, ?_⟩
      · rw [List.take_succ_cons, List.cons_append, ← hb]
      · rw [hd, Nat.add_right_comm, List.drop_succ_cons]

theorem search_length {pat xs : List α} {k : Nat} (h : search pat xs = some k) :
    k + pat.length ≤ xs.length := by
  obtain ⟨b, hb, -⟩ := search_split h
  have hk : k ≤ xs.length := by
    rcases Nat.lt_or_ge xs.length k with hlt | hge
    · have := congrArg List.length hb
      simp only [List.length_append, List.length_take] at this
      have hp : pat.length = 0 := by omega
      induction xs generalizing k with
      | nil =>
        simp only [search] at h
        split at h
        · cases h; simp
        · cases h
      | cons x xs ih =>
        rw [search_cons_pos (by simp [List.length_eq_zero_iff.mp hp])] at h
        cases h; simp
    · exact hge
  have := congrArg List.length hb
  simp only [List.length_append, List.length_take] at this
  omega

/-- More text behind the string does not move the first occurrence. -/
theorem search_append {pat : List α} (ys : List α) : ∀ {xs : List α} {k : Nat},
    search pat xs = some k → search pat (xs ++ ys) = some k
  | [], k, h => by
    simp only [search] at h
    split at h
    · rename_i hp
      cases h
      cases ys <;> simp [search, hp]
    · cases h
  | x :: xs, k, h => by
    by_cases hp : pat <+: x :: xs
    · have hq : pat <+: x :: (xs ++ ys) := hp.trans (List.prefix_append (x :: xs) ys)
      rw [search_cons_pos hp] at h
      rw [List.cons_append, search_cons_pos hq, h]
    · have hlen := search_length h
      rw [search_cons_neg hp] at h
      obtain ⟨k', hk', rfl⟩ := Option.map_eq_some_iff.mp h
      have hp' : ¬ pat <+: (x :: xs) ++ ys := fun hq =>
        hp (List.prefix_of_prefix_length_le hq (List.prefix_append _ _) (by omega))
      rw [List.cons_append] at hp' ⊢
      rw [search_cons_neg hp', search_append ys hk', Option.map_some]

/-- An occurrence that more text brings about ends in that text. -/
theorem search_append_of_none {pat ys : List α} : ∀ {xs : List α} {k : Nat},
    search pat xs = none → search pat (xs ++ ys) = some k → xs.length < k + pat.length
  | [], k, h, _ => by
    simp only [search] at h
    split at h
    · cases h
    · rename_i hp
      have := List.length_pos_iff.mpr hp
      simp; omega
  | x :: xs, k, h, h' => by
    have hp : ¬ pat <+: x :: xs := fun hp => by rw [search_cons_pos hp] at h; cases h
    rw [search_cons_neg hp, Option.map_eq_none_iff] at h
    rw [List.cons_append] at h'
    by_cases hq : pat <+: x :: (xs ++ ys)
    · rw [search_cons_pos hq] at h'
      cases h'
      rcases Nat.lt_or_ge (x :: xs).length pat.length with hl | hl
      · omega
      · exact absurd (List.prefix_of_prefix_length_le hq (List.prefix_append (x :: xs) ys) hl) hp
    · rw [search_cons_neg hq] at h'
      obtain ⟨k', hk', rfl⟩ := Option.map_eq_some_iff.mp h'
      have := search_append_of_none h hk'
      simp only [List.length_cons]
      omega

theorem search_eq_none_iff {pat : List α} (hpat : pat ≠ []) {xs : List α} :
    search pat xs = none ↔ ¬ pat <:+: xs := by
  induction xs with
  | nil => simp [search, hpat]
  | cons x xs ih =>
    rw [List.infix_cons_iff, not_or]
    by_cases hp : pat <+: x :: xs
    · simp [search_cons_pos hp, hp]
    · simp [search_cons_neg hp, hp, ih]

theorem search_take {pat : List α} (hpat : pat ≠ []) {xs : List α} {k : Nat}
    (h : search pat xs = some k) : search pat (xs.take k) = none := by
  cases hs : search pat (xs.take k) with
  | none => rfl
  | some j =>
    have hj := search_append (xs.drop k) hs
    rw [List.take_append_drop, h] at hj
    have := search_length hs
    have := List.length_pos_iff.mpr hpat
    simp only [Option.some.injEq] at hj
    simp only [List.length_take] at *
    omega

theorem search_one {c : α} {a : List α} (hc : c ∉ a) (b : List α) :
    search [c] (a ++ c :: b) = some a.length := by
  induction a with
  | nil => exact search_cons_pos ⟨b, rfl⟩
  | cons x a ih =>
    simp only [List.mem_cons, not_or] at hc
    rw [List.cons_append, search_cons_neg (by simpa using hc.1), ih hc.2]
    rfl

theorem search_one_eq_none {c : α} {a : List α} : search [c] a = none ↔ c ∉ a := by
  rw [search_eq_none_iff (by simp), List.singleton_infix_iff]

theorem search_pair {x y : α} (hxy : x ≠ y) {a : List α} (h : search [x, y] a = none) (b : List α) :
    search [x, y] (a ++ x :: y :: b) = some a.length := by
  induction a with
  | nil => exact search_cons_pos ⟨b, rfl⟩
  | cons z a ih =>
    have hp : ¬ [x, y] <+: z :: a := fun hp => by rw [search_cons_pos hp] at h; cases h
    rw [search_cons_neg hp, Option.map_eq_none_iff] at h
    have hq : ¬ [x, y] <+: z :: (a ++ x :: y :: b) := by
      cases a with
      | nil => simp only [List.nil_append, List.cons_prefix_cons]; exact fun hq => hxy hq.2.1.symm
      | cons w a => simpa [List.cons_prefix_cons] using hp
    rw [List.cons_append, search_cons_neg hq, ih h]
    rfl

theorem search_one_iff {c : α} {s : List α} {k : Nat} :
    search [c] s = some k ↔ ∃ a b, s = a ++ c :: b ∧ c ∉ a ∧ a.length = k := by
  constructor
  · intro h
    obtain ⟨b, hb, -⟩ := search_split h
    have hk := search_length h
    refine ⟨s.take k, b, hb, search_one_eq_none.mp (search_take (by simp) h), ?_⟩
    simp only [List.length_singleton] at hk
    simp; omega
  · rintro ⟨a, b, rfl, hc, rfl⟩
    exact search_one hc b

end

/-! ## Blanks, letter case and digits -/

abbrev Bytes := List UInt8

def bytes (s : String) : Bytes := s.toList.map fun c => UInt8.ofNat c.toNat

def SP : UInt8 := 32
def COLON : UInt8 := 58
def QUESTION : UInt8 := 63
def LF : UInt8 := 10
def QUOTE : UInt8 := 34
def COMMA : UInt8 := 44
def OPEN : UInt8 := 123
def CLOSE : UInt8 := 125
def CRLF : Bytes := [13, 10]

def isBlank (c : UInt8) : Bool := c == 32 || c == 9

def trim (s : Bytes) : Bytes := (s.dropWhile isBlank).rdropWhile isBlank

def lower (c : UInt8) : UInt8 := if 65 ≤ c ∧ c ≤ 90 then c + 32 else c

def toLower (s : Bytes) : Bytes := s.map lower

def isDigit (c : UInt8) : Bool := 48 ≤ c && c ≤ 57

def isDigitString (s : Bytes) : Bool := !s.isEmpty && s.all isDigit

def decimal (s : Bytes) : Nat := s.foldl (fun n c => 10 * n + (c.toNat - 48)) 0

def ULONG_MAX : Nat := 2 ^ 64 - 1

/-- `std::strtoul` in base ten on a string that starts with a digit: out of
range it answers `ULONG_MAX`. -/
def strtoul (s : Bytes) : Nat := min (decimal (s.takeWhile isDigit)) ULONG_MAX

theorem strtoul_of_digits {s : Bytes} (h : isDigitString s = true) :
    strtoul s = min (decimal s) ULONG_MAX := by
  simp only [isDigitString, Bool.and_eq_true, List.all_eq_true] at h
  rw [strtoul, List.takeWhile_eq_self_iff.mpr h.2]

theorem trim_trim (s : Bytes) : trim (trim s) = trim s := by
  have hd : ∀ t : Bytes, (t.dropWhile isBlank).dropWhile isBlank = t.dropWhile isBlank :=
    fun t => List.dropWhile_idempotent isBlank t
  unfold trim
  generalize hu : s.dropWhile isBlank = u
  -- the trimmed text starts with no blank, and so does what is left of it on the right
  have hfirst : (u.rdropWhile isBlank).dropWhile isBlank = u.rdropWhile isBlank := by
    have huu : u.dropWhile isBlank = u := by rw [← hu, hd]
    cases u with
    | nil => rfl
    | cons c u =>
      have hc : isBlank c = false := by
        by_contra hc
        rw [List.dropWhile_cons_of_pos (by simpa using hc)] at huu
        have := (List.dropWhile_suffix (l := u) isBlank).length_le
        rw [huu] at this
        simp only [List.length_cons] at this
        omega
      have hne : ∃ w, (c :: u).rdropWhile isBlank = c :: w := by
        obtain ⟨w, hw⟩ := List.rdropWhile_prefix isBlank (l := c :: u)
        cases hr : (c :: u).rdropWhile isBlank with
        | nil =>
          have := List.rdropWhile_eq_nil_iff.mp hr c (by simp)
          rw [hc] at this; cases this
        | cons d v =>
          rw [hr] at hw
          simp only [List.cons_append, List.cons.injEq] at hw
          exact ⟨v, by rw [hw.1]⟩
      obtain ⟨w, hw⟩ := hne
      rw [hw, List.dropWhile_cons_of_neg (by simp [hc])]
  rw [hfirst, List.rdropWhile_idempotent]

theorem trim_SP (s : Bytes) : trim (SP :: s) = trim s := by
  unfold trim
  rw [List.dropWhile_cons_of_pos (by decide)]

theorem trim_part (s : Bytes) : trim s <:+: s :=
  (List.rdropWhile_prefix isBlank _).isInfix.trans (List.dropWhile_suffix isBlank).isInfix

theorem infix_of_mem_splitOn {sep : UInt8} {s c : Bytes} (h : c ∈ s.splitOn sep) : c <:+: s := by
  obtain ⟨before, after, heq⟩ := List.append_of_mem h
  have hs : [sep].intercalate (s.splitOn sep) = s := List.intercalate_splitOn sep
  rw [← hs, heq]
  clear hs heq h
  induction before with
  | nil =>
    cases after with
    | nil => simp
    | cons d after =>
      rw [List.nil_append, List.intercalate_cons_cons, List.append_assoc]
      exact (List.prefix_append c _).isInfix
  | cons b before ih =>
    have hcons : ∃ d ds, before ++ c :: after = d :: ds := by
      cases before with
      | nil => exact ⟨c, after, rfl⟩
      | cons d ds => exact ⟨d, ds ++ c :: after, rfl⟩
    obtain ⟨d, ds, hd⟩ := hcons
    rw [List.cons_append, hd, List.intercalate_cons_cons, ← hd]
    exact ih.trans (List.suffix_append _ _).isInfix

/-- A piece does not hold what the pieces are cut at. -/
theorem notMem_of_mem_splitOn {sep : UInt8} {s c : Bytes} (h : c ∈ s.splitOn sep) : sep ∉ c := by
  induction s generalizing c with
  | nil =>
    rw [List.splitOn_nil, List.mem_singleton] at h
    rw [h]
    exact List.not_mem_nil
  | cons x s ih =>
    rw [List.splitOn_cons_eq_if_modifyHead] at h
    split at h
    · rcases List.mem_cons.mp h with rfl | h
      · exact List.not_mem_nil
      · exact ih h
    · rename_i hx
      obtain ⟨p, ps, hp⟩ := List.exists_cons_of_ne_nil (List.splitOn_ne_nil sep s)
      rw [hp, List.modifyHead_cons] at h
      rw [hp] at ih
      rcases List.mem_cons.mp h with rfl | h
      · have hne : ¬ sep = x := fun heq => hx (by simp [heq])
        rw [List.mem_cons, not_or]
        exact ⟨hne, ih (List.mem_cons_self ..)⟩
      · exact ih (List.mem_cons_of_mem _ h)

theorem lower_lower (c : UInt8) : lower (lower c) = lower c := by
  have hn : ∀ c : UInt8, 65 ≤ c ∧ c ≤ 90 → (c + 32).toNat = c.toNat + 32 := by
    intro c h
    simp only [UInt8.le_iff_toNat_le] at h
    have h90 : c.toNat ≤ 90 := h.2
    rw [UInt8.toNat_add]
    exact Nat.mod_eq_of_lt (Nat.lt_of_le_of_lt (Nat.add_le_add_right h90 32) (by decide))
  by_cases h : 65 ≤ c ∧ c ≤ 90
  · have hup : ¬ (65 ≤ c + 32 ∧ c + 32 ≤ 90) := by
      rintro ⟨-, h90⟩
      simp only [UInt8.le_iff_toNat_le, hn c h] at h h90
      have h65 : 65 ≤ c.toNat := h.1
      have : c.toNat + 32 ≤ 90 := h90
      omega
    simp only [lower, if_pos h, if_neg hup]
  · simp only [lower, if_neg h]

theorem toLower_toLower (s : Bytes) : toLower (toLower s) = toLower s := by
  simp only [toLower, List.map_map]
  exact List.map_congr_left fun c _ => lower_lower c

theorem lower_eq_iff {c d : UInt8} (hd : d < 65) : lower c = d ↔ c = d := by
  by_cases h : 65 ≤ c ∧ c ≤ 90
  · have hne : ∀ e : UInt8, 65 ≤ e → e ≠ d := by
      rintro e he rfl
      exact absurd hd (UInt8.not_lt.mpr he)
    have hup : (65 : UInt8) ≤ c + 32 := by
      simp only [UInt8.le_iff_toNat_le] at h ⊢
      have h90 : c.toNat ≤ 90 := h.2
      have h65 : 65 ≤ c.toNat := h.1
      rw [UInt8.toNat_add]
      have hmod : (c.toNat + 32) % 2 ^ 8 = c.toNat + 32 := Nat.mod_eq_of_lt (by omega)
      exact Nat.le_trans (Nat.le_add_right_of_le h65) (Nat.le_of_eq hmod.symm)
    simp only [lower, if_pos h]
    exact iff_of_false (hne _ hup) (hne _ h.1)
  · simp only [lower, if_neg h]

theorem mem_toLower {s : Bytes} {d : UInt8} (hd : d < 65) : d ∈ toLower s ↔ d ∈ s := by
  simp only [toLower, List.mem_map, lower_eq_iff hd, exists_eq_right]

theorem isBlank_lower (c : UInt8) : isBlank (lower c) = isBlank c := by
  have h32 : lower c = 32 ↔ c = 32 := lower_eq_iff (by decide)
  have h9 : lower c = 9 ↔ c = 9 := lower_eq_iff (by decide)
  rw [Bool.eq_iff_iff]
  simp only [isBlank, Bool.or_eq_true, beq_iff_eq, h32, h9]

theorem trim_toLower (s : Bytes) : trim (toLower s) = toLower (trim s) := by
  have hb : isBlank ∘ lower = isBlank := funext isBlank_lower
  simp only [trim, toLower, List.rdropWhile, List.dropWhile_map, ← List.map_reverse, hb]

theorem noCRLF_of_part {s t : Bytes} (h : s <:+: t) (ht : ¬ CRLF <:+: t) : ¬ CRLF <:+: s :=
  fun hs => ht (hs.trans h)

/-- A byte between two pieces of lines that is no end of a line keeps them apart. -/
theorem noCRLF_sep {a b : Bytes} {c : UInt8} (ha : ¬ CRLF <:+: a) (hb : ¬ CRLF <:+: b)
    (h13 : c ≠ 13) (h10 : c ≠ 10) : ¬ CRLF <:+: a ++ c :: b := by
  rintro ⟨x, y, h⟩
  simp only [CRLF, List.append_assoc, List.cons_append, List.nil_append] at h
  rcases List.append_eq_append_iff.mp h with ⟨z, rfl, hz⟩ | ⟨z, rfl, hz⟩
  · cases z with
    | nil => exact h13 (List.cons.inj hz).1.symm
    | cons d z =>
      cases z with
      | nil => exact h10 (List.cons.inj (List.cons.inj hz).2).1.symm
      | cons e z =>
        simp only [List.cons_append, List.cons.injEq] at hz
        exact ha ⟨x, z, by rw [← hz.1, ← hz.2.1]; simp [CRLF]⟩
  · cases z with
    | nil => exact h13 (List.cons.inj hz).1
    | cons d z => exact hb ⟨z, y, by rw [(List.cons.inj hz).2]; simp [CRLF]⟩

theorem noCRLF_append {a b : Bytes} (ha : ¬ CRLF <:+: a) (hb : LF ∉ b) : ¬ CRLF <:+: a ++ b := by
  induction b generalizing a with
  | nil => simpa using ha
  | cons c b ih =>
    simp only [List.mem_cons, not_or] at hb
    have hc : ¬ CRLF <:+: a ++ [c] := by
      rintro ⟨x, y, h⟩
      rcases List.eq_nil_or_concat y with rfl | ⟨y, d, rfl⟩
      · rw [List.append_nil] at h
        have hlast := congrArg List.getLast? h
        simp only [CRLF, List.getLast?_append, List.getLast?_cons, List.getLast?_nil] at hlast
        simp only [Option.getD_none, Option.some_or, Option.getD_some, Option.some.injEq] at hlast
        exact hb.1 hlast
      · rw [List.concat_eq_append, ← List.append_assoc] at h
        exact ha ⟨x, y, (List.append_inj' h rfl).1⟩
    have := ih hc hb.2
    rwa [List.append_assoc] at this

/-- Lowering brings about no end of a line. -/
theorem noCRLF_toLower {s : Bytes} (h : ¬ CRLF <:+: s) : ¬ CRLF <:+: toLower s := by
  rintro ⟨a, b, hs⟩
  obtain ⟨ac, b', rfl, hac, -⟩ := List.map_eq_append_iff.mp hs.symm
  obtain ⟨a', c, rfl, -, hc⟩ := List.map_eq_append_iff.mp hac
  have h13 : ∀ d : UInt8, lower d = 13 ↔ d = 13 := fun _ => lower_eq_iff (by decide)
  have h10 : ∀ d : UInt8, lower d = 10 ↔ d = 10 := fun _ => lower_eq_iff (by decide)
  have heq : c = CRLF := by
    cases c with
    | nil => cases hc
    | cons x c =>
      cases c with
      | nil => simp [CRLF] at hc
      | cons y c =>
        simp only [CRLF, List.map_cons, List.cons.injEq, List.map_eq_nil_iff, h13, h10] at hc
        rw [hc.1, hc.2.1, hc.2.2]
        rfl
  exact h ⟨a', b', by rw [heq]⟩

/-! ## Lines -/

def chopCR (line : Bytes) : Bytes := if line.getLast? = some 13 then line.dropLast else line

theorem chopCR_concat (line : Bytes) (c : UInt8) :
    chopCR (line ++ [c]) = if c = 13 then line else line ++ [c] := by
  simp [chopCR]

theorem chopCR_sep (a : Bytes) {c : UInt8} (hc : c ≠ 13) (b : Bytes) :
    chopCR (a ++ c :: b) = a ++ c :: chopCR b := by
  rcases List.eq_nil_or_concat b with rfl | ⟨b, d, rfl⟩
  · rw [chopCR_concat, if_neg hc]
    rfl
  · have hsplit : a ++ c :: b.concat d = (a ++ c :: b) ++ [d] := by simp
    rw [hsplit, List.concat_eq_append, chopCR_concat, chopCR_concat]
    by_cases hd : d = 13
    · simp [hd]
    · simp [hd]

theorem chopCR_part (line : Bytes) : chopCR line <:+: line := by
  unfold chopCR
  split
  · exact (List.dropLast_prefix line).isInfix
  · exact List.infix_refl line

def splitCRLF : Bytes → List Bytes
  | [] => [[]]
  | [c] => [[c]]
  | c :: d :: rest =>
    if c = 13 ∧ d = 10 then [] :: splitCRLF rest
    else (splitCRLF (d :: rest)).modifyHead (c :: ·)

def joinLines (ls : List Bytes) : Bytes := ls.flatMap fun l => l ++ CRLF

theorem splitCRLF_ne_nil (s : Bytes) : splitCRLF s ≠ [] := by
  fun_induction splitCRLF s with
  | case1 => simp
  | case2 c => simp
  | case3 c d rest h ih => simp
  | case4 c d rest h ih =>
    obtain ⟨l, ls, hl⟩ := List.exists_cons_of_ne_nil ih
    simp [hl]

theorem joinLines_splitCRLF (s : Bytes) : joinLines (splitCRLF s) = s ++ CRLF := by
  fun_induction splitCRLF s with
  | case1 => rfl
  | case2 c => rfl
  | case3 c d rest h ih =>
    have hjoin : joinLines ([] :: splitCRLF rest) = CRLF ++ joinLines (splitCRLF rest) := rfl
    rw [hjoin, ih, h.1, h.2]
    rfl
  | case4 c d rest h ih =>
    obtain ⟨l, ls, hl⟩ := List.exists_cons_of_ne_nil (splitCRLF_ne_nil (d :: rest))
    have hcons : joinLines ((c :: l) :: ls) = c :: joinLines (l :: ls) := rfl
    rw [hl] at ih ⊢
    rw [List.modifyHead_cons, hcons, ih]
    rfl

theorem noCRLF_of_mem_splitCRLF (s : Bytes) : ∀ l ∈ splitCRLF s, ¬ CRLF <:+: l := by
  have hnil : ¬ CRLF <:+: ([] : Bytes) := by decide
  have hone : ∀ c : UInt8, ¬ CRLF <:+: [c] := fun c h => absurd h.length_le (by simp [CRLF])
  have hfirst : ∀ d rest l ls, splitCRLF (d :: rest) = l :: ls → l = [] ∨ l.head? = some d := by
    intro d rest l ls hl
    cases rest with
    | nil =>
      cases hl
      exact .inr rfl
    | cons e rest =>
      simp only [splitCRLF] at hl
      split at hl
      · cases hl
        exact .inl rfl
      · obtain ⟨l', ls', hl'⟩ := List.exists_cons_of_ne_nil (splitCRLF_ne_nil (e :: rest))
        rw [hl'] at hl
        cases hl
        exact .inr rfl
  fun_induction splitCRLF s with
  | case1 => simpa using hnil
  | case2 c => simpa using hone c
  | case3 c d rest h ih => exact List.forall_mem_cons.mpr ⟨hnil, ih⟩
  | case4 c d rest h ih =>
    obtain ⟨l, ls, hl⟩ := List.exists_cons_of_ne_nil (splitCRLF_ne_nil (d :: rest))
    rw [hl, List.forall_mem_cons] at ih
    rw [hl, List.modifyHead_cons, List.forall_mem_cons]
    refine ⟨fun hin => ?_, ih.2⟩
    rcases List.infix_cons_iff.mp hin with hpre | hin
    · -- the line would start with CR and LF
      rcases hfirst d rest l ls hl with rfl | hd
      · exact absurd hpre.length_le (by simp [CRLF])
      · obtain ⟨t, ht⟩ := hpre
        cases l with
        | nil => cases hd
        | cons e l =>
          cases hd
          simp only [CRLF, List.cons_append, List.nil_append, List.cons.injEq] at ht
          exact h ⟨ht.1.symm, ht.2.1.symm⟩
    · exact ih.1 hin

theorem splitCRLF_of_noCRLF {s : Bytes} (h : ¬ CRLF <:+: s) : splitCRLF s = [s] := by
  fun_induction splitCRLF s with
  | case1 => rfl
  | case2 c => rfl
  | case3 c d rest hcd ih => exact absurd ⟨[], rest, by rw [hcd.1, hcd.2]; rfl⟩ h
  | case4 c d rest hcd ih =>
    rw [ih (noCRLF_of_part (List.suffix_cons c _).isInfix h), List.modifyHead_cons]

theorem splitCRLF_cons {s l : Bytes} {ls : List Bytes} (h : splitCRLF s = l :: ls) (hls : ls ≠ []) :
    ∃ s', s = l ++ (CRLF ++ s') ∧ splitCRLF s' = ls := by
  fun_induction splitCRLF s generalizing l ls with
  | case1 =>
    cases h
    exact absurd rfl hls
  | case2 c =>
    cases h
    exact absurd rfl hls
  | case3 c d rest hcd ih =>
    cases h
    exact ⟨rest, by rw [hcd.1, hcd.2]; rfl, rfl⟩
  | case4 c d rest hcd ih =>
    obtain ⟨l', ls', hl⟩ := List.exists_cons_of_ne_nil (splitCRLF_ne_nil (d :: rest))
    rw [hl, List.modifyHead_cons] at h
    cases h
    obtain ⟨s', heq, hs'⟩ := ih hl hls
    exact ⟨s', by rw [heq]; rfl, hs'⟩

/-- What stands in front of a text, up to a byte that is no end of a line,
is part of its first line. -/
theorem splitCRLF_sep {a : Bytes} {c : UInt8} (ha : ¬ CRLF <:+: a) (h13 : c ≠ 13) (h10 : c ≠ 10)
    (b : Bytes) : splitCRLF (a ++ c :: b) = (splitCRLF b).modifyHead (a ++ c :: ·) := by
  obtain ⟨l, ls, hl⟩ := List.exists_cons_of_ne_nil (splitCRLF_ne_nil b)
  rw [hl, List.modifyHead_cons]
  have hc : splitCRLF (c :: b) = (c :: l) :: ls := by
    cases b with
    | nil =>
      cases hl
      rfl
    | cons d b =>
      have hcd : ¬ (c = 13 ∧ d = 10) := fun h => h13 h.1
      simp only [splitCRLF, if_neg hcd, hl, List.modifyHead_cons]
  induction a with
  | nil => exact hc
  | cons e a ih =>
    have hrest := ih (noCRLF_of_part (List.suffix_cons e a).isInfix ha)
    cases a with
    | nil =>
      have hec : ¬ (e = 13 ∧ c = 10) := fun h => h10 h.2
      simp only [List.cons_append, List.nil_append, splitCRLF, if_neg hec] at hrest ⊢
      rw [hc, List.modifyHead_cons]
    | cons f a =>
      have hef : ¬ (e = 13 ∧ f = 10) := by
        rintro ⟨rfl, rfl⟩
        exact ha ⟨[], a, rfl⟩
      simp only [List.cons_append] at hrest ⊢
      simp only [splitCRLF, if_neg hef]
      rw [hrest, List.modifyHead_cons]

/-! ## Numerals -/

theorem digit_byte {c : Char} (h : c.isDigit = true) :
    isDigit (UInt8.ofNat c.toNat) = true ∧ (UInt8.ofNat c.toNat).toNat = c.toNat := by
  have hc : 48 ≤ c.toNat ∧ c.toNat ≤ 57 := by
    simpa [Char.isDigit, UInt32.le_iff_toNat_le] using h
  have hn : (UInt8.ofNat c.toNat).toNat = c.toNat := by
    rw [UInt8.toNat_ofNat']
    omega
  refine ⟨?_, hn⟩
  simp only [isDigit, Bool.and_eq_true, decide_eq_true_eq, UInt8.le_iff_toNat_le, hn]
  exact hc

theorem bytes_repr (n : Nat) :
    bytes n.repr = (Nat.toDigits 10 n).map fun c => UInt8.ofNat c.toNat := by
  rw [bytes, Nat.toList_repr]

theorem isDigit_of_mem_repr {n : Nat} {c : UInt8} (h : c ∈ bytes n.repr) : isDigit c = true := by
  rw [bytes_repr] at h
  obtain ⟨d, hd, rfl⟩ := List.mem_map.mp h
  exact (digit_byte (Nat.isDigit_of_mem_toDigits (by decide) (by decide) hd)).1

theorem isDigitString_repr (n : Nat) : isDigitString (bytes n.repr) = true := by
  have hne : bytes n.repr ≠ [] := by
    rw [bytes_repr]
    simp [Nat.toDigits_ne_nil]
  simp only [isDigitString, Bool.and_eq_true, List.all_eq_true]
  exact ⟨by simpa using hne, fun c hc => isDigit_of_mem_repr hc⟩

theorem decimal_repr (n : Nat) : decimal (bytes n.repr) = n := by
  have key : ∀ (cs : List Char) (k : Nat), (∀ c ∈ cs, c.isDigit = true) →
      (cs.map fun c => UInt8.ofNat c.toNat).foldl (fun k c => 10 * k + (c.toNat - 48)) k =
        Nat.ofDigitChars 10 cs k := by
    intro cs
    induction cs with
    | nil => exact fun _ _ => rfl
    | cons c cs ih =>
      intro k h
      simp only [List.forall_mem_cons] at h
      rw [List.map_cons, List.foldl_cons, ih _ h.2, (digit_byte h.1).2]
      rfl
  rw [decimal, bytes_repr, key _ 0 fun c hc =>
    Nat.isDigit_of_mem_toDigits (by decide) (by decide) hc, Nat.ofDigitChars_ten_toDigits]

/-- The last digit of a numeral is the remainder, and the ones before it are the
numeral of the quotient. -/
theorem repr_eq (n : Nat) : bytes n.repr =
    (if n < 10 then [] else bytes (n / 10).repr) ++ [UInt8.ofNat (48 + n % 10)] := by
  have hdigit : ∀ d < 10, UInt8.ofNat (Nat.digitChar d).toNat = UInt8.ofNat (48 + d) := by decide
  rw [bytes_repr, bytes_repr, Nat.toDigits_eq_if (by decide)]
  by_cases hn : n < 10
  · rw [if_pos hn, if_pos hn, List.map_singleton, hdigit n hn, Nat.mod_eq_of_lt hn, List.nil_append]
  · rw [if_neg hn, if_neg hn, List.map_append, List.map_singleton, hdigit _ (Nat.mod_lt n (by decide))]

theorem length_repr_le {n k : Nat} (hk : 0 < k) (h : n < 10 ^ k) : (bytes n.repr).length ≤ k := by
  rw [bytes_repr, List.length_map]
  exact (Nat.length_toDigits_le_iff (by decide) hk).mpr h

theorem repr_zero : bytes (Nat.repr 0) = [48] := by decide

/-- No zero in front, unless the number is zero. -/
theorem head_repr {n : Nat} (hn : n ≠ 0) : (bytes n.repr).head? ≠ some 48 := by
  induction n using Nat.strongRecOn with | ind n ih =>
  rw [repr_eq]
  by_cases hlt : n < 10
  · have hdigit : ∀ d < 10, d ≠ 0 → UInt8.ofNat (48 + d % 10) ≠ 48 := by decide
    rw [if_pos hlt, List.nil_append, List.head?_cons]
    exact fun h => hdigit n hlt hn (Option.some.inj h)
  · have hfront := ih (n / 10) (by omega) (by omega)
    have hne : bytes (n / 10).repr ≠ [] := by
      rw [repr_eq]
      simp
    rw [if_neg hlt, List.head?_append_of_ne_nil _ hne]
    exact hfront

theorem decimal_lt {s : Bytes} (h : isDigitString s = true) : decimal s < 10 ^ s.length := by
  have key : ∀ (s : Bytes) (k : Nat), (∀ c ∈ s, isDigit c = true) →
      s.foldl (fun n c => 10 * n + (c.toNat - 48)) k < (k + 1) * 10 ^ s.length := by
    intro s
    induction s with
    | nil => simp
    | cons c s ih =>
      intro k hs
      rw [List.forall_mem_cons] at hs
      have hc : c.toNat ≤ 57 := by
        have := hs.1
        simp only [isDigit, Bool.and_eq_true, decide_eq_true_eq, UInt8.le_iff_toNat_le] at this
        exact this.2
      calc (c :: s).foldl (fun n c => 10 * n + (c.toNat - 48)) k
          < (10 * k + (c.toNat - 48) + 1) * 10 ^ s.length := ih _ hs.2
        _ ≤ ((k + 1) * 10) * 10 ^ s.length := Nat.mul_le_mul_right _ (by omega)
        _ = (k + 1) * 10 ^ (c :: s).length := by
          rw [List.length_cons, Nat.pow_succ', Nat.mul_assoc]
  simp only [isDigitString, Bool.and_eq_true, List.all_eq_true] at h
  have := key s 0 h.2
  rwa [Nat.zero_add, Nat.one_mul] at this

theorem trim_of_ends {s : Bytes} (hhead : ∀ c, s.head? = some c → isBlank c = false)
    (hlast : ∀ c, s.getLast? = some c → isBlank c = false) : trim s = s := by
  have hd : s.dropWhile isBlank = s := by
    cases s with
    | nil => rfl
    | cons c s => rw [List.dropWhile_cons_of_neg (by simp [hhead c rfl])]
  rw [trim, hd, List.rdropWhile_eq_self_iff]
  intro hne
  simp [hlast _ (List.getLast?_eq_some_getLast hne)]

theorem trim_eq_self {s : Bytes} (h : ∀ c ∈ s, isBlank c = false) : trim s = s :=
  trim_of_ends (fun c hc => h c (List.mem_of_mem_head? hc)) fun c hc => h c (List.mem_of_getLast? hc)

theorem head_of_trim {s : Bytes} (h : trim s = s) : ∀ c, s.head? = some c → isBlank c = false := by
  intro c hc
  cases s with
  | nil => cases hc
  | cons d s =>
    cases hc
    by_contra hb
    have hlen := congrArg List.length h
    have hdrop : ((c :: s).dropWhile isBlank).length ≤ s.length := by
      rw [List.dropWhile_cons_of_pos (by simpa using hb)]
      exact (List.dropWhile_suffix isBlank).length_le
    have hr := (List.rdropWhile_prefix isBlank ((c :: s).dropWhile isBlank)).length_le
    simp only [trim, List.length_cons] at hlen
    omega

theorem last_of_trim {s : Bytes} (h : trim s = s) : ∀ c, s.getLast? = some c → isBlank c = false := by
  intro c hc
  have hle := (List.rdropWhile_prefix isBlank (s.dropWhile isBlank)).length_le
  have hdrop : s.dropWhile isBlank = s := by
    refine (List.dropWhile_suffix isBlank).eq_of_length ?_
    have hshort := (List.dropWhile_suffix (l := s) isBlank).length_le
    have hlen := congrArg List.length h
    simp only [trim] at hlen
    omega
  rw [trim, hdrop, List.rdropWhile_eq_self_iff] at h
  have hne : s ≠ [] := by
    rintro rfl
    cases hc
  have hlast := h hne
  rw [List.getLast?_eq_some_getLast hne] at hc
  rw [Option.some.inj hc] at hlast
  simpa using hlast

theorem trim_repr (n : Nat) : trim (bytes n.repr) = bytes n.repr := by
  have hblank : ∀ c : UInt8, isDigit c = true → isBlank c = false := by
    intro c hc
    by_contra hb
    simp only [Bool.not_eq_false, isBlank, Bool.or_eq_true, beq_iff_eq] at hb
    rcases hb with rfl | rfl
    · exact absurd hc (by decide)
    · exact absurd hc (by decide)
  exact trim_eq_self fun c hc => hblank c (isDigit_of_mem_repr hc)

theorem noCRLF {s : Bytes} (h : LF ∉ s) : ¬ CRLF <:+: s := by
  intro hin
  exact h (hin.subset (by decide))

end Text
