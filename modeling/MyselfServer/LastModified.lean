import Mathlib.Tactic.IntervalCases
import MyselfServer.Router

/-!
# Last-Modified and back

`daysFromCivil` is the inverse of the calendar in `utcTm`, and what
`formatHttpDate` writes is read back by `parseHttpDate`. So a client that sends
the `Last-Modified` of a file back finds it not modified.
-/

namespace Myself

open Text

/-! ## The calendar -/

/-- The days of an era of 400 years, by year and day of the year. -/
theorem yearOfEra_spec {dayOfEra yearOfEra : Nat} (h : dayOfEra < 146097)
    (hyear : yearOfEra =
      (dayOfEra - dayOfEra / 1460 + dayOfEra / 36524 - dayOfEra / 146096) / 365) :
    yearOfEra < 400 ∧ 365 * yearOfEra + yearOfEra / 4 - yearOfEra / 100 ≤ dayOfEra ∧
      dayOfEra - (365 * yearOfEra + yearOfEra / 4 - yearOfEra / 100) < 366 := by
  by_cases hlast : dayOfEra = 146096
  · subst hlast
    subst hyear
    decide
  · have hera : dayOfEra / 146096 = 0 := by omega
    have hcentury : dayOfEra / 36524 < 4 := by omega
    rw [hera, Nat.sub_zero] at hyear
    generalize hc : dayOfEra / 36524 = century at hyear hcentury
    generalize hg : dayOfEra / 1460 = leaps at hyear
    generalize hk : yearOfEra / 4 = leapYears
    -- the century of the day is the century of its year
    have hcent : yearOfEra / 100 = century := by
      interval_cases century <;> omega
    rw [hcent]
    have hyears : 365 * yearOfEra ≤ dayOfEra - leaps + century := by omega
    have hnext : dayOfEra - leaps + century < 365 * yearOfEra + 365 := by omega
    have hcenturies : century ≤ leaps := by omega
    have hleaps : leapYears ≤ leaps := by omega
    have hleaps' : leaps ≤ leapYears + 1 := by omega
    refine ⟨?_, ?_, ?_⟩ <;> omega

/-- A day by its era, the year in it from March on, the day and the month of that year. -/
theorem civilFromDays_spec (days : Int) : ∃ (era : Int) (yearOfEra dayOfYear shiftedMonth : Nat),
    yearOfEra < 400 ∧ dayOfYear < 366 ∧ shiftedMonth = (5 * dayOfYear + 2) / 153 ∧
    days + 719468 = era * 146097 + (365 * yearOfEra + yearOfEra / 4 - yearOfEra / 100 : Nat) + dayOfYear ∧
    civilFromDays days =
      (if shiftedMonth < 10 then (yearOfEra : Int) + era * 400 else yearOfEra + era * 400 + 1,
        if shiftedMonth < 10 then shiftedMonth + 3 else shiftedMonth - 9,
        dayOfYear - (153 * shiftedMonth + 2) / 5 + 1) := by
  simp only [civilFromDays]
  generalize hera : (days + 719468) / 146097 = era
  generalize hdoe : ((days + 719468) % 146097).toNat = dayOfEra
  have hlt : dayOfEra < 146097 := by omega
  have hdays : days + 719468 = era * 146097 + dayOfEra := by omega
  generalize hyear : (dayOfEra - dayOfEra / 1460 + dayOfEra / 36524 - dayOfEra / 146096) / 365 = yearOfEra
  obtain ⟨hyear, hle, hday⟩ := yearOfEra_spec hlt hyear.symm
  refine ⟨era, yearOfEra, _, _, hyear, hday, rfl, ?_, ?_⟩
  · omega
  · generalize dayOfEra - (365 * yearOfEra + yearOfEra / 4 - yearOfEra / 100) = dayOfYear at hday
    generalize hmonth : (5 * dayOfYear + 2) / 153 = shiftedMonth
    split_ifs <;> first | rfl | omega

theorem daysFromCivil_civilFromDays (days : Int) :
    daysFromCivil (civilFromDays days).1 (civilFromDays days).2.1 (civilFromDays days).2.2 = days := by
  obtain ⟨era, yoe, doy, mp, hyoe, hdoy, hmp, hdays, hcivil⟩ := civilFromDays_spec days
  rw [hcivil]
  have hadj : (if mp < 10 then (yoe : Int) + era * 400 else yoe + era * 400 + 1) -
      (if (if mp < 10 then mp + 3 else mp - 9) ≤ 2 then 1 else 0) = yoe + era * 400 := by
    split_ifs <;> omega
  have hera : (if (yoe : Int) + era * 400 ≥ 0 then (yoe : Int) + era * 400
      else yoe + era * 400 - 399).tdiv 400 = era := by
    split_ifs with hsign
    · rw [Int.tdiv_eq_ediv_of_nonneg hsign]
      omega
    · have hsign1 : Int.sign 400 = 1 := rfl
      rw [Int.tdiv_eq_ediv, hsign1]
      split_ifs <;> omega
  simp only [daysFromCivil, hadj, hera]
  have hyear : (yoe + era * 400 - era * 400 : Int).toNat = yoe := by omega
  rw [hyear]
  have hmonth : (if (if mp < 10 then mp + 3 else mp - 9) > 2 then (if mp < 10 then mp + 3 else mp - 9) - 3
      else (if mp < 10 then mp + 3 else mp - 9) + 9) = mp := by
    split_ifs <;> omega
  rw [hmonth]
  omega

theorem civil_month (days : Int) :
    1 ≤ (civilFromDays days).2.1 ∧ (civilFromDays days).2.1 ≤ 12 := by
  obtain ⟨era, yoe, doy, mp, -, hdoy, hmp, -, hcivil⟩ := civilFromDays_spec days
  rw [hcivil]
  dsimp only
  split_ifs <;> omega

theorem civil_day (days : Int) : 1 ≤ (civilFromDays days).2.2 ∧ (civilFromDays days).2.2 ≤ 31 := by
  obtain ⟨era, yoe, doy, mp, -, hdoy, hmp, -, hcivil⟩ := civilFromDays_spec days
  rw [hcivil]
  dsimp only
  omega

/-- The days from 1970-01-01 to 9999-12-31. -/
theorem civil_year {days : Int} (h0 : 0 ≤ days) (h1 : days < 2932897) :
    1970 ≤ (civilFromDays days).1 ∧ (civilFromDays days).1 ≤ 9999 := by
  obtain ⟨era, yoe, doy, mp, hyoe, hdoy, hmp, hdays, hcivil⟩ := civilFromDays_spec days
  rw [hcivil]
  dsimp only
  have hera : 4 ≤ era ∧ era ≤ 24 := by omega
  by_cases hmarch : mp < 10
  · simp only [hmarch, if_true]
    constructor
    · by_contra hlow
      have hyear : era = 4 ∧ yoe ≤ 369 := by omega
      obtain ⟨rfl, hyear⟩ := hyear
      have hleap : yoe / 4 ≤ 92 := by omega
      by_cases h369 : yoe = 369
      · subst h369
        omega
      · omega
    · omega
  · simp only [hmarch, if_false]
    constructor
    · omega
    · omega

/-! ## The words of a date -/

def IsWord (w : Bytes) : Prop := w ≠ [] ∧ ∀ c ∈ w, isSeparator c = false

theorem dateTokens_word {w : Bytes} (hw : IsWord w) {sep : UInt8} (hsep : isSeparator sep = true) (rest : Bytes) :
    dateTokens [] (w ++ sep :: rest) = w :: dateTokens [] rest := by
  have key : ∀ (w current : Bytes), (∀ c ∈ w, isSeparator c = false) → current ++ w ≠ [] →
      dateTokens current (w ++ sep :: rest) = (current ++ w) :: dateTokens [] rest := by
    intro w
    induction w with
    | nil =>
      intro current _ hne
      have hcurrent : current.isEmpty = false := by simpa using hne
      simp [dateTokens, hsep, hcurrent]
    | cons c w ih =>
      intro current hw hne
      have hc : isSeparator c = false := hw c (List.mem_cons_self ..)
      rw [List.cons_append, dateTokens, hc, if_neg Bool.false_ne_true,
        ih _ (fun d hd => hw d (List.mem_cons_of_mem _ hd)) (by simp)]
      simp
  exact key w [] hw.2 (by simpa using hw.1)

theorem dateTokens_last {w : Bytes} (hw : IsWord w) : dateTokens [] w = [w] := by
  have key : ∀ (w current : Bytes), (∀ c ∈ w, isSeparator c = false) → current ++ w ≠ [] →
      dateTokens current w = [current ++ w] := by
    intro w
    induction w with
    | nil =>
      intro current _ hne
      have hcurrent : current.isEmpty = false := by simpa using hne
      simp [dateTokens, hcurrent]
    | cons c w ih =>
      intro current hw hne
      have hc : isSeparator c = false := hw c (List.mem_cons_self ..)
      rw [dateTokens, hc, if_neg Bool.false_ne_true,
        ih _ (fun d hd => hw d (List.mem_cons_of_mem _ hd)) (by simp)]
      simp
  exact key w [] hw.2 (by simpa using hw.1)

theorem trim_words {front back : Bytes} (hf : IsWord front) (middle : Bytes) (hb : IsWord back) :
    trim (front ++ (middle ++ back)) = front ++ (middle ++ back) := by
  have hblank : ∀ {w : Bytes}, IsWord w → ∀ c ∈ w, isBlank c = false := by
    intro w hw c hc
    have hsep := hw.2 c hc
    simp only [isSeparator, Bool.or_eq_false_iff] at hsep
    simp only [isBlank, Bool.or_eq_false_iff]
    exact hsep.1
  apply trim_of_ends
  · intro c hc
    rw [List.head?_append_of_ne_nil _ hf.1] at hc
    exact hblank hf c (List.mem_of_head? hc)
  · intro c hc
    rw [← List.append_assoc, List.getLast?_append_of_ne_nil _ hb.1] at hc
    exact hblank hb c (List.mem_of_getLast? hc)

def isName (w : Bytes) : Bool := !w.isEmpty && w.all fun c => (65 ≤ c && c ≤ 90) || (97 ≤ c && c ≤ 122)

theorem isName_days : ∀ i < 7, isName (kDays.getD i []) = true := by decide

theorem isName_months : ∀ i < 12, isName (kMonths.getD i []) = true := by decide

theorem isName_gmt : isName (bytes "GMT") = true := by decide

theorem letter_of_name {w : Bytes} (h : isName w = true) {c : UInt8} (hc : c ∈ w) : 65 ≤ c.toNat := by
  simp only [isName, Bool.and_eq_true, Bool.or_eq_true, List.all_eq_true, decide_eq_true_eq,
    UInt8.le_iff_toNat_le] at h
  have h65 : (65 : UInt8).toNat = 65 := rfl
  have h97 : (97 : UInt8).toNat = 97 := rfl
  have hletter := h.2 c hc
  omega

theorem notMem_name {w : Bytes} (h : isName w = true) {d : UInt8} (hd : d.toNat < 65) : d ∉ w :=
  fun hin => absurd (letter_of_name h hin) (not_le.mpr hd)

theorem isWord_name {w : Bytes} (h : isName w = true) : IsWord w := by
  refine ⟨?_, fun c hc => ?_⟩
  · rintro rfl
    cases h
  · have hletter := letter_of_name h hc
    have h32 : (32 : UInt8).toNat = 32 := rfl
    have h9 : (9 : UInt8).toNat = 9 := rfl
    have h45 : (45 : UInt8).toNat = 45 := rfl
    simp only [isSeparator, Bool.or_eq_false_iff, beq_eq_false_iff_ne, ne_eq, ← UInt8.toNat_inj]
    omega

theorem digit_plain {c : UInt8} (h : isDigit c = true) :
    isSeparator c = false ∧ isSpace c = false ∧ c ≠ COLON ∧ c ≠ 0 ∧ c ≠ 45 ∧ c ≠ 43 := by
  simp only [isDigit, Bool.and_eq_true, decide_eq_true_eq, UInt8.le_iff_toNat_le] at h
  have h48 : (48 : UInt8).toNat = 48 := rfl
  have h57 : (57 : UInt8).toNat = 57 := rfl
  simp only [isSeparator, isSpace, COLON, ne_eq, UInt8.le_iff_toNat_le, ← UInt8.toNat_inj,
    Bool.or_eq_false_iff, Bool.and_eq_false_iff, beq_eq_false_iff_ne, decide_eq_false_iff_not]
  refine ⟨?_, ?_, ?_, ?_, ?_, ?_⟩ <;> simp <;> omega

structure Numeral (s : Bytes) (n : Nat) : Prop where
  digits : isDigitString s = true
  value : decimal s = n
  fits : n < 2 ^ 31

theorem Numeral.ne_nil {s : Bytes} {n : Nat} (h : Numeral s n) : s ≠ [] := by
  intro hs
  have := h.digits
  rw [hs] at this
  cases this

theorem Numeral.isDigit {s : Bytes} {n : Nat} (h : Numeral s n) {c : UInt8} (hc : c ∈ s) :
    isDigit c = true := by
  have hd := h.digits
  simp only [isDigitString, Bool.and_eq_true, List.all_eq_true] at hd
  exact hd.2 c hc

theorem Numeral.isWord {s : Bytes} {n : Nat} (h : Numeral s n) : IsWord s :=
  ⟨h.ne_nil, fun _ hc => (digit_plain (h.isDigit hc)).1⟩

theorem numeral_toText {n : Nat} (h : n < 2 ^ 31) : Numeral (toText n) n :=
  ⟨isDigitString_repr n, decimal_repr n, h⟩

theorem numeral_twoDigits {n : Nat} (h : n < 2 ^ 31) : Numeral (twoDigits n) n := by
  unfold twoDigits
  split
  · have hrest := numeral_toText h
    refine ⟨?_, ?_, h⟩
    · have hzero : isDigit 48 = true := by decide
      simp only [isDigitString, Bool.and_eq_true, List.all_eq_true]
      refine ⟨by simp [bytes], fun c hc => ?_⟩
      rcases List.mem_append.mp hc with hc | hc
      · have : c = 48 := by simpa [bytes] using hc
        rw [this]
        exact hzero
      · exact hrest.isDigit hc
    · exact hrest.value
  · exact numeral_toText h

theorem toInt_of_fits {n : Nat} (h : n < 2 ^ 31) : toInt n = n := by
  unfold toInt
  rw [Int.bmod_def]
  omega

/-- `%d` reads a number up to a byte that is no digit. -/
theorem scanInt_numeral {s : Bytes} {n : Nat} (h : Numeral s n) {rest : Bytes}
    (hrest : ∀ c, rest.head? = some c → isDigit c = false) : scanInt (s ++ rest) = some ((n : Int), rest) := by
  have htake : (s ++ rest).takeWhile isDigit = s := by
    rw [List.takeWhile_append_of_pos fun c hc => h.isDigit hc]
    cases rest with
    | nil => simp
    | cons c rest => rw [List.takeWhile_cons_of_neg (by simp [hrest c rfl]), List.append_nil]
  have hdrop : (s ++ rest).dropWhile isDigit = rest := by
    rw [List.dropWhile_append_of_pos fun c hc => h.isDigit hc]
    cases rest with
    | nil => rfl
    | cons c rest => rw [List.dropWhile_cons_of_neg (by simp [hrest c rfl])]
  obtain ⟨c, t, hs⟩ := List.exists_cons_of_ne_nil h.ne_nil
  have hc := digit_plain (h.isDigit (hs ▸ List.mem_cons_self ..))
  have hspace : (s ++ rest).dropWhile isSpace = s ++ rest := by
    rw [hs, List.cons_append, List.dropWhile_cons_of_neg (by simp [hc.2.1])]
  have hempty : s.isEmpty = false := by simpa using h.ne_nil
  unfold scanInt
  rw [hspace]
  dsimp only
  split
  · rename_i heq
    rw [hs, List.cons_append] at heq
    exact absurd (List.cons.inj heq).1 hc.2.2.2.2.1
  · rename_i heq
    rw [hs, List.cons_append] at heq
    exact absurd (List.cons.inj heq).1 hc.2.2.2.2.2
  · simp only [htake, hdrop, hempty, Bool.false_eq_true, if_false, h.value, toInt_of_fits h.fits]

theorem scanInt_numeral_end {s : Bytes} {n : Nat} (h : Numeral s n) :
    scanInt (s ++ []) = some ((n : Int), []) :=
  scanInt_numeral h fun c hc => by cases hc

theorem Numeral.atoi {s : Bytes} {n : Nat} (h : Numeral s n) : atoi s = n := by
  have hcut : cStr s = s := by
    apply List.takeWhile_eq_self_iff.mpr
    intro c hc
    simpa using (digit_plain (h.isDigit hc)).2.2.2.1
  have hscan := scanInt_numeral_end h
  rw [List.append_nil] at hscan
  rw [Myself.atoi, hcut, hscan]
  rfl

theorem scanTime_numerals {s t u : Bytes} {hour minute second : Nat} (hs : Numeral s hour)
    (ht : Numeral t minute) (hu : Numeral u second) :
    scanTime (s ++ COLON :: (t ++ COLON :: u)) = some ((hour : Int), (minute : Int), (second : Int)) := by
  have hcolon : ∀ (rest : Bytes) c, (COLON :: rest).head? = some c → isDigit c = false := by
    intro rest c hc
    cases hc
    decide
  have hlast := scanInt_numeral_end hu
  rw [List.append_nil] at hlast
  simp [scanTime, scanInt_numeral hs (hcolon _), scanInt_numeral ht (hcolon _), hlast, scanColon]

/-! ## The fields of a date -/

theorem token_numeral (f : DateFields) {s : Bytes} {n : Nat} (h : Numeral s n) :
    f.token s =
      if (n : Int) > 31 ∨ s.length = 4 ∨ (n : Int) ≥ 70 then some { f with year := n }
      else if f.day = 0 then some { f with day := n } else some { f with year := n } := by
  have hcolon : COLON ∉ s := fun hin => (digit_plain (h.isDigit hin)).2.2.1 rfl
  have hzone : ∀ zone : Bytes, isDigitString zone = false → s ≠ zone := by
    rintro zone hz rfl
    rw [h.digits] at hz
    cases hz
  have hgmt : ¬ (s = bytes "GMT" ∨ s = bytes "UTC") := by
    rintro (heq | heq)
    · exact hzone _ (by decide) heq
    · exact hzone _ (by decide) heq
  rw [DateFields.token, if_neg hcolon, if_neg hgmt, if_neg (by simp [h.digits]), h.atoi]

theorem token_name (f : DateFields) {w : Bytes} (h : isName w = true)
    (hzone : ¬ (w = bytes "GMT" ∨ w = bytes "UTC")) :
    f.token w = some ((kMonths.idxOf? w).elim f fun i => { f with month := i + 1 }) := by
  have hcolon : COLON ∉ w := notMem_name h (by decide)
  have hdigits : isDigitString w = false := by
    obtain ⟨c, rest, rfl⟩ := List.exists_cons_of_ne_nil (isWord_name h).1
    have hletter := letter_of_name h (List.mem_cons_self ..)
    have h57 : (57 : UInt8).toNat = 57 := rfl
    have hc : isDigit c = false := by
      simp only [isDigit, Bool.and_eq_false_iff, decide_eq_false_iff_not, UInt8.le_iff_toNat_le]
      omega
    simp [isDigitString, hc]
  rw [DateFields.token, if_neg hcolon, if_neg hzone, if_pos hdigits]
  cases kMonths.idxOf? w with
  | none => rfl
  | some i => rfl

theorem token_month (f : DateFields) {i : Nat} (hi : i < 12) :
    f.token (kMonths.getD i []) = some { f with month := i + 1 } := by
  have hall : ∀ i < 12, ¬ (kMonths.getD i [] = bytes "GMT" ∨ kMonths.getD i [] = bytes "UTC") ∧
      kMonths.idxOf? (kMonths.getD i []) = some i := by
    decide
  obtain ⟨hzone, hidx⟩ := hall i hi
  rw [token_name f (isName_months i hi) hzone, hidx, Option.elim_some]

theorem token_time (f : DateFields) {s t u : Bytes} {hour minute second : Nat} (hs : Numeral s hour)
    (ht : Numeral t minute) (hu : Numeral u second) :
    f.token (s ++ COLON :: (t ++ COLON :: u)) =
      some { f with hour := hour, minute := minute, second := second, hasTime := true } := by
  have hcolon : COLON ∈ s ++ COLON :: (t ++ COLON :: u) :=
    List.mem_append_right _ (List.mem_cons_self ..)
  have hcut : cStr (s ++ COLON :: (t ++ COLON :: u)) = s ++ COLON :: (t ++ COLON :: u) := by
    apply List.takeWhile_eq_self_iff.mpr
    intro c hc
    have hdigit : ∀ {v : Bytes} {n : Nat}, Numeral v n → c ∈ v → c ≠ 0 :=
      fun hv hin => (digit_plain (hv.isDigit hin)).2.2.2.1
    have hne : c ≠ 0 := by
      simp only [List.mem_append, List.mem_cons] at hc
      rcases hc with hc | rfl | hc | rfl | hc
      · exact hdigit hs hc
      · decide
      · exact hdigit ht hc
      · decide
      · exact hdigit hu hc
    simpa using hne
  rw [DateFields.token, if_pos hcolon, hcut, scanTime_numerals hs ht hu]

theorem token_gmt (f : DateFields) : f.token (bytes "GMT") = some f := by
  rw [DateFields.token, if_neg (by decide), if_pos (Or.inl rfl)]

structure Civil (tm : Tm) : Prop where
  year : 1970 ≤ tm.tm_year + 1900 ∧ tm.tm_year + 1900 ≤ 9999
  mon : tm.tm_mon < 12
  mday : 1 ≤ tm.tm_mday ∧ tm.tm_mday ≤ 31
  hour : tm.tm_hour < 24
  min : tm.tm_min < 60
  sec : tm.tm_sec < 60
  wday : tm.tm_wday < 7

theorem civil_utcTm {t : Int} (h0 : 0 ≤ t) (h1 : t ≤ 253402300799) : Civil (utcTm t) := by
  have hyear : 1970 ≤ (civilFromDays (t / 86400)).1 ∧ (civilFromDays (t / 86400)).1 ≤ 9999 :=
    civil_year (by omega) (by omega)
  have hmonth := civil_month (t / 86400)
  have hday := civil_day (t / 86400)
  unfold utcTm
  rcases hcivil : civilFromDays (t / 86400) with ⟨year, month, day⟩
  simp only [hcivil] at hyear hmonth hday
  constructor <;> simp only [hcivil] <;> omega

def fieldsOf (tm : Tm) : DateFields where
  month := tm.tm_mon + 1
  day := tm.tm_mday
  year := tm.tm_year + 1900
  hour := tm.tm_hour
  minute := tm.tm_min
  second := tm.tm_sec
  hasTime := true

def dateWords (tm : Tm) : List Bytes :=
  [twoDigits tm.tm_mday, kMonths.getD tm.tm_mon [], toText (tm.tm_year + 1900),
    twoDigits tm.tm_hour ++ COLON :: (twoDigits tm.tm_min ++ COLON :: twoDigits tm.tm_sec),
    bytes "GMT"]

theorem length_twoDigits {n : Nat} (h : n < 100) : (twoDigits n).length = 2 := by
  have hall : ∀ n < 100, (twoDigits n).length = 2 := by decide +kernel
  exact hall n h

theorem tokens_dateWords {tm : Tm} (h : Civil tm) :
    (dateWords tm).foldlM DateFields.token {} = some (fieldsOf tm) := by
  obtain ⟨n, hn⟩ : ∃ n : Nat, tm.tm_year + 1900 = n := ⟨(tm.tm_year + 1900).toNat, by have := h.year; omega⟩
  have hyear := h.year
  have hday := h.mday
  have hlen := length_twoDigits (n := tm.tm_mday) (by omega)
  have hnyear : Numeral (toText (n : Int)) n := numeral_toText (by omega)
  have hnday : Numeral (twoDigits tm.tm_mday) tm.tm_mday := numeral_twoDigits (by omega)
  have hhour : Numeral (twoDigits tm.tm_hour) tm.tm_hour := numeral_twoDigits (by have := h.hour; omega)
  have hmin : Numeral (twoDigits tm.tm_min) tm.tm_min := numeral_twoDigits (by have := h.min; omega)
  have hsec : Numeral (twoDigits tm.tm_sec) tm.tm_sec := numeral_twoDigits (by have := h.sec; omega)
  have hdayToken : DateFields.token {} (twoDigits tm.tm_mday) = some { day := tm.tm_mday } := by
    rw [token_numeral _ hnday, if_neg (by omega), if_pos rfl]
  have hyearToken : ∀ f : DateFields, f.token (toText (n : Int)) = some { f with year := n } := by
    intro f
    rw [token_numeral f hnyear, if_pos (by omega)]
  simp only [dateWords, hn, List.foldlM_cons, List.foldlM_nil, hdayToken, token_month _ h.mon,
    hyearToken, token_time _ hhour hmin hsec, token_gmt, Option.bind_eq_bind, Option.bind_some,
    Option.pure_def, fieldsOf]

theorem isWord_dateWords {tm : Tm} (h : Civil tm) : ∀ w ∈ dateWords tm, IsWord w := by
  have htwo : ∀ {n : Nat}, n < 100 → IsWord (twoDigits n) := fun hn => (numeral_twoDigits (by omega)).isWord
  have hmday := h.mday
  have hhour := h.hour
  have hmin := h.min
  have hsec := h.sec
  intro w hw
  simp only [dateWords, List.mem_cons, List.not_mem_nil, or_false] at hw
  rcases hw with rfl | rfl | rfl | rfl | rfl
  · exact htwo (by omega)
  · exact isWord_name (isName_months _ h.mon)
  · obtain ⟨n, hn⟩ : ∃ n : Nat, tm.tm_year + 1900 = n :=
      ⟨(tm.tm_year + 1900).toNat, by have := h.year; omega⟩
    rw [hn]
    exact (numeral_toText (by have := h.year; omega)).isWord
  · refine ⟨fun hnil => (htwo (n := tm.tm_hour) (by omega)).1 (List.append_eq_nil_iff.mp hnil).1, ?_⟩
    intro c hc
    simp only [List.mem_append, List.mem_cons] at hc
    rcases hc with hc | rfl | hc | rfl | hc
    · exact (htwo (by omega)).2 c hc
    · decide
    · exact (htwo (by omega)).2 c hc
    · decide
    · exact (htwo (by omega)).2 c hc
  · exact isWord_name isName_gmt

def dateText (tm : Tm) : Bytes := [SP].intercalate (dateWords tm)

theorem dateTokens_dateText {tm : Tm} (h : Civil tm) : dateTokens [] (dateText tm) = dateWords tm := by
  have key : ∀ ws : List Bytes, ws ≠ [] → (∀ w ∈ ws, IsWord w) →
      dateTokens [] ([SP].intercalate ws) = ws := by
    intro ws
    induction ws with
    | nil => exact fun hne => absurd rfl hne
    | cons w ws ih =>
      intro _ hws
      have hw := hws w (List.mem_cons_self ..)
      cases ws with
      | nil =>
        rw [List.intercalate_singleton]
        exact dateTokens_last hw
      | cons w' ws =>
        rw [List.intercalate_cons_cons, List.append_assoc, List.singleton_append,
          dateTokens_word hw (by decide), ih (List.cons_ne_nil _ _) fun v hv => hws v (List.mem_cons_of_mem _ hv)]
  exact key _ (List.cons_ne_nil _ _) (isWord_dateWords h)

theorem formatHttpDate_eq (t : Int) :
    formatHttpDate t = kDays.getD (utcTm t).tm_wday [] ++ COMMA :: SP :: dateText (utcTm t) := by
  simp [formatHttpDate, dateText, dateWords, bytes, SP, COMMA, COLON, List.intercalate_cons_cons]

theorem dateText_ends (tm : Tm) : ∃ middle, dateText tm = twoDigits tm.tm_mday ++ (middle ++ bytes "GMT") := by
  refine ⟨SP :: ([SP].intercalate (((dateWords tm).drop 1).take 3) ++ [SP]), ?_⟩
  simp [dateText, dateWords, bytes, SP, List.intercalate_cons_cons]

theorem seconds_fieldsOf {t : Int} (h : Civil (utcTm t)) : (fieldsOf (utcTm t)).seconds = some t := by
  have hyear := h.year
  have hmon := h.mon
  have hday := h.mday
  have hhour := h.hour
  have hmin := h.min
  have hsec := h.sec
  have hset : ¬ ((fieldsOf (utcTm t)).hasTime = false ∨ (fieldsOf (utcTm t)).month = 0 ∨
      (fieldsOf (utcTm t)).day = 0 ∨ (fieldsOf (utcTm t)).year = 0) := by
    simp only [fieldsOf, Bool.true_eq_false, false_or]
    omega
  have hcentury : ¬ (fieldsOf (utcTm t)).year < 100 := by
    simp only [fieldsOf]
    omega
  have hrange : ¬ ((fieldsOf (utcTm t)).month > 12 ∨ (fieldsOf (utcTm t)).day < 1 ∨
      (fieldsOf (utcTm t)).day > 31 ∨ (fieldsOf (utcTm t)).hour > 23 ∨
      (fieldsOf (utcTm t)).minute > 59 ∨ (fieldsOf (utcTm t)).second > 60) := by
    simp only [fieldsOf]
    omega
  rw [DateFields.seconds, if_neg hset]
  simp only [if_neg hcentury, if_neg hrange, Option.some.injEq]
  have hinverse := daysFromCivil_civilFromDays (t / 86400)
  have hmonth := civil_month (t / 86400)
  rcases hcivil : civilFromDays (t / 86400) with ⟨year, month, day⟩
  simp only [hcivil] at hinverse hmonth
  have hsucc : month - 1 + 1 = month := by omega
  simp only [fieldsOf, utcTm, hcivil, hsucc, Int.toNat_natCast, Int.sub_add_cancel, hinverse]
  omega

/-- **A written date is read back.** -/
theorem parse_formatHttpDate {t : Int} (h0 : 0 ≤ t) (h1 : t ≤ 253402300799) :
    parseHttpDate (formatHttpDate t) = some t := by
  have h := civil_utcTm h0 h1
  have hname := isName_days _ h.wday
  have htext := formatHttpDate_eq t
  obtain ⟨middle, hends⟩ := dateText_ends (utcTm t)
  generalize kDays.getD (utcTm t).tm_wday [] = name at hname htext
  have hcomma : COMMA ∉ name := notMem_name hname (by decide)
  have htrim : trim (formatHttpDate t) = name ++ COMMA :: SP :: dateText (utcTm t) := by
    have hwhole := trim_words (isWord_name hname) (COMMA :: SP :: (twoDigits (utcTm t).tm_mday ++ middle))
      (isWord_name isName_gmt)
    rw [htext, hends]
    simpa using hwhole
  have hsearch : search [44] (name ++ COMMA :: SP :: dateText (utcTm t)) = some name.length :=
    search_one_iff.mpr ⟨name, _, rfl, hcomma, rfl⟩
  have hdrop : (name ++ COMMA :: SP :: dateText (utcTm t)).drop (name.length + 1) =
      SP :: dateText (utcTm t) := by
    rw [List.drop_append]
    simp
  have hwords : trim (SP :: dateText (utcTm t)) = dateText (utcTm t) := by
    have hmday := h.mday
    rw [trim_SP, hends]
    exact trim_words (numeral_twoDigits (by omega)).isWord middle (isWord_name isName_gmt)
  simp only [parseHttpDate, htrim, hsearch, hdrop, hwords, dateTokens_dateText h,
    tokens_dateWords h, seconds_fieldsOf h]

/-! ## A client that sends the date back -/

namespace Router

variable {r : Router} {disk : Disk} {path : Bytes} {request : HttpRequest} {info : FileStat}

theorem lastModified_sent {date : Bytes}
    (hstat : disk.stat (cStr (r.wwwRoot ++ path)) = some info)
    (hdate : (r.serveStaticFile disk path request).headers[bytes "Last-Modified"]? = some date) :
    date = formatHttpDate info.st_mtime := by
  have hlast : ∀ resp : HttpResponse,
      ((resp.setHeader (bytes "Last-Modified") (formatHttpDate info.st_mtime)).setHeader
        (bytes "Cache-Control") (bytes "no-cache")).headers[bytes "Last-Modified"]? =
      some (formatHttpDate info.st_mtime) := by
    intro resp
    rw [HttpResponse.setHeader_getElem?, HttpResponse.setHeader_getElem?, if_neg (by decide), if_pos rfl]
  have hnone : HttpResponse.notFound.headers[bytes "Last-Modified"]? = none := by
    have hset := HttpResponse.setHeader_getElem? (({ closeConnection := true } : HttpResponse).setStatus 404
      (bytes "Not Found")) (bytes "Content-Type") (bytes "text/html; charset=utf-8") (bytes "Last-Modified")
    rw [if_neg (by decide)] at hset
    exact hset.trans Std.TreeMap.getElem?_emptyc
  simp only [serveStaticFile, hstat] at hdate
  split at hdate
  · rw [hnone] at hdate
    cases hdate
  split at hdate
  · rw [hlast] at hdate
    exact (Option.some.inj hdate).symm
  split at hdate
  · simp only [serveFileBody] at hdate
    split at hdate
    · rw [hnone] at hdate
      cases hdate
    · simp only [HttpResponse.setFileBody, hlast] at hdate
      exact (Option.some.inj hdate).symm
  · split at hdate
    · rw [hnone] at hdate
      cases hdate
    · simp only [HttpResponse.setBody, hlast] at hdate
      exact (Option.some.inj hdate).symm

/-- **Last-Modified and back**: a date that was sent is read as the time it
stands for, and whoever sends it back is told that the file has not changed. -/
theorem last_modified_roundtrip {t : Int} (h0 : 0 ≤ t) (h1 : t ≤ 253402300799) :
    parseHttpDate (formatHttpDate t) = some t ∧
      ∀ (r : Router) (disk disk' : Disk) (path : Bytes) (request request' : HttpRequest)
        (info : FileStat) (date : Bytes),
        disk.stat (cStr (r.wwwRoot ++ path)) = some info →
        disk'.stat (cStr (r.wwwRoot ++ path)) = some info → info.isReg = true → info.st_mtime = t →
        (r.serveStaticFile disk path request).headers[bytes "Last-Modified"]? = some date →
        request'.getHeader (bytes "If-None-Match") = [] →
        request'.getHeader (bytes "If-Modified-Since") = date →
        (r.serveStaticFile disk' path request').statusCode = 304 := by
  have hparse := parse_formatHttpDate h0 h1
  refine ⟨hparse, ?_⟩
  rintro r disk disk' path request request' info date hstat hstat' hreg rfl hdate hnone hsince
  rw [lastModified_sent hstat hdate] at hsince
  have hne : (formatHttpDate info.st_mtime).isEmpty = false := by
    rw [formatHttpDate_eq]
    simp
  have hnot : isNotModified request' (makeETag info.st_mtime info.st_size) info.st_mtime = true := by
    simp [isNotModified, hnone, hsince, hne, hparse]
  simp only [serveStaticFile, hstat', hreg, hnot, Bool.true_eq_false, if_false, if_true]
  rfl

def datedDisk : Disk where
  stat _ := some ⟨true, 951868799, 5⟩
  openFile _ := none
  ifstream _ := some (bytes "hello")

def echoing : HttpRequest :=
  ({ } : HttpRequest).addHeader (bytes "If-Modified-Since") (bytes "Tue, 29 Feb 2000 23:59:59 GMT")

theorem last_modified_roundtrip_leap :
    parseHttpDate (formatHttpDate 951868799) = some 951868799 ∧
      (({ } : Router).serveStaticFile datedDisk (bytes "/a.txt") { }).statusCode = 200 ∧
      (({ } : Router).serveStaticFile datedDisk (bytes "/a.txt") echoing).statusCode = 304 := by
  have hall := last_modified_roundtrip (t := 951868799) (by decide) (by decide)
  have hdate : (({ } : Router).serveStaticFile datedDisk (bytes "/a.txt") { }).headers[
      bytes "Last-Modified"]? = some (bytes "Tue, 29 Feb 2000 23:59:59 GMT") := by decide +kernel
  exact ⟨hall.1, by decide +kernel, hall.2 { } datedDisk datedDisk _ { } echoing _ _ rfl rfl rfl rfl
    hdate (by decide +kernel) (by decide +kernel)⟩

end Router

end Myself
