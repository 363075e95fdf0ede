import MyselfServer.LastModified

/-!
# The older date formats

The dates of RFC 850 and of `asctime`, as a client may send them, and what
`parseHttpDate` makes of them. Day and year of two digits are told apart by
their order, and a year `00` counts as one that has not been seen.
-/

namespace Myself

open Text

def kLongDays : List Bytes :=
  [bytes "Sunday", bytes "Monday", bytes "Tuesday", bytes "Wednesday", bytes "Thursday",
    bytes "Friday", bytes "Saturday"]

def timeText (tm : Tm) : Bytes :=
  twoDigits tm.tm_hour ++ COLON :: (twoDigits tm.tm_min ++ COLON :: twoDigits tm.tm_sec)

def shortYear (tm : Tm) : Nat := ((tm.tm_year + 1900) % 100).toNat

def rfc850Date (seconds : Int) : Bytes :=
  let tm := utcTm seconds
  kLongDays.getD tm.tm_wday [] ++ bytes ", " ++ twoDigits tm.tm_mday ++ bytes "-" ++
    kMonths.getD tm.tm_mon [] ++ bytes "-" ++ twoDigits (shortYear tm) ++ bytes " " ++
    timeText tm ++ bytes " GMT"

def asctimeDate (seconds : Int) : Bytes :=
  let tm := utcTm seconds
  kDays.getD tm.tm_wday [] ++ bytes " " ++ kMonths.getD tm.tm_mon [] ++ bytes " " ++
    (if tm.tm_mday < 10 then bytes " " ++ toText tm.tm_mday else toText tm.tm_mday) ++ bytes " " ++
    timeText tm ++ bytes " " ++ toText (tm.tm_year + 1900)

/-! ## Words and fields -/

theorem dateTokens_sep {sep : UInt8} (hsep : isSeparator sep = true) (rest : Bytes) :
    dateTokens [] (sep :: rest) = dateTokens [] rest := by
  simp [dateTokens, hsep]

section
variable {tm : Tm}

theorem isWord_timeText (h : Civil tm) : IsWord (timeText tm) :=
  isWord_dateWords h _ (by simp [dateWords, timeText])

/-- The short name of a day of the week is passed over. -/
theorem token_day (f : DateFields) (h : Civil tm) : f.token (kDays.getD tm.tm_wday []) = some f := by
  have hall : ∀ i < 7, ¬ (kDays.getD i [] = bytes "GMT" ∨ kDays.getD i [] = bytes "UTC") ∧
      kMonths.idxOf? (kDays.getD i []) = none := by
    decide
  obtain ⟨hzone, hidx⟩ := hall _ h.wday
  rw [token_name f (isName_days _ h.wday) hzone, hidx, Option.elim_none]

theorem token_timeText (f : DateFields) (h : Civil tm) :
    f.token (timeText tm) = some { f with
      hour := tm.tm_hour, minute := tm.tm_min, second := tm.tm_sec, hasTime := true } := by
  have hhour := h.hour
  have hmin := h.min
  have hsec := h.sec
  exact token_time f (numeral_twoDigits (by omega)) (numeral_twoDigits (by omega)) (numeral_twoDigits (by omega))

/-- The first number is the day. -/
theorem token_mday {f : DateFields} (hf : f.day = 0) {s : Bytes} (h : Civil tm) (hs : Numeral s tm.tm_mday)
    (hlen : s.length ≠ 4) : f.token s = some { f with day := tm.tm_mday } := by
  have hday := h.mday
  rw [token_numeral _ hs, if_neg (by omega), if_pos hf]

/-- Behind the day any number is the year. -/
theorem token_year {f : DateFields} (hf : f.day ≠ 0) {s : Bytes} {n : Nat} (hs : Numeral s n) :
    f.token s = some { f with year := n } := by
  rw [token_numeral _ hs]
  by_cases hlarge : (n : Int) > 31 ∨ s.length = 4 ∨ (n : Int) ≥ 70
  · rw [if_pos hlarge]
  · rw [if_neg hlarge, if_neg hf]

theorem shortYear_lt (tm : Tm) : shortYear tm < 100 := by
  unfold shortYear
  omega

theorem tokens_rfc850 (h : Civil tm) :
    [twoDigits tm.tm_mday, kMonths.getD tm.tm_mon [], twoDigits (shortYear tm), timeText tm,
        bytes "GMT"].foldlM DateFields.token {} =
      some { fieldsOf tm with year := shortYear tm } := by
  have hday := h.mday
  have hshort := shortYear_lt tm
  have hlen := length_twoDigits (n := tm.tm_mday) (by omega)
  have hmday : DateFields.token {} (twoDigits tm.tm_mday) = some { day := tm.tm_mday } :=
    token_mday rfl h (numeral_twoDigits (by omega)) (by omega)
  have hyear : DateFields.token { day := tm.tm_mday, month := tm.tm_mon + 1 } (twoDigits (shortYear tm)) =
      some { day := tm.tm_mday, month := tm.tm_mon + 1, year := shortYear tm } :=
    token_year (by dsimp only; omega) (numeral_twoDigits (by omega))
  simp only [List.foldlM_cons, List.foldlM_nil, hmday, token_month _ h.mon, hyear, token_timeText _ h,
    token_gmt, Option.bind_eq_bind, Option.bind_some, Option.pure_def, fieldsOf]

theorem tokens_asctime (h : Civil tm) :
    [kDays.getD tm.tm_wday [], kMonths.getD tm.tm_mon [], toText tm.tm_mday, timeText tm,
        toText (tm.tm_year + 1900)].foldlM DateFields.token {} = some (fieldsOf tm) := by
  obtain ⟨n, hn⟩ : ∃ n : Nat, tm.tm_year + 1900 = n := ⟨(tm.tm_year + 1900).toNat, by have := h.year; omega⟩
  have hday := h.mday
  have hyear := h.year
  have hlen : ∀ d < 32, (toText (d : Nat)).length ≠ 4 := by decide
  have hmday : DateFields.token { month := tm.tm_mon + 1 } (toText tm.tm_mday) =
      some { month := tm.tm_mon + 1, day := tm.tm_mday } :=
    token_mday rfl h (numeral_toText (by omega)) (hlen _ (by omega))
  have hlast : ∀ f : DateFields, f.day ≠ 0 → f.token (toText (n : Int)) = some { f with year := n } :=
    fun f hf => token_year hf (numeral_toText (by omega))
  simp only [List.foldlM_cons, List.foldlM_nil, token_day _ h, token_month _ h.mon, hmday, token_timeText _ h,
    hn, Option.bind_eq_bind, Option.bind_some, Option.pure_def]
  rw [hlast _ (by dsimp only; omega)]
  simp only [fieldsOf, hn, Option.bind_some]

/-- A year of two digits stands for the one it is short for, `00` for none. -/
theorem seconds_shortYear {t : Int} (h : Civil (utcTm t)) (hlate : (utcTm t).tm_year + 1900 ≤ 2069) :
    ({ fieldsOf (utcTm t) with year := shortYear (utcTm t) } : DateFields).seconds =
      if (utcTm t).tm_year + 1900 = 2000 then none else some t := by
  have hyear := h.year
  have hmon := h.mon
  have hday := h.mday
  by_cases h2000 : (utcTm t).tm_year + 1900 = 2000
  · have hzero : (shortYear (utcTm t) : Int) = 0 := by
      unfold shortYear
      omega
    rw [if_pos h2000, DateFields.seconds, if_pos (by simp [hzero])]
  · have hwindow : (shortYear (utcTm t) : Int) + (if (shortYear (utcTm t) : Int) < 70 then 2000 else 1900) =
        (utcTm t).tm_year + 1900 := by
      unfold shortYear
      split_ifs <;> omega
    have hnonzero : (shortYear (utcTm t) : Int) ≠ 0 := by
      unfold shortYear
      omega
    have hlt := shortYear_lt (utcTm t)
    have hfull := seconds_fieldsOf h
    rw [if_neg h2000, ← hfull, DateFields.seconds, DateFields.seconds]
    have hset : ((utcTm t).tm_mday : Int) ≠ 0 := by omega
    have hsome : (utcTm t).tm_year + 1900 ≠ 0 := by omega
    have hlong : ¬ (utcTm t).tm_year + 1900 < 100 := by omega
    have hshort : (shortYear (utcTm t) : Int) < 100 := by omega
    simp only [fieldsOf, hnonzero, hset, hsome, hlong, hshort, hwindow, if_true, if_false]

/-! ## The texts -/

def rfc850Text (tm : Tm) : Bytes :=
  twoDigits tm.tm_mday ++ 45 :: (kMonths.getD tm.tm_mon [] ++ 45 :: (twoDigits (shortYear tm) ++
    SP :: (timeText tm ++ SP :: bytes "GMT")))

theorem rfc850Date_eq (t : Int) :
    rfc850Date t = kLongDays.getD (utcTm t).tm_wday [] ++ COMMA :: SP :: rfc850Text (utcTm t) := by
  simp [rfc850Date, rfc850Text, bytes, SP, COMMA]

theorem asctimeDate_eq (t : Int) :
    asctimeDate t = kDays.getD (utcTm t).tm_wday [] ++ SP :: (kMonths.getD (utcTm t).tm_mon [] ++
      SP :: ((if (utcTm t).tm_mday < 10 then [SP] else []) ++ (toText (utcTm t).tm_mday ++
        SP :: (timeText (utcTm t) ++ SP :: toText ((utcTm t).tm_year + 1900))))) := by
  by_cases hpad : (utcTm t).tm_mday < 10
  · simp [asctimeDate, hpad, bytes, SP]
  · simp [asctimeDate, hpad, bytes, SP]

theorem dateTokens_rfc850 (h : Civil tm) :
    dateTokens [] (rfc850Text tm) =
      [twoDigits tm.tm_mday, kMonths.getD tm.tm_mon [], twoDigits (shortYear tm), timeText tm, bytes "GMT"] := by
  have hday := h.mday
  have hshort := shortYear_lt tm
  have hmday : IsWord (twoDigits tm.tm_mday) := (numeral_twoDigits (by omega)).isWord
  have hmonth := isWord_name (isName_months _ h.mon)
  have hyear : IsWord (twoDigits (shortYear tm)) := (numeral_twoDigits (by omega)).isWord
  have htime := isWord_timeText h
  rw [rfc850Text, dateTokens_word hmday (by decide), dateTokens_word hmonth (by decide),
    dateTokens_word hyear (by decide), dateTokens_word htime (by decide),
    dateTokens_last (isWord_name isName_gmt)]

theorem dateTokens_asctime {t : Int} (h : Civil (utcTm t)) :
    dateTokens [] (asctimeDate t) =
      [kDays.getD (utcTm t).tm_wday [], kMonths.getD (utcTm t).tm_mon [], toText (utcTm t).tm_mday,
        timeText (utcTm t), toText ((utcTm t).tm_year + 1900)] := by
  obtain ⟨n, hn⟩ : ∃ n : Nat, (utcTm t).tm_year + 1900 = n :=
    ⟨((utcTm t).tm_year + 1900).toNat, by have := h.year; omega⟩
  have hday := h.mday
  have hlast := h.year
  have hname := isWord_name (isName_days _ h.wday)
  have hmonth := isWord_name (isName_months _ h.mon)
  have hmday : IsWord (toText (utcTm t).tm_mday) := (numeral_toText (by omega)).isWord
  have htime := isWord_timeText h
  have hyear : IsWord (toText (n : Int)) := (numeral_toText (by omega)).isWord
  have hpad : ∀ rest : Bytes, dateTokens [] ((if (utcTm t).tm_mday < 10 then [SP] else []) ++ rest) =
      dateTokens [] rest := by
    intro rest
    split
    · exact dateTokens_sep (by decide) rest
    · rfl
  rw [asctimeDate_eq, hn, dateTokens_word hname (by decide), dateTokens_word hmonth (by decide),
    hpad, dateTokens_word hmday (by decide), dateTokens_word htime (by decide), dateTokens_last hyear]

theorem noComma_numeral {s : Bytes} {n : Nat} (h : Numeral s n) : COMMA ∉ s :=
  fun hin => absurd (h.isDigit hin) (by decide)

theorem noComma_timeText (h : Civil tm) : COMMA ∉ timeText tm := by
  have hhour := h.hour
  have hmin := h.min
  have hsec := h.sec
  have htwo : ∀ {n : Nat}, n < 100 → COMMA ∉ twoDigits n :=
    fun hn => noComma_numeral (numeral_twoDigits (by omega))
  simp only [timeText, List.mem_append, List.mem_cons, not_or]
  exact ⟨htwo (by omega), by decide, htwo (by omega), by decide, htwo (by omega)⟩

theorem isName_longDays : ∀ i < 7, isName (kLongDays.getD i []) = true := by decide

theorem parse_rfc850 {t : Int} (h : Civil (utcTm t)) (hlate : (utcTm t).tm_year + 1900 ≤ 2069) :
    parseHttpDate (rfc850Date t) = if (utcTm t).tm_year + 1900 = 2000 then none else some t := by
  have hday := h.mday
  have hday' := isName_longDays _ h.wday
  have hname := isWord_name hday'
  have hcomma : COMMA ∉ kLongDays.getD (utcTm t).tm_wday [] := notMem_name hday' (by decide)
  have hmday : IsWord (twoDigits (utcTm t).tm_mday) := (numeral_twoDigits (by omega)).isWord
  have hwords : trim (SP :: rfc850Text (utcTm t)) = rfc850Text (utcTm t) := by
    rw [trim_SP]
    have hends := trim_words hmday (45 :: (kMonths.getD (utcTm t).tm_mon [] ++
      45 :: (twoDigits (shortYear (utcTm t)) ++ SP :: (timeText (utcTm t) ++ [SP])))) (isWord_name isName_gmt)
    simpa [rfc850Text] using hends
  have htrim : trim (rfc850Date t) = rfc850Date t := by
    have hends := trim_words hname (COMMA :: SP :: (twoDigits (utcTm t).tm_mday ++
      45 :: (kMonths.getD (utcTm t).tm_mon [] ++ 45 :: (twoDigits (shortYear (utcTm t)) ++
        SP :: (timeText (utcTm t) ++ [SP]))))) (isWord_name isName_gmt)
    simpa [rfc850Date_eq, rfc850Text] using hends
  have hsearch : search [44] (rfc850Date t) = some (kLongDays.getD (utcTm t).tm_wday []).length := by
    rw [rfc850Date_eq]
    exact search_one_iff.mpr ⟨_, _, rfl, hcomma, rfl⟩
  have hdrop : (rfc850Date t).drop ((kLongDays.getD (utcTm t).tm_wday []).length + 1) =
      SP :: rfc850Text (utcTm t) := by
    rw [rfc850Date_eq, List.drop_append]
    simp
  simp only [parseHttpDate, htrim, hsearch, hdrop, hwords, dateTokens_rfc850 h, tokens_rfc850 h,
    seconds_shortYear h hlate]

theorem parse_asctime {t : Int} (h : Civil (utcTm t)) : parseHttpDate (asctimeDate t) = some t := by
  obtain ⟨n, hn⟩ : ∃ n : Nat, (utcTm t).tm_year + 1900 = n :=
    ⟨((utcTm t).tm_year + 1900).toNat, by have := h.year; omega⟩
  have hday := h.mday
  have hlast := h.year
  have hname := isName_days _ h.wday
  have hyear : Numeral (toText (n : Int)) n := numeral_toText (by omega)
  have hmday : Numeral (toText (utcTm t).tm_mday) (utcTm t).tm_mday := numeral_toText (by omega)
  have htrim : trim (asctimeDate t) = asctimeDate t := by
    have hends := trim_words (isWord_name hname) (SP :: (kMonths.getD (utcTm t).tm_mon [] ++
      SP :: ((if (utcTm t).tm_mday < 10 then [SP] else []) ++ (toText (utcTm t).tm_mday ++
        SP :: (timeText (utcTm t) ++ [SP]))))) hyear.isWord
    simpa [asctimeDate_eq, hn] using hends
  have hcomma : COMMA ∉ asctimeDate t := by
    have hmonth : COMMA ∉ kMonths.getD (utcTm t).tm_mon [] := notMem_name (isName_months _ h.mon) (by decide)
    have hpad : COMMA ∉ (if (utcTm t).tm_mday < 10 then [SP] else []) := by
      split <;> decide
    rw [asctimeDate_eq, hn]
    simp only [List.mem_append, List.mem_cons, not_or]
    exact ⟨notMem_name hname (by decide), by decide, hmonth, by decide, hpad, noComma_numeral hmday, by decide,
      noComma_timeText h, by decide, noComma_numeral hyear⟩
  have hsearch : search [44] (asctimeDate t) = none := search_one_eq_none.mpr hcomma
  simp only [parseHttpDate, htrim, hsearch, dateTokens_asctime h, tokens_asctime h, seconds_fieldsOf h]

/-- The days from 1970-01-01 to 2069-12-31. -/
theorem civil_century {days : Int} (h1 : days < 36525) : (civilFromDays days).1 ≤ 2069 := by
  obtain ⟨era, yoe, doy, mp, hyoe, hdoy, hmp, hdays, hcivil⟩ := civilFromDays_spec days
  rw [hcivil]
  dsimp only
  have hera : era ≤ 5 := by omega
  by_cases hmarch : mp < 10
  · simp only [hmarch, if_true]
    by_contra hhigh
    have hyear : era = 5 ∧ 70 ≤ yoe := by omega
    obtain ⟨rfl, hyear⟩ := hyear
    omega
  · simp only [hmarch, if_false]
    by_contra hhigh
    have hyear : era = 5 ∧ 69 ≤ yoe := by omega
    obtain ⟨rfl, hyear⟩ := hyear
    have hwinter : 306 ≤ doy := by omega
    by_cases h69 : yoe = 69
    · subst h69
      omega
    · omega

/-- Both older formats of a time of these hundred years are read as that time,
except that the year 2000 is not read from the two digits of RFC 850. -/
theorem legacy_dates_read {t : Int} (h0 : 0 ≤ t) (h1 : t ≤ 3155759999) :
    parseHttpDate (rfc850Date t) = some t ∧ parseHttpDate (asctimeDate t) = some t ↔
      (utcTm t).tm_year + 1900 ≠ 2000 := by
  have h : Civil (utcTm t) := civil_utcTm h0 (by omega)
  have hyear : (utcTm t).tm_year + 1900 = (civilFromDays (t / 86400)).1 := by
    simp [utcTm]
  have hlate : (utcTm t).tm_year + 1900 ≤ 2069 := by
    rw [hyear]
    exact civil_century (by omega)
  rw [parse_rfc850 h hlate, parse_asctime h]
  by_cases h2000 : (utcTm t).tm_year + 1900 = 2000
  · simp [h2000]
  · simp [h2000]

theorem legacy_dates_read_1994 :
    parseHttpDate (rfc850Date 784111777) = some 784111777 ∧
      parseHttpDate (asctimeDate 784111777) = some 784111777 :=
  (legacy_dates_read (t := 784111777) (by decide) (by decide)).mpr (by decide +kernel)

/-- "Tuesday, 29-Feb-00 23:59:59 GMT" -/
theorem legacy_dates_2000 :
    rfc850Date 951868799 = bytes "Tuesday, 29-Feb-00 23:59:59 GMT" ∧
      parseHttpDate (rfc850Date 951868799) = none := by
  decide +kernel

end

end Myself
