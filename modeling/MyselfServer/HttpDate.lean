import Mathlib.Algebra.Group.Int.Defs
import MyselfServer.HttpResponse

/-!
# Dates

`formatHttpDate` and `parseHttpDate` of the router. `utcTm` gives the fields
of the proleptic Gregorian calendar; `gmtime_r` fails only for years that do
not fit an `int`. Numbers that do not fit are read as the C library reads
them: saturated to a `long`, which is then cut to an `int`.
-/

namespace Myself

open Text

structure Tm where
  tm_year : Int
  tm_mon : Nat
  tm_mday : Nat
  tm_hour : Nat
  tm_min : Nat
  tm_sec : Nat
  tm_wday : Nat
  deriving DecidableEq

def civilFromDays (days : Int) : Int × Nat × Nat :=
  let shifted := days + 719468
  let era := shifted / 146097
  let dayOfEra := (shifted % 146097).toNat
  let yearOfEra := (dayOfEra - dayOfEra / 1460 + dayOfEra / 36524 - dayOfEra / 146096) / 365
  let dayOfYear := dayOfEra - (365 * yearOfEra + yearOfEra / 4 - yearOfEra / 100)
  let shiftedMonth := (5 * dayOfYear + 2) / 153
  let day := dayOfYear - (153 * shiftedMonth + 2) / 5 + 1
  let month := if shiftedMonth < 10 then shiftedMonth + 3 else shiftedMonth - 9
  let year : Int := yearOfEra + era * 400
  (if month ≤ 2 then year + 1 else year, month, day)

def utcTm (seconds : Int) : Tm :=
  let days := seconds / 86400
  let second := (seconds % 86400).toNat
  let (year, month, day) := civilFromDays days
  { tm_year := year - 1900
    tm_mon := month - 1
    tm_mday := day
    tm_hour := second / 3600
    tm_min := second / 60 % 60
    tm_sec := second % 60
    tm_wday := ((days + 4) % 7).toNat }

def kDays : List Bytes :=
  [bytes "Sun", bytes "Mon", bytes "Tue", bytes "Wed", bytes "Thu", bytes "Fri", bytes "Sat"]

def kMonths : List Bytes :=
  [bytes "Jan", bytes "Feb", bytes "Mar", bytes "Apr", bytes "May", bytes "Jun",
    bytes "Jul", bytes "Aug", bytes "Sep", bytes "Oct", bytes "Nov", bytes "Dec"]

def twoDigits (n : Nat) : Bytes := if n < 10 then bytes "0" ++ toText n else toText n

/-- `strftime` with `"%a, %d %b %Y %H:%M:%S GMT"`. -/
def formatHttpDate (seconds : Int) : Bytes :=
  let tm := utcTm seconds
  kDays.getD tm.tm_wday [] ++ bytes ", " ++ twoDigits tm.tm_mday ++ bytes " " ++
    kMonths.getD tm.tm_mon [] ++ bytes " " ++ toText (tm.tm_year + 1900) ++ bytes " " ++
    twoDigits tm.tm_hour ++ bytes ":" ++ twoDigits tm.tm_min ++ bytes ":" ++
    twoDigits tm.tm_sec ++ bytes " GMT"

/-! ## Reading -/

def isSpace (c : UInt8) : Bool := c == 32 || (9 ≤ c && c ≤ 13)

/-- A `long` that `strtol` gives, cut to an `int`. -/
def toInt (n : Int) : Int := (max (-(2 ^ 63)) (min (2 ^ 63 - 1) n)).bmod (2 ^ 32)

def scanInt (s : Bytes) : Option (Int × Bytes) :=
  let s := s.dropWhile isSpace
  let (negative, s) := match s with
    | 45 :: rest => (true, rest)
    | 43 :: rest => (false, rest)
    | s => (false, s)
  let digits := s.takeWhile isDigit
  if digits.isEmpty then none
  else
    let n : Int := decimal digits
    some (toInt (if negative then -n else n), s.dropWhile isDigit)

def scanColon : Bytes → Option Bytes
  | [] => none
  | c :: rest => if c = COLON then some rest else none

def scanTime (s : Bytes) : Option (Int × Int × Int) := do
  let (hour, s) ← scanInt s
  let s ← scanColon s
  let (minute, s) ← scanInt s
  let s ← scanColon s
  let (second, _) ← scanInt s
  return (hour, minute, second)

/-- The string up to its first NUL, as functions of the C library see it. -/
def cStr (s : Bytes) : Bytes := s.takeWhile (· ≠ 0)

def atoi (s : Bytes) : Int := ((scanInt (cStr s)).map Prod.fst).getD 0

def isSeparator (c : UInt8) : Bool := c == 32 || c == 9 || c == 45

def dateTokens : Bytes → Bytes → List Bytes
  | current, [] => if current.isEmpty then [] else [current]
  | current, c :: rest =>
    if isSeparator c then
      if current.isEmpty then dateTokens [] rest else current :: dateTokens [] rest
    else dateTokens (current ++ [c]) rest

structure DateFields where
  month : Nat := 0
  day : Int := 0
  year : Int := 0
  hour : Int := 0
  minute : Int := 0
  second : Int := 0
  hasTime : Bool := false

def DateFields.token (f : DateFields) (token : Bytes) : Option DateFields :=
  if COLON ∈ token then
    match scanTime (cStr token) with
    | none => none
    | some (hour, minute, second) =>
      some { f with hour := hour, minute := minute, second := second, hasTime := true }
  else if token = bytes "GMT" ∨ token = bytes "UTC" then some f
  else if isDigitString token = false then
    match kMonths.idxOf? token with
    | none => some f
    | some i => some { f with month := i + 1 }
  else
    let number := atoi token
    -- two digits are a year only when they are no day
    if number > 31 ∨ token.length = 4 ∨ number ≥ 70 then some { f with year := number }
    else if f.day = 0 then some { f with day := number }
    else some { f with year := number }

def daysFromCivil (year : Int) (month day : Nat) : Int :=
  let adjustedYear := year - if month ≤ 2 then 1 else 0
  let era := (if adjustedYear ≥ 0 then adjustedYear else adjustedYear - 399).tdiv 400
  let yearOfEra := (adjustedYear - era * 400).toNat
  let dayOfYear := (153 * (if month > 2 then month - 3 else month + 9) + 2) / 5 + day - 1
  let dayOfEra := yearOfEra * 365 + yearOfEra / 4 - yearOfEra / 100 + dayOfYear
  era * 146097 + dayOfEra - 719468

def DateFields.seconds (f : DateFields) : Option Int :=
  if f.hasTime = false ∨ f.month = 0 ∨ f.day = 0 ∨ f.year = 0 then none
  else
    let year := if f.year < 100 then f.year + (if f.year < 70 then 2000 else 1900) else f.year
    if f.month > 12 ∨ f.day < 1 ∨ f.day > 31 ∨ f.hour > 23 ∨ f.minute > 59 ∨ f.second > 60 then none
    else some (daysFromCivil year f.month f.day.toNat * 86400 + f.hour * 3600 + f.minute * 60 + f.second)

def parseHttpDate (text : Bytes) : Option Int :=
  let value := trim text
  let value := match search [44] value with
    | none => value
    | some comma => trim (value.drop (comma + 1))
  match (dateTokens [] value).foldlM DateFields.token {} with
  | none => none
  | some fields => fields.seconds

example : formatHttpDate 784111777 = bytes "Sun, 06 Nov 1994 08:49:37 GMT" := by decide +kernel
example : parseHttpDate (bytes "Sunday, 06-Nov-94 08:49:37 GMT") = some 784111777 := by decide +kernel

/-! ## What a date is made of -/

theorem noLF_twoDigits (n : Nat) : LF ∉ twoDigits n := by
  unfold twoDigits
  split
  · simp only [List.mem_append, not_or]
    exact ⟨by decide, noLF_toText n⟩
  · exact noLF_toText n

theorem noLF_getD {names : List Bytes} (h : ∀ name ∈ names, LF ∉ name) (i : Nat) :
    LF ∉ names.getD i [] := by
  rw [List.getD_eq_getElem?_getD]
  cases hi : names[i]? with
  | none => exact List.not_mem_nil
  | some name => exact h name (List.mem_of_getElem? hi)

theorem noLF_formatHttpDate (seconds : Int) : LF ∉ formatHttpDate seconds := by
  have hday : LF ∉ kDays.getD (utcTm seconds).tm_wday [] := noLF_getD (by decide) _
  have hmonth : LF ∉ kMonths.getD (utcTm seconds).tm_mon [] := noLF_getD (by decide) _
  have hbytes : LF ∉ bytes ", " ∧ LF ∉ bytes " " ∧ LF ∉ bytes ":" ∧ LF ∉ bytes " GMT" := by decide
  simp only [formatHttpDate, List.mem_append, not_or]
  simp only [hday, hmonth, hbytes, noLF_toText, noLF_twoDigits, not_false_eq_true, and_self]

end Myself
