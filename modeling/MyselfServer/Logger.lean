import MyselfServer.HttpDate
import MyselfServer.LogInteger
import MyselfServer.Machine

/-!
# Log statements

A `Logger` lives for one statement: its constructor writes the head of the
line, values are streamed into it, and its destructor writes the trailer and
hands the buffer on. A piece that does not fit into the buffer is dropped, and
so can be the trailer. What `snprintf` and `localtime_r` return is given.
-/

namespace Myself

open Text Machine

def kSmallBuffer : Nat := 4096

abbrev LogBuffer := FixedBuffer kSmallBuffer

/-- A streamed value. A floating-point number or an address is the text that
`snprintf` makes of it. -/
inductive LogValue where
  | bool (value : Bool)
  | integer (type : IntegerType) (value : type.Value)
  | double (text : Bytes)
  | char (c : UInt8)
  | cstr (text : Option Bytes)
  | string (text : Bytes)
  | buffer (value : LogBuffer)
  | pointer (text : Bytes)

def LogValue.text : LogValue → Bytes
  | bool value => if value then bytes "1" else bytes "0"
  | integer _ value => toText value.1
  | double text => text
  | char c => [c]
  | cstr text => text.getD (bytes "(null)")
  | string text => text
  | buffer value => value.data
  | pointer text => text

namespace FixedBuffer

def appendFormatted (b : LogBuffer) (text : Bytes) : LogBuffer :=
  if b.avail ≥ kMaxNumericSize then
    if text.length > 0 then b.append text else b
  else b

def put (b : LogBuffer) : LogValue → LogBuffer
  | .bool value => b.append (if value then bytes "1" else bytes "0")
  | .integer _ value => b.formatInteger value.1
  | .double text => b.appendFormatted text
  | .char c => b.append [c]
  | .cstr text => b.append (text.getD (bytes "(null)"))
  | .string text => b.append text
  | .buffer value => b.append value.data
  | .pointer text => b.appendFormatted text

section
variable {SIZE : Nat} {b : FixedBuffer SIZE}

def empty (h : 0 < SIZE) : FixedBuffer SIZE := ⟨[], h⟩

@[simp]
theorem data_empty (h : 0 < SIZE) : (empty h).data = [] := rfl

theorem data_append_cases (b : FixedBuffer SIZE) (data : Bytes) :
    (b.append data).data = b.data ∨ (b.append data).data = b.data ++ data := by
  by_cases h : b.avail > data.length
  · exact .inr (data_append h)
  · rw [append, dif_neg h]
    exact .inl rfl

theorem avail_append {data : Bytes} (h : b.avail > data.length) :
    (b.append data).avail = b.avail - data.length := by
  rw [avail, length, data_append h, List.length_append, avail, length]
  omega

theorem append_full {data : Bytes} (h : ¬ b.avail > data.length) : b.append data = b := dif_neg h

theorem avail_append_le (b : FixedBuffer SIZE) (data : Bytes) : (b.append data).avail ≤ b.avail := by
  by_cases h : b.avail > data.length
  · rw [avail_append h]
    omega
  · rw [append_full h]

theorem data_put_cases (b : LogBuffer) (value : LogValue) :
    (b.put value).data = b.data ∨ (b.put value).data = b.data ++ value.text := by
  have hformatted : ∀ text, (b.appendFormatted text).data = b.data ∨
      (b.appendFormatted text).data = b.data ++ text := by
    intro text
    unfold appendFormatted
    split
    · split
      · exact data_append_cases b text
      · exact .inl rfl
    · exact .inl rfl
  cases value with
  | bool value => exact data_append_cases b _
  | integer type value =>
    rw [put, formatInteger]
    split
    · exact .inl rfl
    · exact data_append_cases b _
  | double text => exact hformatted text
  | char c => exact data_append_cases b _
  | cstr text => exact data_append_cases b _
  | string text => exact data_append_cases b _
  | buffer value => exact data_append_cases b _
  | pointer text => exact hformatted text

end

end FixedBuffer

inductive LogLevel where
  | kTrace
  | kDebug
  | kInfo
  | kWarn
  | kError
  | kFatal
  | kNumLogLevels
  deriving DecidableEq

def logLevelName : LogLevel → Bytes
  | .kTrace => bytes "TRACE"
  | .kDebug => bytes "DEBUG"
  | .kInfo => bytes "INFO "
  | .kWarn => bytes "WARN "
  | .kError => bytes "ERROR"
  | .kFatal => bytes "FATAL"
  | .kNumLogLevels => bytes "UNKNOWN"

structure LogTime where
  tm : Tm
  tv_nsec : Nat

structure Logger where
  stream : LogBuffer
  level : LogLevel
  file : Bytes
  line : IntegerType.int.Value

namespace Logger

def dateText (tm : Tm) : Bytes :=
  toText (tm.tm_year + 1900) ++ twoDigits (tm.tm_mon + 1) ++ twoDigits tm.tm_mday ++ bytes " " ++
    twoDigits tm.tm_hour ++ bytes ":" ++ twoDigits tm.tm_min ++ bytes ":" ++ twoDigits tm.tm_sec

def appendTimestamp (b : LogBuffer) (now : LogTime) : LogBuffer :=
  ((b.append (dateText now.tm)).append (bytes ".")).formatInteger (now.tv_nsec / 1000 : Nat)

def create (file : Bytes) (line : IntegerType.int.Value) (level : LogLevel) (now : LogTime)
    (tid : Int) : Logger :=
  let b := appendTimestamp (.empty (by decide)) now
  let b := (b.append (bytes " [")).append (logLevelName level)
  let b := ((b.append (bytes "] [tid:")).formatInteger tid).append (bytes "] ")
  { stream := b, level := level, file := file, line := line }

def put (l : Logger) (value : LogValue) : Logger := { l with stream := l.stream.put value }

def baseName (path : Bytes) : Bytes := path.rtakeWhile (· ≠ 47)

def finish (l : Logger) : LogBuffer :=
  let b := (l.stream.append (bytes " - ")).append (baseName l.file)
  ((b.append (bytes ":")).formatInteger l.line.1).append (bytes "\n")

def trailer (l : Logger) : Bytes :=
  bytes " - " ++ baseName l.file ++ bytes ":" ++ toText l.line.1

/-- One newline, at the end, behind the trailer. -/
def OneLine (l : Logger) (out : Bytes) : Prop :=
  out.count LF = 1 ∧ ∃ message, out = message ++ l.trailer ++ [LF]

def RoomForTrailer (l : Logger) : Prop := (baseName l.file).length + 52 ≤ l.stream.avail

/-- Only the name of the file does not fit, and the text before it already ends
like a trailer. -/
def TrailerInText (l : Logger) : Prop :=
  52 ≤ l.stream.avail ∧ l.stream.avail ≤ (baseName l.file).length + 3 ∧
    bytes " - " ++ baseName l.file <:+ l.stream.data ++ bytes " - "

/-! ## The trailer -/

section
variable {l : Logger}

theorem noLF_append {b : LogBuffer} {data : Bytes} (hb : LF ∉ b.data) (hdata : LF ∉ data) :
    LF ∉ (b.append data).data := by
  rcases b.data_append_cases data with h | h
  · rw [h]
    exact hb
  · rw [h, List.mem_append, not_or]
    exact ⟨hb, hdata⟩

theorem noLF_formatInteger {b : LogBuffer} (hb : LF ∉ b.data) (value : Int) :
    LF ∉ (b.formatInteger value).data := by
  rw [FixedBuffer.formatInteger]
  split
  · exact hb
  · exact noLF_append hb (noLF_toText value)

theorem noLF_baseName {path : Bytes} (h : LF ∉ path) : LF ∉ baseName path :=
  fun hin => h (List.IsSuffix.mem hin (List.rtakeWhile_suffix _ _))

theorem toText_last (value : Int) : ∃ front d, toText value = front ++ [d] ∧ isDigit d = true := by
  have hdigits := isDigitString_repr value.natAbs
  simp only [isDigitString, Bool.and_eq_true, List.all_eq_true] at hdigits
  rw [toText_eq, repr_eq, ← List.append_assoc]
  refine ⟨_, _, rfl, hdigits.2 _ ?_⟩
  rw [repr_eq]
  exact List.mem_append_right _ (List.mem_singleton_self _)

def beforeLine (l : Logger) : LogBuffer :=
  ((l.stream.append (bytes " - ")).append (baseName l.file)).append (bytes ":")

theorem finish_eq (l : Logger) :
    l.finish = (l.beforeLine.formatInteger l.line.1).append (bytes "\n") := rfl

theorem noLF_beforeLine (hdata : LF ∉ l.stream.data) (hfile : LF ∉ l.file) :
    LF ∉ l.beforeLine.data :=
  noLF_append (noLF_append (noLF_append hdata (by decide)) (noLF_baseName hfile)) (by decide)

/-- The trailer is not there without the number of the line. -/
theorem OneLine.line_fits (hdata : LF ∉ l.stream.data) (hfile : LF ∉ l.file)
    (h : l.OneLine l.finish.data) : kMaxNumericSize ≤ l.beforeLine.avail := by
  by_contra hfull
  obtain ⟨-, message, hout⟩ := h
  have hclean := noLF_beforeLine hdata hfile
  rw [finish_eq, FixedBuffer.formatInteger, if_pos (Nat.lt_of_not_le hfull)] at hout
  by_cases hnewline : l.beforeLine.avail > (bytes "\n").length
  · rw [FixedBuffer.data_append hnewline] at hout
    obtain ⟨front, d, hfront, hd⟩ := toText_last l.line.1
    have hend := List.append_inj_left' hout rfl
    rw [trailer, hfront] at hend
    unfold beforeLine at hend hnewline
    by_cases hcolon : ((l.stream.append (bytes " - ")).append (baseName l.file)).avail > (bytes ":").length
    · -- a colon stands where the last digit would be
      rw [FixedBuffer.data_append hcolon, ← List.append_assoc, ← List.append_assoc] at hend
      have hlast := List.append_inj_right' hend rfl
      obtain rfl := (List.cons.inj hlast).1
      exact absurd hd (by decide)
    · rw [FixedBuffer.append_full hcolon] at hnewline
      exact hcolon hnewline
  · rw [FixedBuffer.append_full hnewline] at hout
    rw [hout] at hclean
    exact hclean (List.mem_append_right _ (List.mem_singleton_self _))

/-- Behind the number of the line the newline has room. -/
theorem finish_data (h : kMaxNumericSize ≤ l.beforeLine.avail) :
    l.finish.data = l.beforeLine.data ++ toText l.line.1 ++ [LF] := by
  have hlen := length_toText IntegerType.int l.line
  simp only [kMaxNumericSize] at h
  have hfit : l.beforeLine.avail > (toText l.line.1).length := by
    omega
  have hrest := FixedBuffer.avail_append hfit
  have hnewline : (l.beforeLine.append (toText l.line.1)).avail > (bytes "\n").length := by
    have hone : (bytes "\n").length = 1 := rfl
    omega
  rw [finish_eq, FixedBuffer.formatInteger, if_neg (by simp only [kMaxNumericSize]; omega),
    FixedBuffer.data_append hnewline, FixedBuffer.data_append hfit]
  rfl

/-- **The line ends with its trailer exactly when the destructor finds room for
it**, or finds the missing part of it in the text. -/
theorem oneLine_iff (hdata : LF ∉ l.stream.data) (hfile : LF ∉ l.file) :
    l.OneLine l.finish.data ↔ l.RoomForTrailer ∨ l.TrailerInText := by
  have hdash : (bytes " - ").length = 3 := rfl
  have hcolon : (bytes ":").length = 1 := rfl
  constructor
  · intro h
    have hline := h.line_fits hdata hfile
    have hout := finish_data hline
    obtain ⟨-, message, hone⟩ := h
    unfold beforeLine at hline hout
    simp only [kMaxNumericSize] at hline
    have hle := FixedBuffer.avail_append_le ((l.stream.append (bytes " - ")).append (baseName l.file))
      (bytes ":")
    have hle' := FixedBuffer.avail_append_le (l.stream.append (bytes " - ")) (baseName l.file)
    have hle'' := FixedBuffer.avail_append_le l.stream (bytes " - ")
    have hfirst : l.stream.avail > (bytes " - ").length := by
      omega
    have hthird : ((l.stream.append (bytes " - ")).append (baseName l.file)).avail > (bytes ":").length := by
      omega
    have havail := FixedBuffer.avail_append hfirst
    have havail' := FixedBuffer.avail_append hthird
    by_cases hbase : (l.stream.append (bytes " - ")).avail > (baseName l.file).length
    · have havail'' := FixedBuffer.avail_append hbase
      refine .inl ?_
      unfold RoomForTrailer
      omega
    · rw [FixedBuffer.append_full hbase] at havail' hline hout hthird
      refine .inr ⟨by omega, by omega, message, ?_⟩
      rw [FixedBuffer.data_append hthird, FixedBuffer.data_append hfirst, hone, trailer] at hout
      have hcut := List.append_inj_left' hout rfl
      rw [← List.append_assoc, ← List.append_assoc] at hcut
      have hcut' := List.append_inj_left' hcut rfl
      exact List.append_inj_left' hcut' rfl
  · intro h
    have hclean := noLF_beforeLine hdata hfile
    have hcount : kMaxNumericSize ≤ l.beforeLine.avail → l.finish.data.count LF = 1 := by
      intro hline
      rw [finish_data hline, List.count_append, List.count_append, List.count_eq_zero_of_not_mem hclean,
        List.count_eq_zero_of_not_mem (noLF_toText _)]
      rfl
    unfold RoomForTrailer TrailerInText at h
    have hfirst : l.stream.avail > (bytes " - ").length := by
      omega
    have havail := FixedBuffer.avail_append hfirst
    by_cases hbase : (l.stream.append (bytes " - ")).avail > (baseName l.file).length
    · have havail' := FixedBuffer.avail_append hbase
      have hthird : ((l.stream.append (bytes " - ")).append (baseName l.file)).avail >
          (bytes ":").length := by
        omega
      have havail'' := FixedBuffer.avail_append hthird
      have hline : kMaxNumericSize ≤ l.beforeLine.avail := by
        unfold beforeLine
        simp only [kMaxNumericSize]
        omega
      refine ⟨hcount hline, l.stream.data, ?_⟩
      rw [finish_data hline]
      unfold beforeLine
      rw [FixedBuffer.data_append hthird, FixedBuffer.data_append hbase, FixedBuffer.data_append hfirst,
        trailer]
      simp only [List.append_assoc]
    · obtain ⟨hroom, hlong, message, hmessage⟩ : l.TrailerInText :=
        h.resolve_left (by omega)
      have hthird : (l.stream.append (bytes " - ")).avail > (bytes ":").length := by
        omega
      have havail' := FixedBuffer.avail_append hthird
      have hbefore : l.beforeLine = (l.stream.append (bytes " - ")).append (bytes ":") := by
        rw [beforeLine, FixedBuffer.append_full hbase]
      have hline : kMaxNumericSize ≤ l.beforeLine.avail := by
        rw [hbefore]
        simp only [kMaxNumericSize]
        omega
      refine ⟨hcount hline, message, ?_⟩
      rw [finish_data hline, hbefore, FixedBuffer.data_append hthird, FixedBuffer.data_append hfirst,
        ← hmessage, trailer]
      simp only [List.append_assoc]

theorem noLF_dateText (tm : Tm) : LF ∉ dateText tm := by
  have htwo : ∀ n, LF ∉ twoDigits n := by
    intro n
    unfold twoDigits
    split
    · rw [List.mem_append, not_or]
      exact ⟨by decide, noLF_toText n⟩
    · exact noLF_toText n
  simp only [dateText, List.mem_append, not_or]
  exact ⟨⟨⟨⟨⟨⟨⟨⟨noLF_toText _, htwo _⟩, htwo _⟩, by decide⟩, htwo _⟩, by decide⟩, htwo _⟩, by decide⟩, htwo _⟩

theorem noLF_create (file : Bytes) (line : IntegerType.int.Value) (level : LogLevel) (now : LogTime)
    (tid : Int) : LF ∉ (create file line level now tid).stream.data := by
  have hlevel : LF ∉ logLevelName level := by
    cases level <;> decide
  have htime : LF ∉ (appendTimestamp (.empty (by decide)) now).data := by
    unfold appendTimestamp
    refine noLF_formatInteger (noLF_append (noLF_append ?_ (noLF_dateText now.tm)) (by decide)) _
    rw [FixedBuffer.data_empty]
    exact List.not_mem_nil
  unfold create
  dsimp only
  refine noLF_append (noLF_formatInteger (noLF_append (noLF_append (noLF_append htime ?_) hlevel) ?_) tid) ?_
  · decide
  · decide
  · decide

theorem noLF_put {value : LogValue} (hl : LF ∉ l.stream.data) (hvalue : LF ∉ value.text) :
    LF ∉ (l.put value).stream.data := by
  rcases FixedBuffer.data_put_cases l.stream value with h | h
  · rw [put, h]
    exact hl
  · rw [put, h, List.mem_append, not_or]
    exact ⟨hl, hvalue⟩

theorem put_foldl (values : List LogValue) (hl : LF ∉ l.stream.data)
    (hvalues : ∀ value ∈ values, LF ∉ value.text) :
    LF ∉ (values.foldl put l).stream.data ∧ (values.foldl put l).file = l.file := by
  induction values generalizing l with
  | nil => exact ⟨hl, rfl⟩
  | cons value values ih =>
    rw [List.forall_mem_cons] at hvalues
    exact ih (noLF_put hl hvalues.1) hvalues.2

end

end Logger

structure LogStatement where
  file : Bytes
  line : IntegerType.int.Value
  level : LogLevel
  now : LogTime
  tid : Int
  values : List LogValue

namespace LogStatement

def logger (e : LogStatement) : Logger :=
  e.values.foldl Logger.put (Logger.create e.file e.line e.level e.now e.tid)

structure OfLine (e : LogStatement) : Prop where
  file : LF ∉ e.file
  values : ∀ value ∈ e.values, LF ∉ value.text

theorem OfLine.logger {e : LogStatement} (h : e.OfLine) :
    LF ∉ e.logger.stream.data ∧ LF ∉ e.logger.file := by
  obtain ⟨hdata, hfile⟩ := Logger.put_foldl e.values
    (Logger.noLF_create e.file e.line e.level e.now e.tid) h.values
  refine ⟨hdata, ?_⟩
  rw [LogStatement.logger, hfile]
  exact h.file

end LogStatement

structure LogOutput where
  written : Bytes := []
  lineCount : Nat := 0
  aborted : Bool := false

namespace LogOutput

/-- A whole statement: after `LOG_FATAL` there is no other one. -/
def step (s : LogOutput) (e : LogStatement) : Option LogOutput :=
  if s.aborted then none
  else
    some
      { written := s.written ++ e.logger.finish.data
        lineCount := s.lineCount + 1
        aborted := decide (e.level = .kFatal) }

/-- The destructor finds room for its trailer, or what is missing of it. -/
def TrailerFits (e : LogStatement) : Prop := e.logger.RoomForTrailer ∨ e.logger.TrailerInText

theorem fitting_line {e : LogStatement} (he : e.OfLine) :
    e.logger.OneLine e.logger.finish.data ↔ TrailerFits e :=
  Logger.oneLine_iff he.logger.1 he.logger.2

/-- **A statement is one line exactly when its trailer fits**, and statements
whose trailers fit are counted as often as they end a line. -/
theorem statement_line {s : LogOutput} (hs : Reached step (fun _ e => e.OfLine ∧ TrailerFits e) {} s)
    {e : LogStatement} (he : e.OfLine) :
    s.lineCount = s.written.count LF ∧ (e.logger.OneLine e.logger.finish.data ↔ TrailerFits e) := by
  refine ⟨hs.invariant (I := fun s => s.lineCount = s.written.count LF) rfl ?_, fitting_line he⟩
  rintro s e s' hcount ⟨he, hfits⟩ hs
  unfold step at hs
  split at hs
  · cases hs
  · cases hs
    obtain ⟨hone, -⟩ := (fitting_line he).mpr hfits
    rw [List.count_append, hone, hcount]

def limited (n : Nat) : LogStatement where
  file := bytes "src/main.cpp"
  line := ⟨500, by decide⟩
  level := .kWarn
  now := ⟨utcTm 1790000000, 123456789⟩
  tid := 12345
  values := [.cstr (some (bytes "rate limit exceeded for path=")), .string (List.replicate n 47)]

theorem limited_ofLine (n : Nat) : (limited n).OfLine := by
  refine ⟨show LF ∉ bytes "src/main.cpp" by decide, ?_⟩
  intro value hvalue
  rcases List.mem_pair.mp hvalue with rfl | rfl
  · decide
  · exact fun h => absurd (List.eq_of_mem_replicate h) (by decide)

theorem statement_line_short : (limited 3).logger.OneLine (limited 3).logger.finish.data ∧
    ∃ s, step {} (limited 3) = some s ∧ s.lineCount = s.written.count LF := by
  have hfits : TrailerFits (limited 3) := .inl (by unfold Logger.RoomForTrailer; decide)
  have hstep : step {} (limited 3) = some _ := if_neg (by decide)
  obtain ⟨hcount, hone⟩ := statement_line (Reached.start.next ⟨limited_ofLine 3, hfits⟩ hstep) (limited_ofLine 3)
  exact ⟨hone.mpr hfits, _, hstep, hcount⟩

/-- The path has taken the room of the trailer, and of the newline. -/
theorem long_path_no_line : (limited 4020).OfLine ∧
    ¬ (limited 4020).logger.OneLine (limited 4020).logger.finish.data ∧
    ∃ s, step {} (limited 4020) = some s ∧ s.lineCount = 1 ∧ s.written.count LF = 0 := by
  have hnone : (limited 4020).logger.finish.data.count LF = 0 := by decide +kernel
  refine ⟨limited_ofLine 4020, fun h => ?_, _, if_neg (by decide), rfl, ?_⟩
  · exact absurd (h.1.symm.trans hnone) (by decide)
  · rw [List.count_append, hnone]
    rfl

end LogOutput

end Myself
