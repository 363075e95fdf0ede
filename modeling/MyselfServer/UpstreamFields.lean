import Mathlib.Data.List.Pairwise
import MyselfServer.TagList
import MyselfServer.UpstreamStatus

/-!
# The fields of the upstream

What a map of headers keeps of a list of fields, and from it when a
well-formed response of the upstream reaches the client as it was sent.
-/

/-! ## Lists with ascending keys -/

namespace Ascending

variable {κ β γ : Type} [Ord κ]

def Before (a b : κ × β) : Prop := compare a.1 b.1 = .lt

instance (a b : κ × β) : Decidable (Before a b) := inferInstanceAs (Decidable (_ = _))

theorem pairwise_keys {l : List (κ × β)} :
    l.Pairwise Before ↔ (l.map Prod.fst).Pairwise fun a b => compare a b = .lt := by
  rw [List.pairwise_map]
  rfl

omit [Ord κ] in
/-- The order within each class of keys. -/
theorem pairwise_classes [DecidableEq γ] {name : κ → γ} {R : κ × β → κ × β → Prop} {l : List (κ × β)} :
    (∀ n, (l.filter fun a => name a.1 = n).Pairwise R) ↔ l.Pairwise fun a b => name a.1 = name b.1 → R a b := by
  simp only [List.pairwise_filter, decide_eq_true_eq]
  constructor
  · intro h
    refine List.pairwise_iff_forall_sublist.mpr fun {a b} hab heq => ?_
    exact List.pairwise_iff_forall_sublist.mp (h (name b.1)) hab heq rfl
  · intro h n
    exact h.imp fun hab ha hb => hab (ha.trans hb.symm)

variable [Std.LawfulEqOrd κ]

theorem not_before_self (a : κ × β) : ¬ Before a a :=
  fun h => by cases h.symm.trans Std.ReflCmp.compare_self

theorem unique {l : List (κ × β)} (h : l.Pairwise Before) {a b : κ × β} (ha : a ∈ l) (hb : b ∈ l)
    (hkey : a.1 = b.1) : a = b := by
  by_contra hne
  have hapart : l.Pairwise fun a b => a.1 ≠ b.1 := by
    refine h.imp fun {a b} hab heq => ?_
    rw [Before, heq] at hab
    exact not_before_self b hab
  have : Std.Symm fun a b : κ × β => a.1 ≠ b.1 := ⟨fun _ _ h => h.symm⟩
  exact hapart.forall ha hb hne hkey

theorem eq_of_mem_iff [Std.TransOrd κ] {l₁ l₂ : List (κ × β)} (h₁ : l₁.Pairwise Before) (h₂ : l₂.Pairwise Before)
    (h : ∀ a, a ∈ l₁ ↔ a ∈ l₂) : l₁ = l₂ := by
  have hnodup : ∀ {l : List (κ × β)}, l.Pairwise Before → l.Nodup := by
    intro l hl
    refine List.Pairwise.imp (fun {a b} hab => ?_) hl
    rintro rfl
    exact not_before_self a hab
  have hperm := (List.perm_ext_iff_of_nodup (hnodup h₁) (hnodup h₂)).mpr h
  have hanti : ∀ a b : κ × β, Before a b → Before b a → a = b := by
    intro a b hab hba
    have hnot := Std.OrientedCmp.not_lt_of_lt hab
    exact absurd hba hnot
  exact hperm.eq_of_pairwise (fun a b _ _ => hanti a b) h₁ h₂

end Ascending

namespace Myself

open Text

namespace HttpResponse

/-! ## What a map keeps of a list -/

theorem mem_of_lastValue {fields : List (Bytes × Bytes)} {key value : Bytes}
    (h : lastValue fields key = some value) : (key, value) ∈ fields := by
  obtain ⟨f, hlast, rfl⟩ := Option.map_eq_some_iff.mp h
  obtain ⟨hin, hkey⟩ := List.mem_filter.mp (List.mem_of_getLast? hlast)
  have hkey : f.1 = key := by simpa using hkey
  rw [← hkey]
  exact hin

def trimmed (f : Bytes × Bytes) : Bytes × Bytes := (f.1, trim f.2)

def occurrences (fields : List (Bytes × Bytes)) (name : Bytes) : List (Bytes × Bytes) :=
  fields.filter fun f => toLower f.1 = name

theorem occurrences_trimmed (fields : List (Bytes × Bytes)) (name : Bytes) :
    occurrences (fields.map trimmed) name = (occurrences fields name).map trimmed := by
  rw [occurrences, List.filter_map]
  rfl

theorem pairwise_trimmed (l : List (Bytes × Bytes)) :
    ((l.map trimmed).Pairwise fun f g => toLower f.1 = toLower g.1 → Ascending.Before f g) ↔
      l.Pairwise fun f g => toLower f.1 = toLower g.1 → Ascending.Before f g := by
  rw [List.pairwise_map]
  rfl

theorem toList_ascending (headers : Std.TreeMap Bytes Bytes compare) :
    headers.toList.Pairwise Ascending.Before := Std.TreeMap.ordered_keys_toList

/-- A map keeps the fields of a name when their keys ascend. -/
theorem occurrences_eq {headers : Std.TreeMap Bytes Bytes compare} {fields : List (Bytes × Bytes)}
    (h : ∀ k : Bytes, headers[k]? = lastValue fields k) {name : Bytes}
    (hasc : (occurrences fields name).Pairwise Ascending.Before) :
    occurrences headers.toList name = occurrences fields name := by
  refine Ascending.eq_of_mem_iff ((toList_ascending headers).filter _) hasc fun ⟨key, value⟩ => ?_
  simp only [occurrences, List.mem_filter, Std.TreeMap.mem_toList_iff_getElem?_eq_some, h]
  refine and_congr_left fun hname => ⟨mem_of_lastValue, fun hin => ?_⟩
  refine lastValue_of_one hin fun g hg hkey => ?_
  have hg' : g ∈ occurrences fields name := List.mem_filter.mpr ⟨hg, by rw [hkey]; exact hname⟩
  have hf' : (key, value) ∈ occurrences fields name := List.mem_filter.mpr ⟨hin, hname⟩
  rw [Ascending.unique hasc hg' hf' hkey]

/-- The fields of every name are kept as they came exactly when, under each
name, no spelling is repeated and the spellings ascend. -/
theorem occurrences_iff {headers : Std.TreeMap Bytes Bytes compare} {fields : List (Bytes × Bytes)}
    (h : ∀ k : Bytes, headers[k]? = lastValue fields k) :
    (∀ name, occurrences (headers.toList.map trimmed) name = occurrences (fields.map trimmed) name) ↔
      fields.Pairwise fun f g => toLower f.1 = toLower g.1 → Ascending.Before f g := by
  rw [← Ascending.pairwise_classes]
  simp only [occurrences_trimmed]
  constructor
  · intro heq name
    have hkeys := congrArg (List.map Prod.fst) (heq name)
    simp only [List.map_map] at hkeys
    have hfst : Prod.fst ∘ trimmed = Prod.fst := rfl
    rw [hfst] at hkeys
    have hasc := (toList_ascending headers).filter fun f => toLower f.1 = name
    rw [Ascending.pairwise_keys] at hasc ⊢
    exact hkeys ▸ hasc
  · exact fun hasc name => congrArg (List.map trimmed) (occurrences_eq h (hasc name))

end HttpResponse

namespace ReverseProxy

/-! ## Well-formed responses -/

/-- One header line: a name, and a value with blanks around it. -/
structure FieldLine where
  name : Bytes
  before : Bytes
  value : Bytes
  after : Bytes
  name_ne : name ≠ []
  name_word : ∀ c ∈ name, c ≠ COLON ∧ isBlank c = false ∧ c ≠ 13 ∧ c ≠ LF
  value_line : ∀ c ∈ value, c ≠ 13 ∧ c ≠ LF
  value_trimmed : trim value = value
  blank : ∀ c ∈ before ++ after, isBlank c = true

def FieldLine.text (f : FieldLine) : Bytes := f.name ++ COLON :: (f.before ++ (f.value ++ f.after))

/-- A response whose body is ended by the end of the stream. -/
structure UpstreamResponse where
  major : UInt8
  minor : UInt8
  statusCode : Nat
  reason : Bytes
  fields : List FieldLine
  body : Bytes
  digits : isDigit major = true ∧ isDigit minor = true
  three : 100 ≤ statusCode ∧ statusCode < 1000
  reason_line : ∀ c ∈ reason, c ≠ 13 ∧ c ≠ LF

namespace UpstreamResponse

variable (u : UpstreamResponse)

def version : Bytes := bytes "HTTP/" ++ [u.major, 46, u.minor]

def statusLine : Bytes := u.version ++ SP :: (toText u.statusCode ++ SP :: u.reason)

def raw : Bytes := joinLines (u.statusLine :: u.fields.map FieldLine.text) ++ (CRLF ++ u.body)

/-- The fields for the client: `Connection` is between the upstream and the proxy. -/
def passed : List (Bytes × Bytes) :=
  (u.fields.filter fun f => toLower f.name ≠ bytes "connection").map fun f => (f.name, f.value)

end UpstreamResponse

def ownFields (proxy : ReverseProxy) : List (Bytes × Bytes) :=
  [(bytes "X-Proxy-By", bytes "MyselfWebServer"), (bytes "X-Upstream-Addr", proxy.targetAddress)]

/-- The client gets the response of the upstream: under each name the fields
as they were sent, in their order. -/
structure PassedThrough (proxy : ReverseProxy) (u : UpstreamResponse) (r : HttpResponse) : Prop where
  statusCode : r.statusCode = u.statusCode
  statusMessage : r.statusMessage = u.reason
  body : r.body = u.body
  fields : ∀ name, HttpResponse.occurrences (r.headers.toList.map HttpResponse.trimmed) name =
    HttpResponse.occurrences ((u.passed ++ proxy.ownFields).map HttpResponse.trimmed) name

/-- What a map of headers can hold of a response: `Connection` in one of the
two spellings that are left out, and no name twice but under spellings that
ascend. -/
structure Storable (proxy : ReverseProxy) (u : UpstreamResponse) : Prop where
  connection : ∀ f ∈ u.fields, toLower f.name = bytes "connection" →
    f.name = bytes "Connection" ∨ f.name = bytes "connection"
  ascending : (u.passed ++ proxy.ownFields).Pairwise fun f g =>
    toLower f.1 = toLower g.1 → Ascending.Before f g

/-! ## The lines of a head -/

structure IsLine (line : Bytes) : Prop where
  ne : line ≠ []
  cr : 13 ∉ line
  lf : LF ∉ line

def headText (first : Bytes) : List Bytes → Bytes
  | [] => first
  | line :: rest => first ++ (CRLF ++ headText line rest)

theorem joinLines_eq_headText (first : Bytes) (lines : List Bytes) :
    joinLines (first :: lines) = headText first lines ++ CRLF := by
  induction lines generalizing first with
  | nil => simp [joinLines, headText]
  | cons line lines ih =>
    have hcons : joinLines (first :: line :: lines) = first ++ (CRLF ++ joinLines (line :: lines)) := by
      simp [joinLines]
    rw [hcons, ih, headText]
    simp only [List.append_assoc]

theorem headText_head {first : Bytes} (h : IsLine first) (lines : List Bytes) :
    ∃ c text, headText first lines = c :: text ∧ c ≠ 13 := by
  obtain ⟨c, first, rfl⟩ := List.exists_cons_of_ne_nil h.ne
  have hc : c ≠ 13 := fun heq => h.cr (heq ▸ List.mem_cons_self ..)
  cases lines with
  | nil => exact ⟨c, first, rfl, hc⟩
  | cons line lines => exact ⟨c, _, rfl, hc⟩

theorem search_skip {c : UInt8} {pat a : Bytes} (hpat : pat.head? = some c) (ha : c ∉ a) (s : Bytes) :
    search pat (a ++ s) = (search pat s).map (· + a.length) := by
  induction a with
  | nil => simp
  | cons d a ih =>
    rw [List.mem_cons, not_or] at ha
    have hnot : ¬ pat <+: d :: (a ++ s) := by
      rintro ⟨t, ht⟩
      cases pat with
      | nil => cases hpat
      | cons e pat =>
        cases hpat
        exact ha.1 (List.cons.inj ht).1
    rw [List.cons_append, search_cons_neg hnot, ih ha.2, Option.map_map]
    rfl

theorem search_headText {first : Bytes} {lines : List Bytes} (hfirst : IsLine first)
    (h : ∀ line ∈ lines, IsLine line) (body : Bytes) :
    search (CRLF ++ CRLF) (headText first lines ++ (CRLF ++ (CRLF ++ body))) = some (headText first lines).length := by
  induction lines generalizing first with
  | nil =>
    rw [headText, search_skip rfl hfirst.cr]
    have hend : search (CRLF ++ CRLF) (CRLF ++ (CRLF ++ body)) = some 0 := search_cons_pos ⟨body, rfl⟩
    rw [hend, Option.map_some, Nat.zero_add]
  | cons line lines ih =>
    rw [List.forall_mem_cons] at h
    obtain ⟨c, text, htext, hc⟩ := headText_head h.1 lines
    have hcr : ¬ CRLF ++ CRLF <+: 13 :: 10 :: (headText line lines ++ (CRLF ++ (CRLF ++ body))) := by
      rw [htext]
      rintro ⟨t, ht⟩
      simp only [CRLF, List.cons_append, List.nil_append, List.cons.injEq] at ht
      exact hc ht.2.2.1.symm
    have hlf : ¬ CRLF ++ CRLF <+: 10 :: (headText line lines ++ (CRLF ++ (CRLF ++ body))) := by
      rintro ⟨t, ht⟩
      simp [CRLF] at ht
    have hrest : search (CRLF ++ CRLF) (CRLF ++ (headText line lines ++ (CRLF ++ (CRLF ++ body)))) =
        some ((headText line lines).length + 2) := by
      have hcons : CRLF ++ (headText line lines ++ (CRLF ++ (CRLF ++ body))) =
        13 :: 10 :: (headText line lines ++ (CRLF ++ (CRLF ++ body))) := rfl
      rw [hcons, search_cons_neg hcr, search_cons_neg hlf, ih h.1 h.2]
      rfl
    rw [headText, List.append_assoc, List.append_assoc, search_skip rfl hfirst.cr, hrest]
    simp [CRLF]
    omega

theorem getlines_append {a : Bytes} (ha : LF ∉ a) (current s : Bytes) :
    getlines current (a ++ s) = getlines (current ++ a) s := by
  induction a generalizing current with
  | nil => simp
  | cons c a ih =>
    rw [List.mem_cons, not_or] at ha
    rw [List.cons_append, getlines, if_neg fun heq => ha.1 heq.symm, ih ha.2]
    simp

theorem chopCR_line {line : Bytes} (h : 13 ∉ line) : chopCR line = line :=
  if_neg fun hlast => h (List.mem_of_getLast? hlast)

theorem chopCR_end (line : Bytes) : chopCR (line ++ [13]) = line := by
  rw [chopCR, if_pos List.getLast?_concat, List.dropLast_concat]

theorem getlines_headText {first : Bytes} {lines : List Bytes} (hfirst : IsLine first)
    (h : ∀ line ∈ lines, IsLine line) : (getlines [] (headText first lines)).map chopCR = first :: lines := by
  induction lines generalizing first with
  | nil =>
    have happ := getlines_append hfirst.lf [] []
    have hsome : first.isEmpty = false := by simpa using hfirst.ne
    rw [List.append_nil, List.nil_append] at happ
    rw [headText, happ, getlines, hsome]
    simp [chopCR_line hfirst.cr]
  | cons line lines ih =>
    rw [List.forall_mem_cons] at h
    have hlf : LF ∉ first ++ [13] := by
      rw [List.mem_append, not_or]
      exact ⟨hfirst.lf, by decide⟩
    have hcut : headText first (line :: lines) = (first ++ [13]) ++ LF :: headText line lines := by
      simp [headText, CRLF, LF]
    rw [hcut, getlines_append hlf, List.nil_append, getlines, if_pos rfl, List.map_cons, chopCR_end, ih h.1 h.2]

/-! ## What is made of the lines -/

theorem FieldLine.isLine (f : FieldLine) : IsLine f.text := by
  have hno : ∀ d : UInt8, isBlank d = false → d ≠ COLON → (∀ c ∈ f.name, c ≠ d) → (∀ c ∈ f.value, c ≠ d) →
      d ∉ f.text := by
    intro d hd hcolon hname hvalue hin
    have hblank : ∀ c ∈ f.before ++ f.after, c ≠ d := by
      rintro c hc rfl
      exact absurd (f.blank c hc) (by simp [hd])
    simp only [FieldLine.text, List.mem_append, List.mem_cons] at hin hblank
    rcases hin with hin | hin | hin | hin | hin
    · exact hname d hin rfl
    · exact hcolon hin
    · exact hblank d (.inl hin) rfl
    · exact hvalue d hin rfl
    · exact hblank d (.inr hin) rfl
  refine ⟨by simp [FieldLine.text], ?_, ?_⟩
  · exact hno 13 (by decide) (by decide) (fun c hc => (f.name_word c hc).2.2.1) fun c hc => (f.value_line c hc).1
  · exact hno LF (by decide) (by decide) (fun c hc => (f.name_word c hc).2.2.2) fun c hc => (f.value_line c hc).2

def FieldLine.stored (f : FieldLine) : Bytes := (f.before ++ (f.value ++ f.after)).dropWhile isBlank

theorem FieldLine.trim_stored (f : FieldLine) : trim f.stored = f.value := by
  have hbefore : ∀ c ∈ f.before, isBlank c = true := fun c hc => f.blank c (List.mem_append_left _ hc)
  have hafter : ∀ c ∈ f.after, isBlank c = true := fun c hc => f.blank c (List.mem_append_right _ hc)
  have htrim : trim f.stored = trim (f.before ++ (f.value ++ f.after)) := by
    rw [FieldLine.stored, trim, List.dropWhile_idempotent]
    rfl
  rw [htrim]
  by_cases hvalue : f.value = []
  · rw [hvalue, List.nil_append]
    exact TagList.trim_blank f.blank
  · exact TagList.trim_wrap hbefore hafter f.value_trimmed hvalue

def isPassed (name : Bytes) : Bool := name ≠ bytes "Connection" && name ≠ bytes "connection"

theorem upstreamField_text (f : FieldLine) :
    upstreamField f.text = if isPassed f.name then some (f.name, f.stored) else none := by
  have hcolon : COLON ∉ f.name := fun hin => (f.name_word COLON hin).1 rfl
  have hdrop : f.text.drop (f.name.length + 1) = f.before ++ (f.value ++ f.after) := by
    rw [FieldLine.text, ← List.drop_drop, List.drop_left, List.drop_one, List.tail_cons]
  have htake : f.text.take f.name.length = f.name := by rw [FieldLine.text, List.take_left]
  have hsearch : search [COLON] f.text = some f.name.length := search_one hcolon _
  simp only [upstreamField, hsearch, htake, hdrop, isPassed, Bool.and_eq_true, decide_eq_true_eq]
  rfl

variable {proxy : ReverseProxy} {u : UpstreamResponse}

theorem UpstreamResponse.version_plain (u : UpstreamResponse) :
    SP ∉ u.version ∧ 13 ∉ u.version ∧ LF ∉ u.version := by
  have hfront : SP ∉ bytes "HTTP/" ∧ 13 ∉ bytes "HTTP/" ∧ LF ∉ bytes "HTTP/" := by decide
  have hdigit : ∀ d : UInt8, isDigit d = false → d ≠ 46 → d ∉ [u.major, 46, u.minor] := by
    intro d hd hdot hin
    simp only [List.mem_cons, List.not_mem_nil, or_false] at hin
    rcases hin with rfl | rfl | rfl
    · exact absurd u.digits.1 (by simp [hd])
    · exact hdot rfl
    · exact absurd u.digits.2 (by simp [hd])
  simp only [UpstreamResponse.version, List.mem_append, not_or]
  exact ⟨⟨hfront.1, hdigit SP (by decide) (by decide)⟩, ⟨hfront.2.1, hdigit 13 (by decide) (by decide)⟩,
    hfront.2.2, hdigit LF (by decide) (by decide)⟩

theorem notMem_code (n : Nat) {d : UInt8} (hd : isDigit d = false) : d ∉ toText n := fun hin => by
  have hdigit : isDigit d = true := isDigit_of_mem_repr (n := n) hin
  rw [hd] at hdigit
  cases hdigit

theorem UpstreamResponse.statusLine_isLine (u : UpstreamResponse) : IsLine u.statusLine := by
  obtain ⟨-, hcr, hlf⟩ := u.version_plain
  have hno : ∀ d : UInt8, d ∉ u.version → isDigit d = false → d ≠ SP → (∀ c ∈ u.reason, c ≠ d) →
      d ∉ u.statusLine := by
    intro d hversion hdigit hsp hreason hin
    simp only [UpstreamResponse.statusLine, List.mem_append, List.mem_cons] at hin
    rcases hin with hin | hin | hin | hin | hin
    · exact hversion hin
    · exact hsp hin
    · exact notMem_code _ hdigit hin
    · exact hsp hin
    · exact hreason d hin rfl
  refine ⟨by simp [UpstreamResponse.statusLine], ?_, ?_⟩
  · exact hno 13 hcr (by decide) (by decide) fun c hc => (u.reason_line c hc).1
  · exact hno LF hlf (by decide) (by decide) fun c hc => (u.reason_line c hc).2

theorem UpstreamResponse.parse_statusLine (u : UpstreamResponse) :
    parseStatusLine u.statusLine = ((u.statusCode : Int), u.reason) := by
  have hnum : Numeral (toText u.statusCode) u.statusCode := numeral_toText (by have := u.three; omega)
  rw [UpstreamResponse.statusLine, parseStatusLine_three u.version_plain.1 (notMem_code _ (by decide)), hnum.atoi]

def UpstreamResponse.stored (u : UpstreamResponse) : List (Bytes × Bytes) :=
  (u.fields.filter fun f => isPassed f.name).map fun f => (f.name, f.stored)

theorem upstreamFields_text (fields : List FieldLine) {lines : List Bytes}
    (h : lines.map chopCR = fields.map FieldLine.text) :
    upstreamFields lines = (fields.filter fun f => isPassed f.name).map fun f => (f.name, f.stored) := by
  have hmap : upstreamFields lines = (lines.map chopCR).filterMap upstreamField := by
    rw [upstreamFields, List.filterMap_map]
    rfl
  rw [hmap, h, List.filterMap_map]
  clear hmap h
  induction fields with
  | nil => rfl
  | cons f fields ih =>
    rw [List.filterMap_cons, Function.comp_apply, upstreamField_text, ih]
    by_cases hpass : isPassed f.name = true
    · simp [hpass]
    · simp [hpass]

/-- What `forward` makes of a well-formed response. -/
theorem parseResponse_raw (proxy : ReverseProxy) (u : UpstreamResponse) :
    ∃ statusLine, chopCR statusLine = u.statusLine ∧
      proxy.parseResponse u.raw = proxy.passedOn statusLine u.stored u.body := by
  have hlines : ∀ line ∈ u.fields.map FieldLine.text, IsLine line := by
    intro line hline
    obtain ⟨f, -, rfl⟩ := List.mem_map.mp hline
    exact f.isLine
  have hraw : u.raw = headText u.statusLine (u.fields.map FieldLine.text) ++ (CRLF ++ (CRLF ++ u.body)) := by
    rw [UpstreamResponse.raw, joinLines_eq_headText, List.append_assoc]
  have hend : search (CRLF ++ CRLF) u.raw = some (headText u.statusLine (u.fields.map FieldLine.text)).length := by
    rw [hraw]
    exact search_headText u.statusLine_isLine hlines u.body
  have hget := getlines_headText u.statusLine_isLine hlines
  obtain ⟨statusLine, headerLines, hcut, hstatus, hheaders⟩ := List.map_eq_cons_iff.mp hget
  have htake : u.raw.take (headText u.statusLine (u.fields.map FieldLine.text)).length =
      headText u.statusLine (u.fields.map FieldLine.text) := by rw [hraw, List.take_left]
  have hbody : u.raw.drop ((headText u.statusLine (u.fields.map FieldLine.text)).length + 4) = u.body := by
    rw [hraw, ← List.drop_drop, List.drop_left]
    rfl
  refine ⟨statusLine, hstatus, ?_⟩
  rw [parseResponse_passedOn hend (by rw [htake]; exact hcut), upstreamFields_text u.fields hheaders, hbody]
  rfl

/-! ## What the client gets -/

theorem isPassed_iff {name : Bytes} (h : toLower name = bytes "connection" →
    name = bytes "Connection" ∨ name = bytes "connection") :
    isPassed name = decide (toLower name ≠ bytes "connection") := by
  have hupper : toLower (bytes "Connection") = bytes "connection" := by decide
  have hlower : toLower (bytes "connection") = bytes "connection" := by decide
  rw [isPassed, ← Bool.decide_and, decide_eq_decide]
  constructor
  · rintro ⟨hno, hno'⟩ heq
    rcases h heq with heq | heq
    · exact hno heq
    · exact hno' heq
  · intro hne
    constructor
    · rintro rfl
      exact hne hupper
    · rintro rfl
      exact hne hlower

theorem passed_trimmed : u.passed.map HttpResponse.trimmed = u.passed := by
  rw [UpstreamResponse.passed, List.map_map]
  exact List.map_congr_left fun f _ => congrArg (Prod.mk f.name) f.value_trimmed

/-- Where only the two spellings of `Connection` occur, what is stored is what
the client should get, but for blanks. -/
theorem stored_sent (h : ∀ f ∈ u.fields, toLower f.name = bytes "connection" →
    f.name = bytes "Connection" ∨ f.name = bytes "connection") :
    (u.stored ++ proxy.ownFields).map HttpResponse.trimmed =
      (u.passed ++ proxy.ownFields).map HttpResponse.trimmed := by
  have hstored : u.stored.map HttpResponse.trimmed = u.passed := by
    rw [UpstreamResponse.stored, UpstreamResponse.passed, List.map_map,
      List.filter_congr fun f hf => isPassed_iff (h f hf)]
    exact List.map_congr_left fun f _ => congrArg (Prod.mk f.name) f.trim_stored
  rw [List.map_append, List.map_append, hstored, passed_trimmed]

theorem occurrences_connection :
    HttpResponse.occurrences ((u.passed ++ proxy.ownFields).map HttpResponse.trimmed) (bytes "connection") = [] := by
  rw [HttpResponse.occurrences_trimmed, List.map_eq_nil_iff, HttpResponse.occurrences, List.filter_eq_nil_iff]
  intro f hf
  simp only [decide_eq_true_eq]
  rcases List.mem_append.mp hf with hf | hf
  · obtain ⟨line, hline, rfl⟩ := List.mem_map.mp hf
    simpa using (List.mem_filter.mp hline).2
  · have hnames : f.1 = bytes "X-Proxy-By" ∨ f.1 = bytes "X-Upstream-Addr" := by
      simp only [ownFields, List.mem_cons, List.not_mem_nil, or_false] at hf
      rcases hf with rfl | rfl
      · exact .inl rfl
      · exact .inr rfl
    rcases hnames with heq | heq <;> rw [heq] <;> decide

/-- Where each name comes out as it was sent, no third spelling of
`Connection` went in. -/
theorem connection_of_occurrences {headers : Std.TreeMap Bytes Bytes compare}
    (h : ∀ k : Bytes, headers[k]? = HttpResponse.lastValue (u.stored ++ proxy.ownFields) k)
    (hnone : HttpResponse.occurrences (headers.toList.map HttpResponse.trimmed) (bytes "connection") = []) :
    ∀ f ∈ u.fields, toLower f.name = bytes "connection" →
      f.name = bytes "Connection" ∨ f.name = bytes "connection" := by
  intro f hf hname
  by_contra hother
  have hpassed : isPassed f.name = true := by
    rw [not_or] at hother
    simp [isPassed, hother.1, hother.2]
  have hin : (f.name, f.stored) ∈ u.stored ++ proxy.ownFields :=
    List.mem_append_left _ (List.mem_map.mpr ⟨f, List.mem_filter.mpr ⟨hf, hpassed⟩, rfl⟩)
  obtain ⟨value, hvalue⟩ := Option.isSome_iff_exists.mp (HttpResponse.lastValue_isSome.mpr ⟨_, hin, rfl⟩)
  rw [← h] at hvalue
  have hlist : (f.name, value) ∈ headers.toList := Std.TreeMap.mem_toList_iff_getElem?_eq_some.mpr hvalue
  rw [HttpResponse.occurrences_trimmed, List.map_eq_nil_iff, HttpResponse.occurrences,
    List.filter_eq_nil_iff] at hnone
  exact hnone _ hlist (by simpa using hname)

/-- **When the response of the upstream reaches the client unchanged.** -/
theorem response_passedThrough {net : Upstream} {request : HttpRequest} {clientIp : Bytes}
    (hon : proxy.options.enabled = true) (hraw : proxy.exchange net request clientIp = .ok u.raw) :
    PassedThrough proxy u (proxy.forward net request clientIp) ↔ Storable proxy u := by
  have hne : u.raw ≠ [] := by
    rw [UpstreamResponse.raw]
    simp [CRLF]
  obtain ⟨statusLine, hstatus, hpassed⟩ := parseResponse_raw proxy u
  rw [forward_parsed hon hraw hne, hpassed]
  obtain ⟨hcode, hmessage, hbody⟩ := passedOn_same proxy statusLine u.stored u.body
  rw [hstatus, u.parse_statusLine] at hcode hmessage
  have hlookup : ∀ k, (proxy.passedOn statusLine u.stored u.body).headers[k]? =
      HttpResponse.lastValue (u.stored ++ proxy.ownFields) k := passedOn_getElem? proxy statusLine u.stored u.body
  have hkept := HttpResponse.occurrences_iff hlookup
  rw [← HttpResponse.pairwise_trimmed] at hkept
  constructor
  · intro h
    have hconnection := connection_of_occurrences hlookup ((h.fields _).trans occurrences_connection)
    rw [stored_sent hconnection] at hkept
    refine ⟨hconnection, (HttpResponse.pairwise_trimmed _).mp (hkept.mp h.fields)⟩
  · intro h
    rw [stored_sent h.connection] at hkept
    exact ⟨hcode, hmessage, hbody, hkept.mpr ((HttpResponse.pairwise_trimmed _).mpr h.ascending)⟩

def header (name value : Bytes) (h : name ≠ [] ∧ (∀ c ∈ name, c ≠ COLON ∧ isBlank c = false ∧ c ≠ 13 ∧ c ≠ LF) ∧
    (∀ c ∈ value, c ≠ 13 ∧ c ≠ LF) ∧ trim value = value) : FieldLine :=
  ⟨name, [SP], value, [], h.1, h.2.1, h.2.2.1, h.2.2.2, by simp [isBlank, SP]⟩

def okWith (fields : List FieldLine) : UpstreamResponse :=
  ⟨49, 49, 200, bytes "OK", fields, bytes "hello", by decide, by decide, by decide +kernel⟩

def typed : UpstreamResponse :=
  okWith [header (bytes "Content-Type") (bytes "text/plain") (by decide +kernel),
    header (bytes "Connection") (bytes "close") (by decide +kernel)]

theorem response_passedThrough_typed :
    PassedThrough localProxy typed (localProxy.forward (answering typed.raw) getRequest []) := by
  refine (response_passedThrough rfl rfl).mpr ⟨?_, ?_⟩
  · decide +kernel
  · decide +kernel

def twoCookies : UpstreamResponse :=
  okWith [header (bytes "Set-Cookie") (bytes "a=1") (by decide +kernel),
    header (bytes "Set-Cookie") (bytes "b=2") (by decide +kernel)]

/-- Of two cookies only the last one reaches the client. -/
theorem cookie_lost : localProxy.exchange (answering twoCookies.raw) getRequest [] = .ok twoCookies.raw ∧
    HttpResponse.occurrences (localProxy.forward (answering twoCookies.raw) getRequest []).headers.toList
      (bytes "set-cookie") = [(bytes "Set-Cookie", bytes "b=2")] ∧
    ¬ PassedThrough localProxy twoCookies (localProxy.forward (answering twoCookies.raw) getRequest []) := by
  have hlast : HttpResponse.occurrences (localProxy.forward (answering twoCookies.raw) getRequest []).headers.toList
      (bytes "set-cookie") = [(bytes "Set-Cookie", bytes "b=2")] := by decide +kernel
  refine ⟨rfl, hlast, fun h => ?_⟩
  have hfields := congrArg List.length (h.fields (bytes "set-cookie"))
  rw [HttpResponse.occurrences_trimmed, hlast, List.length_map, List.length_singleton] at hfields
  have htwo : (HttpResponse.occurrences ((twoCookies.passed ++ localProxy.ownFields).map HttpResponse.trimmed)
      (bytes "set-cookie")).length = 2 := by decide +kernel
  rw [htwo] at hfields
  cases hfields

end ReverseProxy

end Myself
