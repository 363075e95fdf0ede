import MyselfServer.ReverseProxy

/-!
# Where proxied responses end

A response is written with the fields the upstream sent under their own
names, next to those of the server. `selfDelimiting_iff` says of any response
when a client can tell where its body ends, and `forward_selfDelimiting` what
that means for the bytes of the upstream.
-/

namespace Myself

open Text

/-- A message with one length, which is that of its body, no transfer coding
and one `Connection` field. -/
def SelfDelimiting (raw : Bytes) : Prop :=
  ∃ m, Head.read .crlf raw = some m ∧
    (∃ v, Head.valuesOf m.fields (bytes "content-length") = [v] ∧ isDigitString v = true ∧
      decimal v = m.body.length) ∧
    Head.valuesOf m.fields (bytes "transfer-encoding") = [] ∧
    (Head.valuesOf m.fields (bytes "connection")).length = 1

namespace HttpResponse

/-! ## Any response -/

structure Framing (r : HttpResponse) : Prop where
  coding : ∀ k ∈ r.headers, toLower k ≠ bytes "transfer-encoding"
  connection : ∀ k ∈ r.headers, toLower k ≠ bytes "connection"
  spelled : ∀ k ∈ r.headers, toLower k = bytes "content-length" → k = bytes "Content-Length"
  length : ∀ v : Bytes, r.headers[bytes "Content-Length"]? = some v →
    isDigitString (trim v) = true ∧ decimal (trim v) = r.body.length

def named (r : HttpResponse) (name : Bytes) : List Bytes := Head.valuesOf r.headers.toList name

theorem named_eq_nil {r : HttpResponse} {name : Bytes} :
    r.named name = [] ↔ ∀ k ∈ r.headers, toLower k ≠ toLower name := by
  rw [named, Head.valuesOf_eq_nil]
  constructor
  · intro h k hk
    obtain ⟨f, hf, rfl⟩ := List.mem_map.mp (contains_iff.mp (Std.TreeMap.contains_iff_mem.mpr hk))
    exact h f hf
  · intro h f hf
    exact h f.1 (Std.TreeMap.contains_iff_mem.mp (contains_iff.mpr (List.mem_map.mpr ⟨f, hf, rfl⟩)))

theorem valuesOf_fieldList (r : HttpResponse) (httpDate : Bytes) {name : Bytes}
    (hs : toLower (bytes "Server") ≠ toLower name) (hd : toLower (bytes "Date") ≠ toLower name) :
    Head.valuesOf (r.fieldList httpDate) name = r.named name ++
      (Head.valuesOf (if r.headers.contains (bytes "Content-Length") then []
        else [(bytes "Content-Length", toText r.body.length)]) name ++
      Head.valuesOf [(bytes "Connection",
        if r.closeConnection then bytes "close" else bytes "keep-alive")] name) := by
  have hfront : Head.valuesOf [(bytes "Server", bytes "MyselfWebServer"), (bytes "Date", httpDate)]
      name = [] := by
    simp [Head.valuesOf_eq_nil, hs, hd]
  simp only [fieldList, Head.valuesOf_append, hfront, List.nil_append, List.append_assoc, named]

theorem nodup_toList (headers : Std.TreeMap Bytes Bytes compare) : headers.toList.Nodup := by
  refine List.Pairwise.imp ?_ Std.TreeMap.distinct_keys_toList
  intro f g hne heq
  exact hne (by rw [heq, Std.LawfulEqCmp.compare_eq_iff_eq])

/-- One value under a name: the other keys have other names. -/
theorem named_eq_singleton {r : HttpResponse} {k v name w : Bytes} (hk : r.headers[k]? = some v)
    (hn : toLower k = toLower name) :
    r.named name = [w] ↔ w = v ∧ ∀ k' ∈ r.headers, toLower k' = toLower name → k' = k := by
  have hin : (k, v) ∈ r.headers.toList.filter fun f => toLower f.1 = toLower name := by
    rw [List.mem_filter]
    exact ⟨Std.TreeMap.mem_toList_iff_getElem?_eq_some.mpr hk, by simpa using hn⟩
  constructor
  · intro h
    obtain ⟨g, hg, rfl⟩ := List.map_eq_singleton_iff.mp h
    rw [hg] at hin
    cases List.mem_singleton.mp hin
    refine ⟨rfl, fun k' hk' hn' => ?_⟩
    obtain ⟨f, hf, rfl⟩ := List.mem_map.mp (contains_iff.mp (Std.TreeMap.contains_iff_mem.mpr hk'))
    have hfin : f ∈ r.headers.toList.filter fun f => toLower f.1 = toLower name :=
      List.mem_filter.mpr ⟨hf, by simpa using hn'⟩
    rw [hg] at hfin
    rw [List.mem_singleton.mp hfin]
  · rintro ⟨rfl, h⟩
    have hall : ∀ f ∈ r.headers.toList.filter fun f => toLower f.1 = toLower name, f = (k, w) := by
      intro f hf
      obtain ⟨hf, hn'⟩ := List.mem_filter.mp hf
      have hlookup := Std.TreeMap.mem_toList_iff_getElem?_eq_some.mp hf
      have hmem : f.1 ∈ r.headers := by
        rw [Std.TreeMap.mem_iff_isSome_getElem?, hlookup]
        rfl
      have hfk : f.1 = k := h f.1 hmem (by simpa using hn')
      rw [hfk, hk] at hlookup
      exact Prod.ext hfk (Option.some.inj hlookup).symm
    have hnodup := (nodup_toList r.headers).filter fun f => toLower f.1 = toLower name
    have hrep := List.eq_replicate_of_mem hall
    rw [hrep] at hnodup
    have hone : (r.headers.toList.filter fun f => toLower f.1 = toLower name).length = 1 :=
      Nat.le_antisymm (List.nodup_replicate.mp hnodup) (List.length_pos_of_mem hin)
    rw [named, Head.valuesOf, hrep, hone]
    rfl

/-- When a client can tell where the body ends. -/
theorem selfDelimiting_iff {r : HttpResponse} (h : r.OneLine) {httpDate : Bytes}
    (hd : LF ∉ httpDate) : SelfDelimiting (r.serialize httpDate true) ↔ r.Framing := by
  have hread := read_serialize h hd true []
  simp only [List.append_nil, if_true] at hread
  have hvalues : ∀ name, Head.valuesOf ((r.fieldList httpDate).map fun f => (f.1, trim f.2)) name =
      (Head.valuesOf (r.fieldList httpDate) name).map trim := Head.valuesOf_trimmed _
  have hcoding : Head.valuesOf (r.fieldList httpDate) (bytes "transfer-encoding") =
      r.named (bytes "transfer-encoding") := by
    have hl : toLower (bytes "Content-Length") ≠ toLower (bytes "transfer-encoding") := by decide
    have hc : toLower (bytes "Connection") ≠ toLower (bytes "transfer-encoding") := by decide
    rw [valuesOf_fieldList r httpDate (by decide) (by decide), Head.valuesOf_singleton, if_neg hc]
    split
    · simp [Head.valuesOf]
    · simp [Head.valuesOf_singleton, hl]
  have hconnection : (Head.valuesOf (r.fieldList httpDate) (bytes "connection")).length =
      (r.named (bytes "connection")).length + 1 := by
    have hl : toLower (bytes "Content-Length") ≠ toLower (bytes "connection") := by decide
    have hc : toLower (bytes "Connection") = toLower (bytes "connection") := by decide
    rw [valuesOf_fieldList r httpDate (by decide) (by decide), Head.valuesOf_singleton, if_pos hc]
    split
    · simp [Head.valuesOf]
    · simp [Head.valuesOf_singleton, hl]
  have hlength : Head.valuesOf (r.fieldList httpDate) (bytes "content-length") =
      r.named (bytes "content-length") ++
        if r.headers.contains (bytes "Content-Length") then [] else [toText r.body.length] := by
    have hl : toLower (bytes "Content-Length") = toLower (bytes "content-length") := by decide
    have hc : toLower (bytes "Connection") ≠ toLower (bytes "content-length") := by decide
    rw [valuesOf_fieldList r httpDate (by decide) (by decide), Head.valuesOf_singleton, if_neg hc]
    split
    · simp [Head.valuesOf]
    · simp [Head.valuesOf_singleton, hl]
  have hte : toLower (bytes "transfer-encoding") = bytes "transfer-encoding" := by decide
  have hcn : toLower (bytes "connection") = bytes "connection" := by decide
  have hcl : toLower (bytes "content-length") = bytes "content-length" := by decide
  have hname : toLower (bytes "Content-Length") = bytes "content-length" := by decide
  have htext : trim (toText r.body.length) = toText r.body.length := trim_repr _
  have hparts : SelfDelimiting (r.serialize httpDate true) ↔
      (∃ v, (r.named (bytes "content-length") ++
        if r.headers.contains (bytes "Content-Length") then [] else [toText r.body.length]).map trim =
          [v] ∧ isDigitString v = true ∧ decimal v = r.body.length) ∧
      r.named (bytes "transfer-encoding") = [] ∧ r.named (bytes "connection") = [] := by
    simp only [SelfDelimiting, hread, Option.some.injEq, exists_eq_left', hvalues, hcoding, hlength,
      List.map_eq_nil_iff, List.length_map, hconnection, Nat.add_eq_right, List.length_eq_zero_iff]
  rw [hparts, named_eq_nil, named_eq_nil, hte, hcn]
  cases hk : r.headers[bytes "Content-Length"]? with
  | none =>
    have hnot : r.headers.contains (bytes "Content-Length") = false := by
      rw [Std.TreeMap.contains_eq_isSome_getElem?, hk]
      rfl
    constructor
    · rintro ⟨⟨v, hv, -⟩, hcoding, hconnection⟩
      simp only [hnot, Bool.false_eq_true, if_false, List.map_append, List.map_cons, List.map_nil,
        List.append_eq_singleton_iff, List.map_eq_nil_iff] at hv
      have hnil : r.named (bytes "content-length") = [] := by
        rcases hv with ⟨hnil, -⟩ | ⟨-, hcons⟩
        · exact hnil
        · cases hcons
      rw [named_eq_nil, hcl] at hnil
      exact ⟨hcoding, hconnection, fun k hin hkl => absurd hkl (hnil k hin),
        fun v hv => by rw [hk] at hv; cases hv⟩
    · intro hf
      have hnil : r.named (bytes "content-length") = [] := by
        rw [named_eq_nil, hcl]
        intro k hin hkl
        rw [hf.spelled k hin hkl, Std.TreeMap.mem_iff_isSome_getElem?, hk] at hin
        cases hin
      refine ⟨⟨toText r.body.length, ?_, isDigitString_repr _, decimal_repr _⟩, hf.coding,
        hf.connection⟩
      simp only [hnil, hnot, Bool.false_eq_true, if_false, List.nil_append, List.map_cons,
        List.map_nil, htext]
  | some v₀ =>
    have hhas : r.headers.contains (bytes "Content-Length") = true := by
      rw [Std.TreeMap.contains_eq_isSome_getElem?, hk]
      rfl
    have hsingle : ∀ w, r.named (bytes "content-length") = [w] ↔
        w = v₀ ∧ ∀ k ∈ r.headers, toLower k = bytes "content-length" → k = bytes "Content-Length" := by
      intro w
      rw [named_eq_singleton hk (hname.trans hcl.symm), hcl]
    simp only [hhas, if_true, List.append_nil]
    constructor
    · rintro ⟨⟨v, hv, hdigits, hdecimal⟩, hcoding, hconnection⟩
      obtain ⟨w, hw, rfl⟩ := List.map_eq_singleton_iff.mp hv
      obtain ⟨rfl, hspelled⟩ := (hsingle w).mp hw
      refine ⟨hcoding, hconnection, hspelled, fun v hv => ?_⟩
      rw [hk] at hv
      cases hv
      exact ⟨hdigits, hdecimal⟩
    · intro hf
      have hone := (hsingle v₀).mpr ⟨rfl, hf.spelled⟩
      obtain ⟨hdigits, hdecimal⟩ := hf.length v₀ hk
      exact ⟨⟨trim v₀, by rw [hone]; rfl, hdigits, hdecimal⟩, hf.coding, hf.connection⟩

/-- Fields that leave the end of a body of `n` bytes to the server: no transfer
coding, no `Connection` under another spelling, and `Content-Length` only in
this spelling, the last time with `n`. -/
structure Unframed (fields : List (Bytes × Bytes)) (n : Nat) : Prop where
  coding : ∀ f ∈ fields, toLower f.1 ≠ bytes "transfer-encoding"
  connection : ∀ f ∈ fields, toLower f.1 ≠ bytes "connection"
  spelled : ∀ f ∈ fields, toLower f.1 = bytes "content-length" → f.1 = bytes "Content-Length"
  length : ∀ v, lastValue fields (bytes "Content-Length") = some v →
    isDigitString (trim v) = true ∧ decimal (trim v) = n

theorem framing_iff {r : HttpResponse} {fields : List (Bytes × Bytes)}
    (h : ∀ k, r.headers[k]? = lastValue fields k) : r.Framing ↔ Unframed fields r.body.length := by
  have hmem : ∀ P : Bytes → Prop, (∀ k ∈ r.headers, P k) ↔ ∀ f ∈ fields, P f.1 := by
    intro P
    have hkey : ∀ k, k ∈ r.headers ↔ ∃ f ∈ fields, f.1 = k := by
      intro k
      rw [Std.TreeMap.mem_iff_isSome_getElem?, h, lastValue_isSome]
    constructor
    · exact fun hP f hf => hP f.1 ((hkey f.1).mpr ⟨f, hf, rfl⟩)
    · intro hP k hk
      obtain ⟨f, hf, rfl⟩ := (hkey k).mp hk
      exact hP f hf
  constructor
  · intro hf
    exact ⟨(hmem _).mp hf.coding, (hmem _).mp hf.connection, (hmem _).mp hf.spelled,
      fun v hv => hf.length v ((h _).trans hv)⟩
  · intro hf
    exact ⟨(hmem _).mpr hf.coding, (hmem _).mpr hf.connection, (hmem _).mpr hf.spelled,
      fun v hv => hf.length v ((h _).symm.trans hv)⟩

def isOrdinary (name : Bytes) : Bool :=
  toLower name ≠ bytes "transfer-encoding" && toLower name ≠ bytes "connection" &&
    toLower name ≠ bytes "content-length"

theorem unframed_append {fields own : List (Bytes × Bytes)} {n : Nat}
    (ho : ∀ f ∈ own, isOrdinary f.1 = true) : Unframed (fields ++ own) n ↔ Unframed fields n := by
  have hord : ∀ f ∈ own, (toLower f.1 ≠ bytes "transfer-encoding" ∧
      toLower f.1 ≠ bytes "connection") ∧ toLower f.1 ≠ bytes "content-length" := by
    intro f hf
    simpa only [isOrdinary, Bool.and_eq_true, decide_eq_true_eq] using ho f hf
  have hlast : lastValue (fields ++ own) (bytes "Content-Length") =
      lastValue fields (bytes "Content-Length") := by
    have hnil : own.filter (fun f => f.1 = bytes "Content-Length") = [] := by
      rw [List.filter_eq_nil_iff]
      intro f hf heq
      have hlow : toLower f.1 = bytes "content-length" := by
        rw [of_decide_eq_true heq]
        decide
      exact (hord f hf).2 hlow
    simp only [lastValue, List.filter_append, hnil, List.append_nil]
  constructor
  · intro h
    exact ⟨fun f hf => h.coding f (List.mem_append_left _ hf),
      fun f hf => h.connection f (List.mem_append_left _ hf),
      fun f hf => h.spelled f (List.mem_append_left _ hf),
      fun v hv => h.length v (hlast.trans hv)⟩
  · intro h
    refine ⟨fun f hf => ?_, fun f hf => ?_, fun f hf => ?_, fun v hv => h.length v (hlast.symm.trans hv)⟩
    · exact (List.mem_append.mp hf).elim (h.coding f) fun hf => (hord f hf).1.1
    · exact (List.mem_append.mp hf).elim (h.connection f) fun hf => (hord f hf).1.2
    · exact (List.mem_append.mp hf).elim (h.spelled f) fun hf hl => absurd hl (hord f hf).2

theorem unframed_nil (n : Nat) : Unframed [] n :=
  ⟨fun _ hf => absurd hf List.not_mem_nil, fun _ hf => absurd hf List.not_mem_nil,
    fun _ hf => absurd hf List.not_mem_nil, fun _ hv => by cases hv⟩

end HttpResponse

namespace HttpResponse

theorem framing_of_ordinary {r : HttpResponse} (r₀ : HttpResponse) (fields : List (Bytes × Bytes))
    (h : r.headers = (r₀.withHeaders fields).headers) (h₀ : r₀.headers = ∅)
    (ho : ∀ f ∈ fields, isOrdinary f.1 = true) : r.Framing := by
  have hlookup : ∀ k : Bytes, r.headers[k]? = lastValue fields k := by
    intro k
    rw [h, withHeaders_getElem?, h₀, Std.TreeMap.getElem?_emptyc, Option.or_none]
  rw [framing_iff hlookup, ← List.nil_append fields, unframed_append ho]
  exact unframed_nil _

theorem proxyError_framing (code : Int) (message error reason : Bytes) :
    (proxyError code message error reason).Framing :=
  framing_of_ordinary (({ closeConnection := true } : HttpResponse).setStatus code message)
    [(bytes "Content-Type", bytes "application/json; charset=utf-8")] rfl rfl (by decide)

theorem proxyError_oneLine (code : Int) {message : Bytes} (hm : LF ∉ message) (error reason : Bytes) :
    (proxyError code message error reason).OneLine := by
  have h : (({ closeConnection := true } : HttpResponse).setStatus code message).OneLine :=
    oneLine_of_noHeaders rfl hm
  exact (h.setHeader (by decide) (by decide)).setBody _

/-- A client can read the response and tell where it ends. -/
def Sound (r : HttpResponse) : Prop := r.OneLine ∧ r.Framing

theorem badGateway_sound (reason : Bytes) : (badGateway reason).Sound :=
  ⟨proxyError_oneLine _ (by decide) _ _, proxyError_framing ..⟩

theorem gatewayTimeout_sound (reason : Bytes) : (gatewayTimeout reason).Sound :=
  ⟨proxyError_oneLine _ (by decide) _ _, proxyError_framing ..⟩

end HttpResponse

namespace ReverseProxy

/-! ## The proxy's response -/

theorem noLF_getlines {s : Bytes} : ∀ {current : Bytes}, LF ∉ current →
    ∀ line ∈ getlines current s, LF ∉ line := by
  induction s with
  | nil =>
    intro current h line hline
    simp only [getlines] at hline
    split at hline
    · cases hline
    · rw [List.mem_singleton.mp hline]
      exact h
  | cons c s ih =>
    intro current h line hline
    simp only [getlines] at hline
    split at hline
    · rcases List.mem_cons.mp hline with rfl | hline
      · exact h
      · exact ih List.not_mem_nil line hline
    · rename_i hc
      refine ih ?_ line hline
      simp only [List.mem_append, List.mem_singleton, not_or]
      exact ⟨h, fun heq => hc heq.symm⟩

theorem noLF_chopCR {line : Bytes} (h : LF ∉ line) : LF ∉ chopCR line := by
  unfold chopCR
  split
  · exact fun hin => h (List.mem_of_mem_dropLast hin)
  · exact h

theorem noLF_statusMsg {line : Bytes} (h : LF ∉ line) : LF ∉ (parseStatusLine line).2 := by
  unfold parseStatusLine
  split
  · decide
  · split
    · have hok : LF ∉ bytes "OK" := by decide
      exact hok
    · exact fun hin => h (List.mem_of_mem_drop hin)

theorem upstreamField_plain {line : Bytes} {f : Bytes × Bytes} (h : LF ∉ line)
    (hf : upstreamField line = some f) : COLON ∉ f.1 ∧ LF ∉ f.1 ∧ LF ∉ f.2 := by
  unfold upstreamField at hf
  split at hf
  · cases hf
  · rename_i colon hcolon
    dsimp only at hf
    split at hf
    · cases hf
      refine ⟨search_one_eq_none.mp (search_take (by simp) hcolon), ?_, ?_⟩
      · exact fun hin => h (List.mem_of_mem_take hin)
      · exact fun hin => h (List.mem_of_mem_drop ((List.dropWhile_suffix _).subset hin))
    · cases hf

theorem upstreamFields_plain {lines : List Bytes} (h : ∀ line ∈ lines, LF ∉ line) :
    ∀ f ∈ upstreamFields lines, COLON ∉ f.1 ∧ LF ∉ f.1 ∧ LF ∉ f.2 := by
  intro f hf
  obtain ⟨line, hline, hfield⟩ := List.mem_filterMap.mp hf
  exact upstreamField_plain (noLF_chopCR (h line hline)) hfield

def passedOn (proxy : ReverseProxy) (statusLine : Bytes) (fields : List (Bytes × Bytes))
    (body : Bytes) : HttpResponse :=
  ((((({ } : HttpResponse).setStatus (parseStatusLine (chopCR statusLine)).1
    (parseStatusLine (chopCR statusLine)).2).withHeaders fields).setBody body).setHeader
      (bytes "X-Proxy-By") (bytes "MyselfWebServer")).setHeader
        (bytes "X-Upstream-Addr") proxy.targetAddress

variable (proxy : ReverseProxy)

variable (hhost : LF ∉ proxy.options.targetHost)
include hhost

theorem noLF_targetAddress : LF ∉ proxy.targetAddress := by
  have hcolon : LF ∉ bytes ":" := by decide
  simp only [targetAddress, List.mem_append, not_or]
  exact ⟨⟨hhost, hcolon⟩, noLF_toText _⟩

theorem passedOn_oneLine {statusLine : Bytes} {lines : List Bytes} (body : Bytes)
    (hs : LF ∉ statusLine) (hl : ∀ line ∈ lines, LF ∉ line) :
    (proxy.passedOn statusLine (upstreamFields lines) body).OneLine := by
  have hempty : (({ } : HttpResponse).setStatus (parseStatusLine (chopCR statusLine)).1
      (parseStatusLine (chopCR statusLine)).2).OneLine :=
    HttpResponse.oneLine_of_noHeaders rfl (noLF_statusMsg (noLF_chopCR hs))
  have hfields := (hempty.withHeaders (upstreamFields_plain hl)).setBody body
  exact (hfields.setHeader (by decide) (by decide)).setHeader (by decide)
    (noLF_targetAddress proxy hhost)

omit hhost

/-- The fields of the response: the upstream's and the proxy's own. -/
theorem passedOn_getElem? (statusLine : Bytes) (fields : List (Bytes × Bytes)) (body key : Bytes) :
    (proxy.passedOn statusLine fields body).headers[key]? = HttpResponse.lastValue
      (fields ++ [(bytes "X-Proxy-By", bytes "MyselfWebServer"),
        (bytes "X-Upstream-Addr", proxy.targetAddress)]) key := by
  have hfields := HttpResponse.withHeaders_getElem?
    (fields ++ [(bytes "X-Proxy-By", bytes "MyselfWebServer"),
      (bytes "X-Upstream-Addr", proxy.targetAddress)])
    (({ } : HttpResponse).setStatus (parseStatusLine (chopCR statusLine)).1
      (parseStatusLine (chopCR statusLine)).2) key
  have hempty : (({ } : HttpResponse).setStatus (parseStatusLine (chopCR statusLine)).1
      (parseStatusLine (chopCR statusLine)).2).headers[key]? = none := Std.TreeMap.getElem?_emptyc
  rw [hempty, Option.or_none, HttpResponse.withHeaders, List.foldl_append] at hfields
  exact hfields

theorem passedOn_framing (statusLine : Bytes) (fields : List (Bytes × Bytes)) (body : Bytes) :
    (proxy.passedOn statusLine fields body).Framing ↔
      HttpResponse.Unframed fields body.length := by
  rw [HttpResponse.framing_iff (passedOn_getElem? proxy statusLine fields body), HttpResponse.unframed_append]
  · rfl
  · simp only [List.forall_mem_cons]
    exact ⟨by decide, by decide, fun _ hf => absurd hf List.not_mem_nil⟩

/-- What the client is told without the bytes of the upstream. -/
theorem readAll_error {P : HttpResponse → Prop} (hgateway : ∀ reason, P (HttpResponse.badGateway reason))
    (htimeout : ∀ reason, P (HttpResponse.gatewayTimeout reason)) {reads : List UpstreamRead} {raw : Bytes}
    {response : HttpResponse} (h : readAll reads raw = .error response) : P response := by
  induction reads generalizing raw with
  | nil => cases h
  | cons answer reads ih =>
    cases answer with
    | data bytes =>
      simp only [readAll] at h
      split at h
      · exact ih h
      · cases h
    | interrupted => exact ih h
    | timedOut =>
      cases h
      exact htimeout _
    | failed error =>
      cases h
      exact hgateway _

theorem exchange_error {P : HttpResponse → Prop} (hgateway : ∀ reason, P (HttpResponse.badGateway reason))
    (htimeout : ∀ reason, P (HttpResponse.gatewayTimeout reason)) {net : Upstream} {request : HttpRequest}
    {clientIp : Bytes} {response : HttpResponse} (h : proxy.exchange net request clientIp = .error response) :
    P response := by
  unfold exchange at h
  split at h
  · cases h
    exact hgateway _
  · split at h
    · cases h
      exact hgateway _
    · split at h
      · cases h
        exact hgateway _
      · split at h
        · cases h
          exact hgateway _
        · exact readAll_error hgateway htimeout h

def Deliverable (responseRaw : Bytes) : Prop :=
  ∀ headerEnd statusLine headerLines, search (CRLF ++ CRLF) responseRaw = some headerEnd →
    getlines [] (responseRaw.take headerEnd) = statusLine :: headerLines →
      HttpResponse.Unframed (upstreamFields headerLines) (responseRaw.drop (headerEnd + 4)).length

/-- The response to a stream without the end of a head. -/
theorem plain_sound (responseRaw : Bytes) :
    (((({ } : HttpResponse).setStatus 200 (bytes "OK")).setContentType
      (bytes "text/plain; charset=utf-8")).setBody responseRaw).setHeader
        (bytes "X-Proxy-By") (bytes "MyselfWebServer") |>.Sound := by
  have h : (({ } : HttpResponse).setStatus 200 (bytes "OK")).OneLine :=
    HttpResponse.oneLine_of_noHeaders rfl (by decide)
  refine ⟨((h.setHeader (by decide) (by decide)).setBody responseRaw).setHeader (by decide)
    (by decide), ?_⟩
  exact HttpResponse.framing_of_ordinary (({ } : HttpResponse).setStatus 200 (bytes "OK"))
    [(bytes "Content-Type", bytes "text/plain; charset=utf-8"),
      (bytes "X-Proxy-By", bytes "MyselfWebServer")] rfl rfl (by decide)

include hhost

theorem parseResponse_framing (responseRaw : Bytes) : (proxy.parseResponse responseRaw).OneLine ∧
    ((proxy.parseResponse responseRaw).Framing ↔ Deliverable responseRaw) := by
  cases hend : search (CRLF ++ CRLF) responseRaw with
  | none =>
    have hsound := plain_sound responseRaw
    have hplain : Deliverable responseRaw := by
      intro headerEnd statusLine headerLines h
      rw [hend] at h
      cases h
    simp only [parseResponse, hend]
    exact ⟨hsound.1, iff_of_true hsound.2 hplain⟩
  | some headerEnd =>
    have hlines := noLF_getlines (s := responseRaw.take headerEnd) List.not_mem_nil
    cases hget : getlines [] (responseRaw.take headerEnd) with
    | nil =>
      have hsound := HttpResponse.badGateway_sound (bytes "Malformed status line from upstream")
      have hplain : Deliverable responseRaw := by
        intro k statusLine headerLines h h'
        rw [hend] at h
        cases h
        rw [hget] at h'
        cases h'
      simp only [parseResponse, hend, hget]
      exact ⟨hsound.1, iff_of_true hsound.2 hplain⟩
    | cons statusLine headerLines =>
      rw [hget, List.forall_mem_cons] at hlines
      have heq : proxy.parseResponse responseRaw = proxy.passedOn statusLine
          (upstreamFields headerLines) (responseRaw.drop (headerEnd + 4)) := by
        simp only [parseResponse, hend, hget]
        rfl
      rw [heq]
      refine ⟨passedOn_oneLine proxy hhost _ hlines.1 hlines.2, ?_⟩
      rw [passedOn_framing]
      constructor
      · intro hun k status lines h h'
        rw [hend] at h
        cases h
        rw [hget] at h'
        cases h'
        exact hun
      · exact fun h => h headerEnd statusLine headerLines hend hget

/-- **When a proxied response delimits itself.** -/
theorem forward_selfDelimiting (net : Upstream) {request : HttpRequest} (hm : request.method ≠ .kHead)
    (clientIp : Bytes) (closed : Bool) (now : Int) :
    SelfDelimiting (((proxy.forward net request clientIp).setCloseConnection closed).serialize
        (formatHttpDate now) (!decide (request.method = .kHead))) ↔
      (proxy.options.enabled = true →
        ∀ raw, proxy.exchange net request clientIp = .ok raw → Deliverable raw) := by
  have hd := noLF_formatHttpDate now
  have hbody : (!decide (request.method = .kHead)) = true := by simp [hm]
  have hkey : ∀ r : HttpResponse, r.OneLine →
      (SelfDelimiting ((r.setCloseConnection closed).serialize (formatHttpDate now) true) ↔
        r.Framing) := by
    intro r hr
    rw [HttpResponse.selfDelimiting_iff (hr.setCloseConnection closed) hd]
    exact ⟨fun h => ⟨h.coding, h.connection, h.spelled, h.length⟩,
      fun h => ⟨h.coding, h.connection, h.spelled, h.length⟩⟩
  have hsound : ∀ r : HttpResponse, r.Sound →
      SelfDelimiting ((r.setCloseConnection closed).serialize (formatHttpDate now) true) :=
    fun r hr => (hkey r hr.1).mpr hr.2
  rw [hbody]
  unfold forward
  split
  · rename_i hoff
    exact iff_of_true (hsound _ (HttpResponse.badGateway_sound _))
      fun hon => absurd (hoff.symm.trans hon) Bool.false_ne_true
  · rename_i hon
    cases hex : proxy.exchange net request clientIp with
    | error response =>
      have hown : response.Sound :=
        exchange_error proxy HttpResponse.badGateway_sound HttpResponse.gatewayTimeout_sound hex
      exact iff_of_true (hsound _ hown) fun _ raw h => by cases h
    | ok responseRaw =>
      dsimp only
      split
      · rename_i hempty
        refine iff_of_true (hsound _ (HttpResponse.badGateway_sound _)) fun _ raw h => ?_
        cases h
        rw [List.isEmpty_iff.mp hempty]
        intro headerEnd statusLine headerLines h
        cases h
      · obtain ⟨hone, hiff⟩ := parseResponse_framing proxy hhost responseRaw
        rw [hkey _ hone, hiff]
        constructor
        · intro h _ raw hraw
          cases hraw
          exact h
        · exact fun h => h (by simpa using hon) _ rfl

omit hhost

def localProxy : ReverseProxy := ⟨{}⟩

def getRequest : HttpRequest := { method := .kGet, path := bytes "/api/gateway/x", keepAlive := true }

def answering (raw : Bytes) : Upstream := { reads := [.data raw] }

/-- A head without any field that frames the body. -/
theorem forward_selfDelimiting_plain :
    SelfDelimiting (((localProxy.forward (answering (bytes "HTTP/1.1 200 OK\r\nX: y\r\n\r\nhello"))
      getRequest []).setCloseConnection false).serialize (formatHttpDate 0)
        (!decide (getRequest.method = .kHead))) := by
  refine (forward_selfDelimiting localProxy (by decide) _ (by decide) [] false 0).mpr ?_
  intro _ raw hraw
  have heq : localProxy.exchange (answering (bytes "HTTP/1.1 200 OK\r\nX: y\r\n\r\nhello"))
      getRequest [] = .ok (bytes "HTTP/1.1 200 OK\r\nX: y\r\n\r\nhello") := rfl
  rw [heq] at hraw
  cases hraw
  intro headerEnd statusLine headerLines hend hlines
  have hk : search (CRLF ++ CRLF) (bytes "HTTP/1.1 200 OK\r\nX: y\r\n\r\nhello") = some 21 := by
    decide +kernel
  rw [hk] at hend
  cases hend
  have hget : getlines [] ((bytes "HTTP/1.1 200 OK\r\nX: y\r\n\r\nhello").take 21) =
      [bytes "HTTP/1.1 200 OK\r", bytes "X: y"] := by decide +kernel
  rw [hget] at hlines
  cases hlines
  have hnil := HttpResponse.unframed_nil 5
  exact (HttpResponse.unframed_append (by decide)).mpr hnil

/-- The client gets both the transfer coding of the upstream and a length. -/
theorem chunked_not_selfDelimiting :
    ¬ SelfDelimiting (((localProxy.forward (answering (bytes
      "HTTP/1.1 200 OK\r\nTransfer-Encoding: chunked\r\n\r\n5\r\nhello\r\n0\r\n\r\n"))
        getRequest []).setCloseConnection false).serialize (formatHttpDate 0) true) := by
  rintro ⟨m, hm, -, hcoding, -⟩
  have hread : (Head.read .crlf (((localProxy.forward (answering (bytes
      "HTTP/1.1 200 OK\r\nTransfer-Encoding: chunked\r\n\r\n5\r\nhello\r\n0\r\n\r\n"))
        getRequest []).setCloseConnection false).serialize (formatHttpDate 0) true)).map
          (fun m => Head.valuesOf m.fields (bytes "transfer-encoding")) = some [bytes "chunked"] := by
    decide +kernel
  rw [hm, Option.map_some, hcoding] at hread
  cases hread

end ReverseProxy

end Myself
