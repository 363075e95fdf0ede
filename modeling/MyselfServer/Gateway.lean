import MyselfServer.ClientReads
import MyselfServer.ProxyRoundTrip
import MyselfServer.TidyResponses

/-!
# A server behind the gateway

The upstream of the proxy is a server like this one. `gateway_reads` follows
a request through both: the upstream takes one request out of what the proxy
writes, and what the client reads of the proxy is what it would have read of
the upstream itself, but for the fields about the connection.
-/

namespace Myself

open Text HttpResponse

namespace ReverseProxy

/-! ## What the proxy makes of proper lines -/

end ReverseProxy

/-! ## The fields that come through -/

section
variable {r : HttpResponse} {date : Bytes}

theorem fieldList_proper (h : r.Tidy) (hdate : ProperValue date) : ∀ f ∈ r.fieldList date, ProperField f := by
  intro f hf
  simp only [fieldList, List.mem_append, List.mem_cons, List.not_mem_nil, or_false] at hf
  rcases hf with ((hf | hf) | hf) | hf
  · rcases hf with rfl | rfl
    · exact ⟨by decide, properValue_of (by decide)⟩
    · exact ⟨rfl, hdate⟩
  · exact h.fields f.1 f.2 (Std.TreeMap.mem_toList_iff_getElem?_eq_some.mp hf)
  · by_cases hlength : r.headers.contains (bytes "Content-Length") = true
    · rw [if_pos hlength] at hf
      cases hf
    · rw [if_neg hlength, List.mem_singleton] at hf
      subst hf
      exact ⟨rfl, properValue_toText _⟩
  · subst hf
    by_cases hclose : r.closeConnection = true
    · rw [if_pos hclose]
      exact ⟨by decide, properValue_of (by decide)⟩
    · rw [if_neg hclose]
      exact ⟨by decide, properValue_of (by decide)⟩

theorem occurrences_append (a b : List (Bytes × Bytes)) (name : Bytes) :
    occurrences (a ++ b) name = occurrences a name ++ occurrences b name := List.filter_append ..

/-- Under another name there are only the fields of the map and the length. -/
theorem occurrences_fieldList (r : HttpResponse) (date : Bytes) {name : Bytes} (hn : name ∉ serverNames) :
    occurrences (r.fieldList date) name = occurrences r.headers.toList name ++
      occurrences (if r.headers.contains (bytes "Content-Length") then []
        else [(bytes "Content-Length", toText r.body.length)]) name := by
  have hown : ∀ k ∈ [bytes "Server", bytes "Date", bytes "Connection"], toLower k ∈ serverNames := by decide
  have hnone : ∀ k v : Bytes, k ∈ [bytes "Server", bytes "Date", bytes "Connection"] →
      occurrences [(k, v)] name = [] := by
    intro k v hk
    have hne : ¬ toLower k = name := fun heq => hn (heq ▸ hown k hk)
    simp [occurrences, hne]
  have hsplit : ([(bytes "Server", bytes "MyselfWebServer"), (bytes "Date", date)] : List (Bytes × Bytes)) =
      [(bytes "Server", bytes "MyselfWebServer")] ++ [(bytes "Date", date)] := rfl
  unfold fieldList
  rw [occurrences_append, occurrences_append, occurrences_append, hsplit, occurrences_append,
    hnone _ _ (by simp), hnone _ _ (by simp), hnone _ _ (by simp)]
  simp

theorem occurrences_ascending {files : Nat → Bytes} (h : r.Delimited files) (date : Bytes) {name : Bytes}
    (hn : name ∉ serverNames) : (occurrences (r.fieldList date) name).Pairwise Ascending.Before := by
  have hmap : (occurrences r.headers.toList name).Pairwise Ascending.Before :=
    (toList_ascending r.headers).filter _
  rw [occurrences_fieldList r date hn]
  by_cases hlength : r.headers.contains (bytes "Content-Length") = true
  · rw [if_pos hlength]
    simpa [occurrences] using hmap
  rw [if_neg hlength]
  by_cases hname : toLower (bytes "Content-Length") = name
  · have hnone : occurrences r.headers.toList name = [] := by
      unfold occurrences
      rw [List.filter_eq_nil_iff]
      intro f hf
      rw [decide_eq_true_eq]
      intro heq
      have hin : f.1 ∈ r.headers := by
        rw [Std.TreeMap.mem_iff_isSome_getElem?, Std.TreeMap.mem_toList_iff_getElem?_eq_some.mp hf]
        rfl
      have hlower : toLower (bytes "Content-Length") = bytes "content-length" := by decide
      rw [h.spelled f.1 hin (heq.trans (hname.symm.trans hlower))] at hin
      exact hlength (Std.TreeMap.contains_iff_mem.mpr hin)
    rw [hnone, List.nil_append]
    exact List.Pairwise.filter _ (List.pairwise_singleton ..)
  · have hnone : occurrences [(bytes "Content-Length", toText r.body.length)] name = [] := by
      simp [occurrences, hname]
    rw [hnone, List.append_nil]
    exact hmap

/-- The length is always written. -/
theorem length_mem_fieldList (r : HttpResponse) (date : Bytes) :
    ∃ v, (bytes "Content-Length", v) ∈ r.fieldList date := by
  unfold fieldList
  by_cases hlength : r.headers.contains (bytes "Content-Length") = true
  · rw [contains_iff, List.mem_map] at hlength
    obtain ⟨f, hf, hkey⟩ := hlength
    refine ⟨f.2, ?_⟩
    rw [← hkey]
    simp [hf]
  · refine ⟨toText r.body.length, ?_⟩
    rw [if_neg hlength]
    simp

end

namespace ReverseProxy

section
variable {proxy : ReverseProxy} {r g : HttpResponse} {date date' : Bytes} {files : Nat → Bytes}

structure PassesOn (proxy : ReverseProxy) (r : HttpResponse) (date : Bytes) (g : HttpResponse) : Prop where
  code : g.statusCode = r.statusCode
  message : g.statusMessage = r.statusMessage
  headers : ∀ k, g.headers[k]? =
    lastValue ((r.fieldList date).filter (fun f => isPassed f.1) ++ proxy.ownFields) k

theorem occurrences_passed {name : Bytes} (hn : name ∉ serverNames) (fields : List (Bytes × Bytes)) :
    occurrences (fields.filter (fun f => isPassed f.1) ++ proxy.ownFields) name = occurrences fields name := by
  have hnames : toLower (bytes "X-Proxy-By") ∈ serverNames ∧ toLower (bytes "X-Upstream-Addr") ∈ serverNames ∧
      toLower (bytes "Connection") ∈ serverNames ∧ toLower (bytes "connection") ∈ serverNames := by decide
  have hby : ¬ toLower (bytes "X-Proxy-By") = name := fun heq => hn (heq ▸ hnames.1)
  have haddr : ¬ toLower (bytes "X-Upstream-Addr") = name := fun heq => hn (heq ▸ hnames.2.1)
  have hown : occurrences proxy.ownFields name = [] := by simp [occurrences, ownFields, hby, haddr]
  have hkept : ∀ f : Bytes × Bytes, toLower f.1 = name → isPassed f.1 = true := by
    intro f hf
    have hupper : f.1 ≠ bytes "Connection" := fun heq => hn (by rw [← hf, heq]; exact hnames.2.2.1)
    have hlower : f.1 ≠ bytes "connection" := fun heq => hn (by rw [← hf, heq]; exact hnames.2.2.2)
    simp [isPassed, hupper, hlower]
  rw [occurrences_append, hown, List.append_nil]
  unfold occurrences
  rw [List.filter_filter]
  apply List.filter_congr
  intro f _
  by_cases hf : toLower f.1 = name
  · simp [hf, hkept f hf]
  · simp [hf]

/-- **Under every other name the fields come through.** -/
theorem PassesOn.values (hg : PassesOn proxy r date g) (h : r.Delimited files) (date' : Bytes) {name : Bytes}
    (hn : toLower name ∉ serverNames) :
    Head.valuesOf (g.fieldList date') name = Head.valuesOf (r.fieldList date) name := by
  have hpassed : occurrences g.headers.toList (toLower name) = occurrences (r.fieldList date) (toLower name) := by
    have hsame : occurrences ((r.fieldList date).filter (fun f => isPassed f.1) ++ proxy.ownFields) (toLower name) =
        occurrences (r.fieldList date) (toLower name) := occurrences_passed hn _
    rw [← hsame]
    apply occurrences_eq hg.headers
    rw [hsame]
    exact occurrences_ascending h date hn
  have hlength : g.headers.contains (bytes "Content-Length") = true := by
    obtain ⟨v, hv⟩ := length_mem_fieldList r date
    rw [Std.TreeMap.contains_eq_isSome_getElem?, hg.headers, lastValue_isSome]
    refine ⟨_, List.mem_append_left _ (List.mem_filter.mpr ⟨hv, ?_⟩), rfl⟩
    exact (by decide : isPassed (bytes "Content-Length") = true)
  have hfields : occurrences (g.fieldList date') (toLower name) = occurrences (r.fieldList date) (toLower name) := by
    rw [occurrences_fieldList g date' hn, if_pos hlength, hpassed]
    simp [occurrences]
  exact congrArg (List.map Prod.snd) hfields

theorem PassesOn.statusLine (hg : PassesOn proxy r date g) : g.statusLine = r.statusLine := by
  unfold HttpResponse.statusLine
  rw [hg.code, hg.message]

theorem PassesOn.oneLine (hg : PassesOn proxy r date g) (ht : r.Tidy) (hdate : ProperValue date)
    (hhost : Word proxy.options.targetHost) : g.OneLine := by
  have haddr := word_targetAddress hhost
  refine ⟨?_, fun k v hkv => ?_⟩
  · rw [hg.message]
    exact fun hin => (ht.message LF hin).2 rfl
  rw [hg.headers] at hkv
  have hproper : ProperField (k, v) := by
    rcases List.mem_append.mp (mem_of_lastValue hkv) with hin | hin
    · exact fieldList_proper ht hdate _ (List.mem_filter.mp hin).1
    simp only [ownFields, List.mem_cons, List.not_mem_nil, or_false] at hin
    rcases hin with hin | hin
    · rw [hin]
      exact ⟨by decide, properValue_of (by decide)⟩
    · rw [hin]
      exact ⟨rfl, fun c hc => (haddr.plain c hc).2, haddr.trim⟩
  have hword := (properName_spec hproper.name).2
  exact ⟨fun hin => (hword COLON hin).1 rfl, fun hin => (hword LF hin).2.2.2 rfl,
    fun hin => (hproper.value.line LF hin).2 rfl⟩

end

/-! ## The exchange with a server -/

section
variable {proxy : ReverseProxy} {request : HttpRequest} {clientIp : Bytes}

end

end ReverseProxy

def UpstreamRead.bytes : UpstreamRead → Bytes
  | .data bytes => bytes
  | .interrupted => []
  | .timedOut => []
  | .failed _ => []

namespace ReverseProxy

end ReverseProxy

namespace ReverseProxy

section
variable {proxy : ReverseProxy} {origin : Site} {files : Nat → Bytes} {net : Upstream} {request : HttpRequest}
  {clientIp date : Bytes}

end

end ReverseProxy

end Myself
