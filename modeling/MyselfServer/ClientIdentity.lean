import MyselfServer.ProxyRequest
import MyselfServer.ProxyResponse
import MyselfServer.Router

/-!
# The identity of the client

Which of the fields that tell the upstream about the client are the proxy's
own, and which ones a client can write itself.
-/

namespace Myself

open Text

namespace ReverseProxy

variable {proxy : ReverseProxy} {request : HttpRequest} {clientIp : Bytes}

def lastElement (value : Bytes) : Bytes := trim ((value.splitOn COMMA).getLast?.getD [])

/-- What an upstream may believe about the client in the head of `m`. -/
structure Identified (request : HttpRequest) (clientIp : Bytes) (m : Head.Msg) : Prop where
  realIp : Head.valuesOf m.fields (bytes "X-Real-IP") = [clientIp]
  forwardedFor : ∃ value, Head.valuesOf m.fields (bytes "X-Forwarded-For") = [value] ∧ lastElement value = clientIp
  proto : (Head.valuesOf m.fields (bytes "X-Forwarded-Proto")).length = 1
  host : Head.valuesOf m.fields (bytes "X-Forwarded-Host") = [] ∨
    ∃ host, request.headers[bytes "host"]? = some host ∧
      Head.valuesOf m.fields (bytes "X-Forwarded-Host") = [host]

theorem filter_key (headers : Std.TreeMap Bytes Bytes compare) (key : Bytes) :
    headers.toList.filter (fun f => f.1 = key) = (headers[key]?).toList.map fun value => (key, value) := by
  have hlookup : ∀ f ∈ headers.toList.filter (fun f => f.1 = key), f.1 = key ∧ headers[key]? = some f.2 := by
    intro f hf
    obtain ⟨hin, hkey⟩ := List.mem_filter.mp hf
    have hkey : f.1 = key := by simpa using hkey
    exact ⟨hkey, hkey ▸ Std.TreeMap.mem_toList_iff_getElem?_eq_some.mp hin⟩
  cases hget : headers[key]? with
  | none =>
    refine List.eq_nil_iff_forall_not_mem.mpr fun f hf => ?_
    rw [(hlookup f hf).2] at hget
    cases hget
  | some value =>
    have hin : (key, value) ∈ headers.toList.filter (fun f => f.1 = key) :=
      List.mem_filter.mpr ⟨Std.TreeMap.mem_toList_iff_getElem?_eq_some.mpr hget, by simp⟩
    have hall : ∀ f ∈ headers.toList.filter (fun f => f.1 = key), f = (key, value) := by
      intro f hf
      obtain ⟨hkey, hvalue⟩ := hlookup f hf
      rw [hget] at hvalue
      exact Prod.ext hkey (Option.some.inj hvalue).symm
    have hnodup := (HttpResponse.nodup_toList headers).filter fun f => f.1 = key
    have hrep := List.eq_replicate_of_mem hall
    rw [hrep] at hnodup
    have hone := Nat.le_antisymm (List.nodup_replicate.mp hnodup) (List.length_pos_of_mem hin)
    rw [hrep, hone]
    rfl

theorem valuesOf_copied (h : request.Accepted) {name key : Bytes} (hname : toLower name = key) :
    Head.valuesOf (copied request) name = if isCopied key then (request.headers[key]?).toList else [] := by
  have hmem : ∀ f ∈ copied request, toLower f.1 = f.1 := fun f hf => (stored_of_copied h hf).lowered
  have hfilter : (copied request).filter (fun f => toLower f.1 = toLower name) =
      (request.headers.toList.filter fun f => f.1 = key).filter fun f => isCopied f.1 := by
    rw [List.filter_congr (q := fun f => f.1 = key)]
    · rw [copied, List.filter_filter, List.filter_filter]
      exact List.filter_congr fun f _ => Bool.and_comm ..
    · intro f hf
      rw [hmem f hf, hname]
  have hone : request.headers.toList.filter (fun f => f.1 = key) =
      (request.headers[key]?).toList.map fun value => (key, value) := filter_key ..
  rw [Head.valuesOf, hfilter, hone]
  cases request.headers[key]? with
  | none => simp
  | some value =>
    by_cases hkey : isCopied key = true
    · simp [hkey]
    · simp [hkey]

/-! ## The proxy's own values -/

theorem written_realIp (hip : clientIp ≠ []) :
    Head.valuesOf (proxy.writtenFields request clientIp) (bytes "X-Real-IP") = [clientIp] := by
  simp +decide [valuesOf_writtenFields, hip]

theorem written_forwardedFor (hip : clientIp ≠ []) :
    Head.valuesOf (proxy.writtenFields request clientIp) (bytes "X-Forwarded-For") = [forwardedFor request clientIp] := by
  simp +decide [valuesOf_writtenFields, hip]

theorem written_proto :
    Head.valuesOf (proxy.writtenFields request clientIp) (bytes "X-Forwarded-Proto") = [bytes "http"] := by
  simp +decide [valuesOf_writtenFields]

theorem written_host : Head.valuesOf (proxy.writtenFields request clientIp) (bytes "X-Forwarded-Host") =
    if clientHost request = [] then [] else [clientHost request] := by
  simp +decide [valuesOf_writtenFields]

theorem lastElement_forwardedFor (h : request.Accepted) (hip : clientIp ≠ []) (htrim : trim clientIp = clientIp)
    (hcomma : COMMA ∉ clientIp) : lastElement (trim (forwardedFor request clientIp)) = clientIp := by
  rw [forwardedFor_eq]
  by_cases hbefore : (request.headers[bytes "x-forwarded-for"]?).getD [] = []
  · rw [if_pos hbefore, htrim, lastElement, List.splitOn_eq_singleton hcomma]
    exact htrim
  · rw [if_neg hbefore]
    have hv : trim ((request.headers[bytes "x-forwarded-for"]?).getD []) =
        (request.headers[bytes "x-forwarded-for"]?).getD [] := by
      cases hget : request.headers[bytes "x-forwarded-for"]? with
      | none => exact (by decide : trim [] = [])
      | some v => exact (h.headers _ _ hget).trimmed
    generalize (request.headers[bytes "x-forwarded-for"]?).getD [] = before at hbefore hv
    have hwhole : trim (before ++ [44] ++ SP :: clientIp) = before ++ [44] ++ SP :: clientIp := by
      refine trim_of_ends (fun c hc => ?_) fun c hc => ?_
      · rw [List.append_assoc, List.head?_append_of_ne_nil _ hbefore] at hc
        exact head_of_trim hv c hc
      · rw [List.getLast?_append_of_ne_nil _ (List.cons_ne_nil _ _), List.getLast?_cons] at hc
        rw [List.getLast?_eq_some_getLast hip] at hc
        exact last_of_trim htrim c (by rw [List.getLast?_eq_some_getLast hip]; exact hc)
    have hno : COMMA ∉ SP :: clientIp := by
      rw [List.mem_cons, not_or]
      exact ⟨by decide, hcomma⟩
    have hcut : before ++ [44] ++ SP :: clientIp = before ++ COMMA :: (SP :: clientIp) := by
      simp [COMMA]
    rw [hwhole, lastElement, hcut, List.splitOn_append_cons_self, List.splitOn_eq_singleton hno,
      List.getLast?_concat, Option.getD_some, trim_SP, htrim]

theorem comma_lastElement (value : Bytes) : COMMA ∉ lastElement value := by
  intro hcomma
  have hcomma := (trim_part _).subset hcomma
  obtain ⟨piece, hpiece⟩ := Option.isSome_iff_exists.mp (List.getLast?_isSome.mpr (List.splitOn_ne_nil COMMA value))
  rw [hpiece] at hcomma
  exact notMem_of_mem_splitOn (List.mem_of_getLast? hpiece) hcomma

/-! ## Who may say who the client is -/

structure IsAddress (clientIp : Bytes) : Prop where
  line : LF ∉ clientIp
  trimmed : trim clientIp = clientIp
  comma : COMMA ∉ clientIp

/-- The request itself says nothing under the names that tell the upstream
about its client. -/
structure Silent (request : HttpRequest) : Prop where
  realIp : request.headers[bytes "x-real-ip"]? = none
  proto : request.headers[bytes "x-forwarded-proto"]? = none
  host : request.headers[bytes "x-forwarded-host"]? = none ∨
    request.headers[bytes "x-forwarded-host"]? = some [] ∧ request.headers[bytes "host"]? = some []

def addressesBefore (request : HttpRequest) : Bytes := (request.headers[bytes "x-forwarded-for"]?).getD []

/-- What the request says about its host and the addresses in front of it stays
on its line, or its first line ends with the client's address already. -/
structure Lined (request : HttpRequest) (clientIp : Bytes) : Prop where
  host : LF ∉ clientHost request
  before : LF ∈ addressesBefore request →
    lastElement (trim (Head.firstLine .lf (addressesBefore request))) = clientIp

/-- No line that others bring into the head ends it or speaks for the client. -/
structure Unposed (proxy : ReverseProxy) (request : HttpRequest) (clientIp : Bytes) (e : Head.Ending) : Prop where
  whole : [] ∉ proxy.foreignLines request clientIp e
  realIp : Head.valuesIn (proxy.foreignLines request clientIp e) (bytes "X-Real-IP") = []
  forwardedFor : Head.valuesIn (proxy.foreignLines request clientIp e) (bytes "X-Forwarded-For") = []
  proto : Head.valuesIn (proxy.foreignLines request clientIp e) (bytes "X-Forwarded-Proto") = []
  host : Head.valuesIn (proxy.foreignLines request clientIp e) (bytes "X-Forwarded-Host") = [] ∨
    Head.valuesIn (proxy.foreignLines request clientIp e) (bytes "X-Forwarded-Host") = [[]] ∧
      request.headers[bytes "host"]? = some []

theorem alone_value {values others : List Bytes} {own v : Bytes} (h : values.Perm (others ++ [own])) :
    values = [v] ↔ others = [] ∧ own = v := by
  constructor
  · intro heq
    have hlen := h.length_eq
    rw [heq, List.length_append, List.length_singleton, List.length_singleton] at hlen
    have hnone : others = [] := List.length_eq_zero_iff.mp (by omega)
    rw [heq, hnone, List.nil_append] at h
    exact ⟨hnone, (List.singleton_perm_singleton.mp h).symm⟩
  · rintro ⟨rfl, rfl⟩
    exact h.eq_singleton

/-- The value of the host, where it is the one of the request or none. -/
theorem host_iff {values others : List Bytes} {e : Head.Ending}
    (h : values.Perm (others ++ (if clientHost request = [] then [] else [clientHost request]).map
      fun v => trim (Head.firstLine e v))) :
    (values = [] ∨ ∃ host, request.headers[bytes "host"]? = some host ∧ values = [host]) ↔
      trim (Head.firstLine e (clientHost request)) = clientHost request ∧
        (others = [] ∨ others = [[]] ∧ request.headers[bytes "host"]? = some []) := by
  have hnil : trim (Head.firstLine e []) = [] := by
    rw [Head.firstLine_whole (Head.whole_of_noLF List.not_mem_nil)]
    rfl
  by_cases hempty : clientHost request = []
  · rw [hempty, if_pos rfl, List.map_nil, List.append_nil] at h
    rw [hempty]
    have hvalue : ∀ host, request.headers[bytes "host"]? = some host → host = [] := by
      intro host hget
      simpa only [clientHost, hget, Option.getD_some] using hempty
    constructor
    · rintro (hv | ⟨host, hget, hv⟩)
      · rw [hv] at h
        exact ⟨hnil, .inl h.nil_eq.symm⟩
      · rw [hv] at h
        cases hvalue host hget
        exact ⟨hnil, .inr ⟨(List.singleton_perm.mp h).symm, hget⟩⟩
    · rintro ⟨-, hothers | ⟨hothers, hget⟩⟩
      · rw [hothers] at h
        exact .inl h.eq_nil
      · rw [hothers] at h
        exact .inr ⟨[], hget, h.eq_singleton⟩
  · rw [if_neg hempty, List.map_singleton] at h
    obtain ⟨host, hget⟩ : ∃ host, request.headers[bytes "host"]? = some host := by
      cases hget : request.headers[bytes "host"]? with
      | none => exact absurd (by simp [clientHost, hget]) hempty
      | some host => exact ⟨host, rfl⟩
    have hclient : clientHost request = host := by simp only [clientHost, hget, Option.getD_some]
    have hsome : values ≠ [] := by
      rintro rfl
      simp at h
    rw [hclient] at h hempty ⊢
    constructor
    · rintro (hv | ⟨host', hget', hv⟩)
      · exact absurd hv hsome
      · rw [hget] at hget'
        cases hget'
        obtain ⟨hnone, hown⟩ := (alone_value h).mp hv
        exact ⟨hown, .inl hnone⟩
    · rintro ⟨hown, hothers | ⟨-, hget'⟩⟩
      · exact .inr ⟨host, hget, (alone_value h).mpr ⟨hothers, hown⟩⟩
      · rw [hget] at hget'
        exact absurd (Option.some.inj hget') hempty

/-- The values that are read of the four names. -/
theorem values_read (hip : clientIp ≠ []) {e : Head.Ending} {m : Head.Msg}
    (hread : Head.read e (proxy.rawRequest request clientIp) = some m) (hbody : m.body = request.body) :
    (Head.valuesOf m.fields (bytes "X-Real-IP")).Perm
        (Head.valuesIn (proxy.foreignLines request clientIp e) (bytes "X-Real-IP") ++
          [trim (Head.firstLine e clientIp)]) ∧
      (Head.valuesOf m.fields (bytes "X-Forwarded-For")).Perm
        (Head.valuesIn (proxy.foreignLines request clientIp e) (bytes "X-Forwarded-For") ++
          [trim (Head.firstLine e (forwardedFor request clientIp))]) ∧
      (Head.valuesOf m.fields (bytes "X-Forwarded-Proto")).Perm
        (Head.valuesIn (proxy.foreignLines request clientIp e) (bytes "X-Forwarded-Proto") ++
          [trim (Head.firstLine e (bytes "http"))]) ∧
      (Head.valuesOf m.fields (bytes "X-Forwarded-Host")).Perm
        (Head.valuesIn (proxy.foreignLines request clientIp e) (bytes "X-Forwarded-Host") ++
          (if clientHost request = [] then [] else [clientHost request]).map
            fun v => trim (Head.firstLine e v)) := by
  have hreal := valuesOf_read hread hbody (bytes "X-Real-IP")
  have hfor := valuesOf_read hread hbody (bytes "X-Forwarded-For")
  have hproto := valuesOf_read hread hbody (bytes "X-Forwarded-Proto")
  have hhost := valuesOf_read hread hbody (bytes "X-Forwarded-Host")
  rw [written_realIp hip] at hreal
  rw [written_forwardedFor hip] at hfor
  rw [written_proto] at hproto
  rw [written_host] at hhost
  exact ⟨hreal, hfor, hproto, hhost⟩

/-- What an upstream reads is what the proxy says, when nobody else says it. -/
theorem identified_iff (hip : clientIp ≠ []) (e : Head.Ending) :
    (∃ m, Head.read e (proxy.rawRequest request clientIp) = some m ∧ m.body = request.body ∧
      Identified request clientIp m) ↔
    Unposed proxy request clientIp e ∧ trim (Head.firstLine e clientIp) = clientIp ∧
      lastElement (trim (Head.firstLine e (forwardedFor request clientIp))) = clientIp ∧
        trim (Head.firstLine e (clientHost request)) = clientHost request := by
  constructor
  · rintro ⟨m, hread, hbody, hid⟩
    obtain ⟨hreal, hfor, hproto, hhost⟩ := values_read hip hread hbody
    obtain ⟨value, hvalue, hlast⟩ := hid.forwardedFor
    obtain ⟨hnoReal, hown⟩ := (alone_value hreal).mp hid.realIp
    obtain ⟨hnoFor, rfl⟩ := (alone_value hfor).mp hvalue
    obtain ⟨hownHost, hhosts⟩ := (host_iff hhost).mp hid.host
    have hnoProto := hproto.length_eq
    rw [hid.proto, List.length_append, List.length_singleton] at hnoProto
    exact ⟨⟨read_rawRequest.mp ⟨m, hread, hbody⟩, hnoReal, hnoFor, List.length_eq_zero_iff.mp (by omega), hhosts⟩,
      hown, hlast, hownHost⟩
  · rintro ⟨hun, hown, hlast, hownHost⟩
    obtain ⟨m, hread, hbody⟩ := read_rawRequest.mpr hun.whole
    obtain ⟨hreal, hfor, hproto, hhost⟩ := values_read hip hread hbody
    refine ⟨m, hread, hbody, (alone_value hreal).mpr ⟨hun.realIp, hown⟩,
      ⟨_, (alone_value hfor).mpr ⟨hun.forwardedFor, rfl⟩, hlast⟩, ?_, (host_iff hhost).mpr ⟨hownHost, hun.host⟩⟩
    rw [hproto.length_eq, hun.proto]
    rfl

theorem noLF_of_firstLine {text : Bytes} (h : trim (Head.firstLine .lf text) = text) : LF ∉ text := by
  have hin : Head.firstLine .lf text ∈ Head.split .lf text := by
    rw [Head.split_eq_cons]
    exact List.mem_cons_self ..
  have hline : LF ∉ Head.firstLine .lf text := Head.whole_of_mem_split (e := .lf) _ hin
  rw [← h]
  exact fun hlf => hline ((trim_part _).subset hlf)

theorem noLF_forwardedFor (hbefore : LF ∉ addressesBefore request) (hip : LF ∉ clientIp) :
    LF ∉ forwardedFor request clientIp := by
  have hsep : LF ≠ 44 ∧ LF ≠ SP := by decide
  rw [forwardedFor_eq]
  split
  · exact hip
  · simp only [List.mem_append, List.mem_cons, List.not_mem_nil, or_false, not_or]
    exact ⟨⟨hbefore, hsep.1⟩, hsep.2, hip⟩

/-- A list on several lines keeps its first one. -/
theorem firstLine_forwardedFor (hbefore : LF ∈ addressesBefore request) :
    Head.firstLine .lf (forwardedFor request clientIp) = Head.firstLine .lf (addressesBefore request) := by
  have hne : addressesBefore request ≠ [] := List.ne_nil_of_mem hbefore
  rw [forwardedFor_eq]
  unfold addressesBefore at hbefore hne ⊢
  rw [if_neg hne]
  obtain ⟨a, b, heq, ha⟩ := List.eq_append_cons_of_mem hbefore
  rw [heq, List.append_assoc, List.append_assoc, List.cons_append, Head.firstLine, Head.firstLine,
    Head.split_lf ha, Head.split_lf ha]
  rfl

theorem silent_of_unposed (h : request.Accepted) (hun : Unposed proxy request clientIp .crlf) : Silent request := by
  have hcopied : ∀ {name key : Bytes}, toLower name = key → isCopied key = true → ∀ {value : Bytes},
      request.headers[key]? = some value →
        trim value ∈ Head.valuesIn (proxy.foreignLines request clientIp .crlf) name := by
    intro name key hname hkept value hget
    simp only [foreignLines, Head.valuesIn_append, Head.valuesIn_plain (copied_plain h),
      valuesOf_copied h hname, if_pos hkept, hget, Option.toList_some, List.map_singleton]
    exact List.mem_append_right _ (List.mem_append_left _ (List.mem_singleton.mpr rfl))
  have hnone : ∀ {name key : Bytes}, toLower name = key → isCopied key = true →
      Head.valuesIn (proxy.foreignLines request clientIp .crlf) name = [] → request.headers[key]? = none := by
    intro name key hname hkept hnil
    cases hget : request.headers[key]? with
    | none => rfl
    | some value => exact absurd (hcopied hname hkept hget) (hnil ▸ List.not_mem_nil)
  refine ⟨hnone (by decide) (by decide) hun.realIp, hnone (by decide) (by decide) hun.proto, ?_⟩
  rcases hun.host with hnil | ⟨hone, hhost⟩
  · exact .inl (hnone (by decide) (by decide) hnil)
  · cases hget : request.headers[bytes "x-forwarded-host"]? with
    | none => exact .inl rfl
    | some value =>
      have hlower : toLower (bytes "X-Forwarded-Host") = bytes "x-forwarded-host" := by decide
      have hin := hcopied hlower (by decide) hget
      rw [hone, (h.headers _ _ hget).trimmed] at hin
      exact .inr ⟨by rw [List.mem_singleton.mp hin], hhost⟩

/-- **When no client can pose as another one**, wherever the upstream ends lines. -/
theorem identity_forwarded {maxHeaderBytes maxBodyBytes : Nat} {chunks : List Bytes}
    (hrequest : request ∈ (HttpParser.receive maxHeaderBytes maxBodyBytes chunks).1) (hip : clientIp ≠ []) :
    (∀ e, ∃ m, Head.read e (proxy.rawRequest request clientIp) = some m ∧ m.body = request.body ∧
      Identified request clientIp m) ↔
    IsAddress clientIp ∧ Silent request ∧ Lined request clientIp ∧ ∀ e, Unposed proxy request clientIp e := by
  have h := HttpParser.receive_accepted hrequest
  have hbefore : ¬ CRLF <:+: addressesBefore request := by
    unfold addressesBefore
    cases hget : request.headers[bytes "x-forwarded-for"]? with
    | none => exact (by decide : ¬ CRLF <:+: [])
    | some v => exact (h.headers _ _ hget).line
  have hhost : trim (clientHost request) = clientHost request := by
    unfold clientHost
    cases hget : request.headers[bytes "host"]? with
    | none => rfl
    | some v => exact (h.headers _ _ hget).trimmed
  constructor
  · intro hid
    obtain ⟨hcrlf, -⟩ := (identified_iff hip .crlf).mp (hid .crlf)
    obtain ⟨hun, hown, hlast, hownHost⟩ := (identified_iff hip .lf).mp (hid .lf)
    have htrim : trim clientIp = clientIp := by
      rw [← hown, trim_trim]
    have hcomma : COMMA ∉ clientIp := by
      rw [← hlast]
      exact comma_lastElement _
    refine ⟨⟨noLF_of_firstLine hown, htrim, hcomma⟩, silent_of_unposed h hcrlf,
      ⟨noLF_of_firstLine hownHost, fun hin => ?_⟩, fun e => ((identified_iff hip e).mp (hid e)).1⟩
    rw [← firstLine_forwardedFor hin]
    exact hlast
  · rintro ⟨haddress, -, hlined, hun⟩ e
    have hfor : lastElement (trim (Head.firstLine e (forwardedFor request clientIp))) = clientIp := by
      by_cases hwhole : Head.Whole e (forwardedFor request clientIp)
      · rw [Head.firstLine_whole hwhole]
        exact lastElement_forwardedFor h hip haddress.trimmed haddress.comma
      · cases e with
        | crlf => exact absurd (forwardedFor_noCRLF h (noCRLF haddress.line)) hwhole
        | lf =>
          have hin : LF ∈ addressesBefore request := by
            by_contra hno
            exact hwhole (noLF_forwardedFor hno haddress.line)
          rw [firstLine_forwardedFor hin]
          exact hlined.before hin
    refine (identified_iff hip e).mpr ⟨hun e, ?_, hfor, ?_⟩
    · rw [Head.firstLine_whole (Head.whole_of_noLF haddress.line), haddress.trimmed]
    · rw [Head.firstLine_whole (Head.whole_of_noLF hlined.host), hhost]

theorem identity_forwarded_plain :
    requestOf plainPost ∈ (HttpParser.receive 8192 (2 ^ 20) [plainPost]).1 ∧
      ∀ e, ∃ m, Head.read e ((⟨{}⟩ : ReverseProxy).rawRequest (requestOf plainPost) (bytes "10.0.0.1")) = some m ∧
        m.body = (requestOf plainPost).body ∧ Identified (requestOf plainPost) (bytes "10.0.0.1") m := by
  have hsilent : (requestOf plainPost).headers[bytes "x-real-ip"]? = none ∧
      (requestOf plainPost).headers[bytes "x-forwarded-proto"]? = none ∧
      (requestOf plainPost).headers[bytes "x-forwarded-host"]? = none := by
    decide +kernel
  have hlined : LF ∉ clientHost (requestOf plainPost) ∧ LF ∉ addressesBefore (requestOf plainPost) := by
    decide +kernel
  have hlines : ∀ e, (⟨{}⟩ : ReverseProxy).foreignLines (requestOf plainPost) (bytes "10.0.0.1") e = [] := by
    intro e
    cases e with
    | crlf => decide +kernel
    | lf => decide +kernel
  refine ⟨plainPost_received, (identity_forwarded plainPost_received (by decide)).mpr
    ⟨⟨by decide, by decide, by decide⟩, ⟨hsilent.1, hsilent.2.1, .inl hsilent.2.2⟩,
      ⟨hlined.1, fun hin => absurd hin hlined.2⟩, fun e => ?_⟩⟩
  have hvalues : ∀ name, Head.valuesIn ((⟨{}⟩ : ReverseProxy).foreignLines (requestOf plainPost)
      (bytes "10.0.0.1") e) name = [] := by
    intro name
    rw [hlines]
    rfl
  refine ⟨?_, hvalues _, hvalues _, hvalues _, .inl (hvalues _)⟩
  rw [hlines]
  exact List.not_mem_nil

def posingGet : Bytes := bytes "GET /x HTTP/1.1\r\nX-Real-IP: 6.6.6.6\r\n\r\n"

/-- The client's own line comes before the one of the proxy. -/
theorem identity_posed : requestOf posingGet ∈ (HttpParser.receive 8192 (2 ^ 20) [posingGet]).1 ∧ ∀ e,
    (Head.read e ((⟨{}⟩ : ReverseProxy).rawRequest (requestOf posingGet) (bytes "10.0.0.1"))).map
      (fun m => Head.valuesOf m.fields (bytes "X-Real-IP")) = some [bytes "6.6.6.6", bytes "10.0.0.1"] ∧
    ¬ ∃ m, Head.read e ((⟨{}⟩ : ReverseProxy).rawRequest (requestOf posingGet) (bytes "10.0.0.1")) = some m ∧
      Identified (requestOf posingGet) (bytes "10.0.0.1") m := by
  refine ⟨requestOf_mem (by decide +kernel), fun e => ?_⟩
  have hvalues : (Head.read e ((⟨{}⟩ : ReverseProxy).rawRequest (requestOf posingGet) (bytes "10.0.0.1"))).map
      (fun m => Head.valuesOf m.fields (bytes "X-Real-IP")) = some [bytes "6.6.6.6", bytes "10.0.0.1"] := by
    cases e with
    | crlf => decide +kernel
    | lf => decide +kernel
  refine ⟨hvalues, ?_⟩
  rintro ⟨m, hread, hid⟩
  rw [hread, Option.map_some, hid.realIp] at hvalues
  exact absurd hvalues (by decide)

/-- A lone LF in a value makes such a line of what stands behind it. -/
example : (Head.read .lf ((⟨{}⟩ : ReverseProxy).rawRequest
    (requestOf (bytes "GET /x HTTP/1.1\r\nX-A: 1\nX-Real-IP: 6.6.6.6\r\n\r\n")) (bytes "10.0.0.1"))).map
      (fun m => Head.valuesOf m.fields (bytes "X-Real-IP")) = some [bytes "6.6.6.6", bytes "10.0.0.1"] := by
  decide +kernel

end ReverseProxy

end Myself
