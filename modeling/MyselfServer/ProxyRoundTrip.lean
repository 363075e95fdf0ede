import MyselfServer.ProxyRequest

/-!
# What a parser makes of a forwarded request

The request that the proxy writes is read back by the parser: the same
message, with the addresses the proxy has put in.
-/

namespace Myself

open Text Stream

/-! ## The fields a parser has stored -/

namespace HttpParser

open Message HttpResponse

def storedFields (fields : List (Bytes × Bytes)) : List (Bytes × Bytes) :=
  fields.map fun f => (toLower (trim f.1), trim f.2)

theorem afterFields_headers (fields : List (Bytes × Bytes)) (p : HttpParser) (key : Bytes) :
    (afterFields p fields).request.headers[key]? =
      (lastValue (storedFields fields) key).or p.request.headers[key]? := by
  induction fields generalizing p with
  | nil => rfl
  | cons f fields ih =>
    obtain ⟨ka, hf⟩ := applyField_eq (p.counted (fieldLine f).length) (trim f.1) (trim f.2)
    have hstep : afterFields p (f :: fields) = afterFields (afterField p f) fields := rfl
    have hone : (afterField p f).request.headers[key]? =
        if toLower (trim f.1) = key then some (trim f.2) else p.request.headers[key]? := by
      rw [afterField, hf]
      simp only [HttpRequest.addHeader, Std.TreeMap.getElem?_insert,
        Std.LawfulEqCmp.compare_eq_iff_eq, trim_trim]
      rfl
    have hcons : storedFields (f :: fields) =
        [(toLower (trim f.1), trim f.2)] ++ storedFields fields := rfl
    rw [hstep, ih, hone, hcons, lastValue_append, lastValue_singleton, Option.or_assoc]
    congr 1
    split <;> rfl

/-- Only a `Connection` field changes whether the connection is kept. -/
theorem afterField_keepAlive (p : HttpParser) {f : Bytes × Bytes}
    (h : toLower (trim f.1) ≠ bytes "connection") :
    (afterField p f).request.keepAlive = p.request.keepAlive := by
  simp only [afterField, applyField, if_neg h]
  split
  · split <;> rfl
  · rfl

theorem afterFields_keepAlive (fields : List (Bytes × Bytes)) (p : HttpParser)
    (h : ∀ f ∈ fields, toLower (trim f.1) ≠ bytes "connection") :
    (afterFields p fields).request.keepAlive = p.request.keepAlive := by
  induction fields generalizing p with
  | nil => rfl
  | cons f fields ih =>
    rw [List.forall_mem_cons] at h
    have hstep : afterFields p (f :: fields) = afterFields (afterField p f) fields := rfl
    rw [hstep, ih _ h.2, afterField_keepAlive p h.1]

theorem afterFields_close (p : HttpParser) (before behind : List (Bytes × Bytes)) {f : Bytes × Bytes}
    (hname : toLower (trim f.1) = bytes "connection")
    (hclose : (search (bytes "close") (toLower (trim f.2))).isSome = true)
    (h : ∀ f ∈ behind, toLower (trim f.1) ≠ bytes "connection") :
    (afterFields p (before ++ f :: behind)).request.keepAlive = false := by
  have hsplit : afterFields p (before ++ f :: behind) =
      afterFields (afterField (afterFields p before) f) behind := by
    simp only [afterFields, List.foldl_append, List.foldl_cons]
  have hne : ¬ bytes "connection" = bytes "content-length" := by decide
  rw [hsplit, afterFields_keepAlive behind _ h]
  simp only [afterField, applyField, hname, if_neg hne, if_true, hclose]

end HttpParser

namespace ReverseProxy

open Message HttpResponse

structure Word (s : Bytes) : Prop where
  ne_nil : s ≠ []
  plain : ∀ c ∈ s, isBlank c = false ∧ c ≠ 13 ∧ c ≠ LF

theorem Word.noLF {s : Bytes} (h : Word s) : LF ∉ s := fun hin => (h.plain LF hin).2.2 rfl

theorem Word.append {s t : Bytes} (hs : Word s) (ht : Word t) : Word (s ++ t) := by
  refine ⟨fun h => hs.ne_nil (List.append_eq_nil_iff.mp h).1, fun c hc => ?_⟩
  rcases List.mem_append.mp hc with hc | hc
  · exact hs.plain c hc
  · exact ht.plain c hc

theorem Word.trim {s : Bytes} (h : Word s) : trim s = s := trim_eq_self fun c hc => (h.plain c hc).1

theorem word_toText (n : Nat) : Word (toText n) := by
  refine ⟨fun h => ?_, fun c hc => ?_⟩
  · have hdigits : isDigitString (toText n) = true := isDigitString_repr n
    rw [h] at hdigits
    cases hdigits
  · have hdigit : isDigit c = true := isDigit_of_mem_repr hc
    refine ⟨?_, fun h => ?_, fun h => ?_⟩
    · by_contra hb
      simp only [Bool.not_eq_false, isBlank, Bool.or_eq_true, beq_iff_eq] at hb
      rcases hb with rfl | rfl <;> exact absurd hdigit (by decide)
    · subst h
      exact absurd hdigit (by decide)
    · subst h
      exact absurd hdigit (by decide)

theorem word_targetAddress {proxy : ReverseProxy} (h : Word proxy.options.targetHost) :
    Word proxy.targetAddress := by
  have hcolon : Word (bytes ":") := ⟨by decide, by decide +kernel⟩
  exact (h.append hcolon).append (word_toText _)

def sentMessage (proxy : ReverseProxy) (request : HttpRequest) (clientIp : Bytes) : Message where
  method := request.method
  target := proxy.rewritePath request.path request.query
  versionText := bytes "HTTP/1.1"
  fields := (proxy.requestFields request clientIp).map fun f => (f.1, SP :: f.2)
  body := request.body

theorem rawRequest_eq_message (proxy : ReverseProxy) (request : HttpRequest) (clientIp : Bytes) :
    proxy.rawRequest request clientIp = (proxy.sentMessage request clientIp).head ++
      (proxy.sentMessage request clientIp).body := by
  have hfields : fieldBytes (proxy.sentMessage request clientIp).fields =
      Head.fieldLines (proxy.requestFields request clientIp) := by
    simp only [sentMessage, fieldBytes, Head.fieldLines, List.flatMap_map]
    rfl
  rw [rawRequest_eq_write, Message.head, hfields]
  simp only [Head.write, rawMessage, List.append_assoc]
  rfl

def laterFields (request : HttpRequest) (clientIp : Bytes) : List (Bytes × Bytes) :=
  copied request ++ (clientFields request clientIp ++ (hostFields request ++
    ([(bytes "X-Forwarded-Proto", bytes "http")] ++ lengthFields request)))

theorem copied_or_own {request : HttpRequest} {clientIp : Bytes} {f : Bytes × Bytes}
    (hf : f ∈ laterFields request clientIp) :
    f ∈ copied request ∨ f.1 ∈ [bytes "X-Forwarded-For", bytes "X-Real-IP",
      bytes "X-Forwarded-Host", bytes "X-Forwarded-Proto", bytes "Content-Length"] := by
  simp only [laterFields, clientFields, hostFields, lengthFields, List.mem_append,
    List.mem_singleton] at hf
  simp only [List.mem_cons]
  rcases hf with hf | hf | hf | rfl | hf
  · exact .inl hf
  · split at hf
    · cases hf
    · simp only [List.mem_cons, List.not_mem_nil, or_false] at hf
      rcases hf with rfl | rfl <;> simp
  · split at hf
    · cases hf
    · simp [List.mem_singleton.mp hf]
  · simp
  · split at hf
    · cases hf
    · simp [List.mem_singleton.mp hf]

section
variable {proxy : ReverseProxy} {request : HttpRequest} {clientIp : Bytes}
  (h : request.Accepted) (hhost : Word proxy.options.targetHost) (hip : Word clientIp)
include h

include hhost hip

theorem sentFields_plain : ∀ f ∈ proxy.requestFields request clientIp, Head.Plain f :=
  requestFields_plain h (noCRLF (word_targetAddress hhost).noLF) (noCRLF hip.noLF)

omit hhost hip in
theorem laterFields_names : ∀ f ∈ laterFields request clientIp,
    trim f.1 = f.1 ∧ f.1 ≠ [] ∧ toLower f.1 ≠ bytes "connection" := by
  have hown : ∀ k ∈ [bytes "X-Forwarded-For", bytes "X-Real-IP", bytes "X-Forwarded-Host",
      bytes "X-Forwarded-Proto", bytes "Content-Length"],
      trim k = k ∧ k ≠ [] ∧ toLower k ≠ bytes "connection" := by decide
  intro f hf
  rcases copied_or_own hf with hf | hf
  · have hs := stored_of_copied h hf
    refine ⟨hs.trimmedName, hs.name, fun hname => ?_⟩
    have hkept := (List.mem_filter.mp hf).2
    rw [hs.lowered] at hname
    rw [hname] at hkept
    exact absurd hkept (by decide)
  · exact hown _ hf

omit hhost hip in
theorem requestFields_names : ∀ f ∈ proxy.requestFields request clientIp,
    trim f.1 = f.1 ∧ f.1 ≠ [] := by
  have hfirst : (trim (bytes "Host") = bytes "Host" ∧ bytes "Host" ≠ []) ∧
      trim (bytes "Connection") = bytes "Connection" ∧ bytes "Connection" ≠ [] := by decide
  intro f hf
  rcases List.mem_cons.mp hf with rfl | hf
  · exact hfirst.1
  · rcases List.mem_cons.mp hf with rfl | hf
    · exact hfirst.2
    · have hlater := laterFields_names h f hf
      exact ⟨hlater.1, hlater.2.1⟩

omit hhost hip in
theorem contentLengths_sent : contentLengths (proxy.sentMessage request clientIp).fields =
    if request.body = [] then [] else [toText request.body.length] := by
  have hcl : toLower (bytes "content-length") = bytes "content-length" := by decide
  have hvalues : contentLengths (proxy.sentMessage request clientIp).fields =
      (Head.valuesOf (proxy.requestFields request clientIp) (bytes "content-length")).map trim := by
    simp only [contentLengths, sentMessage, Head.valuesOf, List.filter_map, List.map_map]
    have hfilter : (proxy.requestFields request clientIp).filter
        (isContentLength ∘ fun f => (f.1, SP :: f.2)) =
        (proxy.requestFields request clientIp).filter
          fun f => toLower f.1 = toLower (bytes "content-length") := by
      refine List.filter_congr fun f hf => ?_
      simp only [Function.comp_apply, isContentLength, (requestFields_names h f hf).1, hcl]
    rw [hfilter]
    exact List.map_congr_left fun f _ => trim_SP f.2
  have hsent : (Head.valuesOf (proxy.requestFields request clientIp) (bytes "content-length")).Perm
      ([] ++ if request.body = [] then [] else [toText request.body.length]) := by
    have hperm : (Head.valuesOf (proxy.requestFields request clientIp) (bytes "content-length")).Perm
        (Head.valuesOf (copied request ++ proxy.writtenFields request clientIp) (bytes "content-length")) :=
      (requestFields_perm.filter _).map _
    rwa [Head.valuesOf_append, copied_length h, written_length] at hperm
  have hone : (if request.body = [] then [] else [toText request.body.length]).length ≤ 1 := by
    split <;> simp
  rw [hvalues, (alone_iff hsent hone).mpr rfl]
  split
  · rfl
  · exact congrArg (· :: []) (trim_repr _)

omit hhost hip in
theorem rewritten_plain : SP ∉ proxy.rewritePath request.path [] ∧
    QUESTION ∉ proxy.rewritePath request.path [] := by
  obtain ⟨-, rest, hrest, heq⟩ := rewritePath_path proxy request.path
  have hsp : SP ∉ rest := fun hin => h.pathSP (hrest.subset hin)
  have hquestion : QUESTION ∉ rest := fun hin => h.question (hrest.subset hin)
  rcases heq with heq | heq
  · rw [heq]
    exact ⟨hsp, hquestion⟩
  · have h47 : SP ≠ 47 ∧ QUESTION ≠ 47 := by decide
    rw [heq, List.mem_cons, List.mem_cons, not_or, not_or]
    exact ⟨⟨h47.1, hsp⟩, h47.2, hquestion⟩

theorem sentMessage_valid {maxHeaderBytes maxBodyBytes : Nat}
    (hhead : (proxy.rawRequest request clientIp).length ≤ maxHeaderBytes + request.body.length)
    (hbody : request.body.length ≤ maxBodyBytes) :
    (proxy.sentMessage request clientIp).Valid maxHeaderBytes maxBodyBytes := by
  have hlengths : contentLengths (proxy.sentMessage request clientIp).fields = _ := contentLengths_sent h
  have hlen : bodyLength (proxy.sentMessage request clientIp).fields = request.body.length := by
    rw [bodyLength, hlengths]
    by_cases hb : request.body = []
    · simp [hb]
    · have hdec : decimal (toText request.body.length) = request.body.length := decimal_repr _
      simp [hb, hdec]
  have htarget : SP ∉ proxy.rewritePath request.path request.query := by
    rw [rewritePath_split]
    intro hin
    rcases List.mem_append.mp hin with hin | hin
    · exact (rewritten_plain h).1 hin
    · split at hin
      · cases hin
      · rcases List.mem_cons.mp hin with heq | hin
        · exact absurd heq (by decide)
        · exact h.querySP hin
  exact {
    method := h.method
    line := requestLine_noCRLF h proxy
    target := htarget
    version := .inl (by decide : trim (bytes "HTTP/1.1") = bytes "HTTP/1.1")
    fields := by
      intro g hg
      obtain ⟨f, hf, rfl⟩ := List.mem_map.mp hg
      obtain ⟨htrim, hne⟩ := requestFields_names h f hf
      have hp := sentFields_plain h hhost hip f hf
      exact ⟨hp.line, hp.colon, by rwa [htrim]⟩
    digits := by
      rw [hlengths]
      have hdigits : isDigitString (toText request.body.length) = true := isDigitString_repr _
      split
      · simp
      · simpa using hdigits
    headLimit := by
      rw [rawRequest_eq_message, List.length_append] at hhead
      exact Nat.le_of_add_le_add_right hhead
    bodyLimit := hlen ▸ hbody
    body := hlen.symm }

omit h hhost hip in
theorem lastValue_copied (request : HttpRequest) (key : Bytes) :
    lastValue (copied request) key = if isCopied key then request.headers[key]? else none := by
  have hmem : ∀ f : Bytes × Bytes, f ∈ copied request ↔
      request.headers[f.1]? = some f.2 ∧ isCopied f.1 = true := fun f => by
    rw [copied, List.mem_filter, ← Std.TreeMap.mem_toList_iff_getElem?_eq_some]
  cases hget : request.headers[key]? with
  | none =>
    rw [ite_self, lastValue_eq_none]
    rintro f hf rfl
    rw [((hmem f).mp hf).1] at hget
    cases hget
  | some value =>
    by_cases hkept : isCopied key = true
    · rw [if_pos hkept]
      refine lastValue_of_one ((hmem (key, value)).mpr ⟨hget, hkept⟩) ?_
      rintro f hf rfl
      rw [((hmem f).mp hf).1] at hget
      cases hget
      rfl
    · rw [if_neg hkept, lastValue_eq_none]
      rintro f hf rfl
      exact hkept ((hmem f).mp hf).2

omit hhost in
theorem forwardedFor_trim : trim (forwardedFor request clientIp) = forwardedFor request clientIp := by
  unfold forwardedFor
  dsimp only
  split
  · exact hip.trim
  · rename_i hne
    have hv : trim ((request.headers[bytes "x-forwarded-for"]?).getD []) =
        (request.headers[bytes "x-forwarded-for"]?).getD [] := by
      cases hget : request.headers[bytes "x-forwarded-for"]? with
      | none => exact (by decide : trim [] = [])
      | some v => exact (h.headers _ _ hget).trimmed
    generalize (request.headers[bytes "x-forwarded-for"]?).getD [] = before at hne hv
    obtain ⟨c, before, rfl⟩ := List.exists_cons_of_ne_nil (by simpa using hne)
    refine trim_of_ends (fun d hd => head_of_trim hv d hd) fun d hd => ?_
    rw [List.getLast?_append_of_ne_nil _ hip.ne_nil] at hd
    exact (hip.plain d (List.mem_of_getLast? hd)).1

theorem storedFields_sent : HttpParser.storedFields (proxy.sentMessage request clientIp).fields =
    [(bytes "host", proxy.targetAddress)] ++ ([(bytes "connection", bytes "close")] ++
      (copied request ++ ([(bytes "x-forwarded-for", forwardedFor request clientIp)] ++
        ([(bytes "x-real-ip", clientIp)] ++
          ((if (clientHost request).isEmpty then []
            else [(bytes "x-forwarded-host", clientHost request)]) ++
            ([(bytes "x-forwarded-proto", bytes "http")] ++
              if request.body.isEmpty then []
              else [(bytes "content-length", toText request.body.length)])))))) := by
  have hstored : ∀ fields : List (Bytes × Bytes),
      HttpParser.storedFields (fields.map fun f => (f.1, SP :: f.2)) =
        fields.map fun f => (toLower (trim f.1), trim f.2) := by
    intro fields
    simp only [HttpParser.storedFields, List.map_map, Function.comp_def, trim_SP]
  have hcopied : (copied request).map (fun f => (toLower (trim f.1), trim f.2)) = copied request := by
    refine (List.map_congr_left fun f hf => ?_).trans (List.map_id _)
    have hs := stored_of_copied h hf
    rw [hs.trimmedName, hs.lowered, hs.trimmed]
    rfl
  have hclient : clientIp.isEmpty = false := by simpa using hip.ne_nil
  have hvalue : trim (clientHost request) = clientHost request := by
    unfold clientHost
    cases hget : request.headers[bytes "host"]? with
    | none => exact (by decide : trim [] = [])
    | some v => exact (h.headers _ _ hget).trimmed
  have hlength : trim (toText request.body.length) = toText request.body.length := trim_repr _
  have hnames : toLower (trim (bytes "Host")) = bytes "host" ∧
      toLower (trim (bytes "Connection")) = bytes "connection" ∧
      toLower (trim (bytes "X-Forwarded-For")) = bytes "x-forwarded-for" ∧
      toLower (trim (bytes "X-Real-IP")) = bytes "x-real-ip" ∧
      toLower (trim (bytes "X-Forwarded-Host")) = bytes "x-forwarded-host" ∧
      toLower (trim (bytes "X-Forwarded-Proto")) = bytes "x-forwarded-proto" ∧
      toLower (trim (bytes "Content-Length")) = bytes "content-length" ∧
      trim (bytes "close") = bytes "close" ∧ trim (bytes "http") = bytes "http" := by decide
  obtain ⟨h1, h2, h3, h4, h5, h6, h7, h8, h9⟩ := hnames
  have hhostFields : (hostFields request).map (fun f => (toLower (trim f.1), trim f.2)) =
      if (clientHost request).isEmpty then []
      else [(bytes "x-forwarded-host", clientHost request)] := by
    unfold hostFields
    split
    · rfl
    · simp only [List.map_cons, List.map_nil, h5, hvalue]
  have hlengthFields : (lengthFields request).map (fun f => (toLower (trim f.1), trim f.2)) =
      if request.body.isEmpty then []
      else [(bytes "content-length", toText request.body.length)] := by
    unfold lengthFields
    split
    · rfl
    · simp only [List.map_cons, List.map_nil, h7, hlength]
  have hfields : (proxy.sentMessage request clientIp).fields =
      (proxy.requestFields request clientIp).map fun f => (f.1, SP :: f.2) := rfl
  rw [hfields, hstored]
  simp only [requestFields, List.map_append, hcopied, hhostFields, hlengthFields, clientFields, hclient, Bool.false_eq_true,
    if_false, List.map_cons, List.map_nil, h1, h2, h3, h4, h6, h8, h9, (word_targetAddress hhost).trim, forwardedFor_trim h hip, hip.trim]
  rfl

/-- The values that are stored, the last field of a name first. -/
theorem lastValue_sent (key : Bytes) :
    lastValue (HttpParser.storedFields (proxy.sentMessage request clientIp).fields) key =
      (if bytes "content-length" = key ∧ request.body ≠ [] then some (toText request.body.length)
      else if bytes "x-forwarded-proto" = key then some (bytes "http")
      else if bytes "x-forwarded-host" = key ∧ clientHost request ≠ [] then some (clientHost request)
      else if bytes "x-real-ip" = key then some clientIp
      else if bytes "x-forwarded-for" = key then some (forwardedFor request clientIp)
      else if bytes "connection" = key then some (bytes "close")
      else if bytes "host" = key then some proxy.targetAddress
      else if isCopied key then request.headers[key]? else none) := by
  have hor : ∀ (c : Prop) [Decidable c] (v : Bytes) (rest : Option Bytes),
      (if c then some v else none).or rest = if c then some v else rest := by
    intro c _ v rest
    split <;> rfl
  have hunless : ∀ s k v : Bytes, lastValue (if s.isEmpty then [] else [(k, v)]) key =
      if k = key ∧ s ≠ [] then some v else none := by
    intro s k v
    cases s with
    | nil => simp [lastValue]
    | cons c s => simp [lastValue_singleton]
  have hlast : ((if isCopied key then request.headers[key]? else none).or
      ((if bytes "connection" = key then some (bytes "close") else none).or
        (if bytes "host" = key then some proxy.targetAddress else none))) =
      if bytes "connection" = key then some (bytes "close")
      else if bytes "host" = key then some proxy.targetAddress
      else if isCopied key then request.headers[key]? else none := by
    have hown : isCopied (bytes "connection") = false ∧ isCopied (bytes "host") = false := by decide
    have hne : bytes "connection" ≠ bytes "host" := by decide
    by_cases hc : bytes "connection" = key
    · simp [← hc, hown.1]
    · by_cases hh : bytes "host" = key
      · simp [← hh, hown.2, hne]
      · simp [hc, hh]
  rw [storedFields_sent h hhost hip]
  simp only [lastValue_append, lastValue_singleton, lastValue_copied, Option.or_assoc, hunless]
  rw [hlast]
  simp only [hor]

omit hhost hip in
theorem sent_path : (proxy.sentMessage request clientIp).targetPath =
    proxy.rewritePath request.path [] ∧
      (proxy.sentMessage request clientIp).targetQuery = request.query := by
  have hquestion : QUESTION ∉ proxy.rewritePath request.path [] := (rewritten_plain h).2
  have hcut : ∀ c ∈ proxy.rewritePath request.path [], decide (c ≠ QUESTION) = true :=
    fun c hc => decide_eq_true fun heq => hquestion (heq ▸ hc)
  unfold targetPath targetQuery
  simp only [sentMessage]
  rw [rewritePath_split, List.takeWhile_append_of_pos hcut, List.dropWhile_append_of_pos hcut]
  by_cases hq : request.query = []
  · simp [hq]
  · simp [hq]

omit hhost hip in
theorem sent_close (p : HttpParser) : (HttpParser.afterFields p
    (proxy.sentMessage request clientIp).fields).request.keepAlive = false := by
  have hsplit : (proxy.sentMessage request clientIp).fields =
      [(bytes "Host", SP :: proxy.targetAddress)] ++ (bytes "Connection", SP :: bytes "close") ::
        (laterFields request clientIp).map fun f => (f.1, SP :: f.2) := rfl
  rw [hsplit]
  refine HttpParser.afterFields_close p _ _ (by decide) (by decide) fun g hg => ?_
  obtain ⟨f, hf, rfl⟩ := List.mem_map.mp hg
  have hlater := laterFields_names h f hf
  rw [hlater.1]
  exact hlater.2.2

end

structure Forwarded (proxy : ReverseProxy) (request : HttpRequest) (clientIp : Bytes)
    (r : HttpRequest) : Prop where
  method : r.method = request.method
  version : r.version = bytes "HTTP/1.1"
  path : r.path = proxy.rewritePath request.path []
  query : r.query = request.query
  target : proxy.rewritePath request.path request.query =
    r.path ++ if r.query = [] then [] else QUESTION :: r.query
  body : r.body = request.body
  keepAlive : r.keepAlive = false
  host : r.headers[bytes "host"]? = some (proxy.options.targetHost ++ bytes ":" ++
    toText proxy.options.targetPort.toNat)
  connection : r.headers[bytes "connection"]? = some (bytes "close")
  realIp : r.headers[bytes "x-real-ip"]? = some clientIp
  forwardedFor : ∀ before, request.headers[bytes "x-forwarded-for"]? = some before → before ≠ [] →
    r.headers[bytes "x-forwarded-for"]? = some (before ++ bytes ", " ++ clientIp)
  forwardedAlone : (∀ before, request.headers[bytes "x-forwarded-for"]? = some before → before = []) →
    r.headers[bytes "x-forwarded-for"]? = some clientIp
  forwardedHost : ∀ host, request.headers[bytes "host"]? = some host → host ≠ [] →
    r.headers[bytes "x-forwarded-host"]? = some host
  forwardedProto : r.headers[bytes "x-forwarded-proto"]? = some (bytes "http")
  other : ∀ key, key ∉ [bytes "host", bytes "connection", bytes "content-length", bytes "x-real-ip",
      bytes "x-forwarded-for", bytes "x-forwarded-proto"] →
    (key = bytes "x-forwarded-host" →
      ∀ host, request.headers[bytes "host"]? = some host → host = []) →
    r.headers[key]? = request.headers[key]?

section
variable {proxy : ReverseProxy} {request : HttpRequest} {clientIp : Bytes}

theorem parse_rawRequest (h : request.Accepted) (hhost : Word proxy.options.targetHost)
    (hip : Word clientIp) {maxHeaderBytes maxBodyBytes : Nat}
    (hhead : (proxy.rawRequest request clientIp).length ≤ maxHeaderBytes + request.body.length)
    (hbody : request.body.length ≤ maxBodyBytes) (hsize : maxBodyBytes ≤ ULONG_MAX) :
    ∃ p, HttpParser.parse (HttpParser.fresh maxHeaderBytes maxBodyBytes)
        (proxy.rawRequest request clientIp) = .done p [] ∧
      Forwarded proxy request clientIp p.request := by
  have hvalid := sentMessage_valid h hhost hip hhead hbody
  obtain ⟨p, hp, hr, -⟩ := HttpParser.parse_valid hvalid (Nat.le_trans hbody hsize) []
  rw [List.append_nil, ← rawRequest_eq_message] at hp
  refine ⟨p, hp, ?_⟩
  have hstores := HttpParser.stores_afterFields maxHeaderBytes maxBodyBytes
    (proxy.sentMessage request clientIp)
  rw [← hr] at hstores
  have hget : ∀ key, p.request.headers[key]? =
      lastValue (HttpParser.storedFields (proxy.sentMessage request clientIp).fields) key := by
    intro key
    have hempty := ((HttpParser.fresh maxHeaderBytes maxBodyBytes).afterRequestLine_same
      (proxy.sentMessage request clientIp)).2.2.2.2.2.2
    have hfields := HttpParser.afterFields_headers (proxy.sentMessage request clientIp).fields
      ((HttpParser.fresh maxHeaderBytes maxBodyBytes).afterRequestLine
        (proxy.sentMessage request clientIp)) key
    rw [hempty] at hfields
    rw [hr]
    exact hfields.trans Option.or_none
  have hsent := fun key => (hget key).trans (lastValue_sent h hhost hip key)
  obtain ⟨hpath, hquery⟩ : (proxy.sentMessage request clientIp).targetPath =
      proxy.rewritePath request.path [] ∧
        (proxy.sentMessage request clientIp).targetQuery = request.query := sent_path h
  have hne := (rewritePath_path proxy request.path).1
  have hp' : p.request.path = proxy.rewritePath request.path [] := by
    rw [hstores.path, hpath, if_neg hne]
  have hq' : p.request.query = request.query := by rw [hstores.query, hquery]
  exact {
    method := hstores.method
    version := hstores.version
    path := hp'
    query := hq'
    target := by rw [hp', hq', ← rewritePath_split]
    body := hstores.body
    keepAlive := by
      rw [hr]
      exact sent_close h _
    host := (hsent _).trans (by simp +decide [targetAddress])
    connection := (hsent _).trans (by simp +decide)
    realIp := (hsent _).trans (by simp +decide)
    forwardedFor := by
      intro before hbefore hnil
      have hvalue : ReverseProxy.forwardedFor request clientIp = before ++ bytes ", " ++ clientIp := by
        simp [ReverseProxy.forwardedFor, hbefore, hnil]
      exact (hsent _).trans (by simp +decide [hvalue])
    forwardedAlone := by
      intro hnone
      have hvalue : ReverseProxy.forwardedFor request clientIp = clientIp := by
        cases hbefore : request.headers[bytes "x-forwarded-for"]? with
        | none => simp [ReverseProxy.forwardedFor, hbefore]
        | some before => simp [ReverseProxy.forwardedFor, hbefore, hnone before hbefore]
      exact (hsent _).trans (by simp +decide [hvalue])
    forwardedHost := by
      intro host hget hnil
      have hvalue : clientHost request = host := by simp [clientHost, hget]
      exact (hsent _).trans (by simp +decide [hvalue, hnil])
    forwardedProto := (hsent _).trans (by simp +decide)
    other := by
      intro key hkey hnone
      simp only [List.mem_cons, List.not_mem_nil, or_false, not_or] at hkey
      obtain ⟨h1, h2, h3, h4, h5, h6⟩ := hkey
      have hkept : isCopied key = true := by simp [isCopied, h1, h2, h3, h5]
      have hfhost : ¬ (bytes "x-forwarded-host" = key ∧ clientHost request ≠ []) := by
        rintro ⟨heq, hne⟩
        cases hget : request.headers[bytes "host"]? with
        | none => simp [clientHost, hget] at hne
        | some host => simp [clientHost, hget, hnone heq.symm host hget] at hne
      have hlength : ¬ (bytes "content-length" = key ∧ request.body ≠ []) := fun hl => h3 hl.1.symm
      rw [hsent, if_neg hlength, if_neg (Ne.symm h6), if_neg hfhost, if_neg (Ne.symm h4),
        if_neg (Ne.symm h5), if_neg (Ne.symm h2), if_neg (Ne.symm h1), if_pos hkept] }

/-- **A parser reads what was forwarded.** -/
theorem parse_forwarded {receiveHeaderBytes receiveBodyBytes : Nat} {chunks : List Bytes}
    (hrequest : request ∈ (HttpParser.receive receiveHeaderBytes receiveBodyBytes chunks).1)
    (hhost : Word proxy.options.targetHost) (hip : Word clientIp) {maxHeaderBytes maxBodyBytes : Nat}
    (hhead : (proxy.rawRequest request clientIp).length ≤ maxHeaderBytes + request.body.length)
    (hbody : request.body.length ≤ maxBodyBytes) (hsize : maxBodyBytes ≤ ULONG_MAX) :
    ∃ p, HttpParser.parse (HttpParser.fresh maxHeaderBytes maxBodyBytes)
        (proxy.rawRequest request clientIp) = .done p [] ∧
      Forwarded proxy request clientIp p.request :=
  parse_rawRequest (HttpParser.receive_accepted hrequest) hhost hip hhead hbody hsize

end

theorem word_localhost : Word (bytes "127.0.0.1") := ⟨by decide, by decide +kernel⟩

theorem word_client : Word (bytes "10.0.0.1") := ⟨by decide, by decide +kernel⟩

theorem parse_forwarded_post :
    ∃ p, HttpParser.parse (HttpParser.fresh 8192 (2 ^ 20))
        ((⟨{}⟩ : ReverseProxy).rawRequest (requestOf plainPost) (bytes "10.0.0.1")) = .done p [] ∧
      Forwarded ⟨{}⟩ (requestOf plainPost) (bytes "10.0.0.1") p.request := by
  have hsizes : ((⟨{}⟩ : ReverseProxy).rawRequest (requestOf plainPost) (bytes "10.0.0.1")).length ≤
      8192 + (requestOf plainPost).body.length ∧ (requestOf plainPost).body.length ≤ 2 ^ 20 := by decide +kernel
  exact parse_forwarded plainPost_received word_localhost word_client hsizes.1 hsizes.2 (by decide)

def keepAliveGet : Bytes := bytes "GET /x HTTP/1.1\r\nConnection: keep-alive\r\n\r\n"

/-- The proxy's own `Connection` takes the place of the client's. -/
theorem connection_replaced :
    requestOf keepAliveGet ∈ (HttpParser.receive 8192 (2 ^ 20) [keepAliveGet]).1 ∧
      (requestOf keepAliveGet).headers[bytes "connection"]? = some (bytes "keep-alive") ∧
        ∃ p, HttpParser.parse (HttpParser.fresh 8192 (2 ^ 20))
            ((⟨{}⟩ : ReverseProxy).rawRequest (requestOf keepAliveGet) (bytes "10.0.0.1")) =
              .done p [] ∧
          p.request.headers[bytes "connection"]? = some (bytes "close") := by
  have hmem : requestOf keepAliveGet ∈ (HttpParser.receive 8192 (2 ^ 20) [keepAliveGet]).1 :=
    requestOf_mem (by decide +kernel)
  have hfacts : ((⟨{}⟩ : ReverseProxy).rawRequest (requestOf keepAliveGet) (bytes "10.0.0.1")).length ≤
      8192 + (requestOf keepAliveGet).body.length ∧ (requestOf keepAliveGet).body.length ≤ 2 ^ 20 ∧
      (requestOf keepAliveGet).headers[bytes "connection"]? = some (bytes "keep-alive") := by decide +kernel
  obtain ⟨hhead, hbody, hconnection⟩ := hfacts
  obtain ⟨p, hp, hforwarded⟩ := parse_rawRequest (HttpParser.receive_accepted hmem) word_localhost word_client
    hhead hbody (by decide)
  exact ⟨hmem, hconnection, p, hp, hforwarded.connection⟩

end ReverseProxy

end Myself
