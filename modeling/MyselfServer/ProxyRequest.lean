import MyselfServer.AcceptedRequest
import MyselfServer.Head
import MyselfServer.ReverseProxy

/-!
# The requests the proxy sends

`rawRequest_eq_write` reads the bytes that `forward` builds as a message.
`forwarded_oneFraming` says when an upstream finds one way only to the end of
its body.
-/

namespace Myself

open Text Stream

namespace ReverseProxy

variable (proxy : ReverseProxy) (request : HttpRequest) (clientIp : Bytes)

def requestLine : Bytes :=
  methodToString request.method ++ SP :: (proxy.rewritePath request.path request.query ++
    SP :: bytes "HTTP/1.1")

def copied : List (Bytes × Bytes) := request.headers.toList.filter fun header => isCopied header.1

def clientFields : List (Bytes × Bytes) :=
  if clientIp.isEmpty then []
  else [(bytes "X-Forwarded-For", forwardedFor request clientIp), (bytes "X-Real-IP", clientIp)]

def hostFields : List (Bytes × Bytes) :=
  if (clientHost request).isEmpty then [] else [(bytes "X-Forwarded-Host", clientHost request)]

def lengthFields : List (Bytes × Bytes) :=
  if request.body.isEmpty then [] else [(bytes "Content-Length", toText request.body.length)]

def writtenFields : List (Bytes × Bytes) :=
  [(bytes "Host", proxy.targetAddress), (bytes "Connection", bytes "close")] ++
    (clientFields request clientIp ++ (hostFields request ++
      ([(bytes "X-Forwarded-Proto", bytes "http")] ++ lengthFields request)))

def requestFields : List (Bytes × Bytes) :=
  [(bytes "Host", proxy.targetAddress)] ++ ([(bytes "Connection", bytes "close")] ++
    (copied request ++ (clientFields request clientIp ++ (hostFields request ++
      ([(bytes "X-Forwarded-Proto", bytes "http")] ++ lengthFields request)))))

def rawMessage : Head.Msg :=
  ⟨proxy.requestLine request, proxy.requestFields request clientIp, request.body⟩

theorem rawRequest_eq_write :
    proxy.rawRequest request clientIp = Head.write (proxy.rawMessage request clientIp) := by
  have hcopied : ((request.headers.toList.filter fun header => isCopied header.1).flatMap
      fun header => header.1 ++ bytes ": " ++ header.2 ++ CRLF) = Head.fieldLines (copied request) := by
    simp only [Head.fieldLines, copied, Head.fieldLine]
    congr 1
    funext f
    simp [bytes, COLON, SP]
  have hclient : (if clientIp.isEmpty then []
      else bytes "X-Forwarded-For: " ++ forwardedFor request clientIp ++ CRLF ++
        bytes "X-Real-IP: " ++ clientIp ++ CRLF) =
      Head.fieldLines (clientFields request clientIp) := by
    unfold clientFields
    split
    · rfl
    · simp [Head.fieldLines, Head.fieldLine, bytes, COLON, SP]
  have hhost : (if (clientHost request).isEmpty then []
      else bytes "X-Forwarded-Host: " ++ clientHost request ++ CRLF) =
      Head.fieldLines (hostFields request) := by
    unfold hostFields
    split
    · rfl
    · simp [Head.fieldLines, Head.fieldLine, bytes, COLON, SP]
  have hlength : (if request.body.isEmpty then []
      else bytes "Content-Length: " ++ toText request.body.length ++ CRLF) =
      Head.fieldLines (lengthFields request) := by
    unfold lengthFields
    split
    · rfl
    · simp [Head.fieldLines, Head.fieldLine, bytes, COLON, SP]
  have happend : ∀ a b : List (Bytes × Bytes),
      Head.fieldLines (a ++ b) = Head.fieldLines a ++ Head.fieldLines b :=
    fun a b => List.flatMap_append
  have hfirst : Head.fieldLines [(bytes "Host", proxy.targetAddress)] =
      bytes "Host: " ++ proxy.targetAddress ++ CRLF := by
    simp [Head.fieldLines, Head.fieldLine, bytes, COLON, SP]
  have hsecond : Head.fieldLines [(bytes "Connection", bytes "close")] =
      bytes "Connection: close" ++ CRLF := rfl
  have hproto : Head.fieldLines [(bytes "X-Forwarded-Proto", bytes "http")] =
      bytes "X-Forwarded-Proto: http" ++ CRLF := rfl
  unfold rawRequest
  rw [hcopied, hclient, hhost, hlength]
  simp only [Head.write, rawMessage, requestFields, happend, hfirst, hsecond, hproto, requestLine,
    List.append_assoc]
  simp only [List.cons_append, List.append_assoc]
  rfl

theorem rewritePath_split (path query : Bytes) :
    proxy.rewritePath path query =
      proxy.rewritePath path [] ++ if query = [] then [] else QUESTION :: query := by
  by_cases hq : query = []
  · simp [hq]
  · simp [rewritePath, hq, bytes, QUESTION]

/-- The path is a piece of the client's, with a slash in front of it or not. -/
theorem rewritePath_path (path : Bytes) :
    proxy.rewritePath path [] ≠ [] ∧
      ∃ rest, rest <:+: path ∧ (proxy.rewritePath path [] = rest ∨
        proxy.rewritePath path [] = 47 :: rest) := by
  have hslash : bytes "/" = [47] := rfl
  have hwhole : ∀ p : Bytes, p <:+: path → (if p.isEmpty then bytes "/" else p) ≠ [] ∧
      ∃ rest, rest <:+: path ∧ ((if p.isEmpty then bytes "/" else p) = rest ∨
        (if p.isEmpty then bytes "/" else p) = 47 :: rest) := by
    intro p hp
    by_cases hnil : p = []
    · simp only [hnil, List.isEmpty_nil, if_true, hslash]
      exact ⟨List.cons_ne_nil _ _, [], List.nil_infix, .inr rfl⟩
    · have hempty : p.isEmpty = false := by simpa using hnil
      simp only [hempty, Bool.false_eq_true, if_false]
      exact ⟨hnil, p, hp, .inl rfl⟩
  simp only [rewritePath, List.isEmpty_nil, if_true]
  split
  · split
    · exact hwhole _ (List.drop_suffix _ _).isInfix
    · rw [hslash, List.singleton_append]
      exact ⟨List.cons_ne_nil _ _, _, (List.drop_suffix _ _).isInfix, .inr rfl⟩
  · exact hwhole path (List.infix_refl path)

/-! ## Lines of others in the head -/

theorem noCRLF_fieldLine {k v : Bytes} (hk : ¬ CRLF <:+: k) (hv : ¬ CRLF <:+: v) :
    ¬ CRLF <:+: Head.fieldLine (k, v) :=
  noCRLF_sep hk (noCRLF_sep (by decide : ¬ CRLF <:+: []) hv (by decide) (by decide)) (by decide)
    (by decide)

section
variable {request} (h : request.Accepted)
include h

theorem requestLine_noCRLF (proxy : ReverseProxy) : ¬ CRLF <:+: proxy.requestLine request := by
  have hnil : ¬ CRLF <:+: ([] : Bytes) := by decide
  have hpath : ¬ CRLF <:+: proxy.rewritePath request.path [] := by
    obtain ⟨-, rest, hrest, heq⟩ := rewritePath_path proxy request.path
    have hline := noCRLF_of_part hrest h.pathLine
    rcases heq with heq | heq
    · rwa [heq]
    · rw [heq]
      exact noCRLF_sep hnil hline (by decide) (by decide)
  have htarget : ¬ CRLF <:+: proxy.rewritePath request.path request.query := by
    rw [rewritePath_split]
    by_cases hq : request.query = []
    · simpa [hq] using hpath
    · rw [if_neg hq]
      exact noCRLF_sep hpath h.queryLine (by decide) (by decide)
  have hmethod : ¬ CRLF <:+: methodToString request.method := by
    cases request.method <;> decide
  exact noCRLF_sep hmethod (noCRLF_sep htarget (by decide) (by decide) (by decide)) (by decide)
    (by decide)

theorem stored_of_copied {f : Bytes × Bytes} (hf : f ∈ copied request) : Stored f.1 f.2 := by
  have hmem := (List.mem_filter.mp hf).1
  exact h.headers _ _ (Std.TreeMap.mem_toList_iff_getElem?_eq_some.mp hmem)

theorem copied_plain : ∀ f ∈ copied request, Head.Plain f := by
  intro f hf
  have hs := stored_of_copied h hf
  exact ⟨noCRLF_fieldLine hs.nameLine hs.line, hs.colon⟩

theorem hostFields_plain : ∀ f ∈ hostFields request, Head.Plain f := by
  have hk : ¬ CRLF <:+: bytes "X-Forwarded-Host" ∧ COLON ∉ bytes "X-Forwarded-Host" := by decide
  have hv : ¬ CRLF <:+: clientHost request := by
    unfold clientHost
    cases hget : request.headers[bytes "host"]? with
    | none => exact (by decide : ¬ CRLF <:+: [])
    | some v => exact (h.headers _ _ hget).line
  intro f hf
  unfold hostFields at hf
  split at hf
  · cases hf
  · rw [List.mem_singleton.mp hf]
    exact ⟨noCRLF_fieldLine hk.1 hv, hk.2⟩

/-- What the client said about the addresses in front of it stays on its line. -/
theorem forwarded_before :
    ¬ CRLF <:+: (request.headers[bytes "x-forwarded-for"]?).getD [] ++ [44] := by
  have hv : ¬ CRLF <:+: (request.headers[bytes "x-forwarded-for"]?).getD [] := by
    cases hget : request.headers[bytes "x-forwarded-for"]? with
    | none => exact (by decide : ¬ CRLF <:+: [])
    | some v => exact (h.headers _ _ hget).line
  exact noCRLF_append hv (by decide)

omit h in
theorem forwardedFor_eq (request : HttpRequest) (clientIp : Bytes) : forwardedFor request clientIp =
    if (request.headers[bytes "x-forwarded-for"]?).getD [] = [] then clientIp
    else (request.headers[bytes "x-forwarded-for"]?).getD [] ++ [44] ++ SP :: clientIp := by
  simp only [forwardedFor, List.isEmpty_iff]
  split
  · rfl
  · simp [bytes, SP]

theorem forwardedFor_noCRLF {clientIp : Bytes} (hip : ¬ CRLF <:+: clientIp) :
    ¬ CRLF <:+: forwardedFor request clientIp := by
  rw [forwardedFor_eq]
  split
  · exact hip
  · exact noCRLF_sep (forwarded_before h) hip (by decide) (by decide)

end

theorem lengthFields_plain (request : HttpRequest) : ∀ f ∈ lengthFields request, Head.Plain f := by
  have hk : ¬ CRLF <:+: bytes "Content-Length" ∧ COLON ∉ bytes "Content-Length" := by decide
  intro f hf
  unfold lengthFields at hf
  split at hf
  · cases hf
  · rw [List.mem_singleton.mp hf]
    exact ⟨noCRLF_fieldLine hk.1 (noCRLF (noLF_toText _)), hk.2⟩

/-- All fields stay on their lines when the address of the proxy and that of
the client do. -/
theorem requestFields_plain {proxy : ReverseProxy} {request : HttpRequest} {clientIp : Bytes} (h : request.Accepted)
    (hhost : ¬ CRLF <:+: proxy.targetAddress) (hip : ¬ CRLF <:+: clientIp) :
    ∀ f ∈ proxy.requestFields request clientIp, Head.Plain f := by
  have hline : ∀ {k v : Bytes}, ¬ CRLF <:+: k ∧ COLON ∉ k → ¬ CRLF <:+: v → Head.Plain (k, v) :=
    fun hk hv => ⟨noCRLF_fieldLine hk.1 hv, hk.2⟩
  intro f hf
  simp only [requestFields, List.mem_append, List.mem_singleton] at hf
  rcases hf with rfl | rfl | hf | hf | hf | rfl | hf
  · exact hline (by decide) hhost
  · exact hline (by decide) (by decide)
  · exact copied_plain h f hf
  · unfold clientFields at hf
    split at hf
    · cases hf
    · rcases List.mem_cons.mp hf with rfl | hf
      · exact hline (by decide) (forwardedFor_noCRLF h hip)
      · rw [List.mem_singleton.mp hf]
        exact hline (by decide) hip
  · exact hostFields_plain h f hf
  · exact hline (by decide) (by decide)
  · exact lengthFields_plain request f hf

/-- The lines of the head that are not the proxy's own: those of the fields it
passes on, and what the texts it writes have behind their first line. -/
def foreignLines (e : Head.Ending) : List Bytes :=
  Head.behind e (proxy.requestLine request) ++ (Head.linesOf e (copied request) ++
    (proxy.writtenFields request clientIp).flatMap fun f => Head.behind e f.2)

variable {proxy request clientIp} {e : Head.Ending}

theorem requestFields_perm :
    (proxy.requestFields request clientIp).Perm (copied request ++ proxy.writtenFields request clientIp) := by
  have hfront : ∀ a b c : List (Bytes × Bytes), (a ++ (b ++ c)).Perm (b ++ (a ++ c)) := by
    intro a b c
    rw [← List.append_assoc, ← List.append_assoc]
    exact .append_right c List.perm_append_comm
  simp only [requestFields, writtenFields]
  rw [← List.append_assoc]
  exact hfront ..

theorem writtenFields_names : ∀ f ∈ proxy.writtenFields request clientIp, Head.Whole e f.1 ∧ COLON ∉ f.1 := by
  have hnames : ∀ k ∈ [bytes "Host", bytes "Connection", bytes "X-Forwarded-For", bytes "X-Real-IP",
      bytes "X-Forwarded-Host", bytes "X-Forwarded-Proto", bytes "Content-Length"], LF ∉ k ∧ COLON ∉ k := by decide
  intro f hf
  suffices hin : f.1 ∈ [bytes "Host", bytes "Connection", bytes "X-Forwarded-For", bytes "X-Real-IP",
      bytes "X-Forwarded-Host", bytes "X-Forwarded-Proto", bytes "Content-Length"] from
    ⟨Head.whole_of_noLF (hnames _ hin).1, (hnames _ hin).2⟩
  simp only [writtenFields, clientFields, hostFields, lengthFields, List.mem_append, List.mem_cons,
    List.not_mem_nil, or_false] at hf
  rcases hf with (rfl | rfl) | hf | hf | rfl | hf
  · simp
  · simp
  · split at hf
    · cases hf
    · simp only [List.mem_cons, List.not_mem_nil, or_false] at hf
      rcases hf with rfl | rfl <;> simp
  · split at hf
    · cases hf
    · simp [List.mem_singleton.mp hf]
  · simp
  · split at hf
    · cases hf
    · simp [List.mem_singleton.mp hf]

theorem headLines_perm : (Head.headLines e (proxy.rawMessage request clientIp)).Perm
    (proxy.foreignLines request clientIp e ++
      (proxy.writtenFields request clientIp).map fun f => Head.fieldLine (f.1, Head.firstLine e f.2)) := by
  have hown : (Head.linesOf e (proxy.writtenFields request clientIp)).Perm _ :=
    Head.linesOf_perm fun f hf => (writtenFields_names f hf).1
  have hlines : (Head.linesOf e (proxy.requestFields request clientIp)).Perm
      (Head.linesOf e (copied request) ++ Head.linesOf e (proxy.writtenFields request clientIp)) := by
    rw [Head.linesOf, Head.linesOf, Head.linesOf, ← List.flatMap_append]
    exact requestFields_perm.flatMap_right _
  simp only [Head.headLines, foreignLines, List.append_assoc]
  exact .append_left _ (hlines.trans (.append_left _ hown))

theorem nil_mem_headLines : [] ∈ Head.headLines e (proxy.rawMessage request clientIp) ↔
    [] ∈ proxy.foreignLines request clientIp e := by
  have hown : [] ∉ (proxy.writtenFields request clientIp).map fun f => Head.fieldLine (f.1, Head.firstLine e f.2) := by
    intro hin
    obtain ⟨f, -, hf⟩ := List.mem_map.mp hin
    exact Head.fieldLine_ne_nil _ hf
  rw [headLines_perm.mem_iff, List.mem_append, or_iff_left hown]

/-- The values of a name in the head: those of the others, and the proxy's own. -/
theorem valuesIn_headLines (name : Bytes) :
    (Head.valuesIn (Head.headLines e (proxy.rawMessage request clientIp)) name).Perm
      (Head.valuesIn (proxy.foreignLines request clientIp e) name ++
        (Head.valuesOf (proxy.writtenFields request clientIp) name).map fun v => trim (Head.firstLine e v)) := by
  have hnamed : Head.valuesIn ((proxy.writtenFields request clientIp).map
      fun f => Head.fieldLine (f.1, Head.firstLine e f.2)) name =
      (Head.valuesOf (proxy.writtenFields request clientIp) name).map fun v => trim (Head.firstLine e v) :=
    Head.valuesIn_named (fun f hf => (writtenFields_names (e := e) f hf).2) name
  rw [← hnamed, ← Head.valuesIn_append]
  exact Head.valuesIn_perm headLines_perm name

/-- Where the proxy writes a value at most, it stands alone iff nobody else writes one. -/
theorem alone_iff {values others own : List Bytes} (hperm : values.Perm (others ++ own)) (hone : own.length ≤ 1) :
    values = own ↔ others = [] := by
  constructor
  · intro heq
    have hlen := hperm.length_eq
    rw [heq, List.length_append] at hlen
    exact List.length_eq_zero_iff.mp (by omega)
  · intro hnone
    rw [hnone, List.nil_append] at hperm
    match own, hone with
    | [], _ => exact hperm.eq_nil
    | [v], _ => exact hperm.eq_singleton

/-- What is read of the head, when nothing ends it too soon. -/
theorem read_rawRequest : (∃ m, Head.read e (proxy.rawRequest request clientIp) = some m ∧ m.body = request.body) ↔
    [] ∉ proxy.foreignLines request clientIp e := by
  rw [rawRequest_eq_write, ← nil_mem_headLines]
  constructor
  · rintro ⟨m, hread, hbody⟩ hnil
    obtain ⟨m', hread', hlen⟩ := Head.read_write_cut hnil
    rw [hread'] at hread
    cases hread
    rw [hbody] at hlen
    exact absurd hlen (Nat.lt_irrefl _)
  · intro hnil
    exact ⟨_, Head.read_write_lines hnil, rfl⟩

/-- The values that are read. -/
theorem valuesOf_read {m : Head.Msg} (hread : Head.read e (proxy.rawRequest request clientIp) = some m)
    (hbody : m.body = request.body) (name : Bytes) :
    (Head.valuesOf m.fields name).Perm
      (Head.valuesIn (proxy.foreignLines request clientIp e) name ++
        (Head.valuesOf (proxy.writtenFields request clientIp) name).map fun v => trim (Head.firstLine e v)) := by
  have hnil := read_rawRequest.mp ⟨m, hread, hbody⟩
  rw [← nil_mem_headLines] at hnil
  rw [rawRequest_eq_write, Head.read_write_lines hnil] at hread
  cases hread
  exact valuesIn_headLines name

/-! ## One framing -/

/-- A message with that body, whose length is given once if there is any,
and never by a coding. -/
def OneFraming (e : Head.Ending) (raw body : Bytes) : Prop :=
  ∃ m, Head.read e raw = some m ∧ m.body = body ∧
    Head.valuesOf m.fields (bytes "transfer-encoding") = [] ∧
      Head.valuesOf m.fields (bytes "content-length") =
        if body = [] then [] else [toText body.length]

/-- A line that does not end the head, and is no field about the body. -/
structure Harmless (line : Bytes) : Prop where
  nonempty : line ≠ []
  coding : toLower (Head.field line).1 ≠ bytes "transfer-encoding"
  length : toLower (Head.field line).1 ≠ bytes "content-length"

instance (line : Bytes) : Decidable (Harmless line) :=
  decidable_of_iff (line ≠ [] ∧ toLower (Head.field line).1 ≠ bytes "transfer-encoding" ∧
      toLower (Head.field line).1 ≠ bytes "content-length")
    ⟨fun h => ⟨h.1, h.2.1, h.2.2⟩, fun h => ⟨h.nonempty, h.coding, h.length⟩⟩

theorem harmless_iff {ls : List Bytes} : (∀ line ∈ ls, Harmless line) ↔ [] ∉ ls ∧
    Head.valuesIn ls (bytes "transfer-encoding") = [] ∧ Head.valuesIn ls (bytes "content-length") = [] := by
  have hte : toLower (bytes "transfer-encoding") = bytes "transfer-encoding" := by decide
  have hcl : toLower (bytes "content-length") = bytes "content-length" := by decide
  rw [Head.valuesIn_eq_nil, Head.valuesIn_eq_nil, hte, hcl]
  constructor
  · exact fun h => ⟨fun hin => (h [] hin).nonempty rfl, fun l hl => (h l hl).coding, fun l hl => (h l hl).length⟩
  · rintro ⟨hnil, hte, hcl⟩ l hl
    exact ⟨fun h => hnil (h ▸ hl), hte l hl, hcl l hl⟩

/-- The proxy's own values of a name. -/
theorem valuesOf_writtenFields (proxy : ReverseProxy) (request : HttpRequest) (clientIp name : Bytes) :
    Head.valuesOf (proxy.writtenFields request clientIp) name =
      (if toLower (bytes "Host") = toLower name then [proxy.targetAddress] else []) ++
        ((if toLower (bytes "Connection") = toLower name then [bytes "close"] else []) ++
          ((if clientIp = [] then [] else
            (if toLower (bytes "X-Forwarded-For") = toLower name then [forwardedFor request clientIp] else []) ++
              if toLower (bytes "X-Real-IP") = toLower name then [clientIp] else []) ++
            ((if clientHost request = [] then [] else
              if toLower (bytes "X-Forwarded-Host") = toLower name then [clientHost request] else []) ++
              ((if toLower (bytes "X-Forwarded-Proto") = toLower name then [bytes "http"] else []) ++
                if request.body = [] then [] else
                  if toLower (bytes "Content-Length") = toLower name then [toText request.body.length] else [])))) := by
  have hpair : ∀ a b : Bytes × Bytes, [a, b] = [a] ++ [b] := fun _ _ => rfl
  have hite : ∀ (c : Prop) [Decidable c] (fields : List (Bytes × Bytes)),
      Head.valuesOf (if c then [] else fields) name = if c then [] else Head.valuesOf fields name := by
    intro c _ fields
    split <;> rfl
  simp only [writtenFields, clientFields, hostFields, lengthFields, List.isEmpty_iff, hpair, List.append_assoc, hite,
    Head.valuesOf_append, Head.valuesOf_singleton]

theorem written_coding : Head.valuesOf (proxy.writtenFields request clientIp) (bytes "transfer-encoding") = [] := by
  simp +decide [valuesOf_writtenFields]

theorem written_length : Head.valuesOf (proxy.writtenFields request clientIp) (bytes "content-length") =
    if request.body = [] then [] else [toText request.body.length] := by
  simp +decide [valuesOf_writtenFields]

section
variable (h : request.Accepted)
include h

theorem copied_coding :
    (Head.valuesOf (copied request) (bytes "transfer-encoding")).map trim = [] ↔
      request.headers[bytes "transfer-encoding"]? = none := by
  have hte : toLower (bytes "transfer-encoding") = bytes "transfer-encoding" := by decide
  have hkept : isCopied (bytes "transfer-encoding") = true := by decide
  rw [List.map_eq_nil_iff, Head.valuesOf_eq_nil, hte]
  constructor
  · intro hnone
    cases hget : request.headers[bytes "transfer-encoding"]? with
    | none => rfl
    | some v =>
      have hmem := Std.TreeMap.mem_toList_iff_getElem?_eq_some.mpr hget
      exact absurd hte (hnone _ (List.mem_filter.mpr ⟨hmem, hkept⟩))
  · intro hnone f hf hname
    rw [(stored_of_copied h hf).lowered] at hname
    have hget := Std.TreeMap.mem_toList_iff_getElem?_eq_some.mp (List.mem_filter.mp hf).1
    rw [hname, hnone] at hget
    cases hget

theorem copied_length : Head.valuesOf (copied request) (bytes "content-length") = [] := by
  rw [Head.valuesOf_eq_nil]
  intro f hf hname
  have hcopied := (List.mem_filter.mp hf).2
  have hcl : toLower (bytes "content-length") = bytes "content-length" := by decide
  rw [(stored_of_copied h hf).lowered, hcl] at hname
  rw [hname] at hcopied
  exact absurd hcopied (by decide)

end

theorem rawRequest_oneFraming : OneFraming e (proxy.rawRequest request clientIp) request.body ↔
    ∀ line ∈ proxy.foreignLines request clientIp e, Harmless line := by
  have htrim : trim (Head.firstLine e (toText request.body.length)) = toText request.body.length := by
    rw [Head.firstLine_whole (Head.whole_of_noLF (noLF_toText _))]
    exact trim_repr _
  have hown : ((if request.body = [] then [] else [toText request.body.length]).map
      fun v => trim (Head.firstLine e v)) = if request.body = [] then [] else [toText request.body.length] := by
    split
    · rfl
    · rw [List.map_singleton, htrim]
  have hone : (if request.body = [] then [] else [toText request.body.length]).length ≤ 1 := by
    split <;> simp
  rw [harmless_iff]
  constructor
  · rintro ⟨m, hread, hbody, hte, hcl⟩
    have htes := valuesOf_read hread hbody (bytes "transfer-encoding")
    have hcls := valuesOf_read hread hbody (bytes "content-length")
    rw [written_coding, List.map_nil] at htes
    rw [written_length, hown] at hcls
    exact ⟨read_rawRequest.mp ⟨m, hread, hbody⟩, (alone_iff htes (Nat.zero_le 1)).mp hte,
      (alone_iff hcls hone).mp hcl⟩
  · rintro ⟨hnil, hte, hcl⟩
    obtain ⟨m, hread, hbody⟩ := read_rawRequest.mpr hnil
    have htes := valuesOf_read hread hbody (bytes "transfer-encoding")
    have hcls := valuesOf_read hread hbody (bytes "content-length")
    rw [written_coding, List.map_nil] at htes
    rw [written_length, hown] at hcls
    exact ⟨m, hread, hbody, (alone_iff htes (Nat.zero_le 1)).mpr hte, (alone_iff hcls hone).mpr hcl⟩

/-- **When the upstream finds the end of the body**, wherever it ends lines. -/
theorem forwarded_oneFraming {maxHeaderBytes maxBodyBytes : Nat} {chunks : List Bytes}
    {request : HttpRequest} (proxy : ReverseProxy)
    (hrequest : request ∈ (HttpParser.receive maxHeaderBytes maxBodyBytes chunks).1) (clientIp : Bytes) :
    (∀ e, OneFraming e (proxy.rawRequest request clientIp) request.body) ↔
      request.headers[bytes "transfer-encoding"]? = none ∧
        ∀ e, ∀ line ∈ proxy.foreignLines request clientIp e, Harmless line := by
  have h := HttpParser.receive_accepted hrequest
  refine ⟨fun hone => ⟨?_, fun e => rawRequest_oneFraming.mp (hone e)⟩,
    fun hharmless e => rawRequest_oneFraming.mpr (hharmless.2 e)⟩
  have hnone := (harmless_iff.mp (rawRequest_oneFraming.mp (hone .crlf))).2.1
  simp only [foreignLines, Head.valuesIn_append, List.append_eq_nil_iff] at hnone
  exact (copied_coding h).mp (Head.valuesIn_plain (copied_plain h) _ ▸ hnone.2.1)

def requestOf (raw : Bytes) : HttpRequest := (HttpParser.receive 8192 (2 ^ 20) [raw]).1.headD {}

theorem requestOf_mem {raw : Bytes}
    (h : (HttpParser.receive 8192 (2 ^ 20) [raw]).1.isEmpty = false) :
    requestOf raw ∈ (HttpParser.receive 8192 (2 ^ 20) [raw]).1 := by
  unfold requestOf
  cases hl : (HttpParser.receive 8192 (2 ^ 20) [raw]).1 with
  | nil => rw [hl] at h; cases h
  | cons r rs => exact List.mem_cons_self ..

def plainPost : Bytes := bytes "POST /api/gateway/x HTTP/1.1\r\nContent-Length: 2\r\n\r\nhi"

def chunkedPost : Bytes :=
  bytes "POST /x HTTP/1.1\r\nTransfer-Encoding: chunked\r\nContent-Length: 2\r\n\r\nhi"

theorem plainPost_received : requestOf plainPost ∈ (HttpParser.receive 8192 (2 ^ 20) [plainPost]).1 :=
  requestOf_mem (by decide +kernel)

theorem forwarded_oneFraming_plain :
    requestOf plainPost ∈ (HttpParser.receive 8192 (2 ^ 20) [plainPost]).1 ∧
      ∀ e, OneFraming e ((⟨{}⟩ : ReverseProxy).rawRequest (requestOf plainPost) (bytes "10.0.0.1"))
        (requestOf plainPost).body := by
  refine ⟨plainPost_received,
    (forwarded_oneFraming ⟨{}⟩ plainPost_received (bytes "10.0.0.1")).mpr ⟨?_, fun e => ?_⟩⟩
  · decide +kernel
  · cases e with
    | crlf => decide +kernel
    | lf => decide +kernel

/-- A chunked request goes on with the transfer coding and a length. -/
theorem chunked_framed_twice :
    requestOf chunkedPost ∈ (HttpParser.receive 8192 (2 ^ 20) [chunkedPost]).1 ∧
      ∀ e, ¬ OneFraming e ((⟨{}⟩ : ReverseProxy).rawRequest (requestOf chunkedPost) (bytes "10.0.0.1"))
        (requestOf chunkedPost).body := by
  refine ⟨requestOf_mem (by decide +kernel), fun e => ?_⟩
  rw [rawRequest_oneFraming]
  cases e with
  | crlf => decide +kernel
  | lf => decide +kernel

def smuggledPost : Bytes :=
  bytes "POST /x HTTP/1.1\r\nX-A: 1\nTransfer-Encoding: chunked\r\nContent-Length: 2\r\n\r\nhi"

/-- A lone LF in a value makes a field of what stands behind it. -/
example : ¬ OneFraming .lf ((⟨{}⟩ : ReverseProxy).rawRequest (requestOf smuggledPost) (bytes "10.0.0.1"))
    (requestOf smuggledPost).body := by
  rw [rawRequest_oneFraming]
  decide +kernel

end ReverseProxy

end Myself
