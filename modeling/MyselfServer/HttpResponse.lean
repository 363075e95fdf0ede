import Mathlib.Data.List.Basic
import MyselfServer.Head
import MyselfServer.Socket

/-!
# Responses

`HttpResponse` and how it is written out. The clock that `httpDate` reads is
given as the text of the date.
-/

namespace Myself

open Text

structure HttpResponse where
  statusCode : Int := 200
  statusMessage : Bytes := bytes "OK"
  headers : Std.TreeMap Bytes Bytes compare := ∅
  body : Bytes := []
  fileBody : Option FileBody := none
  closeConnection : Bool := false

def toText (n : Int) : Bytes := bytes (toString n)

theorem mem_toText {n : Int} {c : UInt8} (h : c ∈ toText n) : c = 45 ∨ isDigit c = true := by
  cases n with
  | ofNat n => exact Or.inr (isDigit_of_mem_repr h)
  | negSucc n =>
    have hsplit : toText (Int.negSucc n) = 45 :: bytes (n + 1).repr := by
      simp only [toText, bytes, toString, Int.repr, String.toList_append, List.map_append]
      rfl
    rw [hsplit] at h
    rcases List.mem_cons.mp h with rfl | h
    · exact Or.inl rfl
    · exact Or.inr (isDigit_of_mem_repr h)

theorem noLF_toText (n : Int) : LF ∉ toText n := by
  intro h
  rcases mem_toText h with h | h
  · exact absurd h (by decide)
  · exact absurd h (by decide)

namespace HttpResponse

def setStatus (r : HttpResponse) (code : Int) (message : Bytes) : HttpResponse :=
  { r with statusCode := code, statusMessage := message }

def setHeader (r : HttpResponse) (key value : Bytes) : HttpResponse :=
  { r with headers := r.headers.insert key value }

def setContentType (r : HttpResponse) (type : Bytes) : HttpResponse :=
  r.setHeader (bytes "Content-Type") type

def setBody (r : HttpResponse) (body : Bytes) : HttpResponse := { r with body := body }

def setFileBody (r : HttpResponse) (file : FileBody) : HttpResponse := { r with fileBody := some file }

def setCloseConnection (r : HttpResponse) (on : Bool) : HttpResponse :=
  { r with closeConnection := on }

def serialize (r : HttpResponse) (httpDate : Bytes) (includeBody : Bool) : Bytes :=
  bytes "HTTP/1.1 " ++ toText r.statusCode ++ bytes " " ++ r.statusMessage ++ CRLF ++
  bytes "Server: MyselfWebServer" ++ CRLF ++
  bytes "Date: " ++ httpDate ++ CRLF ++
  r.headers.toList.flatMap (fun item => item.1 ++ bytes ": " ++ item.2 ++ CRLF) ++
  (if r.headers.contains (bytes "Content-Length") then []
    else bytes "Content-Length: " ++ toText r.body.length ++ CRLF) ++
  (if r.closeConnection then bytes "Connection: close" else bytes "Connection: keep-alive") ++
  CRLF ++ CRLF ++
  (if includeBody then r.body else [])

def makeError (code : Int) (message : Bytes) : HttpResponse :=
  ((({ closeConnection := true } : HttpResponse).setStatus code message).setContentType
    (bytes "text/html; charset=utf-8")).setBody
      (bytes "<html><body><h1>" ++ toText code ++ bytes " " ++ message ++
        bytes "</h1></body></html>")

def badRequest (reason : Bytes) : HttpResponse :=
  makeError 400 (if reason.isEmpty then bytes "Bad Request" else reason)

def notFound : HttpResponse := makeError 404 (bytes "Not Found")

def tooManyRequests (retryAfterSeconds : Int) : HttpResponse :=
  (((({ closeConnection := false } : HttpResponse).setStatus 429
    (bytes "Too Many Requests")).setContentType (bytes "text/plain; charset=utf-8")).setHeader
      (bytes "Retry-After") (toText retryAfterSeconds)).setBody
        (bytes "too many requests, please retry after " ++ toText retryAfterSeconds ++
          bytes " second(s)\n")

/-- The two errors of the proxy, which differ in their code, message and name. -/
def proxyError (code : Int) (message error reason : Bytes) : HttpResponse :=
  ((({ closeConnection := true } : HttpResponse).setStatus code message).setContentType
    (bytes "application/json; charset=utf-8")).setBody
      (bytes "\x7b\"error\":\"" ++ error ++ bytes "\",\"message\":\"" ++
        (if reason.isEmpty then message else reason) ++ bytes "\"\x7d\n")

def badGateway (reason : Bytes) : HttpResponse :=
  proxyError 502 (bytes "Bad Gateway") (bytes "bad_gateway") reason

def gatewayTimeout (reason : Bytes) : HttpResponse :=
  proxyError 504 (bytes "Gateway Timeout") (bytes "gateway_timeout") reason

/-- The head does not depend on whether the body follows. -/
theorem serialize_body (r : HttpResponse) (httpDate : Bytes) :
    r.serialize httpDate true = r.serialize httpDate false ++ r.body := by
  rw [serialize, serialize, if_pos rfl, if_neg Bool.false_ne_true, List.append_nil]

/-! ## The written message -/

def statusLine (r : HttpResponse) : Bytes :=
  bytes "HTTP/1.1 " ++ toText r.statusCode ++ bytes " " ++ r.statusMessage

def fieldList (r : HttpResponse) (httpDate : Bytes) : List (Bytes × Bytes) :=
  [(bytes "Server", bytes "MyselfWebServer"), (bytes "Date", httpDate)] ++ r.headers.toList ++
  (if r.headers.contains (bytes "Content-Length") then []
    else [(bytes "Content-Length", toText r.body.length)]) ++
  [(bytes "Connection", if r.closeConnection then bytes "close" else bytes "keep-alive")]

theorem serialize_eq_write (r : HttpResponse) (httpDate : Bytes) (includeBody : Bool) :
    r.serialize httpDate includeBody =
      Head.write ⟨r.statusLine, r.fieldList httpDate, if includeBody then r.body else []⟩ := by
  have hserver : Head.fieldLine (bytes "Server", bytes "MyselfWebServer") =
      bytes "Server: MyselfWebServer" := by decide
  have hdate : Head.fieldLine (bytes "Date", httpDate) = bytes "Date: " ++ httpDate := rfl
  have hclose : Head.fieldLine (bytes "Connection",
      if r.closeConnection then bytes "close" else bytes "keep-alive") =
        if r.closeConnection then bytes "Connection: close" else bytes "Connection: keep-alive" := by
    split <;> decide
  have hitem : ∀ f : Bytes × Bytes, Head.fieldLine f = f.1 ++ bytes ": " ++ f.2 := by
    intro f
    rw [List.append_assoc]
    rfl
  have hlength : Head.fieldLines (if r.headers.contains (bytes "Content-Length") then []
      else [(bytes "Content-Length", toText r.body.length)]) =
        if r.headers.contains (bytes "Content-Length") then []
        else bytes "Content-Length: " ++ toText r.body.length ++ CRLF := by
    split
    · rfl
    · simp only [Head.fieldLines, List.flatMap_cons, List.flatMap_nil, List.append_nil]
      rfl
  have happ : ∀ a b : List (Bytes × Bytes), Head.fieldLines (a ++ b) =
      Head.fieldLines a ++ Head.fieldLines b := fun a b => List.flatMap_append
  have hmap : Head.fieldLines r.headers.toList =
      r.headers.toList.flatMap fun item => item.1 ++ bytes ": " ++ item.2 ++ CRLF := by
    simp only [Head.fieldLines, hitem]
  simp only [serialize, Head.write, fieldList, happ, hlength, hmap]
  simp only [Head.fieldLines, List.flatMap_cons, List.flatMap_nil, List.append_nil, hserver, hdate,
    hclose, statusLine, List.append_assoc]

structure OneLine (r : HttpResponse) : Prop where
  message : LF ∉ r.statusMessage
  fields : ∀ k v : Bytes, r.headers[k]? = some v → COLON ∉ k ∧ LF ∉ k ∧ LF ∉ v

theorem OneLine.setHeader {r : HttpResponse} (h : r.OneLine) {key value : Bytes}
    (hk : COLON ∉ key ∧ LF ∉ key) (hv : LF ∉ value) : (r.setHeader key value).OneLine := by
  refine ⟨h.message, fun k v hkv => ?_⟩
  simp only [HttpResponse.setHeader, Std.TreeMap.getElem?_insert,
    Std.LawfulEqCmp.compare_eq_iff_eq] at hkv
  split at hkv
  · rename_i heq
    cases hkv
    exact ⟨heq ▸ hk.1, heq ▸ hk.2, hv⟩
  · exact h.fields k v hkv

theorem oneLine_of_noHeaders {r : HttpResponse} (h : r.headers = ∅) (hm : LF ∉ r.statusMessage) :
    r.OneLine := by
  refine ⟨hm, fun k v hkv => ?_⟩
  rw [h] at hkv
  simp at hkv

theorem noLF_statusLine {r : HttpResponse} (h : r.OneLine) : LF ∉ r.statusLine := by
  have hbytes : LF ∉ bytes "HTTP/1.1 " ∧ LF ∉ bytes " " := by decide
  simp only [statusLine, List.mem_append, not_or, hbytes, noLF_toText, h.message,
    not_false_eq_true, and_self]

theorem plain_of_noLF {key value : Bytes} (hc : COLON ∉ key) (hk : LF ∉ key) (hv : LF ∉ value) :
    Head.Plain (key, value) := by
  refine ⟨noCRLF ?_, hc⟩
  simp only [Head.fieldLine, List.mem_append, List.mem_cons, not_or]
  exact ⟨hk, by decide, by decide, hv⟩

theorem plain_fieldList {r : HttpResponse} (h : r.OneLine) {httpDate : Bytes} (hd : LF ∉ httpDate) :
    ∀ f ∈ r.fieldList httpDate, Head.Plain f := by
  intro f hf
  simp only [fieldList, List.mem_append, List.mem_cons, List.not_mem_nil, or_false] at hf
  rcases hf with ((hf | hf) | hf) | hf
  · rcases hf with rfl | rfl
    · exact plain_of_noLF (by decide) (by decide) (by decide)
    · exact plain_of_noLF (by decide) (by decide) hd
  · obtain ⟨hc, hk, hv⟩ := h.fields f.1 f.2 (Std.TreeMap.mem_toList_iff_getElem?_eq_some.mp hf)
    exact plain_of_noLF hc hk hv
  · split at hf
    · cases hf
    · cases List.mem_singleton.mp hf
      exact plain_of_noLF (by decide) (by decide) (noLF_toText _)
  · subst hf
    split
    · exact plain_of_noLF (by decide) (by decide) (by decide)
    · exact plain_of_noLF (by decide) (by decide) (by decide)

/-- **A receiver reads the status line, the fields and the body** that were written. -/
theorem read_serialize {r : HttpResponse} (h : r.OneLine) {httpDate : Bytes} (hd : LF ∉ httpDate)
    (includeBody : Bool) (behind : Bytes) :
    Head.read .crlf (r.serialize httpDate includeBody ++ behind) =
      some ⟨r.statusLine, (r.fieldList httpDate).map fun f => (f.1, trim f.2),
        (if includeBody then r.body else []) ++ behind⟩ := by
  have hwrite : r.serialize httpDate includeBody ++ behind =
      Head.write ⟨r.statusLine, r.fieldList httpDate, (if includeBody then r.body else []) ++ behind⟩ := by
    rw [serialize_eq_write]
    simp only [Head.write, List.append_assoc]
  rw [hwrite]
  exact Head.read_write (noCRLF (noLF_statusLine h)) (plain_fieldList h hd)

theorem contains_iff {headers : Std.TreeMap Bytes Bytes compare} {key : Bytes} :
    headers.contains key = true ↔ key ∈ headers.toList.map Prod.fst := by
  rw [Std.TreeMap.map_fst_toList_eq_keys, Std.TreeMap.mem_keys, Std.TreeMap.contains_iff_mem]

theorem setHeader_toList {r : HttpResponse} {key : Bytes} (h : key ∉ r.headers) (value : Bytes) :
    (r.setHeader key value).headers.toList.Perm ((key, value) :: r.headers.toList) := by
  refine Std.TreeMap.toList_insert_perm.trans ?_
  have hfilter : (r.headers.toList.filter fun f => ¬ key == f.1) = r.headers.toList := by
    rw [List.filter_eq_self]
    intro f hf
    have hin : f.1 ∈ r.headers := by
      rw [Std.TreeMap.mem_iff_isSome_getElem?, Std.TreeMap.mem_toList_iff_getElem?_eq_some.mp hf]
      rfl
    simp only [beq_iff_eq, decide_eq_true_eq]
    exact fun heq => h (heq ▸ hin)
  rw [hfilter]

def withHeaders (r : HttpResponse) (fields : List (Bytes × Bytes)) : HttpResponse :=
  fields.foldl (fun r f => r.setHeader f.1 f.2) r

theorem OneLine.withHeaders {fields : List (Bytes × Bytes)}
    (hf : ∀ f ∈ fields, COLON ∉ f.1 ∧ LF ∉ f.1 ∧ LF ∉ f.2) :
    ∀ {r : HttpResponse}, r.OneLine → (r.withHeaders fields).OneLine := by
  induction fields with
  | nil => exact fun h => h
  | cons f fields ih =>
    intro r h
    simp only [List.forall_mem_cons] at hf
    exact ih hf.2 (h.setHeader ⟨hf.1.1, hf.1.2.1⟩ hf.1.2.2)

theorem withHeaders_toList {fields : List (Bytes × Bytes)} (hn : (fields.map Prod.fst).Nodup) :
    ∀ {r : HttpResponse}, (∀ f ∈ fields, f.1 ∉ r.headers) →
      (r.withHeaders fields).headers.toList.Perm (fields ++ r.headers.toList) := by
  induction fields with
  | nil => exact fun _ => .refl _
  | cons f fields ih =>
    intro r hr
    simp only [List.map_cons, List.nodup_cons, List.forall_mem_cons] at hn hr
    have hrest : ∀ g ∈ fields, g.1 ∉ (r.setHeader f.1 f.2).headers := by
      intro g hg hin
      rcases Std.TreeMap.mem_insert.mp hin with heq | hin
      · rw [Std.LawfulEqCmp.compare_eq_iff_eq] at heq
        exact hn.1 (List.mem_map.mpr ⟨g, hg, heq.symm⟩)
      · exact hr.2 g hg hin
    refine (ih hn.2 hrest).trans ?_
    exact ((setHeader_toList hr.1 f.2).append_left fields).trans List.perm_middle

def lastValue (fields : List (Bytes × Bytes)) (key : Bytes) : Option Bytes :=
  ((fields.filter fun f => f.1 = key).getLast?).map Prod.snd

theorem lastValue_append (fields fields' : List (Bytes × Bytes)) (key : Bytes) :
    lastValue (fields ++ fields') key = (lastValue fields' key).or (lastValue fields key) := by
  simp only [lastValue, List.filter_append, List.getLast?_append, Option.map_or]

theorem lastValue_singleton (k v key : Bytes) :
    lastValue [(k, v)] key = if k = key then some v else none := by
  by_cases h : k = key <;> simp [lastValue, h]

theorem setHeader_getElem? (r : HttpResponse) (k v key : Bytes) :
    (r.setHeader k v).headers[key]? = if k = key then some v else r.headers[key]? := by
  simp only [setHeader, Std.TreeMap.getElem?_insert, Std.LawfulEqCmp.compare_eq_iff_eq]

theorem withHeaders_getElem? (fields : List (Bytes × Bytes)) (r : HttpResponse) (key : Bytes) :
    (r.withHeaders fields).headers[key]? = (lastValue fields key).or r.headers[key]? := by
  induction fields generalizing r with
  | nil => rfl
  | cons f fields ih =>
    rw [withHeaders, List.foldl_cons, ← withHeaders, ih, setHeader_getElem?]
    rw [← List.singleton_append, lastValue_append, lastValue_singleton, Option.or_assoc]
    congr 1
    split <;> rfl

theorem lastValue_isSome {fields : List (Bytes × Bytes)} {key : Bytes} :
    (lastValue fields key).isSome = true ↔ ∃ f ∈ fields, f.1 = key := by
  rw [lastValue, Option.isSome_map, List.getLast?_isSome]
  constructor
  · intro h
    obtain ⟨f, hf⟩ := List.exists_mem_of_ne_nil _ h
    obtain ⟨hf, heq⟩ := List.mem_filter.mp hf
    exact ⟨f, hf, by simpa using heq⟩
  · rintro ⟨f, hf, heq⟩ hnil
    have hin : f ∈ fields.filter fun f => f.1 = key := List.mem_filter.mpr ⟨hf, by simpa using heq⟩
    rw [hnil] at hin
    cases hin

theorem lastValue_eq_none {fields : List (Bytes × Bytes)} {key : Bytes} :
    lastValue fields key = none ↔ ∀ f ∈ fields, f.1 ≠ key := by
  rw [← Option.not_isSome_iff_eq_none, lastValue_isSome]
  simp only [not_exists, not_and, ne_eq]

theorem lastValue_of_one {fields : List (Bytes × Bytes)} {key value : Bytes}
    (hin : (key, value) ∈ fields) (hone : ∀ f ∈ fields, f.1 = key → f.2 = value) :
    lastValue fields key = some value := by
  have hsome := lastValue_isSome.mpr ⟨_, hin, rfl⟩
  rw [lastValue, Option.isSome_map] at hsome
  obtain ⟨f, hf⟩ := Option.isSome_iff_exists.mp hsome
  obtain ⟨hmem, hkey⟩ := List.mem_filter.mp (List.mem_of_getLast? hf)
  rw [lastValue, hf, Option.map_some, hone f hmem (by simpa using hkey)]

theorem withHeaders_same (fields : List (Bytes × Bytes)) (r : HttpResponse) :
    ∃ headers, r.withHeaders fields = { r with headers := headers } := by
  induction fields generalizing r with
  | nil => exact ⟨r.headers, rfl⟩
  | cons f fields ih =>
    obtain ⟨headers, heq⟩ := ih (r.setHeader f.1 f.2)
    exact ⟨headers, heq⟩

theorem OneLine.setBody {r : HttpResponse} (h : r.OneLine) (body : Bytes) : (r.setBody body).OneLine :=
  ⟨h.message, h.fields⟩

theorem OneLine.setFileBody {r : HttpResponse} (h : r.OneLine) (file : FileBody) :
    (r.setFileBody file).OneLine := ⟨h.message, h.fields⟩

theorem OneLine.setCloseConnection {r : HttpResponse} (h : r.OneLine) (on : Bool) :
    (r.setCloseConnection on).OneLine := ⟨h.message, h.fields⟩

end HttpResponse

end Myself
