import MyselfServer.MessageStream
import MyselfServer.ProxyResponse
import MyselfServer.ZeroCopy

/-!
# Where responses end

A client of a connection that stays open finds the end of a response by its
status code and its length. `delimited_fits` says of which responses this is
the end of what the server sends for them, a body or a file, and
`handle_delimited` that the router makes such responses.
-/

namespace Myself

open Text

def statusOf (first : Bytes) : Nat := decimal ((first.drop 9).takeWhile isDigit)

def bodiless (code : Nat) : Bool := code = 204 || code = 304 || (100 ≤ code && code < 200)

/-- How a client finds the end of a response, when it knows the request. -/
def responseRule (headOnly : Bool) : Head.Rule := fun first fields =>
  if headOnly || bodiless (statusOf first) then some 0
  else if Head.valuesOf fields (bytes "transfer-encoding") ≠ [] then none
  else
    match Head.valuesOf fields (bytes "content-length") with
    | [v] => if isDigitString v then some (decimal v) else none
    | _ => none

namespace HttpResponse

def payload (files : Nat → Bytes) (r : HttpResponse) : Bytes := r.body ++ r.fileBytes files

structure Delimited (files : Nat → Bytes) (r : HttpResponse) : Prop where
  oneLine : r.OneLine
  coding : ∀ k ∈ r.headers, toLower k ≠ bytes "transfer-encoding"
  spelled : ∀ k ∈ r.headers, toLower k = bytes "content-length" → k = bytes "Content-Length"
  empty : bodiless r.statusCode.toNat = true → r.payload files = []
  length : ∀ v : Bytes, r.headers[bytes "Content-Length"]? = some v →
    bodiless r.statusCode.toNat = false → isDigitString (trim v) = true ∧ decimal (trim v) = (r.payload files).length
  counted : r.headers[bytes "Content-Length"]? = none → r.payload files = r.body
  inside : ∀ file, r.fileBody = some file → file.Inside files

variable {files : Nat → Bytes} {r : HttpResponse}

theorem Delimited.setCloseConnection (h : r.Delimited files) (on : Bool) :
    (r.setCloseConnection on).Delimited files :=
  ⟨h.oneLine.setCloseConnection on, h.coding, h.spelled, h.empty, h.length, h.counted, h.inside⟩

theorem Sound.delimited (h : r.Sound) (hfile : r.fileBody = none)
    (hempty : bodiless r.statusCode.toNat = true → r.body = []) (files : Nat → Bytes) :
    r.Delimited files := by
  have hpayload : r.payload files = r.body := by
    unfold payload fileBytes
    rw [hfile, List.append_nil]
  refine ⟨h.1, h.2.coding, h.2.spelled, ?_, ?_, fun _ => hpayload, ?_⟩
  · rw [hpayload]
    exact hempty
  · intro v hv _
    rw [hpayload]
    exact h.2.length v hv
  · intro file hsome
    rw [hfile] at hsome
    cases hsome

/-! ## The fields a client looks at -/

theorem statusOf_statusLine (r : HttpResponse) : statusOf r.statusLine = r.statusCode.toNat := by
  have hdrop : r.statusLine.drop 9 = toText r.statusCode ++ (SP :: r.statusMessage) := by
    have hlen : (bytes "HTTP/1.1 ").length = 9 := by decide
    have hline : r.statusLine = bytes "HTTP/1.1 " ++ (toText r.statusCode ++ (SP :: r.statusMessage)) := by
      unfold statusLine
      simp only [List.append_assoc]
      rfl
    rw [hline, ← hlen, List.drop_left]
  have hspace : isDigit SP = false := by decide
  unfold statusOf
  rw [hdrop]
  cases hcode : r.statusCode with
  | ofNat n =>
    have hdigits : ∀ c ∈ toText (Int.ofNat n), isDigit c = true := fun c hc => isDigit_of_mem_repr hc
    rw [List.takeWhile_append_of_pos hdigits, List.takeWhile_cons_of_neg (by rw [hspace]; decide),
      List.append_nil]
    exact decimal_repr n
  | negSucc n =>
    have hsplit : toText (Int.negSucc n) = 45 :: bytes (n + 1).repr := by
      simp only [toText, bytes, toString, Int.repr, String.toList_append, List.map_append]
      rfl
    rw [hsplit, List.cons_append, List.takeWhile_cons_of_neg (by decide)]
    rfl

theorem coding_values (h : r.Delimited files) (httpDate : Bytes) :
    Head.valuesOf (r.fieldList httpDate) (bytes "transfer-encoding") = [] := by
  have hnamed : r.named (bytes "transfer-encoding") = [] := by
    rw [named_eq_nil]
    exact h.coding
  have hl : toLower (bytes "Content-Length") ≠ toLower (bytes "transfer-encoding") := by decide
  have hc : toLower (bytes "Connection") ≠ toLower (bytes "transfer-encoding") := by decide
  rw [valuesOf_fieldList r httpDate (by decide) (by decide), hnamed, Head.valuesOf_singleton, if_neg hc]
  split
  · rfl
  · rw [Head.valuesOf_singleton, if_neg hl]
    rfl

theorem length_values (h : r.Delimited files) (httpDate : Bytes) :
    Head.valuesOf (r.fieldList httpDate) (bytes "content-length") =
      [(r.headers[bytes "Content-Length"]?).getD (toText r.body.length)] := by
  have hl : toLower (bytes "Content-Length") = toLower (bytes "content-length") := by decide
  have hc : toLower (bytes "Connection") ≠ toLower (bytes "content-length") := by decide
  have hcl : toLower (bytes "content-length") = bytes "content-length" := by decide
  rw [valuesOf_fieldList r httpDate (by decide) (by decide), Head.valuesOf_singleton, if_neg hc,
    List.append_nil, Std.TreeMap.contains_eq_isSome_getElem?]
  cases hk : r.headers[bytes "Content-Length"]? with
  | none =>
    have hnamed : r.named (bytes "content-length") = [] := by
      rw [named_eq_nil, hcl]
      intro k hin hkl
      rw [h.spelled k hin hkl, Std.TreeMap.mem_iff_isSome_getElem?, hk] at hin
      cases hin
    rw [hnamed, Option.isSome_none, if_neg Bool.false_ne_true, Head.valuesOf_singleton, if_pos hl]
    rfl
  | some v =>
    have hnamed : r.named (bytes "content-length") = [v] := by
      rw [named_eq_singleton hk hl, hcl]
      exact ⟨rfl, h.spelled⟩
    rw [hnamed, Option.isSome_some, if_pos rfl]
    rfl

/-- **A client finds the end of the response.** -/
theorem delimited_fits (h : r.Delimited files) {httpDate : Bytes} (hd : LF ∉ httpDate) (headOnly : Bool) :
    Head.Fits (responseRule headOnly)
      ⟨r.statusLine, r.fieldList httpDate, if headOnly then [] else r.payload files⟩ := by
  refine ⟨noCRLF (noLF_statusLine h.oneLine), plain_fieldList h.oneLine hd, ?_⟩
  unfold responseRule Head.Msg.trimmed
  rw [statusOf_statusLine, Head.valuesOf_trimmed, coding_values h, Head.valuesOf_trimmed, length_values h]
  cases headOnly with
  | true => rfl
  | false =>
    cases hb : bodiless r.statusCode.toNat with
    | true =>
      have hempty := h.empty hb
      simp only [Bool.or_true, if_true, Bool.false_eq_true, if_false, hempty, List.length_nil]
    | false =>
      simp only [Bool.or_false, Bool.false_eq_true, if_false, List.map_nil, ne_eq, not_true, List.map_cons]
      cases hk : r.headers[bytes "Content-Length"]? with
      | none =>
        have htext : trim (toText r.body.length) = toText r.body.length := trim_repr _
        have hdigits : isDigitString (toText r.body.length) = true := isDigitString_repr _
        have hlen : decimal (toText r.body.length) = r.body.length := decimal_repr _
        rw [Option.getD_none, htext, if_pos hdigits, hlen, h.counted hk]
      | some v =>
        obtain ⟨hdigits, hlen⟩ := h.length v hk hb
        rw [Option.getD_some, if_pos hdigits, hlen]

/-! ## The responses of the server itself -/

theorem makeError_sound (code : Int) {message : Bytes} (hm : LF ∉ message) : (makeError code message).Sound := by
  have hone : (({ closeConnection := true } : HttpResponse).setStatus code message).OneLine :=
    oneLine_of_noHeaders rfl hm
  refine ⟨(hone.setHeader (by decide) (by decide)).setBody _, ?_⟩
  exact framing_of_ordinary (({ closeConnection := true } : HttpResponse).setStatus code message)
    [(bytes "Content-Type", bytes "text/html; charset=utf-8")] rfl rfl (by decide)

theorem makeError_delimited {code : Int} {message : Bytes} (hm : LF ∉ message)
    (hcode : bodiless code.toNat = false) (files : Nat → Bytes) : (makeError code message).Delimited files := by
  refine (makeError_sound code hm).delimited rfl (fun hb => ?_) files
  have hb : bodiless code.toNat = true := hb
  rw [hcode] at hb
  cases hb

theorem badRequest_delimited (files : Nat → Bytes) : (badRequest (bytes "Bad Request")).Delimited files :=
  makeError_delimited (by decide) (by decide) files

theorem notFound_delimited (files : Nat → Bytes) : notFound.Delimited files :=
  makeError_delimited (by decide) (by decide) files

theorem tooManyRequests_delimited (retryAfterSeconds : Int) (files : Nat → Bytes) :
    (tooManyRequests retryAfterSeconds).Delimited files := by
  have hone : (({ closeConnection := false } : HttpResponse).setStatus 429 (bytes "Too Many Requests")).OneLine :=
    oneLine_of_noHeaders rfl (by decide)
  have hsound : (tooManyRequests retryAfterSeconds).Sound := by
    refine ⟨((hone.setHeader (by decide) (by decide)).setHeader (by decide) (noLF_toText _)).setBody _, ?_⟩
    refine framing_of_ordinary (({ closeConnection := false } : HttpResponse).setStatus 429
      (bytes "Too Many Requests")) [(bytes "Content-Type", bytes "text/plain; charset=utf-8"),
        (bytes "Retry-After", toText retryAfterSeconds)] rfl rfl ?_
    intro f hf
    rcases List.mem_cons.mp hf with rfl | hf
    · decide
    · rw [List.mem_singleton.mp hf]
      exact (by decide : isOrdinary (bytes "Retry-After") = true)
  exact hsound.delimited rfl (fun hb => by cases hb) files

end HttpResponse

namespace Router

variable {disk : Disk} {files : Nat → Bytes} {path etag lastModified : Bytes}

theorem fileFields_ordinary : ∀ f ∈ fileFields path etag lastModified, HttpResponse.isOrdinary f.1 = true := by
  simp only [fileFields, List.forall_mem_cons, List.not_mem_nil, false_imp_iff, implies_true, and_true]
  exact ⟨by decide, by decide, by decide, by decide⟩

theorem memoryFile_delimited (he : LF ∉ etag) (hl : LF ∉ lastModified) (body : Bytes) :
    (memoryFile path etag lastModified body).Delimited files := by
  have hstatus := HttpResponse.withHeaders_same (fileFields path etag lastModified)
    (({ } : HttpResponse).setStatus 200 (bytes "OK"))
  obtain ⟨headers, heq⟩ := hstatus
  have hsound : (memoryFile path etag lastModified body).Sound := by
    refine ⟨memoryFile_oneLine he hl body, ?_⟩
    exact HttpResponse.framing_of_ordinary (({ } : HttpResponse).setStatus 200 (bytes "OK"))
      (fileFields path etag lastModified) rfl rfl fileFields_ordinary
  have hfile : (memoryFile path etag lastModified body).fileBody = none := by
    rw [memoryFile, heq]
    rfl
  refine hsound.delimited hfile (fun hb => ?_) files
  rw [memoryFile, heq] at hb
  cases hb

/-- The length that is announced is the one of the file. -/
theorem openedFile_delimited (he : LF ∉ etag) (hl : LF ∉ lastModified) {size fd : Nat}
    (hsize : (files fd).length = size) : (openedFile path etag lastModified size fd).Delimited files := by
  have hone := @openedFile_oneLine path _ _ he hl size fd
  have hlist := @openedFile_toList path etag lastModified size fd
  obtain ⟨headers, heq⟩ : ∃ headers, openedFile path etag lastModified size fd =
      { statusCode := 200, statusMessage := bytes "OK", headers := headers, fileBody := some ⟨fd, 0, size⟩ } := by
    obtain ⟨headers, heq⟩ := HttpResponse.withHeaders_same
      ((fileFields path etag lastModified).insertIdx 1 (bytes "Content-Length", toText size))
      (({ } : HttpResponse).setStatus 200 (bytes "OK"))
    exact ⟨headers, by rw [openedFile, heq]; rfl⟩
  rw [heq] at hone hlist ⊢
  have hnames : ∀ k ∈ headers, k = bytes "Content-Length" ∨ HttpResponse.isOrdinary k = true := by
    intro k hk
    rw [← Std.TreeMap.contains_iff_mem, HttpResponse.contains_iff, (hlist.map Prod.fst).mem_iff, List.map_cons,
      List.mem_cons] at hk
    refine hk.imp_right fun hk => ?_
    obtain ⟨f, hf, rfl⟩ := List.mem_map.mp hk
    exact fileFields_ordinary f hf
  have hpayload : HttpResponse.payload files
      { statusCode := 200, statusMessage := bytes "OK", headers := headers,
        fileBody := some ⟨fd, 0, size⟩ } = files fd := by
    show [] ++ FileBody.bytes files ⟨fd, 0, size⟩ = files fd
    rw [FileBody.bytes, List.drop_zero, List.nil_append, ← hsize, List.take_length]
  have hcl : toLower (bytes "Content-Length") ≠ bytes "transfer-encoding" := by decide
  refine ⟨hone, ?_, ?_, (fun hb => by cases hb), ?_, ?_, ?_⟩
  · intro k hk
    rcases hnames k hk with rfl | hk
    · exact hcl
    · simp only [HttpResponse.isOrdinary, Bool.and_eq_true, decide_eq_true_eq] at hk
      exact hk.1.1
  · intro k hk hname
    rcases hnames k hk with rfl | hk
    · rfl
    · simp only [HttpResponse.isOrdinary, Bool.and_eq_true, decide_eq_true_eq] at hk
      exact absurd hname hk.2
  · intro v hv _
    have hin := hlist.mem_iff.mp (Std.TreeMap.mem_toList_iff_getElem?_eq_some.mpr hv)
    have hvalue : v = toText size := by
      rcases List.mem_cons.mp hin with heq | hin
      · exact congrArg Prod.snd heq
      · have hord := fileFields_ordinary _ hin
        exact absurd hord (by decide : ¬ HttpResponse.isOrdinary (bytes "Content-Length") = true)
    rw [hpayload, hvalue, hsize]
    have htext : trim (toText size) = toText size := trim_repr _
    rw [htext]
    exact ⟨isDigitString_repr _, decimal_repr _⟩
  · intro hnone
    have hin := hlist.mem_iff.mpr (List.mem_cons_self ..)
    rw [Std.TreeMap.mem_toList_iff_getElem?_eq_some.mp hin] at hnone
    cases hnone
  · intro file hfile
    cases hfile
    show 0 + size ≤ (files fd).length
    omega

theorem notModified_delimited (he : LF ∉ etag) (hl : LF ∉ lastModified) :
    ((((({ } : HttpResponse).setStatus 304 (bytes "Not Modified")).setHeader
      (bytes "ETag") etag).setHeader (bytes "Last-Modified") lastModified).setHeader
        (bytes "Cache-Control") (bytes "no-cache")).Delimited files := by
  refine HttpResponse.Sound.delimited ⟨notModified_oneLine he hl, ?_⟩ rfl (fun _ => rfl) files
  refine HttpResponse.framing_of_ordinary (({ } : HttpResponse).setStatus 304 (bytes "Not Modified"))
    [(bytes "ETag", etag), (bytes "Last-Modified", lastModified), (bytes "Cache-Control", bytes "no-cache")]
    rfl rfl ?_
  simp only [List.forall_mem_cons, List.not_mem_nil, false_imp_iff, implies_true, and_true]
  exact ⟨by decide, by decide, by decide⟩

theorem serveRegular_delimited {fullPath : Bytes} {info : FileStat} (he : LF ∉ etag) (hl : LF ∉ lastModified)
    (hw : Whole disk files) (hstat : disk.stat (cStr fullPath) = some info) (hreg : info.isReg = true)
    (path : Bytes) (t : Nat) :
    (serveRegular disk fullPath path etag lastModified info.st_size t).Delimited files := by
  unfold serveRegular
  by_cases hzero : t > 0 ∧ info.st_size ≥ t
  · rw [if_pos hzero]
    rcases hw _ _ hstat hreg with ⟨hopen, -⟩ | ⟨fd, hopen, -, hlen⟩
    · unfold serveFileBody
      rw [hopen]
      exact HttpResponse.notFound_delimited files
    · unfold serveFileBody
      rw [hopen]
      exact openedFile_delimited he hl hlen
  · rw [if_neg hzero]
    cases readBody disk fullPath info.st_size with
    | none => exact HttpResponse.notFound_delimited files
    | some body => exact memoryFile_delimited he hl body

theorem serveStaticFile_delimited (r : Router) (hw : Whole disk files) (path : Bytes) (request : HttpRequest) :
    (r.serveStaticFile disk path request).Delimited files := by
  cases hstat : disk.stat (cStr (r.wwwRoot ++ path)) with
  | none =>
    unfold serveStaticFile
    simp only [hstat]
    exact HttpResponse.notFound_delimited files
  | some info =>
    have he := noLF_makeETag info.st_mtime info.st_size
    have hl := noLF_formatHttpDate info.st_mtime
    cases hreg : info.isReg with
    | false =>
      unfold serveStaticFile
      simp only [hstat, hreg, if_true]
      exact HttpResponse.notFound_delimited files
    | true =>
      cases hnew : isNotModified request (makeETag info.st_mtime info.st_size) info.st_mtime with
      | true =>
        unfold serveStaticFile
        simp only [hstat, hreg, hnew, Bool.true_eq_false, if_true, if_false]
        exact notModified_delimited he hl
      | false =>
        rw [serve_regular r hstat hreg hnew]
        exact serveRegular_delimited he hl hw hstat hreg path r.zeroCopyThreshold

theorem methodNotAllowed_delimited (files : Nat → Bytes) : methodNotAllowed.Delimited files := by
  have hone : (({ closeConnection := true } : HttpResponse).setStatus 405 (bytes "Method Not Allowed")).OneLine :=
    HttpResponse.oneLine_of_noHeaders rfl (by decide)
  refine HttpResponse.Sound.delimited ⟨(hone.setHeader (by decide) (by decide)).setBody _, ?_⟩ rfl
    (fun hb => by cases hb) files
  exact HttpResponse.framing_of_ordinary (({ closeConnection := true } : HttpResponse).setStatus 405
    (bytes "Method Not Allowed")) [(bytes "Content-Type", bytes "text/html; charset=utf-8")] rfl rfl (by decide)

structure Delimits (r : Router) (files : Nat → Bytes) : Prop where
  handlers : ∀ (path : Bytes) handler, r.handlers[path]? = some handler → ∀ request,
    (handler request).Delimited files
  prefixes : ∀ (path : Bytes) handler, r.prefixHandler path = some handler → ∀ request clientIp,
    (handler request clientIp).Delimited files

/-- **Every response of the router ends where its client looks for the end**,
when those of the registered handlers do. -/
theorem handle_delimited (r : Router) (hr : r.Delimits files) (hw : Whole disk files) (request : HttpRequest)
    (clientIp : Bytes) : (r.handle disk request clientIp).Delimited files := by
  unfold handle
  by_cases hsafe : isPathSafe request.path = false
  · rw [if_pos hsafe]
    exact HttpResponse.badRequest_delimited files
  rw [if_neg hsafe]
  cases hhandler : r.handlers[request.path]? with
  | some handler => exact hr.handlers _ handler hhandler request
  | none =>
    cases hprefix : r.prefixHandler request.path with
    | some handler => exact hr.prefixes _ handler hprefix request clientIp
    | none =>
      by_cases hmethod : request.method ≠ .kGet ∧ request.method ≠ .kHead
      · simp only [if_pos hmethod]
        exact methodNotAllowed_delimited files
      · simp only [if_neg hmethod]
        exact serveStaticFile_delimited r hw _ request

end Router

end Myself
