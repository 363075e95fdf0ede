import MyselfServer.ResponseOrder
import MyselfServer.Router
import MyselfServer.WriteOrder

/-!
# Serving files with and without copying

The two branches of `serveStaticFile` answer alike: what a client reads of
the bytes that `respond` puts on its connection does not depend on the
threshold between them, up to the date and the order of the fields.
-/

namespace Myself

open Text Prog

/-! ## The responses -/

namespace HttpResponse

def fileBytes (files : Nat → Bytes) (r : HttpResponse) : Bytes :=
  match r.fileBody with
  | none => []
  | some file => file.bytes files

def ownFields (r : HttpResponse) : List (Bytes × Bytes) :=
  r.headers.toList ++
    if r.headers.contains (bytes "Content-Length") then []
    else [(bytes "Content-Length", toText r.body.length)]

/-- Two responses that say the same, over the files they are sent from. -/
structure Alike (files files' : Nat → Bytes) (r r' : HttpResponse) : Prop where
  statusCode : r.statusCode = r'.statusCode
  statusMessage : r.statusMessage = r'.statusMessage
  oneLine : r.OneLine ∧ r'.OneLine
  fields : r.ownFields.Perm r'.ownFields
  payload : r.body ++ r.fileBytes files = r'.body ++ r'.fileBytes files'
  inside : (∀ file, r.fileBody = some file → file.Inside files) ∧
    ∀ file, r'.fileBody = some file → file.Inside files'

variable {files files' : Nat → Bytes} {r r' : HttpResponse}

theorem Alike.symm (h : Alike files files' r r') : Alike files' files r' r :=
  ⟨h.statusCode.symm, h.statusMessage.symm, h.oneLine.symm, h.fields.symm, h.payload.symm,
    h.inside.symm⟩

theorem Alike.trans {files'' : Nat → Bytes} {r'' : HttpResponse} (h : Alike files files' r r')
    (h' : Alike files' files'' r' r'') : Alike files files'' r r'' :=
  ⟨h.statusCode.trans h'.statusCode, h.statusMessage.trans h'.statusMessage,
    ⟨h.oneLine.1, h'.oneLine.2⟩, h.fields.trans h'.fields, h.payload.trans h'.payload,
    h.inside.1, h'.inside.2⟩

theorem alike_of_noFile (h : r.OneLine) (hf : r.fileBody = none) : Alike files files' r r := by
  have hbytes : ∀ files : Nat → Bytes, r.fileBytes files = [] := by
    intro files
    simp [fileBytes, hf]
  refine ⟨rfl, rfl, ⟨h, h⟩, .refl _, ?_, ?_⟩
  · rw [hbytes, hbytes]
  · simp [hf]

end HttpResponse

theorem noLF_hexText (n : Nat) : LF ∉ hexText n := by
  unfold hexText
  split
  · decide
  · intro h
    obtain ⟨d, hd, heq⟩ := List.mem_map.mp (List.mem_reverse.mp h)
    have hlt : d < 16 := Nat.digits_lt_base (by decide) hd
    have hne : ∀ d < 16, hexDigit d ≠ LF := by decide
    exact hne d hlt heq

theorem noLF_makeETag (mtime size : Int) : LF ∉ makeETag mtime size := by
  intro hin
  have hbytes : LF ∉ bytes "\"" ∧ LF ∉ bytes "-" := by decide
  have htext := List.mem_of_mem_take hin
  simp only [List.mem_append, hbytes, noLF_hexText, or_self] at htext

namespace Router

theorem noLF_contentTypeFor (path : Bytes) : LF ∉ contentTypeFor path := by
  have hite : ∀ {c : Prop} [Decidable c] {s t : Bytes}, LF ∉ s → LF ∉ t → LF ∉ if c then s else t := by
    intro c _ s t hs ht
    split
    · exact hs
    · exact ht
  unfold contentTypeFor
  dsimp only
  repeat refine hite (by decide +kernel) ?_
  decide +kernel

def Whole (disk : Disk) (files : Nat → Bytes) : Prop :=
  ∀ path info, disk.stat path = some info → info.isReg = true →
    (disk.openFile path = none ∧ disk.ifstream path = none) ∨
    ∃ fd, disk.openFile path = some fd ∧ disk.ifstream path = some (files fd) ∧
      (files fd).length = info.st_size

structure Static (r : Router) (request : HttpRequest) : Prop where
  handlers : r.handlers[request.path]? = none
  prefixes : r.prefixHandler request.path = none
  method : request.method = .kGet ∨ request.method = .kHead

def fileFields (path etag lastModified : Bytes) : List (Bytes × Bytes) :=
  [(bytes "Content-Type", contentTypeFor path), (bytes "ETag", etag),
    (bytes "Last-Modified", lastModified), (bytes "Cache-Control", bytes "no-cache")]

def memoryFile (path etag lastModified body : Bytes) : HttpResponse :=
  ((({ } : HttpResponse).setStatus 200 (bytes "OK")).withHeaders
    (fileFields path etag lastModified)).setBody body

def openedFile (path etag lastModified : Bytes) (size fd : Nat) : HttpResponse :=
  ((({ } : HttpResponse).setStatus 200 (bytes "OK")).withHeaders
    ((fileFields path etag lastModified).insertIdx 1 (bytes "Content-Length", toText size))).setFileBody
      ⟨fd, 0, size⟩

section
variable {path etag lastModified : Bytes}

theorem memoryFile_toList (body : Bytes) :
    (memoryFile path etag lastModified body).headers.toList.Perm
      (fileFields path etag lastModified) := by
  have hn : ((fileFields path etag lastModified).map Prod.fst).Nodup := by
    simp only [fileFields, List.map_cons, List.map_nil]
    decide
  exact HttpResponse.withHeaders_toList hn (r := ({ } : HttpResponse).setStatus 200 (bytes "OK"))
    fun f _ => Std.TreeMap.not_mem_emptyc

theorem openedFile_toList (size fd : Nat) :
    (openedFile path etag lastModified size fd).headers.toList.Perm
      ((bytes "Content-Length", toText size) :: fileFields path etag lastModified) := by
  have hn : (((fileFields path etag lastModified).insertIdx 1
      (bytes "Content-Length", toText size)).map Prod.fst).Nodup := by
    simp only [fileFields, List.insertIdx_succ_cons, List.insertIdx_zero, List.map_cons,
      List.map_nil]
    decide
  have h := HttpResponse.withHeaders_toList hn
    (r := ({ } : HttpResponse).setStatus 200 (bytes "OK")) fun f _ => Std.TreeMap.not_mem_emptyc
  exact h.trans (List.Perm.swap _ _ _)

variable (he : LF ∉ etag) (hl : LF ∉ lastModified)
include he hl

theorem fileFields_plain :
    ∀ f ∈ fileFields path etag lastModified, COLON ∉ f.1 ∧ LF ∉ f.1 ∧ LF ∉ f.2 := by
  simp only [fileFields, List.forall_mem_cons, List.not_mem_nil, false_imp_iff, implies_true,
    and_true]
  exact ⟨⟨by decide, by decide, noLF_contentTypeFor path⟩, ⟨by decide, by decide, he⟩,
    ⟨by decide, by decide, hl⟩, by decide⟩

theorem memoryFile_oneLine (body : Bytes) : (memoryFile path etag lastModified body).OneLine := by
  have hempty : (({ } : HttpResponse).setStatus 200 (bytes "OK")).OneLine :=
    HttpResponse.oneLine_of_noHeaders rfl (by decide)
  exact (hempty.withHeaders (fileFields_plain he hl)).setBody body

theorem openedFile_oneLine (size fd : Nat) : (openedFile path etag lastModified size fd).OneLine := by
  have hempty : (({ } : HttpResponse).setStatus 200 (bytes "OK")).OneLine :=
    HttpResponse.oneLine_of_noHeaders rfl (by decide)
  refine (hempty.withHeaders fun f hin => ?_).setFileBody _
  have hname : COLON ∉ bytes "Content-Length" ∧ LF ∉ bytes "Content-Length" := by decide
  rcases List.eq_or_mem_of_mem_insertIdx hin with rfl | hin
  · exact ⟨hname.1, hname.2, noLF_toText _⟩
  · exact fileFields_plain he hl f hin

theorem alike_files {files files' : Nat → Bytes} {body : Bytes} {fd : Nat} (hf : files' fd = body) :
    HttpResponse.Alike files files' (memoryFile path etag lastModified body)
      (openedFile path etag lastModified body.length fd) := by
  have hlist := @memoryFile_toList path etag lastModified body
  have hlist' := @openedFile_toList path etag lastModified body.length fd
  have hone := @memoryFile_oneLine path _ _ he hl body
  have hone' := @openedFile_oneLine path _ _ he hl body.length fd
  obtain ⟨headers, heq⟩ : ∃ headers, memoryFile path etag lastModified body =
      { statusCode := 200, statusMessage := bytes "OK", headers := headers, body := body } := by
    obtain ⟨headers, heq⟩ := HttpResponse.withHeaders_same (fileFields path etag lastModified)
      (({ } : HttpResponse).setStatus 200 (bytes "OK"))
    exact ⟨headers, by rw [memoryFile, heq]; rfl⟩
  obtain ⟨headers', heq'⟩ : ∃ headers', openedFile path etag lastModified body.length fd =
      { statusCode := 200, statusMessage := bytes "OK", headers := headers',
        fileBody := some ⟨fd, 0, body.length⟩ } := by
    obtain ⟨headers', heq'⟩ := HttpResponse.withHeaders_same
      ((fileFields path etag lastModified).insertIdx 1 (bytes "Content-Length", toText body.length))
      (({ } : HttpResponse).setStatus 200 (bytes "OK"))
    exact ⟨headers', by rw [openedFile, heq']; rfl⟩
  rw [heq] at hlist hone ⊢
  rw [heq'] at hlist' hone' ⊢
  have hnames : bytes "Content-Length" ∉ (fileFields path etag lastModified).map Prod.fst := by
    simp only [fileFields, List.map_cons, List.map_nil]
    decide
  have hmem : headers.contains (bytes "Content-Length") = false := by
    rw [← Bool.not_eq_true, HttpResponse.contains_iff, (hlist.map Prod.fst).mem_iff]
    exact hnames
  have hmem' : headers'.contains (bytes "Content-Length") = true := by
    rw [HttpResponse.contains_iff, (hlist'.map Prod.fst).mem_iff]
    exact List.mem_cons_self ..
  refine ⟨rfl, rfl, ⟨hone, hone'⟩, ?_, ?_, ?_, ?_⟩
  · simp only [HttpResponse.ownFields, hmem, hmem', Bool.false_eq_true, if_true, if_false,
      List.append_nil]
    exact ((hlist.append_right _).trans (List.perm_append_singleton _ _)).trans hlist'.symm
  · show body ++ [] = [] ++ FileBody.bytes files' ⟨fd, 0, body.length⟩
    rw [FileBody.bytes, hf]
    simp
  · exact fun _ h => by cases h
  · intro file h
    cases h
    show 0 + body.length ≤ (files' fd).length
    rw [hf, Nat.zero_add]

end

theorem notModified_oneLine {etag lastModified : Bytes} (he : LF ∉ etag) (hl : LF ∉ lastModified) :
    (((({ } : HttpResponse).setStatus 304 (bytes "Not Modified")).setHeader
      (bytes "ETag") etag).setHeader (bytes "Last-Modified") lastModified).setHeader
        (bytes "Cache-Control") (bytes "no-cache") |>.OneLine := by
  have h : (({ } : HttpResponse).setStatus 304 (bytes "Not Modified")).OneLine :=
    HttpResponse.oneLine_of_noHeaders rfl (by decide)
  exact ((h.setHeader (by decide) he).setHeader (by decide) hl).setHeader (by decide) (by decide)

theorem notFound_oneLine : HttpResponse.notFound.OneLine := by
  have h : (({ closeConnection := true } : HttpResponse).setStatus 404 (bytes "Not Found")).OneLine :=
    HttpResponse.oneLine_of_noHeaders rfl (by decide)
  exact (h.setHeader (by decide) (by decide)).setBody _

variable {disk : Disk} {files files' : Nat → Bytes}

def serveRegular (disk : Disk) (fullPath path etag lastModified : Bytes) (size t : Nat) :
    HttpResponse :=
  if t > 0 ∧ size ≥ t then serveFileBody disk fullPath path size etag lastModified
  else match readBody disk fullPath size with
    | none => HttpResponse.notFound
    | some body => memoryFile path etag lastModified body

theorem serve_regular (r : Router) {path : Bytes} {request : HttpRequest} {info : FileStat}
    (hstat : disk.stat (cStr (r.wwwRoot ++ path)) = some info) (hreg : info.isReg = true)
    (hnew : isNotModified request (makeETag info.st_mtime info.st_size) info.st_mtime = false) :
    r.serveStaticFile disk path request =
      serveRegular disk (r.wwwRoot ++ path) path (makeETag info.st_mtime info.st_size)
        (formatHttpDate info.st_mtime) info.st_size r.zeroCopyThreshold := by
  simp only [serveStaticFile, hstat, hreg, hnew, Bool.true_eq_false, Bool.false_eq_true, if_false]
  rfl

theorem serveRegular_alike {etag lastModified fullPath : Bytes} {info : FileStat} (he : LF ∉ etag)
    (hl : LF ∉ lastModified) (hw : Whole disk files) (hw' : Whole disk files')
    (hstat : disk.stat (cStr fullPath) = some info) (hreg : info.isReg = true)
    (path : Bytes) (t t' : Nat) :
    HttpResponse.Alike files files'
      (serveRegular disk fullPath path etag lastModified info.st_size t)
      (serveRegular disk fullPath path etag lastModified info.st_size t') := by
  by_cases hsize : info.st_size = 0
  · -- an empty file is below every threshold, and is not opened
    have hsame : ∀ t, serveRegular disk fullPath path etag lastModified info.st_size t =
        memoryFile path etag lastModified [] := by
      intro t
      have hbelow : ¬ (t > 0 ∧ info.st_size ≥ t) := by omega
      simp only [serveRegular, if_neg hbelow, readBody, if_pos hsize]
    rw [hsame, hsame]
    exact HttpResponse.alike_of_noFile (memoryFile_oneLine he hl []) rfl
  rcases hw _ _ hstat hreg with ⟨hopen, hread⟩ | ⟨fd, hopen, hread, hlen⟩
  · have hsame : ∀ t, serveRegular disk fullPath path etag lastModified info.st_size t =
        HttpResponse.notFound := by
      intro t
      simp only [serveRegular, serveFileBody, readBody, if_neg hsize, hopen, hread, Option.map_none,
        ite_self]
    rw [hsame, hsame]
    exact HttpResponse.alike_of_noFile notFound_oneLine rfl
  · have hmemory : ∀ (g : Nat → Bytes) (t : Nat), g fd = files fd → HttpResponse.Alike files g
        (memoryFile path etag lastModified (files fd))
        (serveRegular disk fullPath path etag lastModified info.st_size t) := by
      intro g t hg
      have hbody : readBody disk fullPath info.st_size = some (files fd) := by
        rw [readBody, if_neg hsize, hread, Option.map_some, ← hlen, List.take_length]
      have hfile : serveFileBody disk fullPath path info.st_size etag lastModified =
          openedFile path etag lastModified (files fd).length fd := by
        simp only [serveFileBody, hopen, hlen]
        rfl
      simp only [serveRegular, hbody, hfile]
      split
      · exact alike_files he hl hg
      · exact HttpResponse.alike_of_noFile (memoryFile_oneLine he hl _) rfl
    -- the other world keeps the same bytes under the descriptor
    have hsame : files' fd = files fd := by
      rcases hw' _ _ hstat hreg with ⟨hopen', -⟩ | ⟨fd', hopen', hread', -⟩
      · rw [hopen] at hopen'
        cases hopen'
      · rw [hopen] at hopen'
        rw [hread] at hread'
        cases hopen'
        exact (Option.some.inj hread').symm
    exact (hmemory files t rfl).symm.trans (hmemory files' t' hsame)

/-- The threshold chooses between two answers that are alike. -/
theorem serveStaticFile_alike (r : Router) (hw : Whole disk files) (hw' : Whole disk files')
    (path : Bytes) (request : HttpRequest) (t t' : Nat) :
    HttpResponse.Alike files files'
      ((r.setZeroCopyThreshold t).serveStaticFile disk path request)
      ((r.setZeroCopyThreshold t').serveStaticFile disk path request) := by
  have hnot : HttpResponse.Alike files files' HttpResponse.notFound HttpResponse.notFound :=
    HttpResponse.alike_of_noFile notFound_oneLine rfl
  cases hstat : disk.stat (cStr (r.wwwRoot ++ path)) with
  | none =>
    simp only [serveStaticFile, setZeroCopyThreshold, hstat]
    exact hnot
  | some info =>
    cases hreg : info.isReg with
    | false =>
      simp only [serveStaticFile, setZeroCopyThreshold, hstat, hreg, if_true]
      exact hnot
    | true =>
      have he := noLF_makeETag info.st_mtime info.st_size
      have hl := noLF_formatHttpDate info.st_mtime
      cases hnew : isNotModified request (makeETag info.st_mtime info.st_size) info.st_mtime with
      | true =>
        simp only [serveStaticFile, setZeroCopyThreshold, hstat, hreg, hnew, Bool.true_eq_false,
          if_true, if_false]
        exact HttpResponse.alike_of_noFile (notModified_oneLine he hl) rfl
      | false =>
        rw [serve_regular (r.setZeroCopyThreshold t) hstat hreg hnew,
          serve_regular (r.setZeroCopyThreshold t') hstat hreg hnew]
        exact serveRegular_alike he hl hw hw' hstat hreg path t t'

theorem badRequest_oneLine : (HttpResponse.badRequest (bytes "Bad Request")).OneLine := by
  have h : (({ closeConnection := true } : HttpResponse).setStatus 400 (bytes "Bad Request")).OneLine :=
    HttpResponse.oneLine_of_noHeaders rfl (by decide)
  exact (h.setHeader (by decide) (by decide)).setBody _

theorem handle_alike {r : Router} {request : HttpRequest} (hr : r.Static request)
    (hw : Whole disk files) (hw' : Whole disk files') (clientIp : Bytes) (t t' : Nat) :
    HttpResponse.Alike files files' ((r.setZeroCopyThreshold t).handle disk request clientIp)
      ((r.setZeroCopyThreshold t').handle disk request clientIp) := by
  have hfile : ∀ t, isPathSafe request.path = true →
      (r.setZeroCopyThreshold t).handle disk request clientIp =
        (r.setZeroCopyThreshold t).serveStaticFile disk
          (if request.path = [SLASH] then bytes "/index.html" else request.path) request := by
    intro t hsafe
    have hmethod : ¬ (request.method ≠ .kGet ∧ request.method ≠ .kHead) := by
      rcases hr.method with h | h <;> simp [h]
    have hprefix : (r.setZeroCopyThreshold t).prefixHandler request.path = none := hr.prefixes
    have hhandlers : (r.setZeroCopyThreshold t).handlers[request.path]? = none := hr.handlers
    simp only [handle, hsafe, Bool.true_eq_false, if_false, hhandlers, hprefix, if_neg hmethod]
  cases hsafe : isPathSafe request.path with
  | false =>
    simp only [handle, hsafe, if_true]
    exact HttpResponse.alike_of_noFile badRequest_oneLine rfl
  | true =>
    rw [hfile t hsafe, hfile t' hsafe]
    exact serveStaticFile_alike r hw hw' _ request t t'

end Router

/-! ## What is put on the connection -/

section
variable {σ : Type} {c : Prop} {files : Nat → Bytes} {sent : Bytes} {w w' : World σ}

def World.writing (w : World σ) : TcpConnection × Reactor × Bytes × (Nat → Bytes) × List Syscall ×
    List Answer × List Answer × List Answer :=
  (w.conn, w.reactor, w.wire, w.files, w.trace, w.writes, w.sendfiles, w.preads)

theorem Inv.of_writing (h : Inv c files sent w) (hs : w'.writing = w.writing) :
    Inv c files sent w' := by
  simp only [World.writing, Prod.mk.injEq] at hs
  obtain ⟨hconn, hreactor, hwire, hfiles, htrace, hwrites, hsendfiles, hpreads⟩ := hs
  have henv : Env c files w' := by
    have he := h.env
    refine ⟨?_, ?_, ?_, hfiles.trans he.files, htrace ▸ he.trace⟩
    · rw [hwrites]; exact he.writes
    · rw [hsendfiles]; exact he.sendfiles
    · rw [hpreads]; exact he.preads
  rcases h with h | h
  · exact Or.inl ⟨henv, hconn ▸ h.isClosed, hconn ▸ h.socket, h.failing⟩
  · refine Or.inr ⟨h.toMid.of_conn hconn hreactor henv fun _ => hwire, ?_⟩
    simp only [World.left, hconn]
    exact h.drained

theorem Inv.wire_prefix (h : Inv True files sent w) : w.wire <+: sent :=
  ⟨_, h.described.bytes⟩

end

/-- All that a program does on the connection is to hand over `bytes`; the
kernel may leave a call unanswered. -/
def Puts {σ : Type} (p : Prog (World σ) Unit) (files : Nat → Bytes) (bytes : Bytes) (w : World σ) :
    Prop :=
  wp p (fun _ w' => Described files bytes w') (fun w' => w'.wire <+: bytes) w

namespace Session

def answerBytes (files : Nat → Bytes) (site : Site) (n : Nat) (reply : Reply) : Bytes :=
  let headOnly := decide (reply.request.method = .kHead)
  let response := reply.response.setCloseConnection (!reply.request.keepAlive)
  response.serialize (site.date n) (!headOnly) ++ if headOnly then [] else response.fileBytes files

variable {files : Nat → Bytes} {sent : Bytes} {w : World Session}

theorem sendFileBody_spec (h : Inv True files sent w) (headOnly : Bool) {response : HttpResponse}
    (hin : ∀ file, response.fileBody = some file → file.Inside files) :
    wp (sendFileBody headOnly response.fileBody)
      (fun _ w' => Inv True files (sent ++ if headOnly then [] else response.fileBytes files) w')
      (fun w' => w'.wire <+: sent ++ if headOnly then [] else response.fileBytes files) w := by
  unfold sendFileBody
  cases headOnly with
  | true =>
    simp only [wp_pure, if_true, List.append_nil]
    exact h
  | false =>
    simp only [HttpResponse.fileBytes, Bool.false_eq_true, if_false]
    cases hfile : response.fileBody with
    | none =>
      simp only [wp_pure, List.append_nil]
      exact h
    | some file =>
      refine wp_mono (TcpConnection.sendFile_spec (fun hc => absurd trivial hc) h
        fun _ => hin file hfile) (fun _ _ hi => hi) ?_
      rintro w' (hi | hi)
      · exact hi.wire_prefix.trans (List.prefix_append _ _)
      · exact hi.wire_prefix

theorem respond_spec (h : Inv True files sent w) (site : Site) (reply : Reply)
    (hin : ∀ file, reply.response.fileBody = some file → file.Inside files) :
    wp (respond site reply)
      (fun _ w' => Inv True files (sent ++ answerBytes files site w.app.sent.length reply) w')
      (fun w' => w'.wire <+: sent ++ answerBytes files site w.app.sent.length reply) w := by
  have hcb : ¬ True → Keeps (fun w : World Session => (w.conn, w.files, w.trace)) closeCallback :=
    fun hc => absurd trivial hc
  have hcount : wp (countNotModified reply.response.statusCode)
      (fun _ w' => w'.writing = w.writing ∧ w'.app = w.app) (fun _ => False) w := by
    unfold countNotModified
    split <;> exact ⟨rfl, rfl⟩
  unfold respond
  rw [wp_bind]
  refine wp_mono hcount ?_ (fun _ hf => hf.elim)
  rintro _ w₁ ⟨hwriting, happ⟩
  have h₁ : Inv True files sent w₁ := h.of_writing hwriting
  simp only [sendResponse, wp_bind, wp_world, wp_update, happ]
  have h₂ : Inv True files sent (w₁.mapApp fun s => s.sending (some reply.index) (!reply.request.keepAlive)) :=
    h₁.of_writing rfl
  refine wp_mono (TcpConnection.send_spec hcb h₂ _) ?_
    (fun _ hi => hi.wire_prefix.trans (List.prefix_append _ _))
  intro _ w₃ h₃
  have hfile := @sendFileBody_spec _ _ _ h₃ (decide (reply.request.method = .kHead))
    (reply.response.setCloseConnection (!reply.request.keepAlive)) hin
  rw [List.append_assoc] at hfile
  refine wp_mono hfile ?_ (fun _ hi => hi)
  intro _ w₄ h₄
  have h₅ : Inv True files _ (w₄.requestFinished reply.response.statusCode) := h₄.of_writing rfl
  unfold endUnless
  rw [wp_ite]
  split
  · exact h₅
  · exact wp_mono (TcpConnection.shutdownWrite_spec h₅ (E := fun _ => False)) (fun _ _ hi => hi)
      (fun _ hf => hf.elim)

end Session

/-! ## What the client reads -/

def withoutDate (fields : List (Bytes × Bytes)) : List (Bytes × Bytes) :=
  fields.filter fun f => toLower f.1 ≠ bytes "date"

/-- Two messages with the same status line, the same fields, up to the date
and their order, and the same body. -/
def SameAnswer (a b : Bytes) : Prop :=
  ∃ m n, Head.read .crlf a = some m ∧ Head.read .crlf b = some n ∧ m.first = n.first ∧
    (withoutDate m.fields).Perm (withoutDate n.fields) ∧ m.body = n.body

theorem withoutDate_fieldList (r : HttpResponse) (httpDate : Bytes) :
    withoutDate ((r.fieldList httpDate).map fun f => (f.1, trim f.2)) =
      withoutDate (((bytes "Server", bytes "MyselfWebServer") :: (r.ownFields ++
        [(bytes "Connection", if r.closeConnection then bytes "close" else bytes "keep-alive")])).map
          fun f => (f.1, trim f.2)) := by
  have hlist : r.fieldList httpDate = (bytes "Server", bytes "MyselfWebServer") ::
      (bytes "Date", httpDate) :: (r.ownFields ++
        [(bytes "Connection", if r.closeConnection then bytes "close" else bytes "keep-alive")]) := by
    simp only [HttpResponse.fieldList, HttpResponse.ownFields, List.append_assoc, List.cons_append,
      List.nil_append]
  have hdate : toLower (bytes "Date") = bytes "date" := by decide
  rw [hlist]
  simp only [withoutDate, List.map_cons, List.filter_cons, hdate, ne_eq, not_true_eq_false,
    decide_false, Bool.false_eq_true, if_false]

def Site.Dated (site : Site) : Prop := ∀ n, ∃ now, site.date n = formatHttpDate now

theorem answerBytes_same {files files' : Nat → Bytes} {site site' : Site} (hs : site.Dated)
    (hs' : site'.Dated) (n n' index index' : Nat) (request : HttpRequest) {r r' : HttpResponse}
    (h : HttpResponse.Alike files files' r r') :
    SameAnswer (Session.answerBytes files site n ⟨index, request, r⟩)
      (Session.answerBytes files' site' n' ⟨index', request, r'⟩) := by
  obtain ⟨now, hnow⟩ := hs n
  obtain ⟨now', hnow'⟩ := hs' n'
  have hone := h.oneLine.1.setCloseConnection (!request.keepAlive)
  have hone' := h.oneLine.2.setCloseConnection (!request.keepAlive)
  have hd : LF ∉ site.date n := hnow ▸ noLF_formatHttpDate now
  have hd' : LF ∉ site'.date n' := hnow' ▸ noLF_formatHttpDate now'
  refine ⟨_, _, HttpResponse.read_serialize hone hd _ _, HttpResponse.read_serialize hone' hd' _ _,
    ?_, ?_, ?_⟩
  · simp only [HttpResponse.statusLine, HttpResponse.setCloseConnection, h.statusCode,
      h.statusMessage]
  · rw [withoutDate_fieldList, withoutDate_fieldList]
    refine List.Perm.filter _ (List.Perm.map _ (List.Perm.cons _ ?_))
    exact h.fields.append_right _
  · cases decide (request.method = .kHead) with
    | true => rfl
    | false => exact h.payload

/-! ## Runs -/

namespace Call

variable {closeCallback : Prog (World Session) Unit} (hcb : Keeps World.reading closeCallback)
include hcb

theorem performAll_keeps (calls : List Call) : Keeps World.reading (performAll closeCallback calls) := by
  induction calls with
  | nil => exact Keeps.pure _
  | cons call calls ih =>
    refine Keeps.bind ?_ fun _ => ih
    cases call with
    | send data => exact TcpConnection.send_keeps hcb data
    | sendFile file => exact TcpConnection.sendFile_keeps hcb file
    | shutdownWrite => exact TcpConnection.shutdownWrite_keeps
    | writeEvent => exact TcpConnection.handleWrite_keeps hcb

end Call

/-- What `respond` puts on a connection that has been at work. -/
theorem respond_puts {w : World Session} (hw : Fresh w) (hwrites : ∀ a ∈ w.writes, a.Progress)
    (hsendfiles : ∀ a ∈ w.sendfiles, a.Progress) (hpreads : ∀ a ∈ w.preads, a.Reads)
    (calls : List Call) (hcalls : ∀ file, .sendFile file ∈ calls → file.Inside w.files)
    (site : Site) (reply : Reply)
    (hin : ∀ file, reply.response.fileBody = some file → file.Inside w.files) :
    Puts (do
        TcpConnection.start
        Call.performAll Session.closeCallback calls
        Session.respond site reply) w.files
      (calls.flatMap (Call.bytes w.files) ++
        Session.answerBytes w.files site w.app.sent.length reply) w := by
  have he : Env True w.files w := by
    refine ⟨fun _ => hwrites, fun _ => hsendfiles, fun _ => hpreads, rfl, ?_⟩
    rw [hw.trace]
    exact ⟨fun _ _ hm => absurd hm List.not_mem_nil, fun before _ _ _ heq => by simp at heq⟩
  have hkeeps : Keeps World.reading (do
      TcpConnection.start
      Call.performAll Session.closeCallback calls) := by
    refine Keeps.bind ?_ fun _ => Call.performAll_keeps Session.closeCallback_keeps calls
    exact Keeps.update_bind (fun _ => rfl) (Keeps.update fun _ => rfl)
  have hcalled : wp (do
        TcpConnection.start
        Call.performAll Session.closeCallback calls)
      (fun _ w' => Inv True w.files (calls.flatMap (Call.bytes w.files)) w')
      (fun w' => w'.wire <+: calls.flatMap (Call.bytes w.files)) w := by
    rw [wp_bind]
    refine wp_mono (start_spec hw he (E := fun _ => False)) ?_ (fun _ hf => hf.elim)
    intro _ w₁ h₁
    refine wp_mono (Call.performAll_spec (c := True) (fun hc => absurd trivial hc) calls
      (fun _ => hcalls) [] w₁ (Or.inr h₁)) (fun _ _ hi => hi) ?_
    rintro w₂ ⟨before, call, after, rfl, h₂ | h₂⟩
    · refine h₂.wire_prefix.trans ?_
      rw [List.flatMap_append]
      exact List.prefix_append _ _
    · refine h₂.wire_prefix.trans ?_
      have hall : (before ++ call :: after).flatMap (Call.bytes w.files) =
          (before ++ [call]).flatMap (Call.bytes w.files) ++ after.flatMap (Call.bytes w.files) := by
        simp
      rw [hall]
      exact List.prefix_append _ _
  have hsplit : (do
        TcpConnection.start
        Call.performAll Session.closeCallback calls
        Session.respond site reply : Prog (World Session) Unit) = (do
          TcpConnection.start
          Call.performAll Session.closeCallback calls) >>= fun _ => Session.respond site reply := by
    funext v
    simp only [Bind.bind]
    cases (TcpConnection.start v : Outcome (World Session) Unit) <;> rfl
  rw [Puts, hsplit, wp_bind]
  refine wp_mono (wp_and hcalled hkeeps.wp) ?_
    (fun _ hi => hi.1.trans (List.prefix_append _ _))
  rintro _ w₁ ⟨h₁, hreading⟩
  simp only [World.reading, Prod.mk.injEq] at hreading
  have hrespond := Session.respond_spec h₁ site reply hin
  rw [hreading.2.2] at hrespond
  exact wp_mono hrespond (fun _ _ hi => hi.described) (fun _ hi => hi)

/-- A new connection, the calls on it, and the files behind its server. -/
structure Ready (disk : Disk) (calls : List Call) (w : World Session) : Prop where
  fresh : Fresh w
  writes : ∀ a ∈ w.writes, a.Progress
  sendfiles : ∀ a ∈ w.sendfiles, a.Progress
  preads : ∀ a ∈ w.preads, a.Reads
  inside : ∀ file, .sendFile file ∈ calls → file.Inside w.files
  whole : Router.Whole disk w.files

/-- **The threshold makes no difference to the client.** Two connections with
any past are answered with two thresholds. -/
theorem zero_copy_agrees {r : Router} {request : HttpRequest} (hr : r.Static request)
    (clientIp : Bytes) (t t' : Nat) {disk : Disk} {calls calls' : List Call}
    {w w' : World Session} (h : Ready disk calls w) (h' : Ready disk calls' w')
    {site site' : Site} (hs : site.Dated) (hs' : site'.Dated) (index index' : Nat) :
    ∃ a b,
      Puts (do
        TcpConnection.start
        Call.performAll Session.closeCallback calls
        Session.respond site
          ⟨index, request, (r.setZeroCopyThreshold t).handle disk request clientIp⟩)
        w.files (calls.flatMap (Call.bytes w.files) ++ a) w ∧
      Puts (do
        TcpConnection.start
        Call.performAll Session.closeCallback calls'
        Session.respond site'
          ⟨index', request, (r.setZeroCopyThreshold t').handle disk request clientIp⟩)
        w'.files (calls'.flatMap (Call.bytes w'.files) ++ b) w' ∧
      SameAnswer a b := by
  have halike := Router.handle_alike hr h.whole h'.whole clientIp t t'
  refine ⟨_, _, ?_, ?_, answerBytes_same hs hs' w.app.sent.length w'.app.sent.length
    index index' request halike⟩
  · exact respond_puts h.fresh h.writes h.sendfiles h.preads calls h.inside site _ halike.inside.1
  · exact respond_puts h'.fresh h'.writes h'.sendfiles h'.preads calls' h'.inside site' _
      halike.inside.2

def smallDisk : Disk where
  stat path := if path = bytes "www/a.txt" then some ⟨true, 784111777, 5⟩ else none
  openFile path := if path = bytes "www/a.txt" then some 3 else none
  ifstream path := if path = bytes "www/a.txt" then some (bytes "hello") else none

def smallRequest : HttpRequest := { method := .kGet, path := bytes "/a.txt", keepAlive := true }

def quietSite : Site where
  workerThreads := 0
  proxyEnabled := false
  proxyPrefix := []
  acquire _ := true
  handle _ _ := {}
  date _ := formatHttpDate 0

@[irreducible] def smallWorld : World Session :=
  TcpConnection.accepted 7 [.count 1, .again, .count 400] [.count 2, .count 3] []
    (fun _ => bytes "hello") {}

theorem smallWorld_ready : Ready smallDisk [] smallWorld := by
  have hfiles : ∀ fd, smallWorld.files fd = bytes "hello" := by
    intro fd
    rw [smallWorld, TcpConnection.accepted]
  refine ⟨?_, ?_, ?_, ?_, fun file hin => absurd hin List.not_mem_nil, ?_⟩
  · rw [smallWorld]
    exact TcpConnection.accepted_fresh ..
  · simp [smallWorld, TcpConnection.accepted, Answer.Progress]
  · simp [smallWorld, TcpConnection.accepted, Answer.Progress]
  · simp [smallWorld, TcpConnection.accepted]
  · intro path info hstat hreg
    by_cases hpath : path = bytes "www/a.txt"
    · right
      refine ⟨3, ?_, ?_, ?_⟩
      · simp [smallDisk, hpath]
      · simp [smallDisk, hpath, hfiles]
      · simp only [smallDisk, hpath, if_true, Option.some.injEq] at hstat
        rw [hfiles, ← hstat]
        decide
    · simp [smallDisk, hpath] at hstat

/-- The file is read without a threshold, and sent from its descriptor with its size for one. -/
theorem zero_copy_agrees_small :
    ((({ } : Router).setZeroCopyThreshold 0).handle smallDisk smallRequest []).fileBody = none ∧
    ((({ } : Router).setZeroCopyThreshold 5).handle smallDisk smallRequest []).fileBody =
      some ⟨3, 0, 5⟩ ∧
    ∃ a b,
      Puts (do
        TcpConnection.start
        Call.performAll Session.closeCallback []
        Session.respond quietSite
          ⟨0, smallRequest, (({ } : Router).setZeroCopyThreshold 0).handle smallDisk smallRequest []⟩)
        smallWorld.files (([] : List Call).flatMap (Call.bytes smallWorld.files) ++ a) smallWorld ∧
      Puts (do
        TcpConnection.start
        Call.performAll Session.closeCallback []
        Session.respond quietSite
          ⟨0, smallRequest, (({ } : Router).setZeroCopyThreshold 5).handle smallDisk smallRequest []⟩)
        smallWorld.files (([] : List Call).flatMap (Call.bytes smallWorld.files) ++ b) smallWorld ∧
      SameAnswer a b := by
  have hstatic : ({ } : Router).Static smallRequest := ⟨rfl, rfl, Or.inl rfl⟩
  have hdated : quietSite.Dated := fun n => ⟨0, rfl⟩
  refine ⟨by decide +kernel, by decide +kernel, ?_⟩
  exact zero_copy_agrees hstatic [] 0 5 smallWorld_ready smallWorld_ready hdated hdated 0 0

end Myself
