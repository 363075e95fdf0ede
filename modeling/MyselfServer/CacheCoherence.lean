import MyselfServer.Delimited
import MyselfServer.Revalidation
import MyselfServer.TidyResponses

/-!
# Caches of a static file

A client keeps the body of a file with the validator that came with it, asks
with `If-None-Match` or `If-Modified-Since`, and shows what it has where the
answer is 304. With the router's answers this is a cache that revalidates
(`step_simulates`), so it shows the content the file has as long as no change
of the file goes unnoticed by its time and size (`cache_shows_file`).
-/

namespace Myself

open Text

structure FileStamp where
  mtime : Int64
  size : Nat
  deriving DecidableEq

structure FileVersion where
  mtime : Int64
  content : Bytes
  small : content.length < 2 ^ 63

namespace FileVersion

def stamp (v : FileVersion) : FileStamp := ⟨v.mtime, v.content.length⟩

structure On (v : FileVersion) (fullPath : Bytes) (disk : Disk) (files : Nat → Bytes) : Prop where
  stat : disk.stat fullPath = some ⟨true, v.mtime.toInt, v.content.length⟩
  ifstream : disk.ifstream fullPath = some v.content
  openFile : ∃ fd, disk.openFile fullPath = some fd ∧ files fd = v.content

def version (v : FileVersion) : Revalidation.Version FileStamp Bytes := ⟨v.stamp, v.content⟩

end FileVersion

inductive Validator where
  | etag
  | lastModified

namespace Validator

def field : Validator → Bytes
  | etag => bytes "ETag"
  | lastModified => bytes "Last-Modified"

def condition : Validator → Bytes
  | etag => bytes "If-None-Match"
  | lastModified => bytes "If-Modified-Since"

def text : Validator → FileStamp → Bytes
  | etag, stamp => makeETag stamp.mtime.toInt stamp.size
  | lastModified, stamp => formatHttpDate stamp.mtime.toInt

def unchanged : Validator → FileStamp → FileStamp → Bool
  | etag, kept, current => kept = current
  | lastModified, kept, current => current.mtime.toInt ≤ kept.mtime.toInt

def Writes : Validator → FileStamp → Prop
  | etag, stamp => stamp.size < 2 ^ 63
  | lastModified, stamp => 0 ≤ stamp.mtime.toInt ∧ stamp.mtime.toInt ≤ 253402300799

end Validator

/-! ## The client -/

structure Kept where
  validator : Bytes
  body : Bytes
  deriving DecidableEq

namespace Kept

def ask (kind : Validator) (path : Bytes) : Option Kept → HttpRequest
  | none => { method := .kGet, path := path }
  | some kept => ({ method := .kGet, path := path } : HttpRequest).addHeader kind.condition kept.validator

def receive (kind : Validator) (kept : Option Kept) (answer : Head.Msg) : Option Kept :=
  if statusOf answer.first = 304 then kept
  else if statusOf answer.first = 200 then
    match Head.valuesOf answer.fields kind.field with
    | [validator] => some ⟨validator, answer.body⟩
    | _ => none
  else none

end Kept

/-- The file with its past, the current version first, and the client. What
was shown stands next to the content that the file had then. -/
structure FileCache where
  versions : List FileVersion
  kept : Option Kept := none
  shown : List (Option Bytes × Bytes) := []

inductive CacheEvent where
  | change (v : FileVersion)
  | fetch (disk : Disk) (files : Nat → Bytes) (clientIp httpDate : Bytes)

def HttpResponse.message (files : Nat → Bytes) (response : HttpResponse) (httpDate : Bytes) : Head.Msg :=
  Head.Msg.trimmed ⟨response.statusLine, response.fieldList httpDate, response.payload files⟩

namespace FileCache

def staticPath (path : Bytes) : Bytes := if path = [SLASH] then bytes "/index.html" else path

def fullPath (r : Router) (path : Bytes) : Bytes := cStr (r.wwwRoot ++ staticPath path)

def fetch (r : Router) (kind : Validator) (path : Bytes) (disk : Disk) (files : Nat → Bytes) (clientIp httpDate : Bytes)
    (s : FileCache) (current : FileVersion) : FileCache :=
  let response := r.handle disk (Kept.ask kind path s.kept) clientIp
  let kept := Kept.receive kind s.kept (response.message files httpDate)
  { s with kept := kept, shown := s.shown ++ [(kept.map Kept.body, current.content)] }

def step (r : Router) (kind : Validator) (path : Bytes) (s : FileCache) : CacheEvent → Option FileCache
  | .change v => some { s with versions := v :: s.versions }
  | .fetch disk files clientIp httpDate =>
    match s.versions with
    | [] => none
    | current :: _ => some (s.fetch r kind path disk files clientIp httpDate current)

/-- A change that the validator does not show is none. -/
def Noticed (r : Router) (kind : Validator) (path : Bytes) (s : FileCache) : CacheEvent → Prop
  | .change v => kind.Writes v.stamp ∧ ∀ earlier ∈ s.versions, kind.unchanged earlier.stamp v.stamp = true →
      earlier.content = v.content
  | .fetch disk files _ _ => ∀ current ∈ s.versions.head?, current.On (fullPath r path) disk files

end FileCache

/-! ## Validators -/

namespace Validator

variable {kind : Validator} {stamp stamp' : FileStamp}

theorem trim_text (h : kind.Writes stamp) : trim (kind.text stamp) = kind.text stamp := by
  cases kind with
  | etag => exact trim_makeETag _ _
  | lastModified => exact trim_formatHttpDate _

theorem makeETag_stamp (h : stamp.size < 2 ^ 63) (h' : stamp'.size < 2 ^ 63) :
    makeETag stamp.mtime.toInt stamp.size = makeETag stamp'.mtime.toInt stamp'.size ↔ stamp = stamp' := by
  have hsize : ∀ {n : Nat}, n < 2 ^ 63 → (Int64.ofNat n).toInt = n := by
    intro n hn
    exact Int64.toInt_ofNat_of_lt hn
  constructor
  · intro heq
    rw [← hsize h, ← hsize h'] at heq
    obtain ⟨hmtime, hofNat⟩ := makeETag_inj heq
    have hnat : (stamp.size : Int) = stamp'.size := by rw [← hsize h, ← hsize h', hofNat]
    cases stamp
    cases stamp'
    simp only [FileStamp.mk.injEq]
    exact ⟨hmtime, Int.ofNat_inj.mp hnat⟩
  · rintro rfl
    rfl

def tagValue (mtime size : Int) : TagList.Value := .tags
  [⟨[], some ⟨false, Myself.stamp mtime size, fun _ h => (stamp_plain h).1⟩, [], fun _ h => absurd h List.not_mem_nil⟩]

theorem tagValue_text (mtime size : Int) : (tagValue mtime size).text = makeETag mtime size := by
  rw [makeETag_quoted]
  simp [tagValue, TagList.Value.text, TagList.Element.text, TagList.Tag.text, TagList.Tag.quoted]

theorem tagValue_names (mtime size : Int) (etag : Bytes) :
    (tagValue mtime size).Names etag ↔ makeETag mtime size = etag := by
  rw [makeETag_quoted]
  simp [tagValue, TagList.Value.Names, TagList.Tag.quoted]

theorem getHeader_bare (path name : Bytes) :
    ({ method := .kGet, path := path } : HttpRequest).getHeader name = [] := by
  have hnone : (({ method := .kGet, path := path } : HttpRequest).headers[toLower name]?) = none :=
    Std.TreeMap.getElem?_emptyc
  unfold HttpRequest.getHeader
  rw [hnone]
  rfl

/-- **The server finds a stamp unchanged** exactly where the validator says so. -/
theorem isNotModified_ask (h : kind.Writes stamp) (h' : kind.Writes stamp') (path body : Bytes) :
    isNotModified (Kept.ask kind path (some ⟨kind.text stamp, body⟩))
      (makeETag stamp'.mtime.toInt stamp'.size) stamp'.mtime.toInt = kind.unchanged stamp stamp' := by
  have htrim := trim_text h
  cases kind with
  | etag =>
    have hvalue : (Kept.ask .etag path (some ⟨text .etag stamp, body⟩)).getHeader (bytes "If-None-Match") =
        makeETag stamp.mtime.toInt stamp.size := by
      unfold Kept.ask
      rw [HttpRequest.getHeader_addHeader, if_pos (by decide), htrim]
      rfl
    have hne : (makeETag stamp.mtime.toInt stamp.size) ≠ [] := by
      rw [makeETag_quoted]
      exact List.cons_ne_nil _ _
    have hempty : (makeETag stamp.mtime.toInt stamp.size).isEmpty = false := by simpa using hne
    have hmatch := @etagMatches_iff (tagValue stamp.mtime.toInt stamp.size) stamp'.mtime.toInt stamp'.size
      (by rw [tagValue_text]; exact hne)
    rw [tagValue_text, tagValue_names, makeETag_stamp h h'] at hmatch
    unfold isNotModified
    simp only [hvalue, hempty, if_true]
    rw [Bool.eq_iff_iff, hmatch]
    simp only [unchanged, decide_eq_true_eq]
  | lastModified =>
    have hnone : (Kept.ask .lastModified path (some ⟨text .lastModified stamp, body⟩)).getHeader
        (bytes "If-None-Match") = [] := by
      unfold Kept.ask
      rw [HttpRequest.getHeader_addHeader, if_neg (by decide), getHeader_bare]
    have hsince : (Kept.ask .lastModified path (some ⟨text .lastModified stamp, body⟩)).getHeader
        (bytes "If-Modified-Since") = formatHttpDate stamp.mtime.toInt := by
      unfold Kept.ask
      rw [HttpRequest.getHeader_addHeader, if_pos (by decide), htrim]
      rfl
    have hempty : (formatHttpDate stamp.mtime.toInt).isEmpty = false := by
      rw [formatHttpDate_eq]
      simp
    have hparse := parse_formatHttpDate h.1 h.2
    unfold isNotModified
    simp only [hnone, hsince, hempty, hparse, List.isEmpty_nil, Bool.true_eq_false, Bool.false_eq_true, if_false]
    rfl

theorem isNotModified_first (kind : Validator) (path etag : Bytes) (mtime : Int) :
    isNotModified (Kept.ask kind path none) etag mtime = false := by
  unfold isNotModified Kept.ask
  simp only [getHeader_bare, List.isEmpty_nil, Bool.true_eq_false, if_false, if_true]

end Validator

/-! ## The answers of the router -/

namespace FileCache

/-- The router has no handler for the path, which it lets through. -/
structure Served (r : Router) (path : Bytes) : Prop where
  safe : Router.isPathSafe path = true
  handlers : r.handlers[path]? = none
  prefixes : r.prefixHandler path = none

variable {r : Router} {path : Bytes} {kind : Validator}

theorem handle_static (h : Served r path) (disk : Disk) {request : HttpRequest} (hpath : request.path = path)
    (hget : request.method = .kGet) (clientIp : Bytes) :
    r.handle disk request clientIp = r.serveStaticFile disk (staticPath path) request := by
  have hmethod : ¬ (request.method ≠ .kGet ∧ request.method ≠ .kHead) := fun hand => hand.1 hget
  unfold Router.handle staticPath
  simp only [hpath, h.safe, Bool.true_eq_false, if_false, h.handlers, h.prefixes, if_neg hmethod]

structure Carries (kind : Validator) (files : Nat → Bytes) (current : FileVersion) (response : HttpResponse) :
    Prop where
  status : response.statusCode = 200
  payload : response.payload files = current.content
  value : response.named kind.field = [kind.text current.stamp]

theorem field_other (kind : Validator) : toLower (bytes "Server") ≠ toLower kind.field ∧
    toLower (bytes "Date") ≠ toLower kind.field ∧ toLower (bytes "Content-Length") ≠ toLower kind.field ∧
    toLower (bytes "Connection") ≠ toLower kind.field := by
  cases kind <;> decide

/-- The client keeps the file with its validator. -/
theorem Carries.receive {files : Nat → Bytes} {current : FileVersion} {response : HttpResponse}
    (h : Carries kind files current response) (hw : kind.Writes current.stamp) (kept : Option Kept) (httpDate : Bytes) :
    Kept.receive kind kept (response.message files httpDate) = some ⟨kind.text current.stamp, current.content⟩ := by
  obtain ⟨hs, hd, hl, hc⟩ := field_other kind
  have hstatus : statusOf (response.message files httpDate).first = 200 := by
    have hcode := HttpResponse.statusOf_statusLine response
    rw [h.status] at hcode
    exact hcode
  have hvalues : Head.valuesOf (response.message files httpDate).fields kind.field = [kind.text current.stamp] := by
    unfold HttpResponse.message Head.Msg.trimmed
    rw [Head.valuesOf_trimmed, HttpResponse.valuesOf_fieldList response httpDate hs hd, h.value,
      Head.valuesOf_singleton, if_neg hc, List.append_nil]
    have hlength : Head.valuesOf (if response.headers.contains (bytes "Content-Length") then []
        else [(bytes "Content-Length", toText response.body.length)]) kind.field = [] := by
      by_cases hin : response.headers.contains (bytes "Content-Length") = true
      · rw [if_pos hin]
        rfl
      · rw [if_neg hin, Head.valuesOf_singleton, if_neg hl]
    rw [hlength, List.append_nil, List.map_singleton, Validator.trim_text hw]
  unfold Kept.receive
  rw [hstatus, if_neg (by decide), if_pos rfl, hvalues]
  simp only [HttpResponse.message, Head.Msg.trimmed, h.payload]

/-- The names of a response's fields, and their values, whatever their order. -/
theorem named_of_perm {response : HttpResponse} {fields : List (Bytes × Bytes)} {name v : Bytes}
    (h : response.headers.toList.Perm fields) (hv : Head.valuesOf fields name = [v]) : response.named name = [v] := by
  have hperm : (response.named name).Perm (Head.valuesOf fields name) := by
    unfold HttpResponse.named Head.valuesOf
    exact (h.filter _).map _
  rw [hv] at hperm
  exact List.perm_singleton.mp hperm

theorem fileFields_values (current : FileVersion) (path : Bytes) :
    Head.valuesOf (Router.fileFields path (makeETag current.mtime.toInt current.content.length)
      (formatHttpDate current.mtime.toInt)) kind.field = [kind.text current.stamp] := by
  cases kind <;> rfl

theorem memoryFile_carries (current : FileVersion) (path : Bytes) (files : Nat → Bytes) :
    Carries kind files current (Router.memoryFile path (makeETag current.mtime.toInt current.content.length)
      (formatHttpDate current.mtime.toInt) current.content) := by
  obtain ⟨headers, heq⟩ := HttpResponse.withHeaders_same (Router.fileFields path
    (makeETag current.mtime.toInt current.content.length) (formatHttpDate current.mtime.toInt))
      (({ } : HttpResponse).setStatus 200 (bytes "OK"))
  refine ⟨?_, ?_, named_of_perm (Router.memoryFile_toList _) (fileFields_values current path)⟩
  · rw [Router.memoryFile, heq]
    rfl
  · rw [Router.memoryFile, heq]
    exact List.append_nil _

theorem openedFile_carries {current : FileVersion} {files : Nat → Bytes} {fd : Nat} (hfd : files fd = current.content)
    (path : Bytes) : Carries kind files current
      (Router.openedFile path (makeETag current.mtime.toInt current.content.length)
      (formatHttpDate current.mtime.toInt) current.content.length fd) := by
  obtain ⟨headers, heq⟩ := HttpResponse.withHeaders_same ((Router.fileFields path
    (makeETag current.mtime.toInt current.content.length) (formatHttpDate current.mtime.toInt)).insertIdx 1
      (bytes "Content-Length", toText current.content.length)) (({ } : HttpResponse).setStatus 200 (bytes "OK"))
  have hvalues : Head.valuesOf ((bytes "Content-Length", toText current.content.length) :: Router.fileFields path
      (makeETag current.mtime.toInt current.content.length) (formatHttpDate current.mtime.toInt)) kind.field =
        [kind.text current.stamp] := by
    cases kind <;> rfl
  refine ⟨?_, ?_, named_of_perm (Router.openedFile_toList _ _) hvalues⟩
  · rw [Router.openedFile, heq]
    rfl
  · rw [Router.openedFile, heq]
    show [] ++ FileBody.bytes files ⟨fd, 0, current.content.length⟩ = current.content
    rw [FileBody.bytes, List.drop_zero, List.nil_append, hfd]
    exact List.take_length

/-- With a 304 the client goes on with what it has. -/
theorem receive_notModified (kind : Validator) (files : Nat → Bytes) (kept : Option Kept)
    (etag lastModified httpDate : Bytes) :
    Kept.receive kind kept (HttpResponse.message files ((((({ } : HttpResponse).setStatus 304
      (bytes "Not Modified")).setHeader (bytes "ETag") etag).setHeader (bytes "Last-Modified") lastModified).setHeader
        (bytes "Cache-Control") (bytes "no-cache")) httpDate) = kept := by
  unfold Kept.receive HttpResponse.message Head.Msg.trimmed
  rw [HttpResponse.statusOf_statusLine]
  rfl

/-- The answer with the whole file, however it is sent. -/
theorem serve_carries (r : Router) {current : FileVersion} {disk : Disk} {files : Nat → Bytes} {request : HttpRequest}
    (path : Bytes) (hon : current.On (fullPath r path) disk files)
    (hnew : isNotModified request (makeETag current.mtime.toInt current.content.length) current.mtime.toInt = false) :
    Carries kind files current (r.serveStaticFile disk (staticPath path) request) := by
  obtain ⟨hstat, hread, fd, hopen, hfd⟩ := hon
  rw [Router.serve_regular r hstat rfl hnew]
  unfold Router.serveRegular
  by_cases hzero : r.zeroCopyThreshold > 0 ∧ current.content.length ≥ r.zeroCopyThreshold
  · have hopen' : disk.openFile (cStr (r.wwwRoot ++ staticPath path)) = some fd := hopen
    rw [if_pos hzero]
    unfold Router.serveFileBody
    rw [hopen']
    exact openedFile_carries hfd _
  · have hread' : disk.ifstream (cStr (r.wwwRoot ++ staticPath path)) = some current.content := hread
    have hbody : Router.readBody disk (r.wwwRoot ++ staticPath path) current.content.length = some current.content := by
      unfold Router.readBody
      by_cases hempty : current.content.length = 0
      · rw [if_pos hempty, List.length_eq_zero_iff.mp hempty]
      · rw [if_neg hempty, hread', Option.map_some, List.take_length]
    rw [if_neg hzero, hbody]
    exact memoryFile_carries current _ files

theorem ask_path (kind : Validator) (path : Bytes) (kept : Option Kept) :
    (Kept.ask kind path kept).path = path ∧ (Kept.ask kind path kept).method = .kGet := by
  cases kept with
  | none => exact ⟨rfl, rfl⟩
  | some kept => exact ⟨rfl, rfl⟩

/-! ## The cache revalidates -/

def written (kind : Validator) (v : Revalidation.Version FileStamp Bytes) : Kept := ⟨kind.text v.stamp, v.value⟩

/-- **One fetch** leaves the client with what a cache that revalidates has. -/
theorem fetch_receive (h : Served r path) {current : FileVersion} {disk : Disk} {files : Nat → Bytes}
    (hon : current.On (fullPath r path) disk files) (hw : kind.Writes current.stamp)
    {cached : Option (Revalidation.Version FileStamp Bytes)} (hc : ∀ v, cached = some v → kind.Writes v.stamp)
    (clientIp httpDate : Bytes) :
    Kept.receive kind (cached.map (written kind))
      ((r.handle disk (Kept.ask kind path (cached.map (written kind))) clientIp).message files httpDate) =
        some (written kind (Revalidation.answer kind.unchanged cached current.version)) := by
  obtain ⟨hpath, hget⟩ := ask_path kind path (cached.map (written kind))
  rw [handle_static h disk hpath hget]
  cases cached with
  | none =>
    have hnew := Validator.isNotModified_first kind path (makeETag current.mtime.toInt current.content.length)
      current.mtime.toInt
    exact (serve_carries r path hon hnew).receive hw _ httpDate
  | some v =>
    have hsame := Validator.isNotModified_ask (hc v rfl) hw path v.value
    unfold Revalidation.answer
    by_cases hun : kind.unchanged v.stamp current.stamp = true
    · have hstat : disk.stat (cStr (r.wwwRoot ++ staticPath path)) =
          some ⟨true, current.mtime.toInt, current.content.length⟩ := hon.stat
      have hold : isNotModified (Kept.ask kind path (some (written kind v)))
          (makeETag current.mtime.toInt current.content.length) current.mtime.toInt = true := hsame.trans hun
      have hanswer := receive_notModified kind files (some (written kind v))
        (makeETag current.mtime.toInt current.content.length) (formatHttpDate current.mtime.toInt) httpDate
      have hun' : kind.unchanged v.stamp current.version.stamp = true := hun
      unfold Router.serveStaticFile
      simp only [hstat, Option.map_some, hold, Bool.true_eq_false, if_false, if_true, hun', hanswer]
    · have hnew : isNotModified (Kept.ask kind path (some (written kind v)))
          (makeETag current.mtime.toInt current.content.length) current.mtime.toInt = false :=
        hsame.trans (Bool.not_eq_true _ ▸ hun)
      have hun' : ¬ kind.unchanged v.stamp current.version.stamp = true := hun
      simp only [if_neg hun']
      exact (serve_carries r path hon hnew).receive hw _ httpDate

/-- The client and the file are those of the cache that revalidates. -/
structure Agrees (kind : Validator) (s : FileCache) (a : Revalidation.State FileStamp Bytes) : Prop where
  versions : s.versions.map FileVersion.version = a.versions
  kept : s.kept = a.cached.map (written kind)
  shown : s.shown = a.shown.map fun p => (some p.1, p.2)
  writes : ∀ v ∈ a.versions, kind.Writes v.stamp

theorem step_simulates (h : Served r path) {s s' : FileCache} {a : Revalidation.State FileStamp Bytes}
    (hr : Agrees kind s a) (hcached : ∀ v, a.cached = some v → v ∈ a.versions) {e : CacheEvent}
    (hc : Noticed r kind path s e) (hs : step r kind path s e = some s') :
    ∃ e' a', Revalidation.Told kind.unchanged a e' ∧ Revalidation.step kind.unchanged a e' = some a' ∧
      Agrees kind s' a' := by
  cases e with
  | change v =>
    cases hs
    refine ⟨.change v.version, _, ?_, rfl, ?_⟩
    · intro earlier hin hsame
      rw [← hr.versions] at hin
      obtain ⟨u, hu, rfl⟩ := List.mem_map.mp hin
      exact hc.2 u hu hsame
    · refine ⟨?_, hr.kept, hr.shown, ?_⟩
      · rw [List.map_cons, hr.versions]
      · intro u hu
        rcases List.mem_cons.mp hu with rfl | hu
        · exact hc.1
        · exact hr.writes u hu
  | fetch disk files clientIp httpDate =>
    unfold step at hs
    cases hversions : s.versions with
    | nil =>
      simp only [hversions] at hs
      cases hs
    | cons current earlier =>
      have hon := hc current (by rw [hversions]; rfl)
      have hlist := hr.versions
      rw [hversions, List.map_cons] at hlist
      have hin : current.version ∈ a.versions := by
        rw [← hlist]
        exact List.mem_cons_self ..
      have hkept := fetch_receive h hon (hr.writes _ hin) (fun v hv => hr.writes v (hcached v hv)) clientIp httpDate
      rw [← hr.kept] at hkept
      simp only [hversions, Option.some.injEq] at hs
      subst hs
      refine ⟨.fetch, a.display (Revalidation.answer kind.unchanged a.cached current.version) current.version,
        trivial, ?_, ?_⟩
      · unfold Revalidation.step
        rw [← hlist]
      · refine ⟨hr.versions, hkept, ?_, hr.writes⟩
        unfold fetch
        simp only [hkept, hr.shown, Revalidation.State.display, List.map_append, List.map_singleton]
        rfl

/-- **A client that keeps a file shows what the file is**, in every run in which
no change goes unnoticed by what the client asks with. -/
theorem shows_current (h : Served r path) {v : FileVersion} (hw : kind.Writes v.stamp) {s : FileCache}
    (hrun : Machine.Reached (step r kind path) (Noticed r kind path) { versions := [v] } s) :
    ∀ p ∈ s.shown, p.1 = some p.2 := by
  have hstart : Agrees kind { versions := [v] } ⟨[v.version], none, []⟩ := by
    refine ⟨rfl, rfl, rfl, ?_⟩
    intro u hu
    rw [List.mem_singleton.mp hu]
    exact hw
  have hcoherent : Revalidation.Coherent kind.unchanged ⟨[v.version], none, []⟩ := Revalidation.coherent_start v.version
  obtain ⟨a, ha, hr⟩ := hrun.simulated hstart fun s e s' a hr ha hc hs =>
    step_simulates h hr (Revalidation.reached_coherent hcoherent ha).kept hc hs
  intro p hp
  rw [hr.shown] at hp
  obtain ⟨q, hq, rfl⟩ := List.mem_map.mp hp
  exact congrArg some (Revalidation.shown_current hcoherent ha q hq)

def alone (v : FileVersion) (fullPath : Bytes) : Disk where
  stat path := if path = fullPath then some ⟨true, v.mtime.toInt, v.content.length⟩ else none
  openFile path := if path = fullPath then some 3 else none
  ifstream path := if path = fullPath then some v.content else none

theorem alone_on (v : FileVersion) (fullPath : Bytes) : v.On fullPath (alone v fullPath) fun _ => v.content :=
  ⟨if_pos rfl, if_pos rfl, 3, if_pos rfl, rfl⟩

/-- Two fetches of a file, and one when it has changed a second later. -/
theorem shows_current_changed :
    let path := bytes "/a.txt"
    let kept : FileVersion := ⟨1700000000, bytes "one", by decide⟩
    let later : FileVersion := ⟨1700000001, bytes "two", by decide⟩
    let fetch := fun v => CacheEvent.fetch (alone v (fullPath { } path)) (fun _ => v.content) [] []
    ∃ s, Machine.run (step { } .lastModified path) { versions := [kept] }
        [fetch kept, fetch kept, .change later, fetch later] = some s ∧
      s.shown.map Prod.snd = [bytes "one", bytes "one", bytes "two"] ∧ ∀ p ∈ s.shown, p.1 = some p.2 := by
  intro path kept later fetch
  have hon : ∀ v : FileVersion, v.On (fullPath { } path) (alone v (fullPath { } path)) fun _ => v.content :=
    fun v => alone_on v _
  have hserved : Served { } path := by
    refine ⟨by decide, Std.TreeMap.getElem?_emptyc, ?_⟩
    unfold Router.prefixHandler
    rfl
  have hkept : Validator.lastModified.Writes kept.stamp := ⟨by decide, by decide⟩
  have hlater : Validator.lastModified.Writes later.stamp := ⟨by decide, by decide⟩
  refine ⟨_, rfl, rfl, ?_⟩
  apply shows_current hserved hkept
  refine @Machine.Reached.of_run _ _ _ _ _ _ [fetch kept, fetch kept, .change later, fetch later] rfl ?_
  refine ⟨?_, fun s₁ h₁ => ?_⟩
  · intro current hcurrent
    cases hcurrent
    exact hon kept
  cases h₁
  refine ⟨?_, fun s₂ h₂ => ?_⟩
  · intro current hcurrent
    cases hcurrent
    exact hon kept
  cases h₂
  refine ⟨⟨hlater, ?_⟩, fun s₃ h₃ => ?_⟩
  · intro earlier hin hsame
    rw [List.mem_singleton.mp hin] at hsame
    exact absurd hsame (by decide)
  cases h₃
  refine ⟨?_, fun s₄ h₄ => trivial⟩
  intro current hcurrent
  cases hcurrent
  exact hon later

end FileCache

end Myself
