import MyselfServer.Delimited
import MyselfServer.SerialRuns

/-!
# What a client reads

The client of a connection without workers takes apart what it is sent, by
the requests it has made. At any time it has read the first answers of the
serial server, and all of them when nothing is left to send (`client_reads`).
-/

namespace Myself

open Text

def Site.Delimits (site : Site) (files : Nat → Bytes) : Prop :=
  ∀ k request, (site.handle k request).Delimited files

theorem Site.Delimits.whole {site : Site} {files : Nat → Bytes} (h : site.Delimits files) : site.Whole files :=
  fun k request => (h k request).inside

namespace Answered

def message (files : Nat → Bytes) (site : Site) (n : Nat) : Answered → Head.Msg
  | .reply r =>
    let response := r.response.setCloseConnection (!r.request.keepAlive)
    ⟨response.statusLine, response.fieldList (site.date n),
      if decide (r.request.method = .kHead) then [] else response.payload files⟩
  | .malformed =>
    let response := HttpResponse.badRequest (bytes "Bad Request")
    ⟨response.statusLine, response.fieldList (site.date n), response.payload files⟩

def messagesFrom (files : Nat → Bytes) (site : Site) : Nat → List Answered → List Head.Msg
  | _, [] => []
  | n, a :: as => a.message files site n :: messagesFrom files site (n + 1) as

def rule : Answered → Head.Rule
  | .reply r => responseRule (decide (r.request.method = .kHead))
  | .malformed => responseRule false

variable {files : Nat → Bytes} {site : Site}

theorem bytes_moves (n : Nat) (a : Answered) :
    (a.moves site n).flatMap (Move.bytes files) = Head.write (a.message files site n) := by
  have hbehind : ∀ first fields body more, Head.write ⟨first, fields, body⟩ ++ more =
      Head.write ⟨first, fields, body ++ more⟩ := by
    intro first fields body more
    simp only [Head.write, List.append_assoc]
  cases a with
  | malformed =>
    have hnone : HttpResponse.fileBytes files (HttpResponse.badRequest (bytes "Bad Request")) = [] := rfl
    unfold moves message
    rw [List.flatMap_singleton]
    simp only [Move.bytes, Call.bytes, HttpResponse.serialize_eq_write, HttpResponse.payload, hnone,
      List.append_nil, if_true]
  | reply r =>
    unfold moves message
    simp only [List.flatMap_cons, Move.bytes, Call.bytes, HttpResponse.serialize_eq_write, hbehind]
    by_cases hhead : r.request.method = .kHead
    · simp only [hhead, decide_true, Bool.not_true, Bool.false_eq_true, if_false, if_true, fileMoves,
        List.flatMap_nil, List.append_nil]
    · simp only [hhead, decide_false, Bool.not_false, Bool.false_eq_true, if_false, if_true,
        HttpResponse.payload, HttpResponse.fileBytes]
      cases (r.response.setCloseConnection (!r.request.keepAlive)).fileBody with
      | none => rfl
      | some file =>
        simp only [fileMoves, List.flatMap_cons, List.flatMap_nil, List.append_nil, Move.bytes, Call.bytes]

theorem flatMap_movesFrom : ∀ (n : Nat) (as : List Answered),
    (movesFrom site n as).flatMap (Move.bytes files) = (messagesFrom files site n as).flatMap Head.write
  | _, [] => rfl
  | n, a :: as => by
    rw [movesFrom, messagesFrom, List.flatMap_append, List.flatMap_cons, bytes_moves,
      flatMap_movesFrom (n + 1) as]

theorem text_eq_messages (files : Nat → Bytes) (site : Site) (as : List Answered) :
    text files site as = (messagesFrom files site 0 as).flatMap Head.write :=
  flatMap_movesFrom 0 as

theorem message_fits (hsite : site.Delimits files) (hdate : ∀ n, LF ∉ site.date n) (n : Nat) {a : Answered}
    (ha : ∀ r, a = .reply r → r.Chosen site) : Head.Fits a.rule (a.message files site n) := by
  cases a with
  | malformed =>
    have hfits := HttpResponse.delimited_fits (HttpResponse.badRequest_delimited files) (hdate n) false
    exact hfits
  | reply r =>
    have hdelimited : r.response.Delimited files := by
      rcases ha r rfl with h | ⟨k, h⟩
      · rw [h]
        exact HttpResponse.tooManyRequests_delimited 1 files
      · rw [h]
        exact hsite k r.request
    exact HttpResponse.delimited_fits (hdelimited.setCloseConnection _) (hdate n) _

theorem messagesFrom_fit (hsite : site.Delimits files) (hdate : ∀ n, LF ∉ site.date n) :
    ∀ (n : Nat) (as : List Answered), (∀ r, .reply r ∈ as → r.Chosen site) →
      List.Forall₂ Head.Fits (as.map rule) (messagesFrom files site n as)
  | _, [], _ => .nil
  | n, a :: as, ha => by
    apply List.Forall₂.cons
    · exact message_fits hsite hdate n fun r heq => ha r (heq ▸ List.mem_cons_self ..)
    · exact messagesFrom_fit hsite hdate (n + 1) as fun r hr => ha r (List.mem_cons_of_mem _ hr)

end Answered

namespace Serial

theorem serve_chosen (site : Site) (requests : List HttpRequest) :
    ∀ r ∈ (serve site requests).1, r.Chosen site := by
  induction requests using List.reverseRecOn with
  | nil => exact fun r hr => absurd hr List.not_mem_nil
  | append_singleton requests request ih =>
    intro r hr
    rw [serve_concat, List.mem_append, List.mem_singleton] at hr
    rcases hr with hr | rfl
    · exact ih r hr
    · exact (Session.reply_chosen site _ _ request).2.2

theorem answers_chosen (site : Site) (received : Bytes) :
    ∀ r, .reply r ∈ answers site received → r.Chosen site := by
  intro r hr
  unfold answers at hr
  rcases List.mem_append.mp hr with hr | hr
  · obtain ⟨r', hr', heq⟩ := List.mem_map.mp hr
    cases heq
    exact serve_chosen site _ r hr'
  · split at hr
    · cases List.mem_singleton.mp hr
    · cases hr

end Serial

namespace Receiving

variable {site : Site} {s : Receiving} {idleSeconds : Rat} {s₀ : Serving}

/-- The messages that the client takes out of what it was sent. -/
def read (site : Site) (s : Receiving) : List Head.Msg :=
  Head.readSome ((Serial.answers site s.received).map Answered.rule) s.serving.world.wire

def answers (site : Site) (files : Nat → Bytes) (s : Receiving) : List Head.Msg :=
  (Answered.messagesFrom files site 0 (Serial.answers site s.received)).map Head.Msg.trimmed

/-- **The client reads the answers of the serial server**, one after the
other, and all of them when the connection has nothing left to send. -/
theorem client_reads (hworkers : site.workerThreads = 0) (hdate : ∀ n, LF ∉ site.date n)
    (h₀ : Serving.Started idleSeconds s₀) (hpreads : ∀ a ∈ s₀.world.preads, a.Reads)
    (hsite : site.Delimits s₀.world.files) (h : Machine.Reached (step site) Copies ⟨s₀, []⟩ s)
    (hfiles : s.NoShortFile) :
    s.read site <+: s.answers site s₀.world.files ∧
      (s.serving.waiting = false → s.serving.world.conn.closed = false →
        unsent s₀.world.files s.serving.world.conn = [] → s.read site = s.answers site s₀.world.files) := by
  obtain ⟨as, hsends, hlike⟩ := (reached_fits hsite.whole h₀ hpreads h).likeSerial hworkers hfiles
  have hfit := Answered.messagesFrom_fit hsite hdate 0 (Serial.answers site s.received)
    (Serial.answers_chosen site s.received)
  have htext := Answered.text_eq_messages s₀.world.files site (Serial.answers site s.received)
  have hall : Answered.text s₀.world.files site (Serial.answers site s.received) <+: s.serving.world.wire →
      s.read site = s.answers site s₀.world.files := by
    rintro ⟨behind, hbehind⟩
    unfold read answers
    rw [← hbehind, htext]
    exact Head.readSome_writeAll hfit behind
  have hfront : s.serving.world.wire <+: Answered.text s₀.world.files site (Serial.answers site s.received) →
      s.read site <+: s.answers site s₀.world.files := by
    intro hprefix
    apply Head.readSome_front hfit []
    rw [List.append_nil, ← htext]
    exact hprefix
  by_cases hended : (as.any fun a => a.key.final) = true
  · have hbehind := Answered.text_prefix s₀.world.files site (hlike.ended hended)
    constructor
    · rcases List.prefix_or_prefix_of_prefix hsends.front hbehind with hprefix | hprefix
      · exact hfront hprefix
      · rw [hall hprefix]
    · intro hreturned hconn hsent
      have hwhole := hsends.whole hreturned hconn
      rw [sending, hsent, List.append_nil] at hwhole
      rw [← hwhole] at hbehind
      exact hall hbehind
  · have hopen : (as.any fun a => a.key.final) = false := by simpa using hended
    constructor
    · exact hfront (hsends.front.trans (Answered.text_prefix s₀.world.files site (hlike.front hopen)))
    · intro hreturned hconn hsent
      have hwhole := hsends.whole hreturned hconn
      rw [sending, hsent, List.append_nil, hlike.complete hreturned hopen] at hwhole
      apply hall
      rw [hwhole]

def staticSite : Site :=
  { Serving.plainSite 0 with
    handle := fun _ request => (({ } : Router).setZeroCopyThreshold 5).handle smallDisk request []
    date := fun _ => formatHttpDate 0 }

theorem handlers_empty (zeroCopyThreshold : Nat) (path : Bytes) :
    (({ } : Router).setZeroCopyThreshold zeroCopyThreshold).handlers[path]? = none :=
  Std.TreeMap.getElem?_emptyc

theorem staticSite_delimits : staticSite.Delimits (Serving.run (Serving.setUp 0) hello).world.files := by
  intro k request
  refine @Router.handle_delimited smallDisk _ (({ } : Router).setZeroCopyThreshold 5) ?_ ?_ request []
  · refine ⟨?_, ?_⟩
    · intro path handler hhandler
      rw [handlers_empty] at hhandler
      cases hhandler
    · intro path handler hhandler
      cases hhandler
  · intro path info hstat _
    unfold smallDisk at hstat ⊢
    by_cases hpath : path = bytes "www/a.txt"
    · simp only [if_pos hpath, Option.some.injEq] at hstat
      subst hstat
      refine Or.inr ⟨3, ?_, ?_, rfl⟩
      · simp only [if_pos hpath]
      · simp only [if_pos hpath]
        rfl
    · simp only [if_neg hpath] at hstat
      cases hstat

def fileAndHead : List SiteEvent :=
  [.ready EPOLLIN {
    reads := [.data (Serving.get "/a.txt" ++ bytes "HEAD /a.txt HT"), .data (bytes "TP/1.0" ++ CRLF ++ CRLF), .again]
    writes := [.count 100, .count 1000, .count 1000]
    sendfiles := [.count 2, .interrupted, .count 3] }]

theorem client_reads_static : ∃ s,
    Machine.run (step staticSite) ⟨Serving.run (Serving.setUp 0) hello, []⟩ fileAndHead = some s ∧
    (s.read staticSite).map Head.Msg.body = [bytes "hello", []] ∧
    s.read staticSite = s.answers staticSite (Serving.run (Serving.setUp 0) hello).world.files := by
  have hend : (Machine.run (step staticSite) ⟨Serving.run (Serving.setUp 0) hello, []⟩ fileAndHead).map
      (fun s => ((s.read staticSite).map Head.Msg.body, s.serving.waiting, s.serving.world.conn.closed,
        unsent (Serving.run (Serving.setUp 0) hello).world.files s.serving.world.conn,
        s.serving.world.trace.all (unended ·))) = some ([bytes "hello", []], false, false, [], true) := by
    decide +kernel
  obtain ⟨s, hs, hend⟩ := Option.map_eq_some_iff.mp hend
  simp only [Prod.mk.injEq] at hend
  obtain ⟨hbodies, hreturned, hopen, hsent, htrace⟩ := hend
  have hread := client_reads rfl (fun _ => noLF_formatHttpDate 0) hello_started hello_preads staticSite_delimits
    (.of_run hs (copies_of_none (by decide) _)) (noShortFile_of_unended htrace)
  exact ⟨s, hs, hbodies, hread.2 hreturned hopen hsent⟩

end Receiving

end Myself
