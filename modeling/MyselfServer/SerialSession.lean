import MyselfServer.Receiving
import MyselfServer.SerialServer

/-!
# What a session has answered

The requests that were taken out of what was received and the answers that
were passed on, followed through the message callback and the tasks of the
loop (`messageCallback_serves`), with whatever else is said of the connection
along with them.
-/

namespace Myself

open Text Prog

/-! ## What was answered -/

def Reply.Chosen (site : Site) (r : Reply) : Prop :=
  r.response = HttpResponse.tooManyRequests 1 ∨ ∃ k, r.response = site.handle k r.request

/-- The reply belongs to the request of its number. -/
def Reply.Belongs (site : Site) (requests : List HttpRequest) (r : Reply) : Prop :=
  requests[r.index]? = some r.request ∧ r.Chosen site

structure Session.Known (site : Site) (requests : List HttpRequest) (s : Session) : Prop where
  tasks : ∀ t ∈ s.tasks, requests[t.index]? = some t.request
  working : ∀ t ∈ s.working, requests[t.index]? = some t.request
  posted : ∀ r ∈ s.pendingFunctors, r.Belongs site requests
  functors : ∀ r ∈ s.functors, r.Belongs site requests

/-- Without workers the answers are those of the serial server, and behind
them what malformed input was answered with. -/
structure Session.InTurn (site : Site) (requests : List HttpRequest) (as : List Answered)
    (s : Session) : Prop where
  tasks : s.tasks = []
  working : s.working = []
  posted : s.pendingFunctors = []
  functors : s.functors = []
  calls : (Serial.serve site requests).2 = ⟨s.acquired, s.handled⟩
  answers : ∃ k, as = (Serial.serve site requests).1.map .reply ++ List.replicate k .malformed

structure Session.Track (site : Site) (received : Bytes) (requests : List HttpRequest)
    (as : List Answered) (s : Session) (input : Bytes) : Prop where
  follows : HttpParser.Follows received s.parser requests input
  taken : s.taken = requests.length
  known : s.Known site requests
  sent : as.map Answered.key = s.sent
  replies : ∀ r, .reply r ∈ as → r.Belongs site requests
  malformed : .malformed ∈ as → s.parser.state = .kError
  early : Serial.Orderly requests as → ∀ n ∈ s.history, n.Early
  inTurn : site.workerThreads = 0 → s.InTurn site requests as

variable {site : Site} {files : Nat → Bytes} {preads : List Answer} {received input rest : Bytes}
  {requests : List HttpRequest} {as : List Answered} {s : Session} {w w' : World Session}
  {moves : List Move}

theorem Reply.Belongs.append {r : Reply} (h : r.Belongs site requests) (more : List HttpRequest) :
    r.Belongs site (requests ++ more) := by
  obtain ⟨hlt, -⟩ := List.getElem?_eq_some_iff.mp h.1
  exact ⟨by rw [List.getElem?_append_left hlt]; exact h.1, h.2⟩

namespace Session

theorem Known.append (h : s.Known site requests) (more : List HttpRequest) :
    s.Known site (requests ++ more) := by
  have htask : ∀ t : Task, requests[t.index]? = some t.request →
      (requests ++ more)[t.index]? = some t.request := by
    intro t ht
    obtain ⟨hlt, -⟩ := List.getElem?_eq_some_iff.mp ht
    rw [List.getElem?_append_left hlt]
    exact ht
  exact ⟨fun t ht => htask t (h.tasks t ht), fun t ht => htask t (h.working t ht),
    fun r hr => (h.posted r hr).append more, fun r hr => (h.functors r hr).append more⟩

theorem Known.workerMove (h : s.Known site requests) (move : WorkerMove) :
    (s.workerMove site move).Known site requests := by
  cases move with
  | take =>
    simp only [Session.workerMove]
    split
    · exact h
    · rename_i task tasks htasks
      have hall := h.tasks
      rw [htasks, List.forall_mem_cons] at hall
      split
      · refine ⟨hall.2, ?_, h.posted, h.functors⟩
        intro t ht
        rcases List.mem_append.mp ht with ht | ht
        · exact h.working t ht
        · rw [List.mem_singleton.mp ht]
          exact hall.1
      · exact h
  | post k =>
    simp only [Session.workerMove]
    split
    · exact h
    · rename_i task hk
      refine ⟨h.tasks, fun t ht => h.working t (List.mem_of_mem_eraseIdx ht), ?_, h.functors⟩
      intro r hr
      rcases List.mem_append.mp hr with hr | hr
      · exact h.posted r hr
      · rw [List.mem_singleton.mp hr]
        exact ⟨h.working task (List.mem_of_getElem? hk), Or.inr ⟨_, rfl⟩⟩

theorem InTurn.workerMove (h : s.InTurn site requests as) (move : WorkerMove) :
    s.workerMove site move = s := by
  cases move with
  | take => simp only [Session.workerMove, h.tasks]
  | post k => simp only [Session.workerMove, h.working, List.getElem?_nil]

theorem early_workerMove (h : ∀ n ∈ s.history, n.Early) (move : WorkerMove) :
    ∀ n ∈ (s.workerMove site move).history, n.Early := by
  cases move with
  | take =>
    simp only [Session.workerMove]
    split
    · exact h
    · split <;> exact h
  | post k =>
    simp only [Session.workerMove]
    split
    · exact h
    · intro n hn
      rcases List.mem_append.mp hn with hn | hn
      · exact h n hn
      · rw [List.mem_singleton.mp hn]
        trivial

theorem Track.workerMove (h : s.Track site received requests as input) (move : WorkerMove) :
    (s.workerMove site move).Track site received requests as input := by
  have hsame : (s.workerMove site move).taken = s.taken ∧ (s.workerMove site move).sent = s.sent := by
    cases move with
    | take =>
      simp only [Session.workerMove]
      split
      · exact ⟨rfl, rfl⟩
      · split <;> exact ⟨rfl, rfl⟩
    | post k =>
      simp only [Session.workerMove]
      split <;> exact ⟨rfl, rfl⟩
  refine ⟨?_, hsame.1.trans h.taken, h.known.workerMove move, h.sent.trans hsame.2.symm, h.replies, ?_, ?_, ?_⟩
  · rw [parser_workerMove]
    exact h.follows
  · rw [parser_workerMove]
    exact h.malformed
  · exact fun horderly => early_workerMove (h.early horderly) move
  · intro hw
    rw [(h.inTurn hw).workerMove move]
    exact h.inTurn hw

/-- The schedule is no part of what is tracked. -/
theorem Track.schedule (h : s.Track site received requests as input)
    (schedule : List (List WorkerMove)) :
    ({ s with schedule := schedule } : Session).Track site received requests as input where
  follows := h.follows
  taken := h.taken
  known := ⟨h.known.tasks, h.known.working, h.known.posted, h.known.functors⟩
  sent := h.sent
  replies := h.replies
  malformed := h.malformed
  early := h.early
  inTurn hw := by
    have hi := h.inTurn hw
    exact ⟨hi.tasks, hi.working, hi.posted, hi.functors, hi.calls, hi.answers⟩

theorem Track.workerMoves (h : s.Track site received requests as input) :
    (s.workerMoves site).Track site received requests as input := by
  unfold Session.workerMoves
  cases s.schedule with
  | nil => exact h
  | cons moves schedule =>
    have key : ∀ t : Session, t.Track site received requests as input →
        (moves.foldl (Session.workerMove site) t).Track site received requests as input := by
      induction moves with
      | nil => exact fun t ht => ht
      | cons move moves ih => exact fun t ht => ih _ (ht.workerMove move)
    exact key _ (h.schedule schedule)

theorem Track.read (h : s.Track site received requests as input) (data : Bytes) :
    s.Track site (received ++ data) requests as (input ++ data) :=
  { h with follows := h.follows.read data }

theorem Track.swapFunctors (h : s.Track site received requests as input) :
    s.swapFunctors.Track site received requests as input where
  follows := h.follows
  taken := h.taken
  known := ⟨h.known.tasks, h.known.working, fun r hr => absurd hr List.not_mem_nil, h.known.posted⟩
  sent := h.sent
  replies := h.replies
  malformed := h.malformed
  early := h.early
  inTurn hw := by
    have hi := h.inTurn hw
    exact ⟨hi.tasks, hi.working, rfl, hi.posted, hi.calls, hi.answers⟩

theorem Track.ended (h : s.Track site received requests as input) :
    s.ended = as.any fun a => a.key.final := by
  rw [Session.ended, ← h.sent, List.any_map]
  rfl

/-- No final answer was sent while every request is to keep the connection. -/
theorem Track.not_ended (h : s.Track site received requests as input) (hkeep : ∀ r ∈ requests, r.keepAlive = true)
    (hno : .malformed ∉ as) : s.ended = false := by
  rw [h.ended, List.any_eq_false]
  intro a ha
  cases a with
  | malformed => exact absurd ha hno
  | reply r =>
    have hm := List.mem_of_getElem? (h.replies r ha).1
    simp [Answered.key, hkeep _ hm]

theorem Track.no_malformed (h : s.Track site received requests as input) (hstate : s.parser.state ≠ .kError) :
    .malformed ∉ as := fun hm => hstate (h.malformed hm)

theorem early_sending (index : Option Nat) (final : Bool) (h : ∀ n ∈ s.history, n.Early) :
    ∀ n ∈ (s.sending index final).history, n.Early := by
  intro n hn
  simp only [Session.sending] at hn
  split at hn
  · rcases List.mem_append.mp hn with hn | hn
    · exact h n hn
    · rw [List.mem_singleton.mp hn]
      trivial
  · exact h n hn

/-! ## A request is answered or passed on -/

structure Replying (site : Site) (s s' : Session) (reply : Reply) : Prop where
  calls : Serial.reply site ⟨s.acquired, s.handled⟩ s.taken s.parser.takeRequest.1 =
    (reply, ⟨s'.acquired, s'.handled⟩)
  session : ∃ acquired handled, s' = { s with
    parser := s.parser.takeRequest.2
    taken := s.taken + 1
    acquired := acquired
    handled := handled
    history := s.history ++ [.request true s.out s.ended] }

structure Submitted (site : Site) (s s' : Session) : Prop where
  offload : site.offload s.parser.takeRequest.1 = true
  session : ∃ acquired, s' = { s with
    parser := s.parser.takeRequest.2
    taken := s.taken + 1
    acquired := acquired
    history := s.history ++ [.request false s.out s.ended]
    tasks := s.tasks ++ [⟨s.taken, s.parser.takeRequest.1⟩] }

theorem dispatch_rule {Q : Bool → World Session → Prop} {E : World Session → Prop}
    (hreply : ∀ app reply metrics, Replying site w.app app reply →
      wp (respond site reply) (fun _ w' => Q w.app.parser.takeRequest.1.keepAlive w') E
        { w with app := app, metrics := metrics })
    (hsubmit : ∀ app metrics, Submitted site w.app app →
      Q w.app.parser.takeRequest.1.keepAlive { w with app := app, metrics := metrics }) :
    wp (dispatch site) Q E w := by
  simp only [dispatch, takeRequest, wp_bind, wp_world, wp_update, wp_pure]
  by_cases hmanagement : Site.isManagement w.app.parser.takeRequest.1 = true
  · -- a management path asks for no token
    simp only [limited, if_pos hmanagement, wp_pure, Bool.false_eq_true, if_false, wp_ite]
    split
    · rename_i hoffload
      exact hsubmit _ _ ⟨hoffload, _, rfl⟩
    · simp only [noteRequest, handle, wp_bind, wp_world, wp_update, wp_pure]
      apply hreply
      refine ⟨?_, _, _, rfl⟩
      unfold Serial.reply
      rw [if_pos hmanagement]
      rfl
  · simp only [limited, if_neg hmanagement, wp_bind, wp_world, wp_update, wp_pure]
    by_cases hacquire : site.acquire w.app.acquired = true
    · simp only [World.mapApp, World.requestStarted, hacquire, Bool.not_true, Bool.false_eq_true, if_false,
        wp_ite]
      split
      · rename_i hoffload
        exact hsubmit _ _ ⟨hoffload, _, rfl⟩
      · simp only [noteRequest, handle, wp_bind, wp_world, wp_update, wp_pure]
        apply hreply
        refine ⟨?_, _, _, rfl⟩
        unfold Serial.reply
        rw [if_neg hmanagement, if_pos hacquire]
        rfl
    · have hrefused : site.acquire w.app.acquired = false := by simpa using hacquire
      simp only [World.mapApp, World.requestStarted, hrefused, Bool.not_false, if_true, noteRequest, wp_bind,
        wp_update, wp_pure]
      apply hreply
      refine ⟨?_, _, _, rfl⟩
      unfold Serial.reply
      rw [if_neg hmanagement, if_neg hacquire]
      rfl

theorem reply_chosen (site : Site) (calls : Serial.Calls) (index : Nat) (request : HttpRequest) :
    (Serial.reply site calls index request).1.index = index ∧
      (Serial.reply site calls index request).1.request = request ∧
      (Serial.reply site calls index request).1.Chosen site := by
  unfold Serial.reply
  by_cases hmanagement : Site.isManagement request = true
  · rw [if_pos hmanagement]
    exact ⟨rfl, rfl, Or.inr ⟨_, rfl⟩⟩
  · rw [if_neg hmanagement]
    by_cases hacquire : site.acquire calls.acquired = true
    · rw [if_pos hacquire]
      exact ⟨rfl, rfl, Or.inr ⟨_, rfl⟩⟩
    · rw [if_neg hacquire]
      exact ⟨rfl, rfl, Or.inl rfl⟩

section
variable {s' : Session} {q : HttpParser} {reply : Reply}

theorem InTurn.parsing (h : s.InTurn site requests as) (hno : .malformed ∉ as) :
    as = (Serial.serve site requests).1.map .reply := by
  obtain ⟨k, has⟩ := h.answers
  have hzero : k = 0 := by
    by_contra hne
    apply hno
    rw [has]
    exact List.mem_append_right _ (List.mem_replicate.mpr ⟨hne, rfl⟩)
  rw [has, hzero, List.replicate_zero, List.append_nil]

theorem Replying.index (h : Replying site s s' reply) :
    reply.index = s.taken ∧ reply.request = s.parser.takeRequest.1 ∧ reply.Chosen site := by
  have hchosen := reply_chosen site ⟨s.acquired, s.handled⟩ s.taken s.parser.takeRequest.1
  rw [h.calls] at hchosen
  exact hchosen

theorem state_of_done (hparse : s.parser.parse input = .done q rest) : s.parser.state ≠ .kError := by
  intro herror
  rw [HttpParser.parse_kError herror] at hparse
  cases hparse

/-- The note on a request that is taken while none ends the connection. -/
theorem Track.early_request (h : s.Track site received requests as input)
    (hparse : s.parser.parse input = .done q rest) {request : HttpRequest} {as' : List Answered}
    (horderly : Serial.Orderly (requests ++ [request]) as') (hno : .malformed ∉ as') (inline : Bool)
    (out : Nat) : ∀ n ∈ s.history ++ [.request inline out s.ended], n.Early := by
  have hnone : .malformed ∉ as := h.no_malformed (state_of_done hparse)
  obtain ⟨hkeep, -⟩ := horderly.before_request hno
  intro n hn
  rcases List.mem_append.mp hn with hn | hn
  · exact h.early (.of_keep hkeep hnone) n hn
  · rw [List.mem_singleton.mp hn]
    exact h.not_ended hkeep hnone

/-- A request is taken and answered at once. -/
theorem Track.replied (h : s.Track site received requests as input)
    (hparse : s.parser.parse input = .done q rest)
    (hreply : Replying site { s with parser := q } s' reply) :
    (s'.sending (some reply.index) (!reply.request.keepAlive)).Track site received
      (requests ++ [q.takeRequest.1]) (as ++ [.reply reply]) rest := by
  obtain ⟨hindex, hrequest, hchosen⟩ := hreply.index
  obtain ⟨acquired, handled, rfl⟩ := hreply.session
  have hbelongs : reply.Belongs site (requests ++ [q.takeRequest.1]) := by
    refine ⟨?_, hchosen⟩
    rw [hindex, h.taken, hrequest, List.getElem?_concat_length]
  have hknown := h.known.append [q.takeRequest.1]
  have hnone : .malformed ∉ as := h.no_malformed (state_of_done hparse)
  have hno : .malformed ∉ as ++ [.reply reply] := by
    intro hm
    rcases List.mem_append.mp hm with hm | hm
    · exact hnone hm
    · cases List.mem_singleton.mp hm
  refine ⟨h.follows.done hparse, ?_, ⟨hknown.tasks, hknown.working, hknown.posted, hknown.functors⟩,
    ?_, ?_, fun hm => absurd hm hno, ?_, ?_⟩
  · rw [List.length_append, ← h.taken]
    rfl
  · rw [List.map_append, h.sent]
    rfl
  · intro r hr
    rcases List.mem_append.mp hr with hr | hr
    · exact (h.replies r hr).append _
    · cases List.mem_singleton.mp hr
      exact hbelongs
  · intro horderly
    apply early_sending
    exact h.early_request hparse horderly hno true s.out
  · intro hw
    have hi := h.inTurn hw
    have hcalls := hreply.calls
    have hlen : s.taken = (Serial.serve site requests).1.length := by
      rw [Serial.length_serve]
      exact h.taken
    have hserve : Serial.serve site (requests ++ [q.takeRequest.1]) =
        ((Serial.serve site requests).1 ++ [reply], ⟨acquired, handled⟩) := by
      rw [Serial.serve_concat, hi.calls, ← hlen]
      simp only at hcalls
      rw [hcalls]
    refine ⟨hi.tasks, hi.working, hi.posted, hi.functors, ?_, 0, ?_⟩
    · rw [hserve]
      rfl
    · rw [hserve, hi.parsing hnone, List.replicate_zero, List.append_nil, List.map_append]
      rfl

/-- A request is taken and given to the workers. -/
theorem Track.submitted (h : s.Track site received requests as input)
    (hparse : s.parser.parse input = .done q rest) (hsubmit : Submitted site { s with parser := q } s') :
    s'.Track site received (requests ++ [q.takeRequest.1]) as rest := by
  obtain ⟨acquired, rfl⟩ := hsubmit.session
  have hknown := h.known.append [q.takeRequest.1]
  have hno : .malformed ∉ as := h.no_malformed (state_of_done hparse)
  refine ⟨h.follows.done hparse, ?_, ⟨?_, hknown.working, hknown.posted, hknown.functors⟩, h.sent, ?_,
    fun hm => absurd hm hno, ?_, ?_⟩
  · rw [List.length_append, ← h.taken]
    rfl
  · intro t ht
    rcases List.mem_append.mp ht with ht | ht
    · exact hknown.tasks t ht
    · rw [List.mem_singleton.mp ht]
      show (requests ++ [q.takeRequest.1])[s.taken]? = some q.takeRequest.1
      rw [h.taken, List.getElem?_concat_length]
  · exact fun r hr => (h.replies r hr).append _
  · exact fun horderly => h.early_request hparse horderly hno false s.out
  · intro hw
    have hworkers := offload_workers hsubmit.offload
    rw [hw] at hworkers
    exact absurd hworkers (Nat.lt_irrefl 0)

/-- Malformed input is answered. -/
theorem Track.refused (h : s.Track site received requests as input)
    (hparse : s.parser.parse input = .bad q rest) :
    (({ s with parser := q } : Session).note (.malformed s.ended) |>.sending none true).Track site received requests
      (as ++ [.malformed]) rest := by
  obtain ⟨hfollows, -⟩ := h.follows.bad hparse
  refine ⟨hfollows, h.taken, ⟨h.known.tasks, h.known.working, h.known.posted, h.known.functors⟩, ?_, ?_,
    fun _ => HttpParser.parse_bad hparse, ?_, ?_⟩
  · rw [List.map_append, h.sent]
    rfl
  · intro r hr
    rcases List.mem_append.mp hr with hr | hr
    · exact h.replies r hr
    · cases List.mem_singleton.mp hr
  · intro horderly
    obtain ⟨hkeep, hno⟩ := horderly.before_malformed
    apply early_sending
    intro n hn
    rcases List.mem_append.mp hn with hn | hn
    · exact h.early (.of_keep hkeep hno) n hn
    · rw [List.mem_singleton.mp hn]
      exact h.not_ended hkeep hno
  · intro hw
    have hi := h.inTurn hw
    obtain ⟨k, has⟩ := hi.answers
    refine ⟨hi.tasks, hi.working, hi.posted, hi.functors, hi.calls, k + 1, ?_⟩
    rw [has, List.append_assoc, List.replicate_succ']

/-- More input is needed. -/
theorem Track.more (h : s.Track site received requests as input)
    (hparse : s.parser.parse input = .more q rest) :
    ({ s with parser := q } : Session).Track site received requests as rest := by
  obtain ⟨hfollows, -⟩ := h.follows.more hparse
  have hno : .malformed ∉ as := by
    apply h.no_malformed
    intro herror
    rw [HttpParser.parse_kError herror] at hparse
    cases hparse
  refine ⟨hfollows, h.taken, ⟨h.known.tasks, h.known.working, h.known.posted, h.known.functors⟩, h.sent,
    h.replies, fun hm => absurd hm hno, h.early, ?_⟩
  intro hw
  have hi := h.inTurn hw
  exact ⟨hi.tasks, hi.working, hi.posted, hi.functors, hi.calls, hi.answers⟩

end

end Session

/-! ## The message callback -/

/-- A pass of the loop: a request is taken out of what was received, or the
buffer holds no other one; and whether there is another pass. -/
inductive Turn (received : Bytes) (requests : List HttpRequest) (as : List Answered) :
    List HttpRequest → List Answered → Bool → Prop where
  | more : Serial.requestsOf received = (requests, .kNeedMore) → Turn received requests as requests as false
  | replied (reply : Reply) : requests ++ [reply.request] <+: (Serial.requestsOf received).1 →
    Turn received requests as (requests ++ [reply.request]) (as ++ [.reply reply]) reply.request.keepAlive
  | submitted (request : HttpRequest) : requests ++ [request] <+: (Serial.requestsOf received).1 →
    Turn received requests as (requests ++ [request]) as request.keepAlive
  | refused : Serial.requestsOf received = (requests, .kBadRequest) →
    Turn received requests as requests (as ++ [.malformed]) false

/-- What is said of the connection along with its answers: `X` between two of
them, `Y` where a call waits. -/
structure Along (site : Site) (X Y : List Answered → World Session → Prop) : Prop where
  parsed : ∀ {as w} app metrics input, X as w →
    X as { w with app := app, metrics := metrics, conn := { w.conn with input := input } }
  respond : ∀ {as w reply}, X as w → reply.Chosen site → w.app.sent.length = as.length →
    wp (Session.respond site reply) (fun _ w' => X (as ++ [.reply reply]) w') (Y (as ++ [.reply reply])) w
  malformed : ∀ {as w}, X as w → w.app.sent.length = as.length →
    wp (Session.answerBadRequest site) (fun _ w' => X (as ++ [.malformed]) w') (Y (as ++ [.malformed])) w

/-- What was received and answered agree, and `X` is true of the answers. -/
structure Serves (site : Site) (X : List Answered → World Session → Prop) (received : Bytes)
    (requests : List HttpRequest) (as : List Answered) (w : World Session) : Prop where
  track : w.app.Track site received requests as w.conn.input
  along : X as w

variable {X Y : List Answered → World Session → Prop}

namespace Session

/-- An answer that goes out and is noted. -/
theorem serves_of_along {p : Prog (World Session) Unit} {a : Answered} {app : Session}
    (hp : wp p (fun _ w' => X (as ++ [a]) w') (Y (as ++ [a])) w)
    (hreading : wp p (fun _ w' => w'.reading = (w.reads, w.conn.input, app))
      (fun w' => w'.reading = (w.reads, w.conn.input, app)) w)
    (htrack : app.Track site received requests (as ++ [a]) w.conn.input) :
    wp p (fun _ w' => Serves site X received requests (as ++ [a]) w' ∧ w'.reads = w.reads)
      (fun w' => Serves site Y received requests (as ++ [a]) w' ∧ w'.reads = w.reads) w := by
  have key : ∀ w' : World Session, w'.reading = (w.reads, w.conn.input, app) →
      w'.reads = w.reads ∧ w'.app.Track site received requests (as ++ [a]) w'.conn.input := by
    intro w' hread
    simp only [World.reading, Prod.mk.injEq] at hread
    rw [hread.2.1, hread.2.2]
    exact ⟨hread.1, htrack⟩
  refine wp_mono (wp_and hp hreading) ?_ ?_
  · intro _ w' h
    obtain ⟨hreads, htracked⟩ := key w' h.2
    exact ⟨⟨htracked, h.1⟩, hreads⟩
  · intro w' h
    obtain ⟨hreads, htracked⟩ := key w' h.2
    exact ⟨⟨htracked, h.1⟩, hreads⟩

theorem Track.length (h : s.Track site received requests as input) : s.sent.length = as.length := by
  rw [← h.sent, List.length_map]

/-- One pass of the loop: a request is answered or passed on, or the buffer
holds no other one. -/
theorem messageRound_serves (hx : Along site X Y) (h : Serves site X received requests as w) (u : Unit) :
    wp (messageRound site u)
      (fun r w' => (∃ requests' as', Turn received requests as requests' as' r.isLeft ∧
        Serves site X received requests' as' w') ∧ w'.reads = w.reads)
      (fun w' => (∃ requests' as' again, Turn received requests as requests' as' again ∧
        Serves site Y received requests' as' w') ∧ w'.reads = w.reads) w := by
  have htrack := h.track.workerMoves
  have hlen : (w.app.workerMoves site).sent.length = as.length := htrack.length
  simp only [messageRound, parsed, wp_bind, wp_update, wp_world]
  rcases HttpParser.parse_cases (w.app.workerMoves site).parser w.conn.input with
    ⟨q, rest, hparse⟩ | ⟨q, rest, hparse⟩ | ⟨q, rest, hparse⟩
  · simp only [World.mapApp, hparse, wp_bind, wp_update, wp_pure]
    refine ⟨⟨requests, as, .more (htrack.follows.more hparse).2, htrack.more hparse, hx.parsed _ _ _ h.along⟩, trivial⟩
  · simp only [World.mapApp, hparse, wp_bind, wp_update, wp_ite, wp_pure]
    apply dispatch_rule
    · intro app reply metrics hreply
      have hreplied := htrack.replied hparse hreply
      obtain ⟨-, hrequest, hchosen⟩ := hreply.index
      have hrequest : reply.request = q.takeRequest.1 := hrequest
      have hsent : app.sent.length = as.length := by
        obtain ⟨acquired, handled, rfl⟩ := hreply.session
        exact hlen
      have hrespond := hx.respond (hx.parsed app metrics rest h.along) hchosen hsent
      have hserves := serves_of_along hrespond (respond_reading site reply _) hreplied
      rw [← hrequest] at hserves
      have hturn : Turn received requests as _ _ _ := .replied reply (by rw [hrequest]; exact hreplied.follows.taken)
      refine wp_mono hserves ?_ (fun w' hi => ⟨⟨_, _, _, hturn, hi.1⟩, hi.2⟩)
      rintro _ w' ⟨hdone, hreads⟩
      rw [← hrequest]
      split
      · rename_i hkeep
        rw [hkeep] at hturn
        exact ⟨⟨_, _, hturn, hdone⟩, hreads⟩
      · rename_i hkeep
        rw [show reply.request.keepAlive = false by simpa using hkeep] at hturn
        exact ⟨⟨_, _, hturn, hdone⟩, hreads⟩
    · intro app metrics hsubmit
      have hsubmitted := htrack.submitted hparse hsubmit
      have hdone : Serves site X received _ as { w with app := app, metrics := metrics, conn :=
        { w.conn with input := rest } } := ⟨hsubmitted, hx.parsed app metrics rest h.along⟩
      have hturn : Turn received requests as _ _ _ := .submitted q.takeRequest.1 hsubmitted.follows.taken
      split
      · rename_i hkeep
        have hkeep : q.takeRequest.1.keepAlive = true := hkeep
        rw [hkeep] at hturn
        exact ⟨⟨_, _, hturn, hdone⟩, rfl⟩
      · rename_i hkeep
        have hkeep : q.takeRequest.1.keepAlive = false := by simpa using hkeep
        rw [hkeep] at hturn
        exact ⟨⟨_, _, hturn, hdone⟩, rfl⟩
  · simp only [World.mapApp, hparse, wp_bind, wp_update, wp_pure]
    have hturn : Turn received requests as _ _ _ := .refused (htrack.follows.bad hparse).2
    have hmalformed := hx.malformed (hx.parsed { w.app.workerMoves site with parser := q } w.metrics rest h.along) hlen
    have hserves := serves_of_along hmalformed (answerBadRequest_reading site _) (htrack.refused hparse)
    exact wp_mono hserves (fun _ w' hi => ⟨⟨_, _, hturn, hi.1⟩, hi.2⟩) (fun w' hi => ⟨⟨_, _, _, hturn, hi.1⟩, hi.2⟩)

/-- The callback takes requests while `K` lasts, up to the pass that is the last one. -/
theorem messageCallback_serves (hx : Along site X Y) {K : List HttpRequest → List Answered → Prop}
    (hagain : ∀ {requests as requests' as'}, K requests as → Turn received requests as requests' as' true →
      K requests' as')
    (h : Serves site X received requests as w) (hk : K requests as) :
    wp (messageCallback site)
      (fun _ w' => (∃ requests as requests' as', K requests as ∧ Turn received requests as requests' as' false ∧
        Serves site X received requests' as' w') ∧ w'.reads = w.reads)
      (fun w' => (∃ requests as requests' as' again, K requests as ∧ Turn received requests as requests' as' again ∧
        Serves site Y received requests' as' w') ∧ w'.reads = w.reads) w := by
  refine wp_loop (messageRound_decreases site)
    (I := fun _ w' => (∃ requests as, K requests as ∧ Serves site X received requests as w') ∧ w'.reads = w.reads)
    ?_ () w ⟨⟨requests, as, hk, h⟩, rfl⟩
  rintro u w₁ ⟨⟨requests₁, as₁, hk₁, h₁⟩, hreads₁⟩
  refine wp_mono (messageRound_serves hx h₁ u) ?_ ?_
  · rintro r w' ⟨⟨requests', as', hturn, hdone⟩, hreads⟩
    cases r with
    | inl a => exact ⟨⟨requests', as', hagain hk₁ hturn, hdone⟩, hreads.trans hreads₁⟩
    | inr b => exact ⟨⟨requests₁, as₁, requests', as', hk₁, hturn, hdone⟩, hreads.trans hreads₁⟩
  · rintro w' ⟨⟨requests', as', again, hturn, hdone⟩, hreads⟩
    exact ⟨⟨requests₁, as₁, requests', as', again, hk₁, hturn, hdone⟩, hreads.trans hreads₁⟩

/-- The response of a task goes out. -/
theorem Track.functor {reply : Reply} {functors : List Reply} (answers : Answers)
    (h : s.Track site received requests as input) (hfunctors : s.functors = reply :: functors) :
    (({ s with functors := functors, schedule := answers.schedule } : Session).sending (some reply.index)
      (!reply.request.keepAlive)).Track site received requests (as ++ [.reply reply]) input := by
  have hall := h.known.functors
  rw [hfunctors, List.forall_mem_cons] at hall
  refine ⟨h.follows, h.taken, ⟨h.known.tasks, h.known.working, h.known.posted, hall.2⟩, ?_, ?_, ?_, ?_, ?_⟩
  · rw [List.map_append, h.sent]
    rfl
  · intro r hr
    rcases List.mem_append.mp hr with hr | hr
    · exact h.replies r hr
    · cases List.mem_singleton.mp hr
      exact hall.1
  · intro hm
    rcases List.mem_append.mp hm with hm | hm
    · exact h.malformed hm
    · cases List.mem_singleton.mp hm
  · intro horderly
    apply early_sending
    exact h.early horderly.before_reply
  · intro hw
    have hnone := (h.inTurn hw).functors
    rw [hfunctors] at hnone
    cases hnone

/-! ## Reading -/

/-- A read appends what it brings to the buffer: nothing, or a piece. -/
theorem readFd_any (w : World Session) :
    wp TcpConnection.readFd
      (fun a w' => Untouched w w' ∧ w'.preads = w.preads ∧ w'.app = w.app ∧ ∃ used, w.reads = used ++ w'.reads ∧
        w'.conn.input = w.conn.input ++ (piecesOf used).flatten ∧
        ((∀ n, a ≠ .count (n + 1)) ∧ (∀ piece ∈ piecesOf used, piece = []) ∨
          ∃ piece n, piecesOf used = [piece] ∧ piece ≠ [] ∧ a = .count (n + 1)))
      (fun w' => w' = w) w := by
  have hlog : ∀ {call : Syscall}, transfers [call] = [] → transfers (w.trace ++ [call]) = transfers w.trace :=
    fun h => transfers_log w.trace h
  have hnil : w.conn.input = w.conn.input ++ [] := (List.append_nil _).symm
  have hnone : ∀ piece ∈ ([] : List Bytes), piece = [] := fun _ hp => absurd hp List.not_mem_nil
  unfold wp TcpConnection.readFd
  cases hfd : w.conn.socket.fd with
  | none =>
    exact ⟨⟨rfl, rfl, rfl, rfl, rfl, rfl, rfl, rfl, hlog rfl⟩, rfl, rfl, [], rfl, hnil, Or.inl ⟨by simp, hnone⟩⟩
  | some fd =>
    cases hr : w.reads with
    | nil => rfl
    | cons a reads =>
      cases a with
      | data bytes =>
        have hone : (piecesOf [.data bytes]).flatten = bytes := List.append_nil _
        refine ⟨⟨rfl, rfl, rfl, rfl, rfl, rfl, rfl, rfl, hlog rfl⟩, rfl, rfl, [.data bytes], rfl, ?_, ?_⟩
        · rw [hone]
          rfl
        · cases bytes with
          | nil => exact Or.inl ⟨by simp, fun piece hp => List.mem_singleton.mp hp⟩
          | cons b bytes => exact Or.inr ⟨b :: bytes, bytes.length, rfl, List.cons_ne_nil _ _, rfl⟩
      | again =>
        exact ⟨⟨rfl, rfl, rfl, rfl, rfl, rfl, rfl, rfl, hlog rfl⟩, rfl, rfl, [.again], rfl, hnil,
          Or.inl ⟨by simp, hnone⟩⟩
      | interrupted =>
        exact ⟨⟨rfl, rfl, rfl, rfl, rfl, rfl, rfl, rfl, hlog rfl⟩, rfl, rfl, [.interrupted], rfl, hnil,
          Or.inl ⟨by simp, hnone⟩⟩
      | failed errno =>
        exact ⟨⟨rfl, rfl, rfl, rfl, rfl, rfl, rfl, rfl, hlog rfl⟩, rfl, rfl, [.failed errno], rfl, hnil,
          Or.inl ⟨by simp, hnone⟩⟩

/-- The same, where some answers were used before. -/
theorem readFd_since {reads used : List ReadAnswer} (pieces : List Bytes) (hreads : reads = used ++ w.reads) :
    wp TcpConnection.readFd
      (fun a w' => Untouched w w' ∧ w'.preads = w.preads ∧ w'.app = w.app ∧ ∃ used' pieces',
        reads = used' ++ w'.reads ∧ pieces ++ piecesOf used' = (pieces ++ piecesOf used) ++ pieces' ∧
        w'.conn.input = w.conn.input ++ pieces'.flatten ∧
        ((∀ n, a ≠ .count (n + 1)) ∧ (∀ piece ∈ pieces', piece = []) ∨
          ∃ piece n, pieces' = [piece] ∧ piece ≠ [] ∧ a = .count (n + 1)))
      (fun w' => w' = w) w := by
  refine wp_mono (readFd_any w) ?_ (fun _ heq => heq)
  rintro a w₁ ⟨hu, hpreads, happ, more, hmore, hinput, hdata⟩
  refine ⟨hu, hpreads, happ, used ++ more, piecesOf more, ?_, ?_, hinput, hdata⟩
  · rw [hreads, hmore, List.append_assoc]
  · rw [piecesOf_append, List.append_assoc]

end Session

namespace Serial

theorem map_request_serve (site : Site) (requests : List HttpRequest) :
    (serve site requests).1.map Reply.request = requests := by
  induction requests using List.reverseRecOn with
  | nil => rfl
  | append_singleton requests request ih =>
    rw [serve_concat, List.map_append, ih]
    obtain ⟨-, hrequest, -⟩ := Session.reply_chosen site (serve site requests).2 (serve site requests).1.length
      request
    rw [List.map_singleton, hrequest]

end Serial

/-- Nothing was read or answered when the connection was set up. -/
theorem started_track {idleSeconds : Rat} {s₀ : Serving} (h₀ : Serving.Started idleSeconds s₀) :
    s₀.world.app.Track site [] [] [] s₀.world.conn.input := by
  obtain ⟨w, hfresh, happ, rfl⟩ := h₀
  obtain ⟨self, connfd, hconn⟩ := hfresh.conn
  have hreading : (Serving.run (Serving.setUp idleSeconds) w).world.reading = w.reading := by
    rw [Receiving.run_world]
    exact Serving.setUp_keeps idleSeconds w
  simp only [World.reading, Prod.mk.injEq] at hreading
  rw [hreading.2.1, hreading.2.2, happ, hconn]
  refine ⟨HttpParser.follows_start, rfl, ⟨?_, ?_, ?_, ?_⟩, rfl, ?_, ?_, ?_, ?_⟩
  · exact fun t ht => absurd ht List.not_mem_nil
  · exact fun t ht => absurd ht List.not_mem_nil
  · exact fun r hr => absurd hr List.not_mem_nil
  · exact fun r hr => absurd hr List.not_mem_nil
  · exact fun r hr => absurd hr List.not_mem_nil
  · exact fun hm => absurd hm List.not_mem_nil
  · exact fun _ n hn => absurd hn List.not_mem_nil
  · exact fun _ => ⟨rfl, rfl, rfl, rfl, rfl, 0, rfl⟩

/-- A run with what was read is one of the connection. -/
theorem Receiving.reached_serving {C : Receiving → SiteEvent → Prop} {s₀ : Serving} {s : Receiving}
    (h : Machine.Reached (Receiving.step site) C ⟨s₀, []⟩ s) :
    Machine.Reached (Serving.step site) Machine.Any s₀ s.serving := by
  apply Machine.Reached.invariant (C := C)
    (I := fun s => Machine.Reached (Serving.step site) Machine.Any s₀ s.serving) .start ?_ h
  intro s e s' hreached _ hs
  obtain ⟨serving, hserving, rfl⟩ := Option.map_eq_some_iff.mp hs
  exact hreached.next trivial hserving

end Myself
