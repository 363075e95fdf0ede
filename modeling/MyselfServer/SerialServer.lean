import MyselfServer.ParserReads
import MyselfServer.ResponseOrder
import MyselfServer.ShortFiles

/-!
# One request after the other

A server that has all the bytes of a client before it, takes the requests out
of them and answers one after the other, up to the first one that ends the
connection: what a connection of the real server should look like from
outside. How its bytes were cut, what the kernel took of a write and when it
was called again has no place here.
-/

namespace Myself

open Text Stream

/-- What was passed to `send`: a reply, or the answer to malformed input. -/
inductive Answered where
  | reply (r : Reply)
  | malformed

def Move.bytes (files : Nat → Bytes) : Move → Bytes
  | .call c => c.bytes files
  | .close => []

namespace Answered

def key : Answered → Flow.SentResponse
  | .reply r => ⟨some r.index, !r.request.keepAlive⟩
  | .malformed => ⟨none, true⟩

def fileMoves (headOnly : Bool) (fileBody : Option FileBody) : List Move :=
  match headOnly, fileBody with
  | false, some file => [.call (.sendFile file)]
  | _, _ => []

def isMalformed : Answered → Bool
  | .reply _ => false
  | .malformed => true

def moves (site : Site) (n : Nat) : Answered → List Move
  | .reply r =>
    let headOnly := decide (r.request.method = .kHead)
    let response := r.response.setCloseConnection (!r.request.keepAlive)
    .call (.send (response.serialize (site.date n) (!headOnly))) ::
      fileMoves headOnly response.fileBody
  | .malformed =>
    [.call (.send ((HttpResponse.badRequest (bytes "Bad Request")).serialize (site.date n) true))]

def movesFrom (site : Site) : Nat → List Answered → List Move
  | _, [] => []
  | n, a :: as => a.moves site n ++ movesFrom site (n + 1) as

theorem movesFrom_append (site : Site) : ∀ (n : Nat) (as bs : List Answered),
    movesFrom site n (as ++ bs) = movesFrom site n as ++ movesFrom site (n + as.length) bs
  | n, [], bs => rfl
  | n, a :: as, bs => by
    rw [List.cons_append, movesFrom, movesFrom, movesFrom_append site (n + 1) as bs, List.append_assoc,
      List.length_cons, Nat.add_right_comm, Nat.add_assoc]

theorem movesFrom_concat (site : Site) (n : Nat) (as : List Answered) (a : Answered) :
    movesFrom site n (as ++ [a]) = movesFrom site n as ++ a.moves site (n + as.length) := by
  rw [movesFrom_append, movesFrom, movesFrom, List.append_nil]

def text (files : Nat → Bytes) (site : Site) (as : List Answered) : Bytes :=
  (movesFrom site 0 as).flatMap (Move.bytes files)

theorem movesFrom_prefix (site : Site) {as bs : List Answered} (h : as <+: bs) :
    movesFrom site 0 as <+: movesFrom site 0 bs := by
  obtain ⟨cs, rfl⟩ := h
  rw [movesFrom_append]
  exact List.prefix_append _ _

theorem text_prefix (files : Nat → Bytes) (site : Site) {as bs : List Answered} (h : as <+: bs) :
    text files site as <+: text files site bs := by
  obtain ⟨moves, heq⟩ := movesFrom_prefix site h
  rw [text, text, ← heq, List.flatMap_append]
  exact List.prefix_append _ _

end Answered

/-! ## The specification -/

namespace Serial

structure Calls where
  acquired : Nat := 0
  handled : Nat := 0

def handled (site : Site) (calls : Calls) (index : Nat) (request : HttpRequest) : Reply × Calls :=
  (⟨index, request, site.handle calls.handled request⟩, { calls with handled := calls.handled + 1 })

/-- A request that is not about the server itself needs a token. -/
def reply (site : Site) (calls : Calls) (index : Nat) (request : HttpRequest) : Reply × Calls :=
  if Site.isManagement request then handled site calls index request
  else
    let asked := { calls with acquired := calls.acquired + 1 }
    if site.acquire calls.acquired then handled site asked index request
    else (⟨index, request, HttpResponse.tooManyRequests 1⟩, asked)

def serve (site : Site) (requests : List HttpRequest) : List Reply × Calls :=
  requests.foldl (fun s request =>
    ((s.1 ++ [(reply site s.2 s.1.length request).1]), (reply site s.2 s.1.length request).2)) ([], {})

def upToFinal : List HttpRequest → List HttpRequest
  | [] => []
  | r :: rs => r :: if r.keepAlive then upToFinal rs else []

/-- No request is taken behind one that ends the connection, and malformed
input is answered once, where none of them ends it. -/
structure Orderly (requests : List HttpRequest) (as : List Answered) : Prop where
  upToFinal : upToFinal requests = requests
  once : as.countP Answered.isMalformed ≤ 1
  last : .malformed ∈ as → ∀ r ∈ requests, r.keepAlive = true

/-- The requests in some bytes, and the verdict on what is behind them. -/
def requestsOf (received : Bytes) : List HttpRequest × HttpParser.Result :=
  HttpParser.receive 8192 (2 ^ 20) [received]

def answers (site : Site) (received : Bytes) : List Answered :=
  (serve site (upToFinal (requestsOf received).1)).1.map .reply ++
    if (requestsOf received).2 = .kBadRequest ∧ ∀ r ∈ (requestsOf received).1, r.keepAlive = true then
      [.malformed]
    else []

/-! ## Replies -/

theorem serve_concat (site : Site) (requests : List HttpRequest) (request : HttpRequest) :
    serve site (requests ++ [request]) =
      ((serve site requests).1 ++
          [(reply site (serve site requests).2 (serve site requests).1.length request).1],
        (reply site (serve site requests).2 (serve site requests).1.length request).2) := by
  simp only [serve, List.foldl_append, List.foldl_cons, List.foldl_nil]

theorem length_serve (site : Site) (requests : List HttpRequest) :
    (serve site requests).1.length = requests.length := by
  induction requests using List.reverseRecOn with
  | nil => rfl
  | append_singleton requests request ih =>
    rw [serve_concat, List.length_append, List.length_append, ih]
    rfl

theorem serve_prefix (site : Site) {requests requests' : List HttpRequest}
    (h : requests <+: requests') : (serve site requests).1 <+: (serve site requests').1 := by
  obtain ⟨more, rfl⟩ := h
  induction more using List.reverseRecOn with
  | nil => rw [List.append_nil]
  | append_singleton more request ih =>
    rw [← List.append_assoc, serve_concat]
    exact ih.trans (List.prefix_append _ _)

theorem upToFinal_prefix : ∀ requests : List HttpRequest, upToFinal requests <+: requests
  | [] => List.prefix_rfl
  | r :: rs => by
    rw [upToFinal, List.prefix_cons_inj]
    split
    · exact upToFinal_prefix rs
    · exact List.nil_prefix

theorem upToFinal_keep {requests : List HttpRequest} (h : ∀ r ∈ requests, r.keepAlive = true)
    (more : List HttpRequest) : upToFinal (requests ++ more) = requests ++ upToFinal more := by
  induction requests with
  | nil => rfl
  | cons r rs ih =>
    rw [List.forall_mem_cons] at h
    rw [List.cons_append, upToFinal, if_pos h.1, ih h.2, List.cons_append]

/-- Nothing behind a request that ends the connection matters. -/
theorem upToFinal_final {requests : List HttpRequest} (h : ¬ ∀ r ∈ requests, r.keepAlive = true)
    (more : List HttpRequest) : upToFinal (requests ++ more) = upToFinal requests := by
  induction requests with
  | nil => exact absurd (fun r hr => absurd hr List.not_mem_nil) h
  | cons r rs ih =>
    rw [List.cons_append, upToFinal, upToFinal]
    by_cases hr : r.keepAlive = true
    · rw [if_pos hr, if_pos hr, ih fun hall => h (List.forall_mem_cons.mpr ⟨hr, hall⟩)]
    · rw [if_neg hr, if_neg hr]

/-- Only the last request may end the connection. -/
theorem keep_of_upToFinal {requests : List HttpRequest} {request : HttpRequest}
    (h : upToFinal (requests ++ [request]) = requests ++ [request]) : ∀ r ∈ requests, r.keepAlive = true := by
  by_contra hkeep
  rw [upToFinal_final hkeep] at h
  have hprefix := upToFinal_prefix requests
  have hlen := hprefix.length_le
  rw [h, List.length_append, List.length_singleton] at hlen
  omega

theorem upToFinal_concat {requests : List HttpRequest} (h : ∀ r ∈ requests, r.keepAlive = true)
    (request : HttpRequest) : upToFinal (requests ++ [request]) = requests ++ [request] := by
  rw [upToFinal_keep h, upToFinal]
  split
  · rfl
  · rfl

theorem upToFinal_self {requests : List HttpRequest} (h : ∀ r ∈ requests, r.keepAlive = true) :
    upToFinal requests = requests := by
  have hnil := upToFinal_keep h []
  rw [List.append_nil] at hnil
  rw [hnil, upToFinal, List.append_nil]

variable {requests : List HttpRequest} {as : List Answered}

theorem count_zero (h : .malformed ∉ as) : as.countP Answered.isMalformed = 0 := by
  rw [List.countP_eq_zero]
  intro a ha hm
  cases a with
  | reply r => cases hm
  | malformed => exact h ha

theorem Orderly.of_keep (h : ∀ r ∈ requests, r.keepAlive = true) (hno : .malformed ∉ as) : Orderly requests as where
  upToFinal := upToFinal_self h
  once := by
    rw [count_zero hno]
    exact Nat.zero_le 1
  last hm := absurd hm hno

/-- Before a request or malformed input is answered none of the requests ends the connection. -/
theorem Orderly.before_request {request : HttpRequest} (h : Orderly (requests ++ [request]) as)
    (hno : .malformed ∉ as) : (∀ r ∈ requests, r.keepAlive = true) ∧ Orderly requests as :=
  ⟨keep_of_upToFinal h.upToFinal, .of_keep (keep_of_upToFinal h.upToFinal) hno⟩

theorem Orderly.before_malformed (h : Orderly requests (as ++ [.malformed])) :
    (∀ r ∈ requests, r.keepAlive = true) ∧ .malformed ∉ as := by
  refine ⟨h.last (List.mem_append_right _ List.mem_cons_self), fun hm => ?_⟩
  have honce := h.once
  have hpos : 0 < as.countP Answered.isMalformed := List.countP_pos_iff.mpr ⟨_, hm, rfl⟩
  rw [List.countP_append, List.countP_singleton] at honce
  simp only [Answered.isMalformed, if_true] at honce
  omega

theorem Orderly.before_reply {r : Reply} (h : Orderly requests (as ++ [.reply r])) : Orderly requests as := by
  refine ⟨h.upToFinal, ?_, fun hm => h.last (List.mem_append_left _ hm)⟩
  have honce := h.once
  rw [List.countP_append, List.countP_singleton] at honce
  simpa only [Answered.isMalformed, Bool.false_eq_true, if_false, Nat.add_zero] using honce

end Serial

/-! ## Where a parser is in what was received -/

namespace HttpParser

def outcome : Step (HttpParser × List HttpRequest) UInt8 → List HttpRequest × Result
  | .bad x _ => (x.2, .kBadRequest)
  | .more x _ => (x.2, .kNeedMore)
  | .next x _ => (x.2, .kNeedMore)
  | .moved x _ => (x.2, .kNeedMore)
  | .done x _ => (x.2, .kNeedMore)

theorem requestsOf_eq (received : Bytes) :
    Serial.requestsOf received = outcome (drain ({}, []) received) := by
  have hflat : [received].flatten = received := by simp
  rcases drain_waits (fresh 8192 (2 ^ 20), []) received with ⟨x, r, hd⟩ | ⟨x, r, hd⟩
  · rw [Serial.requestsOf, receive_of_more (hflat.symm ▸ hd)]
    exact (congrArg outcome hd).symm
  · rw [Serial.requestsOf, receive_of_bad (hflat.symm ▸ hd)]
    exact (congrArg outcome hd).symm

/-- Behind the requests that were taken the parser finds in its input, and in
whatever comes behind that, what is in the bytes themselves. -/
def Follows (received : Bytes) (p : HttpParser) (requests : List HttpRequest) (input : Bytes) : Prop :=
  ∀ more, outcome (drain ({}, []) (received ++ more)) = outcome (drain (p, requests) (input ++ more))

variable {received input rest : Bytes} {p q : HttpParser} {requests : List HttpRequest}

theorem follows_start : Follows [] {} [] [] := fun _ => rfl

theorem Follows.read (h : Follows received p requests input) (data : Bytes) :
    Follows (received ++ data) p requests (input ++ data) := by
  intro more
  rw [List.append_assoc, List.append_assoc]
  exact h (data ++ more)

theorem Follows.requestsOf (h : Follows received p requests input) :
    Serial.requestsOf received = outcome (drain (p, requests) input) := by
  have hnil := h []
  rw [List.append_nil, List.append_nil] at hnil
  rw [requestsOf_eq, hnil]

theorem Follows.more (h : Follows received p requests input) (hp : parse p input = .more q rest) :
    Follows received q requests rest ∧ Serial.requestsOf received = (requests, .kNeedMore) := by
  constructor
  · intro more
    rw [h more]
    have hparse := parse_resumable.more more hp
    have hround : drainRound (p, requests) (input ++ more) = drainRound (q, requests) (rest ++ more) := by
      simp only [drainRound, hparse]
    rw [drain, run_eq drainRound_decreases, hround, ← run_eq drainRound_decreases]
  · rw [h.requestsOf, drain_of_more hp]
    rfl

theorem Follows.done (h : Follows received p requests input) (hp : parse p input = .done q rest) :
    Follows received q.takeRequest.2 (requests ++ [q.takeRequest.1]) rest := by
  intro more
  rw [h more]
  have hparse := parse_resumable.done more hp
  have hround : drainRound (p, requests) (input ++ more) =
      .next (q.takeRequest.2, requests ++ [q.takeRequest.1]) (rest ++ more) := by
    simp only [drainRound, hparse]
  rw [drain, run_next drainRound_decreases hround]

theorem parse_kError (hp : p.state = .kError) (buf : Bytes) : parse p buf = .bad p buf :=
  run_bad parseRound_decreases (by simp only [parseRound, hp])

theorem afterState_bad {o : Step HttpParser UInt8} (h : afterState o = .bad q rest) :
    q.state = .kError := by
  unfold afterState at h
  split at h <;> cases h
  rfl

theorem parseRound_bad {buf : Bytes} (h : parseRound p buf = .bad q rest) : q.state = .kError := by
  unfold parseRound at h
  split at h
  · exact afterState_bad h
  · exact afterState_bad h
  · exact afterState_bad h
  · cases h
  · rename_i hs
    cases h
    exact hs

theorem parse_bad {buf : Bytes} (h : parse p buf = .bad q rest) : q.state = .kError := by
  unfold parse at h
  obtain ⟨p₁, b₁, -, hrun⟩ := run_last parseRound_decreases (I := fun _ _ => True)
    (fun _ _ _ _ _ _ => trivial) p buf trivial
  exact parseRound_bad (hrun.symm.trans h)

theorem Follows.bad (h : Follows received p requests input) (hp : parse p input = .bad q rest) :
    Follows received q requests rest ∧ Serial.requestsOf received = (requests, .kBadRequest) := by
  constructor
  · intro more
    obtain ⟨q', rest', hq', -⟩ := parse_resumable.bad more hp
    rw [h more, drain_of_bad hq', drain_of_bad (parse_kError (parse_bad hp) _)]
    rfl
  · rw [h.requestsOf, drain_of_bad hp]
    rfl

theorem Follows.kError (h : Follows received p requests input) (hp : p.state = .kError) :
    Serial.requestsOf received = (requests, .kBadRequest) :=
  (h.bad (parse_kError hp input)).2

theorem outcome_taken (p : HttpParser) (taken : List HttpRequest) (buf : Bytes) :
    taken <+: (outcome (drain (p, taken) buf)).1 := by
  have key : ∀ (x : HttpParser × List HttpRequest) (buf : Bytes),
      x.2 <+: (outcome (drain x buf)).1 := by
    refine run_induction drainRound_decreases fun x buf ih => ?_
    rcases parse_cases x.1 buf with ⟨q, r, hp⟩ | ⟨q, r, hp⟩ | ⟨q, r, hp⟩
    · rw [show drain x buf = _ from drain_of_more hp]
      exact List.prefix_rfl
    · have hround : drainRound x buf = .next (q.takeRequest.2, x.2 ++ [q.takeRequest.1]) r := by
        simp only [drainRound, hp]
      have hmore := ih _ _ hround
      rw [drain, run_next drainRound_decreases hround]
      exact (List.prefix_append _ _).trans hmore
    · rw [show drain x buf = _ from drain_of_bad hp]
      exact List.prefix_rfl
  exact key (p, taken) buf

/-- The requests that were taken are the first ones in what was received. -/
theorem Follows.taken (h : Follows received p requests input) :
    requests <+: (Serial.requestsOf received).1 := by
  rw [h.requestsOf]
  exact outcome_taken p requests input

end HttpParser

end Myself
