import MyselfServer.Flow
import MyselfServer.HttpParser
import MyselfServer.HttpResponse
import MyselfServer.Machine
import MyselfServer.TcpConnection

/-!
# A connection at work

The message callback of `main`, over the parser of one connection, with the
worker pool and the tasks that come back from it. Requests are numbered in
the order in which the parser gives them out. The rate limiter and the router
are shared with other connections: what they answer is a parameter, and so is
when the workers move. Of the pool and of the loop's pending functors only
what belongs to the connection is kept.
-/

namespace Myself

open Text Prog

/-- What the callback refers to outside of the connection: the answers of the
successive calls of `tryAcquire`, `Router::handle` and `httpDate`. -/
structure Site where
  workerThreads : Nat
  proxyEnabled : Bool
  proxyPrefix : Bytes
  acquire : Nat → Bool
  handle : Nat → HttpRequest → HttpResponse
  date : Nat → Bytes

namespace Site

def isManagement (request : HttpRequest) : Bool :=
  request.path = bytes "/api/status" || request.path = bytes "/metrics"

def isProxyReq (site : Site) (request : HttpRequest) : Bool :=
  site.proxyEnabled && site.proxyPrefix.isPrefixOf request.path

def offload (site : Site) (request : HttpRequest) : Bool :=
  decide (0 < site.workerThreads) &&
    (site.isProxyReq request || !(bytes "/api/").isPrefixOf request.path)

end Site

def methodKindOf : Method → MethodKind
  | .kGet => .kMethodGet
  | .kHead => .kMethodHead
  | .kPost => .kMethodPost
  | .kInvalid => .kMethodOther

structure Task where
  index : Nat
  request : HttpRequest

structure Reply where
  index : Nat
  request : HttpRequest
  response : HttpResponse

/-- A worker takes the next task, or one of the tasks that the workers have is
done and its response is posted to the loop. -/
inductive WorkerMove where
  | take
  | post (k : Nat)

structure Session where
  parser : HttpParser := {}
  acquired : Nat := 0
  handled : Nat := 0
  taken : Nat := 0
  tasks : List Task := []
  working : List Task := []
  pendingFunctors : List Reply := []
  functors : List Reply := []
  schedule : List (List WorkerMove) := []
  sent : List Flow.SentResponse := []
  history : List Flow.Note := []

namespace Session

def out (s : Session) : Nat :=
  s.functors.length + s.pendingFunctors.length + s.working.length + s.tasks.length

def flow (s : Session) : Flow.State where
  taken := s.taken
  tasks := s.tasks.map Task.index
  working := s.working.map Task.index
  posted := s.pendingFunctors.map Reply.index
  functors := s.functors.map Reply.index
  sent := s.sent
  history := s.history

def ended (s : Session) : Bool := s.sent.any Flow.SentResponse.final

def note (s : Session) (n : Flow.Note) : Session := { s with history := s.history ++ [n] }

/-- `ThreadPool::workerLoop`, and `runInLoop` from a worker. -/
def workerMove (site : Site) (s : Session) : WorkerMove → Session
  | .take =>
    match s.tasks with
    | [] => s
    | task :: tasks =>
      if s.working.length < site.workerThreads then
        { s with tasks := tasks, working := s.working ++ [task] }
      else s
  | .post k =>
    match s.working[k]? with
    | none => s
    | some task =>
      let reply : Reply := ⟨task.index, task.request, site.handle s.handled task.request⟩
      { s with
        working := s.working.eraseIdx k
        handled := s.handled + 1
        pendingFunctors := s.pendingFunctors ++ [reply]
        history := s.history ++ [.posted k] }

def workerMoves (site : Site) (s : Session) : Session :=
  match s.schedule with
  | [] => s
  | moves :: schedule => moves.foldl (workerMove site) { s with schedule := schedule }

def submit (s : Session) (task : Task) : Session := { s with tasks := s.tasks ++ [task] }

def sending (s : Session) (index : Option Nat) (final : Bool) : Session :=
  { s with
    sent := s.sent ++ [⟨index, final⟩]
    history := if final then s.history ++ [.final s.out] else s.history }

def swapFunctors (s : Session) : Session :=
  { s with functors := s.pendingFunctors, pendingFunctors := [] }

end Session

namespace World

def mapApp {σ : Type} (w : World σ) (f : σ → σ) : World σ := { w with app := f w.app }

def requestStarted {σ : Type} (w : World σ) (kind : MethodKind) : World σ :=
  { w with metrics := { w.metrics with methodCounts :=
      fun k => if k = kind then w.metrics.methodCounts k + 1 else w.metrics.methodCounts k } }

def requestNotModified {σ : Type} (w : World σ) : World σ :=
  { w with metrics := { w.metrics with
      requestsNotModified := w.metrics.requestsNotModified + 1 } }

def requestRateLimited {σ : Type} (w : World σ) : World σ :=
  { w with metrics := { w.metrics with
      requestsRateLimited := w.metrics.requestsRateLimited + 1 } }

/-- The class of a status is counted when it is one of the five. -/
def requestFinished {σ : Type} (w : World σ) (statusCode : Int) : World σ :=
  let classIndex := statusCode.tdiv 100 - 1
  { w with metrics := { w.metrics with
      requestsTotal := w.metrics.requestsTotal + 1
      statusClasses := fun i =>
        if i = classIndex ∧ 0 ≤ classIndex ∧ classIndex < 5 then w.metrics.statusClasses i + 1
        else w.metrics.statusClasses i } }

def connectionClosed {σ : Type} (w : World σ) : World σ :=
  { w with metrics := { w.metrics with connectionsCurrent := w.metrics.connectionsCurrent - 1 } }

end World

/-! ## The message callback -/

namespace Session

def closeCallback : Prog (World Session) Unit := update World.connectionClosed

def parsed (parser : HttpParser) (rest : Bytes) : Prog (World Session) Unit :=
  update fun w => { w.mapApp (fun s => { s with parser := parser }) with
    conn := { w.conn with input := rest } }

def countNotModified (statusCode : Int) : Prog (World Session) Unit :=
  if statusCode = 304 then update World.requestNotModified else pure ()

def sendResponse (site : Site) (index : Option Nat) (final : Bool) (response : HttpResponse)
    (includeBody : Bool) : Prog (World Session) Unit := do
  let w ← world
  update fun w => w.mapApp fun s => s.sending index final
  TcpConnection.send closeCallback (response.serialize (site.date w.app.sent.length) includeBody)

def sendFileBody (headOnly : Bool) (fileBody : Option FileBody) : Prog (World Session) Unit :=
  match headOnly, fileBody with
  | false, some file => TcpConnection.sendFile closeCallback file
  | _, _ => pure ()

def endUnless (keepAlive : Bool) : Prog (World Session) Unit :=
  if keepAlive then pure () else TcpConnection.shutdownWrite

def respond (site : Site) (reply : Reply) : Prog (World Session) Unit := do
  let headOnly := decide (reply.request.method = .kHead)
  let keepAlive := reply.request.keepAlive
  let response := reply.response.setCloseConnection (!keepAlive)
  countNotModified response.statusCode
  sendResponse site (some reply.index) (!keepAlive) response (!headOnly)
  sendFileBody headOnly response.fileBody
  update fun w => w.requestFinished response.statusCode
  endUnless keepAlive

def answerBadRequest (site : Site) : Prog (World Session) Unit := do
  update fun w => w.mapApp fun s => s.note (.malformed s.ended)
  sendResponse site none true (HttpResponse.badRequest (bytes "Bad Request")) true
  update World.addErrors
  TcpConnection.shutdownWrite

def takeRequest : Prog (World Session) Task := do
  let w ← world
  let (request, parser) := w.app.parser.takeRequest
  update fun w => w.mapApp fun s => { s with parser := parser, taken := s.taken + 1 }
  pure ⟨w.app.taken, request⟩

def limited (site : Site) (request : HttpRequest) : Prog (World Session) Bool :=
  if Site.isManagement request then pure false
  else do
    let w ← world
    update fun w => w.mapApp fun s => { s with acquired := s.acquired + 1 }
    pure (!site.acquire w.app.acquired)

def handle (site : Site) (task : Task) : Prog (World Session) Reply := do
  let w ← world
  update fun w => w.mapApp fun s => { s with handled := s.handled + 1 }
  pure ⟨task.index, task.request, site.handle w.app.handled task.request⟩

def noteRequest (inline : Bool) : Prog (World Session) Unit :=
  update fun w => w.mapApp fun s => s.note (.request inline s.out s.ended)

def dispatch (site : Site) : Prog (World Session) Bool := do
  let task ← takeRequest
  update fun w => w.requestStarted (methodKindOf task.request.method)
  if ← limited site task.request then do
    noteRequest true
    update World.requestRateLimited
    respond site ⟨task.index, task.request, HttpResponse.tooManyRequests 1⟩
    pure task.request.keepAlive
  else if site.offload task.request then do
    noteRequest false
    update fun w => w.mapApp fun s => s.submit task
    pure task.request.keepAlive
  else do
    noteRequest true
    let reply ← handle site task
    respond site reply
    pure task.request.keepAlive

def messageRound (site : Site) (_ : Unit) : Prog (World Session) (Unit ⊕ Unit) := do
  update fun w => w.mapApp (workerMoves site)
  let w ← world
  match w.app.parser.parse w.conn.input with
  | .bad parser rest => do
    parsed parser rest
    answerBadRequest site
    pure (.inr ())
  | .done parser rest => do
    parsed parser rest
    if ← dispatch site then pure (.inl ()) else pure (.inr ())
  | .more parser rest => do
    parsed parser rest
    pure (.inr ())
  | .moved parser rest => do
    parsed parser rest
    pure (.inr ())
  | .next parser rest => do
    parsed parser rest
    pure (.inr ())

def unread (w : World Session) : Nat :=
  2 * w.conn.input.length + if w.app.parser.state = .kRequestLine then 0 else 1

def messageCallback (site : Site) : Prog (World Session) Unit := loop unread (messageRound site) ()

end Session

/-! ## The loop thread and the workers -/

structure Answers where
  clock : Timestamp := 0
  reads : List ReadAnswer := []
  writes : List Answer := []
  sendfiles : List Answer := []
  preads : List Answer := []
  schedule : List (List WorkerMove) := []

def Answers.give (a : Answers) (w : World Session) : World Session :=
  { w.mapApp (fun s => { s with schedule := a.schedule }) with
    clock := a.clock
    reads := a.reads
    writes := a.writes
    sendfiles := a.sendfiles
    preads := a.preads }

/-- An event of the connection's descriptor, its idle timer, a close that was
asked for, the two parts of `doPendingFunctors`, and a move of the workers. -/
inductive SiteEvent where
  | ready (revents : Mask) (answers : Answers)
  | idleTimeout
  | forceClose
  | takeFunctors
  | runFunctor (answers : Answers)
  | worker (move : WorkerMove)

/-- `waiting` says that the loop thread is in a call. -/
structure Serving where
  world : World Session
  waiting : Bool := false

namespace Serving

def run (p : Prog (World Session) Unit) (w : World Session) : Serving :=
  match p w with
  | .returned _ w' => { world := w' }
  | .waits w' => { world := w', waiting := true }

def atLoop (s : Serving) : Bool := !s.waiting && s.world.app.functors.isEmpty

def step (site : Site) (s : Serving) : SiteEvent → Option Serving
  | .ready revents answers =>
    if s.atLoop then
      some (run (TcpConnection.dispatch Session.closeCallback (Session.messageCallback site) revents)
        (answers.give s.world))
    else none
  | .idleTimeout =>
    if s.atLoop then some (run (TcpConnection.handleIdleTimeout Session.closeCallback) s.world)
    else none
  | .forceClose =>
    if s.atLoop then some (run (TcpConnection.forceClose Session.closeCallback) s.world)
    else none
  | .takeFunctors =>
    if s.atLoop then some { s with world := s.world.mapApp Session.swapFunctors } else none
  | .runFunctor answers =>
    match s.world.app.functors with
    | [] => none
    | reply :: functors =>
      if s.waiting then none
      else some (run (Session.respond site reply)
        (answers.give (s.world.mapApp fun app => { app with functors := functors })))
  | .worker move => some { s with world := s.world.mapApp fun app => app.workerMove site move }

def setUp (idleSeconds : Rat) : Prog (World Session) Unit := do
  TcpConnection.start
  if 0 < idleSeconds then TcpConnection.setIdleTimeout idleSeconds else pure ()

end Serving

end Myself
