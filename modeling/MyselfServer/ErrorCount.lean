import MyselfServer.ErrorTally
import MyselfServer.HalfClose
import MyselfServer.ParserMemory

/-!
# Every failure is counted once

A connection with the handling of an event cut into its callbacks and
`handleRead` cut into its reads. A read that fails is counted by `handleRead`
and by `handleError`; the reads go on when the message callback has closed the
connection; and a parser that has refused its input refuses what comes next,
too. `errors_counted_once` is about the runs without these.
-/

namespace Myself

open Text Prog Stream

namespace TcpConnection

def afterReads {σ : Type} (closeCallback : Prog (World σ) Unit) : Bool × ReadEnd → Prog (World σ) Unit
  | (_, .failed) => do
    update World.addErrors
    handleError closeCallback
  | (activity, .again) => refreshAfter activity
  | (activity, .peerClosed) => do
    refreshAfter activity
    handleClose closeCallback

end TcpConnection

namespace Session

def malformed (s : Session) : Nat := if s.parser.state = .kError then 1 else 0

section
variable {site : Site} {owed base : Nat} {gentle : Bool} {w w' : World Session}

theorem closeCallback_account : Keeps World.account closeCallback := Keeps.update fun _ => rfl

theorem Tally.parser (h : Tally owed base malformed gentle w)
    (hw : (w'.metrics.errorsTotal, w'.conn.closed, w'.conn.socket, w'.trace, w'.app.malformed) =
      (w.metrics.errorsTotal, w.conn.closed, w.conn.socket, w.trace, w.app.malformed)) :
    Tally owed base malformed gentle w' := by
  simp only [Prod.mk.injEq] at hw
  obtain ⟨herrors, hclosed, hsocket, htrace, happ⟩ := hw
  refine ⟨?_, ?_, ?_⟩
  · rw [herrors, hclosed, happ]
    exact h.errors
  · rw [hclosed, hsocket, htrace]
    exact h.live
  · rw [htrace]
    exact h.quiet

theorem sendResponse_tally (site : Site) (index : Option Nat) (final : Bool) (response : HttpResponse)
    (includeBody : Bool) :
    Maintains (Tally owed base malformed gentle)
      (sendResponse site index final response includeBody) := by
  apply Maintains.bind Maintains.world
  intro w
  refine Maintains.update_bind (fun _ h => Tally.parser h rfl) ?_
  exact TcpConnection.send_tally closeCallback_account _

theorem respond_tally (site : Site) (reply : Reply) :
    Maintains (Tally owed base malformed gentle) (respond site reply) := by
  apply Maintains.bind
  · exact Maintains.ite (Maintains.update fun _ h => h.same rfl) (Maintains.pure _)
  intro _
  apply Maintains.bind (sendResponse_tally _ _ _ _ _)
  intro _
  apply Maintains.bind
  · unfold sendFileBody
    split
    · exact TcpConnection.sendFile_tally closeCallback_account _
    · exact Maintains.pure _
  intro _
  refine Maintains.update_bind (fun _ h => h.same rfl) ?_
  exact Maintains.ite (Maintains.pure _) TcpConnection.shutdownWrite_tally

theorem answerBadRequest_tally (h : Tally 1 base malformed gentle w) :
    wp (answerBadRequest site) (fun _ w' => Tally 0 base malformed gentle w') (fun _ => True) w := by
  simp only [answerBadRequest, wp_bind, wp_update]
  have hnoted : Tally 1 base malformed gentle (w.mapApp fun s => s.note (.malformed s.ended)) :=
    Tally.parser h rfl
  refine wp_mono (sendResponse_tally site none true _ true _ hnoted) ?_ fun _ _ => trivial
  intro _ w' h'
  have hpaid : Tally 0 base malformed gentle w'.addErrors := ⟨h'.errors, h'.live, h'.quiet⟩
  exact wp_mono (TcpConnection.shutdownWrite_tally _ hpaid) (fun _ _ h => h) fun _ _ => trivial

structure Parsing (base : Nat) (gentle : Bool) (w : World Session) : Prop where
  tally : Tally 0 base malformed gentle w
  state : w.app.parser.state ≠ .kError

theorem malformed_eq_zero {s : Session} (h : s.parser.state ≠ .kError) : s.malformed = 0 := if_neg h

/-- The parser goes on to another state in which it has not refused the input. -/
theorem Parsing.same (h : Parsing base gentle w) (hstate : w'.app.parser.state ≠ .kError)
    (hw : (w'.metrics.errorsTotal, w'.conn.closed, w'.conn.socket, w'.trace) =
      (w.metrics.errorsTotal, w.conn.closed, w.conn.socket, w.trace)) :
    Parsing base gentle w' := by
  refine ⟨Tally.parser h.tally ?_, hstate⟩
  simp only [Prod.mk.injEq] at hw ⊢
  rw [malformed_eq_zero h.state, malformed_eq_zero hstate]
  exact ⟨hw.1, hw.2.1, hw.2.2.1, hw.2.2.2, rfl⟩

theorem parsed_parsing (h : Parsing base gentle w) {parser : HttpParser} (hstate : parser.state ≠ .kError)
    (rest : Bytes) {E : World Session → Prop} :
    wp (parsed parser rest) (fun _ w' => Parsing base gentle w') E w :=
  show Parsing base gentle { w.mapApp (fun s => { s with parser := parser }) with
    conn := { w.conn with input := rest } } from h.same hstate rfl

/-- The parser has refused its input, and the error is not counted yet. -/
theorem parsed_owed (h : Parsing base gentle w) {parser : HttpParser} (hstate : parser.state = .kError)
    (rest : Bytes) {E : World Session → Prop} :
    wp (parsed parser rest) (fun _ w' => Tally 1 base malformed gentle w') E w := by
  have herrors := h.tally.errors
  rw [malformed_eq_zero h.state] at herrors
  have hone : ({ w.app with parser := parser } : Session).malformed = 1 := if_pos hstate
  refine ⟨?_, h.tally.live, h.tally.quiet⟩
  simp only [World.mapApp]
  rw [hone]
  omega

theorem takeRequest_parsing (h : Parsing base gentle w) {E : World Session → Prop} :
    wp takeRequest (fun _ w' => Tally 0 base malformed gentle w') E w := by
  have htaken : Parsing base gentle (w.mapApp fun s =>
      { s with parser := w.app.parser.takeRequest.2, taken := s.taken + 1 }) :=
    h.same (fun hk => by cases hk) rfl
  exact htaken.tally

theorem dispatch_parsing (h : Parsing base gentle w) :
    wp (dispatch site) (fun _ w' => Parsing base gentle w') (fun _ => True) w := by
  have htally : wp (dispatch site) (fun _ w' => Tally 0 base malformed gentle w') (fun _ => True) w := by
    have hlimited : ∀ request, Maintains (Tally 0 base malformed gentle) (limited site request) := by
      intro request
      apply Maintains.ite (Maintains.pure _)
      apply Maintains.bind Maintains.world
      intro w
      exact Maintains.update_bind (fun _ h => Tally.parser h rfl) (Maintains.pure _)
    have hnote : ∀ inline, Maintains (Tally 0 base malformed gentle) (noteRequest inline) :=
      fun inline => Maintains.update fun _ h => Tally.parser h rfl
    have hhandle : ∀ task, Maintains (Tally 0 base malformed gentle) (handle site task) := by
      intro task
      apply Maintains.bind Maintains.world
      intro w
      exact Maintains.update_bind (fun _ h => Tally.parser h rfl) (Maintains.pure _)
    unfold dispatch
    rw [wp_bind]
    refine wp_mono (takeRequest_parsing h (E := fun _ => False)) ?_ fun _ hf => hf.elim
    intro task w₁ h₁
    rw [wp_bind, wp_update, wp_bind]
    have hstarted : Tally 0 base malformed gentle (w₁.requestStarted (methodKindOf task.request.method)) :=
      h₁.same rfl
    refine wp_mono (hlimited task.request _ hstarted) ?_ fun _ _ => trivial
    intro isLimited w₂ h₂
    simp only [wp_ite, wp_bind, wp_update, wp_pure]
    split
    · refine wp_mono (hnote true w₂ h₂) ?_ fun _ _ => trivial
      intro _ w₃ h₃
      have hlimit : Tally 0 base malformed gentle w₃.requestRateLimited := h₃.same rfl
      exact wp_mono (respond_tally site _ _ hlimit) (fun _ _ h => h) fun _ _ => trivial
    split
    · refine wp_mono (hnote false w₂ h₂) ?_ fun _ _ => trivial
      exact fun _ w₃ h₃ => Tally.parser h₃ rfl
    · refine wp_mono (hnote true w₂ h₂) ?_ fun _ _ => trivial
      intro _ w₃ h₃
      refine wp_mono (hhandle task w₃ h₃) ?_ fun _ _ => trivial
      intro reply w₄ h₄
      exact wp_mono (respond_tally site reply _ h₄) (fun _ _ h => h) fun _ _ => trivial
  refine wp_mono (wp_and htally (dispatch_spec site w)) ?_ fun _ _ => trivial
  rintro _ w' ⟨ht, hspec⟩
  refine ⟨ht, ?_⟩
  rw [hspec.state]
  decide

theorem messageRound_parsing (h : Parsing base gentle w) (u : Unit) :
    wp (messageRound site u)
      (fun r w' => r.elim (fun _ => Parsing base gentle w') fun _ => Tally 0 base malformed gentle w')
      (fun _ => True) w := by
  have hparser : (w.app.workerMoves site).parser = w.app.parser := parser_workerMoves site w.app
  have hmoved : Parsing base gentle (w.mapApp (workerMoves site)) := by
    refine h.same ?_ rfl
    simp only [World.mapApp, hparser]
    exact h.state
  simp only [messageRound, wp_bind, wp_update, wp_world]
  cases hparse : (w.mapApp (workerMoves site)).app.parser.parse
      (w.mapApp (workerMoves site)).conn.input with
  | more parser rest =>
    simp only [wp_bind, wp_pure]
    exact wp_mono (parsed_parsing hmoved (HttpParser.parse_more_state hparse) rest)
      (fun _ _ h' => h'.tally) fun _ h => h
  | moved parser rest => exact absurd hparse (HttpParser.parse_not_moved _ _ _ _)
  | next parser rest => exact absurd hparse (run_not_next HttpParser.parseRound_decreases _ _ _ _)
  | bad parser rest =>
    simp only [wp_bind, wp_pure]
    refine wp_mono (parsed_owed hmoved ((HttpParser.parse_state _ _).2 _ _ hparse) rest) ?_ fun _ h => h
    exact fun _ _ howed => answerBadRequest_tally howed
  | done parser rest =>
    have hstate : parser.state ≠ .kError := by
      rw [(HttpParser.parse_state _ _).1 _ _ hparse]
      decide
    simp only [wp_bind, wp_ite, wp_pure]
    refine wp_mono (parsed_parsing hmoved hstate rest) ?_ fun _ h => h
    intro _ w₁ h₁
    refine wp_mono (dispatch_parsing h₁) ?_ fun _ _ => trivial
    intro keepAlive w' h'
    split
    · exact h'
    · exact h'.tally

theorem messageCallback_parsing (h : Parsing base gentle w) :
    wp (messageCallback site) (fun _ w' => Tally 0 base malformed gentle w') (fun _ => True) w :=
  wp_loop (messageRound_decreases site) (I := fun _ w => Parsing base gentle w)
    (fun u _ h => messageRound_parsing h u) () w h

/-! ## Reads -/

/-- What the next read answers is no failure, and no data for a parser that has
refused its input. -/
def ReadFits (s : Session) : List ReadAnswer → Prop
  | .failed _ :: _ => False
  | .data bytes :: _ => bytes = [] ∨ s.parser.state ≠ .kError
  | _ => True

instance (s : Session) (reads : List ReadAnswer) : Decidable (s.ReadFits reads) := by
  unfold ReadFits
  split <;> infer_instance

theorem readFd_live (h : Live 0 base malformed w) (hfits : w.app.ReadFits w.reads) :
    wp TcpConnection.readFd (fun a w' => Live 0 base malformed w' ∧
      (∀ n, a = .count n → 0 < n → w'.app.parser.state ≠ .kError) ∧ ∀ errno, a ≠ .failed errno)
      (fun _ => True) w := by
  obtain ⟨-, hfd, -⟩ := h.tally.live h.isOpen
  obtain ⟨fd, hfd⟩ := Option.isSome_iff_exists.mp hfd
  unfold wp TcpConnection.readFd
  rw [hfd]
  cases hreads : w.reads with
  | nil => trivial
  | cons answer rest =>
    rw [hreads] at hfits
    cases answer with
    | data bytes =>
      refine ⟨h.call (c := .read (some fd) (some bytes.length) w.armed) rfl rfl, ?_, fun _ he => by cases he⟩
      intro n hn hpos
      cases hn
      rcases hfits with rfl | hstate
      · exact absurd hpos (Nat.lt_irrefl 0)
      · exact hstate
    | again =>
      exact ⟨h.call (c := .read (some fd) none w.armed) rfl rfl, (fun _ he => by cases he),
        fun _ he => by cases he⟩
    | interrupted =>
      exact ⟨h.call (c := .read (some fd) none w.armed) rfl rfl, (fun _ he => by cases he),
        fun _ he => by cases he⟩
    | failed errno => exact hfits.elim

variable (site) in
theorem readRound_tally (h : Live 0 base malformed w) (hfits : w.app.ReadFits w.reads)
    (activity : Bool) :
    wp (TcpConnection.readRound (messageCallback site) activity)
      (fun r w' => r.elim (fun _ => Tally 0 base malformed false w') fun x =>
        x.2 ≠ .failed ∧ Live 0 base malformed w')
      (fun _ => True) w := by
  unfold TcpConnection.readRound
  rw [wp_bind]
  refine wp_mono (readFd_live h hfits) ?_ fun _ h => h
  rintro a w₁ ⟨h₁, hstate, hfailed⟩
  cases a with
  | count n =>
    simp only [wp_ite, wp_bind, wp_update, wp_pure]
    split
    · rename_i hpos
      have hparsing : Parsing base false (w₁.addBytesRead n) := ⟨h₁.tally.same rfl, hstate n rfl hpos⟩
      exact wp_mono (messageCallback_parsing hparsing) (fun _ _ h => h) fun _ h => h
    · exact ⟨(fun he => by cases he), h₁⟩
  | again => exact ⟨(fun he => by cases he), h₁⟩
  | interrupted => exact h₁.tally
  | failed errno => exact absurd rfl (hfailed errno)

end

end Session

/-! ## A connection, callback by callback and read by read -/

/-- The callbacks of an event that are still to be called, behind the loop of
`handleRead` if the thread is in it. -/
inductive Phase where
  | callbacks (revents : Mask) (cbs : List ChannelCallback)
  | reading (revents : Mask) (cbs : List ChannelCallback) (activity : Bool)

/-- `gentle` says that the connection was closed by the owner, the peer or the
idle timer. -/
structure Handling where
  world : World Session
  phase : Phase := .callbacks 0 []
  gentle : Bool := false

/-- An event of the descriptor and the steps of its handling, and what else
happens to the connection. -/
inductive HandlingEvent where
  | ready (revents : Mask) (answers : Answers)
  | callback
  | read
  | idleTimeout
  | forceClose
  | takeFunctors
  | runFunctor (answers : Answers)
  | worker (move : WorkerMove)

namespace Handling

open TcpConnection (ReadEnd)

def noCallback (s : Handling) : Bool :=
  match s.phase with
  | .callbacks _ [] => true
  | _ => false

def atLoop (s : Handling) : Bool := s.noCallback && s.world.app.functors.isEmpty

def perform (s : Handling) (phase : Phase) (gentle : Bool) (p : Prog (World Session) Unit)
    (w : World Session) : Option Handling :=
  match p w with
  | .returned _ w' =>
    some { world := w', phase := phase, gentle := s.gentle || (gentle && !s.world.conn.closed) }
  | .waits _ => none

def isPeerClosed : ReadEnd → Bool
  | .peerClosed => true
  | .again => false
  | .failed => false

/-- A callback closes the connection without an error when it is the close
callback, at an event that has no error. -/
def isHangUp (revents : Mask) (cb : ChannelCallback) : Bool :=
  decide (cb = .close) && revents &&& EPOLLERR == 0

def step (site : Site) (s : Handling) : HandlingEvent → Option Handling
  | .ready revents answers =>
    if s.atLoop then
      let cbs := if s.world.reactor.channels.contains s.world.conn.channel.fd then
        Channel.handleEvent revents else []
      some { s with world := answers.give s.world, phase := .callbacks revents cbs }
    else none
  | .callback =>
    match s.phase with
    | .callbacks _ [] => none
    | .callbacks revents (.read :: cbs) => some { s with phase := .reading revents cbs false }
    | .callbacks revents (cb :: cbs) =>
      s.perform (.callbacks revents cbs) (isHangUp revents cb)
        (TcpConnection.callback Session.closeCallback (Session.messageCallback site) cb) s.world
    | .reading _ _ _ => none
  | .read =>
    match s.phase with
    | .callbacks _ _ => none
    | .reading revents cbs activity =>
      match TcpConnection.readRound (Session.messageCallback site) activity s.world with
      | .waits _ => none
      | .returned (.inl activity) w => some { s with world := w, phase := .reading revents cbs activity }
      | .returned (.inr x) w =>
        s.perform (.callbacks revents cbs) (isPeerClosed x.2)
          (TcpConnection.afterReads Session.closeCallback x) w
  | .idleTimeout =>
    if s.atLoop then
      s.perform s.phase true (TcpConnection.handleIdleTimeout Session.closeCallback) s.world
    else none
  | .forceClose =>
    if s.atLoop then s.perform s.phase true (TcpConnection.forceClose Session.closeCallback) s.world
    else none
  | .takeFunctors =>
    if s.atLoop then some { s with world := s.world.mapApp Session.swapFunctors } else none
  | .runFunctor answers =>
    match s.world.app.functors with
    | [] => none
    | reply :: functors =>
      if s.noCallback then
        s.perform s.phase false (Session.respond site reply)
          (answers.give (s.world.mapApp fun app => { app with functors := functors }))
      else none
  | .worker move => some { s with world := s.world.mapApp fun app => app.workerMove site move }

def died (s : Handling) : Bool := s.world.conn.closed && !s.gentle

/-- One error for a connection that died from one, one for malformed input,
and no call on a closed socket. -/
structure CountedOnce (base : Nat) (s : Handling) : Prop where
  errors : s.world.metrics.errorsTotal = base + s.died.toNat + s.world.app.malformed
  quiet : Quiet s.world.trace

/-- The step is none of those that count an error twice, or not at all, or
that use the closed socket. -/
def Counts (s : Handling) : HandlingEvent → Prop
  | .callback =>
    match s.phase with
    | .callbacks revents (.close :: _) => s.world.conn.closed = true ∨ revents &&& EPOLLERR = 0
    | .callbacks _ (.error :: _) => s.world.conn.closed = false
    | _ => True
  | .read => s.world.conn.closed = false ∧ s.world.app.ReadFits s.world.reads
  | _ => True

instance (s : Handling) (e : HandlingEvent) : Decidable (s.Counts e) := by
  unfold Counts
  split
  · split <;> infer_instance
  · infer_instance
  · infer_instance

/-! ## An event as a run -/

section
variable {site : Site} {s s' : Handling} {w w' : World Session}

theorem handleRead_eq {σ : Type} (closeCallback messageCallback : Prog (World σ) Unit) :
    TcpConnection.handleRead closeCallback messageCallback =
      loop (fun w => w.reads.length) (TcpConnection.readRound messageCallback) false >>=
        TcpConnection.afterReads closeCallback := by
  unfold TcpConnection.handleRead
  congr

theorem bind_returned {W α β : Type} {p : Prog W α} {k : α → Prog W β} {w w' : W} {b : β}
    (h : (p >>= k) w = .returned b w') : ∃ a w₁, p w = .returned a w₁ ∧ k a w₁ = .returned b w' := by
  simp only [bind] at h
  split at h
  · rename_i a w₁ hp
    exact ⟨a, w₁, hp, h⟩
  · cases h

theorem returned_bind {W α β : Type} {p : Prog W α} {k : α → Prog W β} {w w₁ : W} {a : α}
    (h : p w = .returned a w₁) : (p >>= k) w = k a w₁ := by
  simp only [bind, h]

theorem perform_returned (phase : Phase) (gentle : Bool) {p : Prog (World Session) Unit}
    (h : p w = .returned () w') : ∃ s', s.perform phase gentle p w = some s' ∧ s'.world = w' ∧
      s'.phase = phase := by
  unfold perform
  rw [h]
  exact ⟨_, rfl, rfl, rfl⟩

/-- The loop of `handleRead` and what comes behind it, read by read. -/
theorem reads_run {revents : Mask} {cbs : List ChannelCallback} {activity : Bool}
    (hphase : s.phase = .reading revents cbs activity)
    (h : (loop (fun w : World Session => w.reads.length)
      (TcpConnection.readRound (Session.messageCallback site)) activity >>=
        TcpConnection.afterReads Session.closeCallback) s.world = .returned () w') :
    ∃ es s', Machine.run (step site) s es = some s' ∧ s'.world = w' ∧
      s'.phase = .callbacks revents cbs := by
  have hdecreases := TcpConnection.readRound_decreases (Session.messageCallback_reads site)
  generalize hn : s.world.reads.length = n
  induction n using Nat.strongRecOn generalizing s activity with | ind n ih =>
  obtain ⟨x, w₁, hloop, hafter⟩ := bind_returned h
  rw [loop_eq hdecreases] at hloop
  obtain ⟨r, w₂, hround, hrest⟩ := bind_returned hloop
  cases r with
  | inl activity' =>
    have hless := hdecreases _ _ _ _ hround
    have hstep : step site s .read =
        some { s with world := w₂, phase := .reading revents cbs activity' } := by
      simp only [step, hphase, hround]
    obtain ⟨es, s', hrun, hw, hp⟩ := ih w₂.reads.length (hn ▸ hless)
      (s := { s with world := w₂, phase := .reading revents cbs activity' }) rfl
      ((returned_bind hrest).trans hafter) rfl
    refine ⟨.read :: es, s', ?_, hw, hp⟩
    simp only [Machine.run, hstep]
    exact hrun
  | inr y =>
    cases hrest
    obtain ⟨s', hperform, hw, hp⟩ := perform_returned (s := s) (.callbacks revents cbs)
      (isPeerClosed x.2) hafter
    refine ⟨[.read], s', ?_, hw, hp⟩
    simp only [Machine.run, step, hphase, hround]
    rw [hperform]

theorem callbacks_run {revents : Mask} {cbs : List ChannelCallback}
    (hphase : s.phase = .callbacks revents cbs)
    (h : TcpConnection.callbacks Session.closeCallback (Session.messageCallback site) cbs s.world =
      .returned () w') :
    ∃ es s', Machine.run (step site) s es = some s' ∧ s'.world = w' ∧
      s'.phase = .callbacks revents [] := by
  induction cbs generalizing s with
  | nil =>
    cases h
    exact ⟨[], s, rfl, rfl, hphase⟩
  | cons cb cbs ih =>
    obtain ⟨u, w₁, hcallback, hrest⟩ := bind_returned h
    have hone : ∃ es s₁, Machine.run (step site) s es = some s₁ ∧ s₁.world = w₁ ∧
        s₁.phase = .callbacks revents cbs := by
      cases cb with
      | read =>
        rw [TcpConnection.callback, handleRead_eq] at hcallback
        obtain ⟨es, s₁, hrun, hw, hp⟩ := reads_run
          (s := { s with phase := .reading revents cbs false }) rfl hcallback
        refine ⟨.callback :: es, s₁, ?_, hw, hp⟩
        simp only [Machine.run, step, hphase]
        exact hrun
      | write =>
        obtain ⟨s₁, hperform, hw, hp⟩ := perform_returned (s := s) (.callbacks revents cbs)
          (isHangUp revents .write) hcallback
        exact ⟨[.callback], s₁, by simp only [Machine.run, step, hphase, hperform], hw, hp⟩
      | close =>
        obtain ⟨s₁, hperform, hw, hp⟩ := perform_returned (s := s) (.callbacks revents cbs)
          (isHangUp revents .close) hcallback
        exact ⟨[.callback], s₁, by simp only [Machine.run, step, hphase, hperform], hw, hp⟩
      | error =>
        obtain ⟨s₁, hperform, hw, hp⟩ := perform_returned (s := s) (.callbacks revents cbs)
          (isHangUp revents .error) hcallback
        exact ⟨[.callback], s₁, by simp only [Machine.run, step, hphase, hperform], hw, hp⟩
    obtain ⟨es, s₁, hrun, hw, hp⟩ := hone
    obtain ⟨es', s', hrun', hw', hp'⟩ := ih hp (by rw [hw]; exact hrest)
    refine ⟨es ++ es', s', ?_, hw', hp'⟩
    rw [Machine.run_append, hrun]
    exact hrun'

/-- **An event of the descriptor is a run of these steps** when every call in
it is answered. -/
theorem dispatch_run {revents : Mask} {answers : Answers} (hloop : s.atLoop = true)
    (h : TcpConnection.dispatch Session.closeCallback (Session.messageCallback site) revents
      (answers.give s.world) = .returned () w') :
    ∃ es s', Machine.run (step site) s (.ready revents answers :: es) = some s' ∧ s'.world = w' ∧
      s'.noCallback = true := by
  obtain ⟨w₁, w₂, hworld, hrest⟩ := bind_returned h
  cases hworld
  have hcallbacks : TcpConnection.callbacks Session.closeCallback (Session.messageCallback site)
      (if s.world.reactor.channels.contains s.world.conn.channel.fd then Channel.handleEvent revents
        else []) (answers.give s.world) = .returned () w' := by
    by_cases hmem : s.world.reactor.channels.contains s.world.conn.channel.fd = true
    · rw [if_pos hmem]
      exact (congrFun (if_pos hmem) _).symm.trans hrest
    · rw [if_neg hmem]
      exact (congrFun (if_neg hmem) _).symm.trans hrest
  obtain ⟨es, s', hrun, hw, hp⟩ := callbacks_run (s := { s with
    world := answers.give s.world
    phase := .callbacks revents (if s.world.reactor.channels.contains s.world.conn.channel.fd then
      Channel.handleEvent revents else []) }) rfl hcallbacks
  refine ⟨es, s', ?_, hw, ?_⟩
  · simp only [Machine.run, step, hloop, if_true]
    exact hrun
  · rw [noCallback, hp]

end

/-! ## The tally of a run -/

section
variable {site : Site} {base : Nat} {s s' : Handling} {e : HandlingEvent}

def Inv (base : Nat) (s : Handling) : Prop := Tally 0 base Session.malformed s.gentle s.world

theorem perform_inv {phase : Phase} {gentle : Bool} {p : Prog (World Session) Unit} {w : World Session}
    (h : wp p (fun _ w' => Tally 0 base Session.malformed
      (s.gentle || (gentle && !s.world.conn.closed)) w') (fun _ => True) w)
    (hs : s.perform phase gentle p w = some s') : s'.Inv base := by
  unfold perform at hs
  unfold wp at h
  split at hs
  · rename_i u w' hp
    rw [hp] at h
    cases hs
    exact h
  · cases hs

theorem handleClose_inv (h : s.Inv base) :
    wp (TcpConnection.handleClose Session.closeCallback)
      (fun _ w' => Tally 0 base Session.malformed (s.gentle || (true && !s.world.conn.closed)) w')
      (fun _ => True) s.world := by
  by_cases hopen : s.world.conn.closed = false
  · rw [hopen, Bool.not_false, Bool.and_true, Bool.or_true]
    exact wp_mono (TcpConnection.handleClose_gentle Session.closeCallback_account
      (Tally.isLive h hopen)) (fun _ _ ht => ht) fun _ _ => trivial
  · rw [Bool.not_eq_false] at hopen
    rw [hopen, Bool.not_true, Bool.and_false, Bool.or_false]
    simp only [TcpConnection.handleClose, wp_bind, wp_world, wp_ite, wp_pure]
    rw [if_pos hopen]
    exact h

theorem callback_inv (h : s.Inv base) (hc : s.Counts .callback) (hs : step site s .callback = some s') :
    s'.Inv base := by
  simp only [step] at hs
  simp only [Counts] at hc
  split at hs
  · cases hs
  · cases hs
    exact h
  · rename_i revents cb cbs hread hphase
    cases cb with
    | read => exact (hread rfl).elim
    | write =>
      refine perform_inv ?_ hs
      rw [isHangUp, decide_eq_false (by decide), Bool.false_and, Bool.false_and, Bool.or_false]
      exact wp_mono (TcpConnection.handleWrite_tally Session.closeCallback_account _ h)
        (fun _ _ ht => ht) fun _ _ => trivial
    | close =>
      refine perform_inv ?_ hs
      rw [hphase] at hc
      have hgentle : (s.gentle || (isHangUp revents .close && !s.world.conn.closed)) =
          (s.gentle || (true && !s.world.conn.closed)) := by
        rcases hc with hclosed | herr
        · rw [hclosed, Bool.not_true, Bool.and_false, Bool.and_false]
        · rw [isHangUp, herr]
          rfl
      rw [hgentle]
      exact handleClose_inv h
    | error =>
      refine perform_inv ?_ hs
      rw [hphase] at hc
      have hlive := Tally.isLive h hc
      rw [isHangUp, decide_eq_false (by decide), Bool.false_and, Bool.false_and, Bool.or_false,
        (h.live hc).1]
      exact wp_mono (TcpConnection.handleError_tally Session.closeCallback_account hlive)
        (fun _ _ ht => ht) fun _ _ => trivial
  · cases hs

theorem read_inv (h : s.Inv base) (hc : s.Counts .read) (hs : step site s .read = some s') :
    s'.Inv base := by
  obtain ⟨hopen, hfits⟩ := hc
  have hlive := Tally.isLive h hopen
  have hgentle := (h.live hopen).1
  simp only [step] at hs
  split at hs
  · cases hs
  · rename_i revents cbs activity hphase
    have hround := Session.readRound_tally site hlive hfits activity
    unfold wp at hround
    split at hs
    · cases hs
    · rename_i activity' w heq
      rw [heq] at hround
      cases hs
      unfold Inv
      rw [hgentle]
      exact hround
    · rename_i x w heq
      rw [heq] at hround
      obtain ⟨hend, hw⟩ := hround
      refine perform_inv ?_ hs
      rw [hgentle, hopen, Bool.not_false, Bool.and_true, Bool.false_or]
      obtain ⟨activity', ending⟩ := x
      cases ending with
      | again =>
        exact wp_mono (tally_of_keeps (TcpConnection.refreshAfter_account activity') w hw.tally)
          (fun _ _ ht => ht) fun _ _ => trivial
      | peerClosed =>
        simp only [TcpConnection.afterReads, wp_bind]
        refine wp_mono (live_of_keeps (TcpConnection.refreshAfter_account activity') w hw) ?_
          fun _ _ => trivial
        exact fun _ _ hl => wp_mono (TcpConnection.handleClose_gentle Session.closeCallback_account hl)
          (fun _ _ ht => ht) fun _ _ => trivial
      | failed => exact absurd rfl hend

theorem inv_step (h : s.Inv base) (hc : s.Counts e) (hs : step site s e = some s') : s'.Inv base := by
  cases e with
  | ready revents answers =>
    simp only [step] at hs
    split at hs
    · cases hs
      exact Session.Tally.parser h rfl
    · cases hs
  | callback => exact callback_inv h hc hs
  | read => exact read_inv h hc hs
  | idleTimeout =>
    simp only [step] at hs
    split at hs
    · refine perform_inv ?_ hs
      have hclose := handleClose_inv h
      simp only [TcpConnection.handleIdleTimeout, wp_bind, wp_world, wp_ite, wp_pure]
      split
      · rename_i hclosed
        rw [hclosed, Bool.not_true, Bool.and_false, Bool.or_false]
        exact h
      · exact hclose
    · cases hs
  | forceClose =>
    simp only [step] at hs
    split at hs
    · exact perform_inv (handleClose_inv h) hs
    · cases hs
  | takeFunctors =>
    simp only [step] at hs
    split at hs
    · cases hs
      exact Session.Tally.parser h rfl
    · cases hs
  | runFunctor answers =>
    simp only [step] at hs
    split at hs
    · cases hs
    rename_i reply functors _
    split at hs
    · refine perform_inv ?_ hs
      rw [Bool.false_and, Bool.or_false]
      have hgiven : Tally 0 base Session.malformed s.gentle
          (answers.give (s.world.mapApp fun app => { app with functors := functors })) :=
        Session.Tally.parser h rfl
      exact wp_mono (Session.respond_tally site reply _ hgiven) (fun _ _ ht => ht) fun _ _ => trivial
    · cases hs
  | worker move =>
    cases hs
    refine Session.Tally.parser h ?_
    simp only [World.mapApp, Session.malformed, Session.parser_workerMove]

def Started (idleSeconds : Rat) (s : Handling) : Prop :=
  ∃ serving, Serving.Started idleSeconds serving ∧ s = { world := serving.world }

theorem setUp_account (idleSeconds : Rat) : Keeps World.account (Serving.setUp idleSeconds) := by
  have hidle : Keeps World.account
      (TcpConnection.setIdleTimeout idleSeconds : Prog (World Session) Unit) := by
    refine Keeps.update_bind (fun _ => rfl) ?_
    apply Keeps.bind Keeps.world
    intro w
    exact Keeps.ite (Keeps.update TcpConnection.refreshIdleTimer_account) (Keeps.pure _)
  apply Keeps.bind
  · exact Keeps.update_bind (fun _ => rfl) (Keeps.update fun _ => rfl)
  · exact fun _ => Keeps.ite hidle (Keeps.pure _)

theorem started_inv {idleSeconds : Rat} (h : Started idleSeconds s) :
    s.Inv s.world.metrics.errorsTotal := by
  obtain ⟨serving, ⟨w, hfresh, happ, rfl⟩, rfl⟩ := h
  obtain ⟨self, connfd, hconn⟩ := hfresh.conn
  have htally : Tally 0 w.metrics.errorsTotal Session.malformed false w := by
    refine ⟨?_, fun _ => ⟨rfl, ?_, ?_⟩, ?_⟩
    · rw [hconn, happ]
      rfl
    · rw [hconn]
      rfl
    · rw [hfresh.trace]
      exact fun _ hc => absurd hc List.not_mem_nil
    · rw [hfresh.trace]
      exact List.Pairwise.nil
  have hworld : (Serving.run (Serving.setUp idleSeconds) w).world.account = w.account := by
    have hkeeps := setUp_account idleSeconds w
    unfold Serving.run
    unfold Outcome.world at hkeeps
    split at hkeeps <;> rename_i heq <;> rw [heq] <;> exact hkeeps
  have hbase : (Serving.run (Serving.setUp idleSeconds) w).world.metrics.errorsTotal =
      w.metrics.errorsTotal := congrArg Prod.fst hworld
  rw [hbase]
  exact htally.same hworld

/-- **Every failure is counted once, and a closed socket is not used**, in the
runs without the steps that `Counts` leaves out. -/
theorem errors_counted_once {idleSeconds : Rat} {s₀ : Handling} (h₀ : Started idleSeconds s₀)
    (h : Machine.Reached (step site) Counts s₀ s) :
    s.CountedOnce s₀.world.metrics.errorsTotal := by
  have hinv : s.Inv s₀.world.metrics.errorsTotal :=
    h.invariant (started_inv h₀) fun _ _ _ hi hc hs => inv_step hi hc hs
  exact ⟨hinv.errors, hinv.quiet⟩

end

def accepted : Handling := { world := (Serving.run (Serving.setUp 0) Serving.accepted).world }

theorem accepted_started : Started 0 accepted := ⟨_, Serving.accepted_started, rfl⟩

/-- Malformed input, and an error of the socket behind it. -/
theorem errors_counted_once_two : ∃ s : Handling, s.world.metrics.errorsTotal = 2 ∧ s.died = true ∧
    s.world.app.malformed = 1 ∧ s.CountedOnce 0 := by
  have hend : (Machine.runIf (step (Serving.plainSite 0)) Counts accepted
      [.ready EPOLLIN { reads := [.data (bytes "x" ++ CRLF), .again], writes := [.count 200] }, .callback,
        .read, .read, .ready EPOLLERR {}, .callback]).map
          (fun s => (s.world.metrics.errorsTotal, s.died, s.world.app.malformed)) = some (2, true, 1) := by
    decide +kernel
  obtain ⟨s, hs, hend⟩ := Option.map_eq_some_iff.mp hend
  simp only [Prod.mk.injEq] at hend
  exact ⟨s, hend.1, hend.2.1, hend.2.2, errors_counted_once accepted_started (.of_runIf hs)⟩

def secondFails : List HandlingEvent :=
  [.ready EPOLLIN { reads := [.data (Serving.get "/a"), .again] }, .callback, .read, .read,
    .ready EPOLLOUT { writes := [.count 95] }, .callback,
    .ready EPOLLIN { reads := [.data (Serving.get "/b")], writes := [.failed 32] }, .callback, .read,
    .read]

/-- A read that fails, and a response that cannot be written: each connection
dies from one error, and two and three are counted. -/
theorem failures_counted_twice :
    (∃ s, Machine.run (step (Serving.plainSite 0)) accepted
        [.ready EPOLLIN { reads := [.failed 104] }, .callback, .read] = some s ∧
      s.world.metrics.errorsTotal = 2 ∧ ¬ s.CountedOnce 0) ∧
    ∃ s, Machine.run (step (Serving.plainSite 0)) accepted secondFails = some s ∧
      s.world.trace.drop 4 = [.write (some 7) 95 none, .close (some 7) false, .read none none false,
        .getsockopt none] ∧
      s.world.metrics.errorsTotal = 3 ∧ ¬ s.CountedOnce 0 := by
  have hread : (Machine.run (step (Serving.plainSite 0)) accepted
      [.ready EPOLLIN { reads := [.failed 104] }, .callback, .read]).map
        (fun s => (s.world.metrics.errorsTotal, s.died, s.world.app.malformed)) = some (2, true, 0) := by
    decide +kernel
  have hwrite : (Machine.run (step (Serving.plainSite 0)) accepted secondFails).map
      (fun s => (s.world.trace.drop 4, s.world.metrics.errorsTotal, s.died, s.world.app.malformed)) =
      some ([.write (some 7) 95 none, .close (some 7) false, .read none none false,
        .getsockopt none], 3, true, 0) := by
    decide +kernel
  obtain ⟨s, hs, hend⟩ := Option.map_eq_some_iff.mp hread
  obtain ⟨t, ht, hend'⟩ := Option.map_eq_some_iff.mp hwrite
  simp only [Prod.mk.injEq] at hend hend'
  refine ⟨⟨s, hs, hend.1, fun h => ?_⟩, ⟨t, ht, hend'.1, hend'.2.1, fun h => ?_⟩⟩
  · have herrors := h.errors
    rw [hend.1, hend.2.1, hend.2.2] at herrors
    exact absurd herrors (by decide)
  · have herrors := h.errors
    rw [hend'.2.1, hend'.2.2.1, hend'.2.2.2] at herrors
    exact absurd herrors (by decide)

end Handling

end Myself
