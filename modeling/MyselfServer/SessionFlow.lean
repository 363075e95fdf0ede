import MyselfServer.Frames
import MyselfServer.ParserChunks
import MyselfServer.Session

/-!
# The flow of a session

Whatever a callback of the connection, a task of the loop or a worker does,
the numbers of the requests go the way `Flow.Step` says (`step_flow`). The
loops of `handleRead` and of the message callback end: each pass uses up an
answer of the kernel or a request in the buffer.
-/

namespace Myself

open Text Prog Relation

def Goes (site : Site) (s s' : Session) : Prop :=
  ReflTransGen (Flow.Step site.workerThreads) s.flow s'.flow

namespace Session

variable {site : Site} {s s' : Session} {w : World Session}

theorem out_eq (s : Session) : s.out = s.flow.pending.length := by
  simp only [out, flow, Flow.State.pending, List.length_append, List.length_map]
  omega

theorem flow_sending (s : Session) (index : Option Nat) (final : Bool) :
    (s.sending index final).flow = s.flow.sending index final := by
  simp only [sending, Flow.State.sending, ← out_eq]
  rfl

theorem flow_noteRequest {t : Session} (ht : t.flow = { s.flow with taken := s.taken + 1 })
    (inline : Bool) : (t.note (.request inline t.out t.ended)).flow = s.flow.take inline := by
  have hout : t.out = s.flow.pending.length := by
    rw [out_eq, ht]
    rfl
  have hended : t.ended = s.flow.ended := congrArg Flow.State.ended ht
  have hnote : (t.note (.request inline t.out t.ended)).flow =
      t.flow.note (.request inline t.out t.ended) := rfl
  rw [hnote, ht, hout, hended]
  rfl

/-! ## Workers -/

theorem workerMove_goes (site : Site) (s : Session) (move : WorkerMove) :
    Goes site s (s.workerMove site move) := by
  unfold Goes
  cases move with
  | take =>
    simp only [workerMove]
    cases htasks : s.tasks with
    | nil => exact .refl
    | cons task tasks =>
      dsimp only
      split
      · rename_i hw
        have hstep : Flow.Step site.workerThreads s.flow _ := Flow.Step.work s.flow task.index
          (tasks.map Task.index) (by simp [flow, htasks]) (by simpa [flow] using hw)
        apply ReflTransGen.single
        simpa only [flow, List.map_append, List.map_cons, List.map_nil] using hstep
      · exact .refl
  | post k =>
    simp only [workerMove]
    cases hk : s.working[k]? with
    | none => exact .refl
    | some task =>
      have hstep : Flow.Step site.workerThreads s.flow _ := Flow.Step.post s.flow k task.index
        (by simp [flow, hk])
      apply ReflTransGen.single
      simpa only [flow, List.map_append, List.map_cons, List.map_nil, List.eraseIdx_map] using hstep

theorem workerMoves_goes (site : Site) (s : Session) : Goes site s (s.workerMoves site) := by
  unfold workerMoves
  cases s.schedule with
  | nil => exact .refl
  | cons moves schedule =>
    have key : ∀ t : Session, Goes site s t → Goes site s (moves.foldl (workerMove site) t) := by
      induction moves with
      | nil => exact fun _ h => h
      | cons move moves ih => exact fun t h => ih _ (h.trans (workerMove_goes site t move))
    exact key _ .refl

theorem parser_workerMove (site : Site) (s : Session) (move : WorkerMove) :
    (s.workerMove site move).parser = s.parser := by
  cases move with
  | take =>
    simp only [workerMove]
    split
    · rfl
    · split <;> rfl
  | post k =>
    simp only [workerMove]
    split <;> rfl

theorem parser_workerMoves (site : Site) (s : Session) :
    (s.workerMoves site).parser = s.parser := by
  unfold workerMoves
  cases s.schedule with
  | nil => rfl
  | cons moves schedule =>
    have key : ∀ t : Session, t.parser = s.parser →
        (moves.foldl (workerMove site) t).parser = s.parser := by
      induction moves with
      | nil => exact fun _ h => h
      | cons move moves ih => exact fun t h => ih _ ((parser_workerMove site t move).trans h)
    exact key _ rfl

/-! ## Responses -/

theorem closeCallback_keeps : Keeps World.reading closeCallback := Keeps.update fun _ => rfl

theorem sendResponse_reading (site : Site) (index : Option Nat) (final : Bool)
    (response : HttpResponse) (includeBody : Bool) (w : World Session) :
    wp (sendResponse site index final response includeBody)
      (fun _ w' => w'.reading = (w.reads, w.conn.input, w.app.sending index final))
      (fun w' => w'.reading = (w.reads, w.conn.input, w.app.sending index final)) w := by
  simp only [sendResponse, wp_bind, wp_world, wp_update]
  exact (TcpConnection.send_keeps closeCallback_keeps _).wp

theorem countNotModified_reading (statusCode : Int) (w : World Session)
    {E : World Session → Prop} :
    wp (countNotModified statusCode) (fun _ w' => w'.reading = w.reading) E w := by
  unfold countNotModified
  split
  · rfl
  · rfl

theorem sendFileBody_keeps (headOnly : Bool) (fileBody : Option FileBody) :
    Keeps World.reading (sendFileBody headOnly fileBody) := by
  unfold sendFileBody
  split
  · exact TcpConnection.sendFile_keeps closeCallback_keeps _
  · exact Keeps.pure _

theorem endUnless_keeps (keepAlive : Bool) : Keeps World.reading (endUnless keepAlive) :=
  Keeps.ite (Keeps.pure _) TcpConnection.shutdownWrite_keeps

/-- `respond` records the response and leaves the rest of the session alone. -/
theorem respond_reading (site : Site) (reply : Reply) (w : World Session) :
    wp (respond site reply)
      (fun _ w' => w'.reading =
        (w.reads, w.conn.input, w.app.sending (some reply.index) (!reply.request.keepAlive)))
      (fun w' => w'.reading =
        (w.reads, w.conn.input, w.app.sending (some reply.index) (!reply.request.keepAlive))) w := by
  have htail : ∀ (headOnly : Bool) (response : HttpResponse), Keeps World.reading (do
      sendFileBody headOnly response.fileBody
      update fun w => w.requestFinished response.statusCode
      endUnless reply.request.keepAlive) := by
    intro headOnly response
    apply Keeps.bind (sendFileBody_keeps _ _)
    intro _
    exact Keeps.update_bind (fun _ => rfl) (endUnless_keeps _)
  unfold respond
  rw [wp_bind]
  refine wp_mono (countNotModified_reading _ w (E := fun _ => False)) ?_ (fun _ hf => hf.elim)
  intro _ w₁ h₁
  simp only [World.reading, Prod.mk.injEq] at h₁
  rw [wp_bind]
  have hsent := sendResponse_reading site (some reply.index) (!reply.request.keepAlive)
    (reply.response.setCloseConnection (!reply.request.keepAlive))
    (!decide (reply.request.method = .kHead)) w₁
  rw [h₁.1, h₁.2.1, h₁.2.2] at hsent
  refine wp_mono hsent ?_ (fun _ h => h)
  intro _ w₂ h₂
  exact wp_mono (htail _ _).wp (fun _ _ h => h.trans h₂) (fun _ h => h.trans h₂)

theorem answerBadRequest_reading (site : Site) (w : World Session) :
    wp (answerBadRequest site)
      (fun _ w' => w'.reading =
        (w.reads, w.conn.input, (w.app.note (.malformed w.app.ended)).sending none true))
      (fun w' => w'.reading =
        (w.reads, w.conn.input, (w.app.note (.malformed w.app.ended)).sending none true)) w := by
  have htail : Keeps World.reading (do
      update (World.addErrors (σ := Session))
      TcpConnection.shutdownWrite) :=
    Keeps.update_bind (fun _ => rfl) TcpConnection.shutdownWrite_keeps
  unfold answerBadRequest
  rw [wp_bind, wp_update, wp_bind]
  refine wp_mono (sendResponse_reading site none true _ true _) ?_ (fun _ h => h)
  intro _ w₁ h₁
  exact wp_mono htail.wp (fun _ _ h => h.trans h₁) (fun _ h => h.trans h₁)

/-! ## Requests -/

structure Dispatched (site : Site) (w w' : World Session) : Prop where
  reads : w'.reads = w.reads
  input : w'.conn.input = w.conn.input
  state : w'.app.parser.state = .kRequestLine
  goes : Flow.Step site.workerThreads w.app.flow w'.app.flow

structure At (w : World Session) (f : Flow.State) (w' : World Session) : Prop where
  reads : w'.reads = w.reads
  input : w'.conn.input = w.conn.input
  state : w'.app.parser.state = .kRequestLine
  flow : w'.app.flow = f

section
variable {w₁ : World Session} {f : Flow.State} {E : World Session → Prop}

theorem takeRequest_spec (w : World Session) :
    wp takeRequest (fun task w' => task.index = w.app.taken ∧
      At w { w.app.flow with taken := w.app.taken + 1 } w') E w :=
  ⟨rfl, rfl, rfl, rfl, rfl⟩

theorem limited_spec (h : At w f w₁) (site : Site) (request : HttpRequest) :
    wp (limited site request) (fun _ w' => At w f w') E w₁ := by
  unfold limited
  split
  · exact h
  · exact ⟨h.reads, h.input, h.state, h.flow⟩

theorem noteRequest_spec (h : At w { w.app.flow with taken := w.app.taken + 1 } w₁)
    (inline : Bool) :
    wp (noteRequest inline) (fun _ w' => At w (w.app.flow.take inline) w') E w₁ :=
  ⟨h.reads, h.input, h.state, flow_noteRequest h.flow inline⟩

theorem handle_spec (h : At w f w₁) (site : Site) (task : Task) :
    wp (handle site task) (fun reply w' => reply.index = task.index ∧ At w f w') E w₁ :=
  ⟨rfl, h.reads, h.input, h.state, h.flow⟩

theorem respond_inline (h : At w (w.app.flow.take true) w₁) {reply : Reply}
    (hindex : reply.index = w.app.taken) :
    wp (respond site reply) (fun _ w' => Dispatched site w w') (Dispatched site w) w₁ := by
  have key : ∀ w' : World Session, w'.reading = (w₁.reads, w₁.conn.input,
      w₁.app.sending (some reply.index) (!reply.request.keepAlive)) → Dispatched site w w' := by
    intro w' hw'
    simp only [World.reading, Prod.mk.injEq] at hw'
    obtain ⟨h1, h2, h3⟩ := hw'
    refine ⟨h1.trans h.reads, h2.trans h.input, ?_, ?_⟩
    · rw [h3]
      exact h.state
    · rw [h3, flow_sending, h.flow, hindex]
      exact Flow.Step.inline _ _
  exact wp_mono (respond_reading site reply w₁) (fun _ w' => key w') (fun w' => key w')

theorem offload_workers {request : HttpRequest} (h : site.offload request = true) :
    0 < site.workerThreads := by
  simp only [Site.offload, Bool.and_eq_true, decide_eq_true_eq] at h
  exact h.1

theorem submit_dispatched (h : At w (w.app.flow.take false) w₁) {task : Task}
    (hw : 0 < site.workerThreads) (hindex : task.index = w.app.taken) :
    Dispatched site w (w₁.mapApp fun s => s.submit task) := by
  refine ⟨h.reads, h.input, h.state, ?_⟩
  have hflow : (w₁.app.submit task).flow =
      { w₁.app.flow with tasks := w₁.app.flow.tasks ++ [task.index] } := by
    simp only [submit, flow, List.map_append, List.map_cons, List.map_nil]
  show Flow.Step site.workerThreads w.app.flow (w₁.app.submit task).flow
  rw [hflow, h.flow, hindex]
  exact Flow.Step.submit _ hw

end

theorem dispatch_spec (site : Site) (w : World Session) :
    wp (dispatch site) (fun _ w' => Dispatched site w w') (Dispatched site w) w := by
  simp only [dispatch, wp_bind]
  refine wp_mono (takeRequest_spec w (E := fun _ => False)) ?_ (fun _ hf => hf.elim)
  rintro task w₁ ⟨hindex, h₁⟩
  rw [wp_update]
  have h₁' : At w { w.app.flow with taken := w.app.taken + 1 }
      (w₁.requestStarted (methodKindOf task.request.method)) :=
    ⟨h₁.reads, h₁.input, h₁.state, h₁.flow⟩
  refine wp_mono (limited_spec h₁' site _ (E := fun _ => False)) ?_ (fun _ hf => hf.elim)
  intro isLimited w₂ h₂
  simp only [wp_ite, wp_bind, wp_update, wp_pure]
  split
  · refine wp_mono (noteRequest_spec h₂ true (E := fun _ => False)) ?_ (fun _ hf => hf.elim)
    intro _ w₃ h₃
    have hat : At w (w.app.flow.take true) w₃.requestRateLimited :=
      ⟨h₃.reads, h₃.input, h₃.state, h₃.flow⟩
    exact respond_inline hat hindex
  split
  · rename_i hoffload
    refine wp_mono (noteRequest_spec h₂ false (E := fun _ => False)) ?_ (fun _ hf => hf.elim)
    intro _ w₃ h₃
    exact submit_dispatched h₃ (offload_workers hoffload) hindex
  · refine wp_mono (noteRequest_spec h₂ true (E := fun _ => False)) ?_ (fun _ hf => hf.elim)
    intro _ w₃ h₃
    refine wp_mono (handle_spec h₃ site task (E := fun _ => False)) ?_ (fun _ hf => hf.elim)
    rintro reply w₄ ⟨hreply, h₄⟩
    exact respond_inline h₄ (hreply.trans hindex)

/-! ## The message callback -/

theorem messageRound_spec (site : Site) (u : Unit) (w : World Session) :
    wp (messageRound site u)
      (fun r w' => (w'.reads = w.reads ∧ Goes site w.app w'.app) ∧
        ∀ a, r = .inl a → unread w' < unread w)
      (fun w' => w'.reads = w.reads ∧ Goes site w.app w'.app) w := by
  have hmoves := workerMoves_goes site w.app
  have hparser := parser_workerMoves site w.app
  simp only [messageRound, parsed, wp_bind, wp_update, wp_world]
  cases hparse : (w.mapApp (workerMoves site)).app.parser.parse
      (w.mapApp (workerMoves site)).conn.input with
  | more parser rest => exact ⟨⟨rfl, hmoves⟩, fun _ h => absurd h Sum.inr_ne_inl⟩
  | moved parser rest => exact ⟨⟨rfl, hmoves⟩, fun _ h => absurd h Sum.inr_ne_inl⟩
  | next parser rest => exact ⟨⟨rfl, hmoves⟩, fun _ h => absurd h Sum.inr_ne_inl⟩
  | bad parser rest =>
    simp only [wp_bind, wp_update, wp_pure]
    have key : ∀ w' : World Session, w'.reading = (w.reads, rest,
        (({ w.app.workerMoves site with parser := parser } : Session).note
          (.malformed (w.app.workerMoves site).ended)).sending none true) →
        w'.reads = w.reads ∧ Goes site w.app w'.app := by
      intro w' h
      simp only [World.reading, Prod.mk.injEq] at h
      refine ⟨h.1, hmoves.tail ?_⟩
      rw [h.2.2, flow_sending]
      exact Flow.Step.malformed _
    refine wp_mono (answerBadRequest_reading site _) ?_ ?_
    · intro _ w' h
      exact ⟨key w' h, fun _ h => absurd h Sum.inr_ne_inl⟩
    · exact fun w' h => key w' h
  | done parser rest =>
    simp only [wp_bind, wp_update, wp_ite, wp_pure]
    refine wp_mono (dispatch_spec site _) ?_ ?_
    · intro keepAlive w' h
      have hgo : w'.reads = w.reads ∧ Goes site w.app w'.app := ⟨h.reads, hmoves.tail h.goes⟩
      split
      · refine ⟨hgo, fun _ _ => ?_⟩
        have hlt := HttpParser.parse_done_unread hparse
        have hstate : (w.mapApp (workerMoves site)).app.parser.state = w.app.parser.state :=
          congrArg HttpParser.state hparser
        rw [hstate] at hlt
        rw [unread, h.input, h.state, if_pos rfl]
        exact hlt
      · exact ⟨hgo, fun _ h => absurd h Sum.inr_ne_inl⟩
    · exact fun w' h => ⟨h.reads, hmoves.tail h.goes⟩

theorem messageRound_decreases (site : Site) : Prog.Decreases unread (messageRound site) := by
  apply Decreases.of_wp
  intro u w
  refine wp_mono (messageRound_spec site u w) ?_ (fun _ _ => trivial)
  intro r w' h a ha
  exact h.2 a ha

theorem messageCallback_spec (site : Site) (w : World Session) :
    wp (messageCallback site) (fun _ w' => w'.reads = w.reads ∧ Goes site w.app w'.app)
      (fun w' => w'.reads = w.reads ∧ Goes site w.app w'.app) w := by
  refine wp_loop (messageRound_decreases site)
    (I := fun _ w' => w'.reads = w.reads ∧ Goes site w.app w'.app) ?_ () w ⟨rfl, .refl⟩
  rintro u w₁ ⟨hreads, hgo⟩
  have key : ∀ w' : World Session, w'.reads = w₁.reads ∧ Goes site w₁.app w'.app →
      w'.reads = w.reads ∧ Goes site w.app w'.app :=
    fun w' h => ⟨h.1.trans hreads, hgo.trans h.2⟩
  refine wp_mono (messageRound_spec site u w₁) ?_ (fun w' h => key w' h)
  intro r w' h
  cases r with
  | inl a => exact key w' h.1
  | inr b => exact key w' h.1

/-! ## Events -/

def Going (site : Site) (s : Session) (w : World Session) : Prop := Goes site s w.app

theorem going_of_keeps {p : Prog (World Session) Unit} (hk : Keeps World.reading p) :
    Maintains (Going site s) p := by
  intro w h
  have key : ∀ w' : World Session, w'.reading = w.reading → Going site s w' := by
    intro w' hr
    have happ : w'.app = w.app := congrArg (fun r => r.2.2) hr
    unfold Going
    rw [happ]
    exact h
  exact wp_mono hk.wp (fun _ w' => key w') (fun w' => key w')

theorem messageCallback_going : Maintains (Going site s) (messageCallback site) := by
  intro w h
  exact wp_mono (messageCallback_spec site w) (fun _ _ h' => h.trans h'.2) (fun _ h' => h.trans h'.2)

theorem messageCallback_reads (site : Site) (w : World Session) :
    wp (messageCallback site) (fun _ w' => w'.reads = w.reads) (fun _ => True) w :=
  wp_mono (messageCallback_spec site w) (fun _ _ h => h.1) (fun _ _ => trivial)

theorem readRound_going (activity : Bool) :
    Maintains (Going site s) (TcpConnection.readRound (messageCallback site) activity) := by
  apply Maintains.bind
  · intro w h
    have key : ∀ w' : World Session, w'.app = w.app → Going site s w' := by
      intro w' happ
      unfold Going
      rw [happ]
      exact h
    exact wp_mono TcpConnection.readFd_app.wp (fun _ w' => key w') (fun w' => key w')
  intro a
  cases a with
  | count n =>
    apply Maintains.ite
    · refine Maintains.update_bind (fun _ h => h) ?_
      exact Maintains.bind messageCallback_going fun _ => Maintains.pure _
    · exact Maintains.pure _
  | again => exact Maintains.pure _
  | interrupted => exact Maintains.pure _
  | failed errno => exact Maintains.pure _

theorem handleRead_going :
    Maintains (Going site s) (TcpConnection.handleRead closeCallback (messageCallback site)) := by
  apply Maintains.bind (Maintains.loop readRound_going false)
  rintro ⟨activity, ending⟩
  cases ending with
  | again => exact going_of_keeps (TcpConnection.refreshAfter_keeps activity)
  | peerClosed =>
    apply going_of_keeps
    apply Keeps.bind (TcpConnection.refreshAfter_keeps activity)
    exact fun _ => TcpConnection.handleClose_keeps closeCallback_keeps
  | failed =>
    apply going_of_keeps
    exact Keeps.update_bind (fun _ => rfl) (TcpConnection.handleError_keeps closeCallback_keeps)

theorem callback_going (cb : ChannelCallback) :
    Maintains (Going site s) (TcpConnection.callback closeCallback (messageCallback site) cb) := by
  cases cb with
  | read => exact handleRead_going
  | write => exact going_of_keeps (TcpConnection.handleWrite_keeps closeCallback_keeps)
  | close => exact going_of_keeps (TcpConnection.handleClose_keeps closeCallback_keeps)
  | error => exact going_of_keeps (TcpConnection.handleError_keeps closeCallback_keeps)

end Session

namespace Serving

variable {site : Site} {s s' s₀ : Serving}

theorem run_of_wp {I : World Session → Prop} {p : Prog (World Session) Unit} {w : World Session}
    (h : wp p (fun _ w' => I w') I w) : I (run p w).world := by
  unfold wp at h
  unfold run
  cases hp : p w with
  | returned u w' => rw [hp] at h; exact h
  | waits w' => rw [hp] at h; exact h

/-- What a property of the world has to survive to hold after every step. -/
structure Stable (site : Site) (I : World Session → Prop) : Prop where
  callback : ∀ cb,
    Maintains I (TcpConnection.callback Session.closeCallback (Session.messageCallback site) cb)
  give : ∀ (answers : Answers) w, I w → I (answers.give w)
  swap : ∀ w, I w → w.app.functors = [] → I (w.mapApp Session.swapFunctors)
  functor : ∀ w reply functors, I w → w.app.functors = reply :: functors → ∀ answers : Answers,
    wp (Session.respond site reply) (fun _ w' => I w') I
      (answers.give (w.mapApp fun app => { app with functors := functors }))
  worker : ∀ w move, I w → I (w.mapApp fun app => app.workerMove site move)

theorem Stable.step {I : World Session → Prop} (hI : Stable site I) {e : SiteEvent}
    (h : I s.world) (hs : Serving.step site s e = some s') : I s'.world := by
  have hclose : Maintains I (TcpConnection.handleClose Session.closeCallback) := hI.callback .close
  cases e with
  | ready revents answers =>
    simp only [Serving.step] at hs
    split at hs
    · cases hs
      exact run_of_wp (TcpConnection.dispatch_maintains hI.callback revents _
        (hI.give answers _ h))
    · cases hs
  | idleTimeout =>
    simp only [Serving.step] at hs
    split at hs
    · cases hs
      have hidle : Maintains I (TcpConnection.handleIdleTimeout Session.closeCallback) :=
        Maintains.bind Maintains.world fun _ => Maintains.ite (Maintains.pure _) hclose
      exact run_of_wp (hidle _ h)
    · cases hs
  | forceClose =>
    simp only [Serving.step] at hs
    split at hs
    · cases hs
      exact run_of_wp (hclose _ h)
    · cases hs
  | takeFunctors =>
    simp only [Serving.step] at hs
    split at hs
    · rename_i hloop
      cases hs
      simp only [atLoop, Bool.and_eq_true, List.isEmpty_iff] at hloop
      exact hI.swap _ h hloop.2
    · cases hs
  | runFunctor answers =>
    simp only [Serving.step] at hs
    split at hs
    · cases hs
    rename_i reply functors hfunctors
    split at hs
    · cases hs
    cases hs
    exact run_of_wp (hI.functor _ reply functors h hfunctors answers)
  | worker move =>
    cases hs
    exact hI.worker _ move h

theorem Stable.reached {I : World Session → Prop} (hI : Stable site I)
    {C : Serving → SiteEvent → Prop} (h₀ : I s₀.world)
    (h : Machine.Reached (Serving.step site) C s₀ s) : I s.world :=
  Machine.Reached.invariant (I := fun s => I s.world) h₀
    (fun _ _ _ hi _ hs => hI.step hi hs) h

/-- **Every step moves the requests as `Flow.Step` says.** -/
theorem going_stable (site : Site) (s : Session) : Stable site (Session.Going site s) where
  callback := Session.callback_going
  give _ _ h := h
  swap w h hnil := by
    have hstep : Flow.Step site.workerThreads w.app.flow _ := Flow.Step.swap w.app.flow
      (by simp only [Session.flow, hnil, List.map_nil])
    exact ReflTransGen.tail h hstep
  functor w reply functors h hfunctors answers := by
    have hstep : Flow.Step site.workerThreads w.app.flow _ := Flow.Step.functor w.app.flow reply.index
      (functors.map Reply.index) (!reply.request.keepAlive)
      (by simp only [Session.flow, hfunctors, List.map_cons])
    have key : ∀ w' : World Session, w'.app = ({ w.app with
        functors := functors, schedule := answers.schedule } : Session).sending
          (some reply.index) (!reply.request.keepAlive) → Session.Going site s w' := by
      intro w' happ
      refine ReflTransGen.tail h ?_
      rw [happ, Session.flow_sending]
      exact hstep
    have hrespond := Session.respond_reading site reply
      (answers.give (w.mapApp fun app => { app with functors := functors }))
    exact wp_mono hrespond (fun _ w' h => key w' (congrArg (fun r => r.2.2) h))
      (fun w' h => key w' (congrArg (fun r => r.2.2) h))
  worker w move h := ReflTransGen.trans h (Session.workerMove_goes site w.app move)

theorem reached_flow {C : Serving → SiteEvent → Prop}
    (h : Machine.Reached (step site) C s₀ s) : Goes site s₀.world.app s.world.app :=
  (going_stable site s₀.world.app).reached ReflTransGen.refl h

end Serving

end Myself
