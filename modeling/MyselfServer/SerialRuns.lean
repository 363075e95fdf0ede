import MyselfServer.SerialOutput

/-!
# A connection answers like a serial server

What a connection has read, taken, answered and sent, followed through every
step of the loop thread and the workers. With any number of workers each
response that goes out is the one of the request it belongs to
(`responses_matched`), and without workers the connection is a serial server:
its client sees the answers to the bytes it has sent, however they were cut
and whatever the kernel took of a write (`serves_in_turn`).
-/

namespace Myself

open Text Prog

variable {site : Site} {files : Nat → Bytes} {received input rest : Bytes} {pieces : List Bytes}
  {requests : List HttpRequest} {as : List Answered} {s : Session} {w w' : World Session}
  {moves : List Move}

/-! ## Between two callbacks -/

/-- Without workers all complete requests are answered, or the last answer
that counts was given. -/
def AllAnswered (site : Site) (received : Bytes) (requests : List HttpRequest) (as : List Answered) : Prop :=
  site.workerThreads = 0 → (as.any fun a => a.key.final) = true ∨
    Serial.requestsOf received = (requests, .kNeedMore)

def Settled (site : Site) (files : Nat → Bytes) (pieces : List Bytes) (w : World Session) : Prop :=
  ∃ requests as, Serves site (Answered.Sent site files) pieces.flatten requests as w ∧
    AllAnswered site pieces.flatten requests as

/-- What `Settled` says but for the order of the writes. -/
def Counted (site : Site) (files : Nat → Bytes) (pieces : List Bytes) (w : World Session) : Prop :=
  ∃ requests as, w.app.Track site pieces.flatten requests as w.conn.input ∧
    Paid files (Answered.movesFrom site 0 as) w ∧ AllAnswered site pieces.flatten requests as

def Stuck (site : Site) (files : Nat → Bytes) (pieces : List Bytes) (w : World Session) : Prop :=
  ∃ requests as, Serves site (Answered.Leaving site files) pieces.flatten requests as w

theorem Settled.counted (h : Settled site files pieces w) : Counted site files pieces w := by
  obtain ⟨requests, as, hserves, hall⟩ := h
  exact ⟨requests, as, hserves.track, hserves.along.paid, hall⟩

theorem Counted.settled (h : Counted site files pieces w) (hsound : Sound files w) :
    Settled site files pieces w := by
  obtain ⟨requests, as, htrack, hpaid, hall⟩ := h
  exact ⟨requests, as, ⟨htrack, hsound, hpaid⟩, hall⟩

theorem Counted.stuck (h : Counted site files pieces w) : Stuck site files pieces w := by
  obtain ⟨requests, as, htrack, hpaid, -⟩ := h
  exact ⟨requests, as, htrack, hpaid.handing List.prefix_rfl⟩

namespace Session

/-- While no answer was the last one, the answers are those of the requests. -/
theorem InTurn.going_on (h : s.InTurn site requests as) (hopen : (as.any fun a => a.key.final) = false) :
    (∀ r ∈ requests, r.keepAlive = true) ∧ as = (Serial.serve site requests).1.map .reply := by
  rw [List.any_eq_false] at hopen
  have has := h.parsing fun hm => hopen _ hm rfl
  refine ⟨fun r hr => ?_, has⟩
  rw [← Serial.map_request_serve site requests] at hr
  obtain ⟨reply, hreply, rfl⟩ := List.mem_map.mp hr
  have hm : Answered.reply reply ∈ as := by
    rw [has]
    exact List.mem_map_of_mem hreply
  have hkey := hopen _ hm
  simpa [Answered.key] using hkey

theorem Track.allAnswered {requests' : List HttpRequest} {as' : List Answered}
    (h : s.Track site received requests' as' input) (hturn : Turn received requests as requests' as' false) :
    AllAnswered site received requests' as' := by
  intro hworkers
  by_cases hfinal : (as'.any fun a => a.key.final) = true
  · exact Or.inl hfinal
  have hopen : (as'.any fun a => a.key.final) = false := by simpa using hfinal
  obtain ⟨hkeep, -⟩ := (h.inTurn hworkers).going_on hopen
  have hlast : ∀ request, request ∈ requests' → request.keepAlive ≠ false := by
    intro request hr hfalse
    rw [hkeep request hr] at hfalse
    cases hfalse
  generalize hagain : false = again at hturn
  cases hturn with
  | more hmore => exact Or.inr hmore
  | replied reply _ => exact absurd hagain.symm (hlast _ (List.mem_append_right _ List.mem_cons_self))
  | submitted request _ => exact absurd hagain.symm (hlast _ (List.mem_append_right _ List.mem_cons_self))
  | refused _ => exact absurd (List.any_eq_true.mpr ⟨_, List.mem_append_right _ List.mem_cons_self, rfl⟩) hfinal

/-! ## Reading -/

/-- What does not read or answer keeps the account. -/
theorem keeps_counted {p : Prog (World Session) Unit} (hkeeps : Keeps World.reading p)
    (hpaid : ∀ moves w, Paid files moves w → wp p (fun _ w' => Paid files moves w') (Paid files moves) w) :
    ∀ pieces w, Counted site files pieces w →
      wp p (fun _ w' => Counted site files pieces w') (Stuck site files pieces) w := by
  rintro pieces w ⟨requests, as, htrack, hmoves, hall⟩
  have key : ∀ w' : World Session, w'.reading = w.reading ∧ Paid files (Answered.movesFrom site 0 as) w' →
      Counted site files pieces w' := by
    rintro w' ⟨hreading, hmoves'⟩
    simp only [World.reading, Prod.mk.injEq] at hreading
    refine ⟨requests, as, ?_, hmoves', hall⟩
    rw [hreading.2.1, hreading.2.2]
    exact htrack
  exact wp_mono (wp_and hkeeps.wp (hpaid _ w hmoves)) (fun _ w' hi => key w' hi) (fun w' hi => (key w' hi).stuck)

theorem keeps_settled {p : Prog (World Session) Unit} (hsound : Maintains (Sound files) p)
    (hkeeps : Keeps World.reading p)
    (hpaid : ∀ moves w, Paid files moves w → wp p (fun _ w' => Paid files moves w') (Paid files moves) w) :
    ∀ pieces w, Settled site files pieces w →
      wp p (fun _ w' => Settled site files pieces w') (Stuck site files pieces) w := by
  intro pieces w h
  have hcounted := keeps_counted hkeeps hpaid pieces w h.counted
  obtain ⟨requests, as, hserves, -⟩ := h
  refine wp_mono (wp_and (hsound w hserves.along.sound) hcounted) ?_ (fun _ hi => hi.2)
  rintro _ w' ⟨hsound', hcounted'⟩
  exact hcounted'.settled hsound'

/-- A pass of the loop of `handleRead`; where it stops at the end of the
stream, the order of the writes is the close's to restore. -/
theorem readRound_settled (hwhole : site.Whole files) {reads : List ReadAnswer}
    (h : Since reads pieces (Settled site files) w) (activity : Bool) :
    wp (TcpConnection.readRound (messageCallback site) activity)
      (fun r w' => r.elim (fun _ => Since reads pieces (Settled site files) w')
        (fun ending => Since reads pieces (Counted site files) w' ∧
          (ending.2 = .peerClosed → AtEof files w') ∧ (ending.2 ≠ .peerClosed → Sound files w')))
      (Since reads pieces (Stuck site files)) w := by
  obtain ⟨used, hreads, requests, as, hserves, hall⟩ := h
  unfold TcpConnection.readRound
  rw [wp_bind]
  refine wp_mono (wp_and (TcpConnection.readFd_spec hserves.along.sound) (readFd_since pieces hreads)) ?_ ?_
  · rintro a w₁ ⟨hsound, hu, hpreads, happ, used₁, pieces₁, hsince, hsplit, hinput, hdata⟩
    have hpieces : (pieces ++ piecesOf used₁).flatten = (pieces ++ piecesOf used).flatten ++ pieces₁.flatten := by
      rw [hsplit, List.flatten_append]
    have htrack : w₁.app.Track site (pieces ++ piecesOf used₁).flatten requests as w₁.conn.input := by
      rw [happ, hinput, hpieces]
      exact hserves.track.read _
    have hpaid := hserves.along.paid.untouched hu hpreads
    have hcounted : pieces₁.flatten = [] → Since reads pieces (Counted site files) w₁ := by
      intro hnil
      rw [hnil, List.append_nil] at hpieces
      rw [← hpieces] at hall
      exact ⟨used₁, hsince, requests, as, htrack, hpaid, hall⟩
    have hno : (∀ n, a ≠ .count (n + 1)) → pieces₁.flatten = [] := by
      rintro hne
      rcases hdata with ⟨-, hempty⟩ | ⟨piece, n, -, -, heq⟩
      · exact List.flatten_eq_nil_iff.mpr hempty
      · exact absurd heq (hne n)
    cases a with
    | count n =>
      simp only [wp_ite, wp_bind, wp_update, wp_pure]
      cases n with
      | zero => exact ⟨hcounted (hno (fun n => by simp)), fun _ => hsound, fun hne => absurd rfl hne⟩
      | succ n =>
        rw [if_pos (Nat.succ_pos n)]
        have hread : Serves site (Answered.Sent site files) (pieces ++ piecesOf used₁).flatten requests as
            (w₁.addBytesRead (n + 1)) := ⟨htrack, hsound.of_eq rfl rfl rfl rfl, hpaid.same rfl⟩
        refine wp_mono (messageCallback_serves (output_along hwhole) (K := fun _ _ => True) (fun _ _ => trivial)
          hread trivial) ?_ ?_
        · rintro _ w₂ ⟨⟨_, _, requests', as', -, hturn, hdone⟩, hreads₂⟩
          refine ⟨used₁, ?_, requests', as', hdone, hdone.track.allAnswered hturn⟩
          rw [hreads₂]
          exact hsince
        · rintro w₂ ⟨⟨_, _, requests', as', _, -, -, hdone⟩, hreads₂⟩
          refine ⟨used₁, ?_, requests', as', hdone⟩
          rw [hreads₂]
          exact hsince
    | again =>
      exact ⟨hcounted (hno (fun n => by simp)), fun heq => absurd heq (by simp), fun _ => hsound⟩
    | interrupted =>
      obtain ⟨used', hused', hc⟩ := hcounted (hno (fun n => by simp))
      exact ⟨used', hused', hc.settled hsound⟩
    | failed errno =>
      exact ⟨hcounted (hno (fun n => by simp)), fun heq => absurd heq (by simp), fun _ => hsound⟩
  · rintro w₁ ⟨-, rfl⟩
    exact ⟨used, hreads, requests, as, hserves.track, hserves.along.paid.handing List.prefix_rfl⟩

/-- What keeps the account keeps it for the answers that were taken. -/
theorem wp_paid {p : Prog (World Session) Unit}
    (haccounted : ∀ taken, Accounted files taken moves w →
      wp p (fun _ w' => Accounted files taken moves w') (Accounted files taken moves) w)
    (h : Paid files moves w) : wp p (fun _ w' => Paid files moves w') (Paid files moves) w := by
  obtain ⟨taken, htaken, h⟩ := h
  exact wp_mono (haccounted taken h) (fun _ _ hi => ⟨taken, htaken, hi⟩) (fun _ hi => ⟨taken, htaken, hi⟩)

theorem refreshIdleTimer_accounted {taken : List Answer} (h : Accounted files taken moves w) :
    Accounted files taken moves w.refreshIdleTimer := by
  obtain ⟨timers, sequence, timer, heq⟩ := TcpConnection.refreshIdleTimer_same w
  rw [heq]
  exact h.untouched ⟨rfl, rfl, rfl, rfl, rfl, rfl, rfl, rfl, rfl⟩ rfl

theorem refreshAfter_paid (activity : Bool) (moves : List Move) (w : World Session) (h : Paid files moves w) :
    wp (TcpConnection.refreshAfter activity) (fun _ w' => Paid files moves w') (Paid files moves) w := by
  apply wp_paid ?_ h
  intro taken h
  unfold TcpConnection.refreshAfter
  split
  · exact refreshIdleTimer_accounted h
  · exact h

theorem handleClose_paid (moves : List Move) (w : World Session) (h : Paid files moves w) :
    wp (TcpConnection.handleClose closeCallback) (fun _ w' => Paid files moves w') (Paid files moves) w := by
  apply wp_paid ?_ h
  intro taken h
  exact wp_mono (TcpConnection.handleClose_accounted closeCallback_keeps_wire h) (fun _ _ hi => hi.1) (fun _ hi => hi)

theorem handleError_paid (moves : List Move) (w : World Session) (h : Paid files moves w) :
    wp (TcpConnection.handleError closeCallback) (fun _ w' => Paid files moves w') (Paid files moves) w := by
  unfold TcpConnection.handleError
  rw [wp_bind, wp_update, wp_bind, wp_update]
  apply handleClose_paid
  exact h.untouched ⟨rfl, rfl, rfl, rfl, rfl, rfl, rfl, rfl, transfers_log _ rfl⟩ rfl

theorem handleWrite_paid (moves : List Move) (w : World Session) (h : Paid files moves w) :
    wp (TcpConnection.handleWrite closeCallback) (fun _ w' => Paid files moves w') (Paid files moves) w :=
  wp_paid (fun _ haccounted => TcpConnection.handleWrite_accounted closeCallback_keeps_wire haccounted) h

theorem handleRead_settled (hwhole : site.Whole files) {reads : List ReadAnswer}
    (h : Since reads pieces (Settled site files) w) :
    wp (TcpConnection.handleRead closeCallback (messageCallback site))
      (fun _ w' => Since reads pieces (Settled site files) w')
      (Since reads pieces (Stuck site files)) w := by
  unfold TcpConnection.handleRead
  rw [wp_bind]
  have hloop := wp_loop (TcpConnection.readRound_decreases (messageCallback_reads site))
    (I := fun _ w' => Since reads pieces (Settled site files) w')
    (E := Since reads pieces (Stuck site files))
    (Q := fun r w' => Since reads pieces (Counted site files) w' ∧
      (r.2 = .peerClosed → AtEof files w') ∧ (r.2 ≠ .peerClosed → Sound files w'))
    (fun activity w₁ h₁ => readRound_settled hwhole h₁ activity) false w h
  have hsettle : ∀ {p : Prog (World Session) Unit} {w₁ : World Session},
      wp p (fun _ w' => Sound files w') (fun _ => True) w₁ →
      wp p (fun _ w' => Since reads pieces (Counted site files) w') (Since reads pieces (Stuck site files)) w₁ →
      wp p (fun _ w' => Since reads pieces (Settled site files) w') (Since reads pieces (Stuck site files)) w₁ := by
    intro p w₁ hsound hcounted
    refine wp_mono (wp_and hsound hcounted) ?_ (fun _ hi => hi.2)
    rintro _ w' ⟨hsound', used, hreads, hcounted'⟩
    exact ⟨used, hreads, hcounted'.settled hsound'⟩
  refine wp_mono hloop ?_ (fun _ hi => hi)
  rintro ⟨activity, ending⟩ w₁ ⟨hcounted, heof, hsound⟩
  have hkeeps := TcpConnection.refreshAfter_keeps (σ := Session) activity
  have hrefresh := hcounted.keep hkeeps (keeps_counted hkeeps (refreshAfter_paid activity))
  cases ending with
  | again =>
    have hsound : Sound files w₁ := hsound (by simp)
    refine hsettle ?_ hrefresh
    exact wp_mono (TcpConnection.refreshAfter_sound activity w₁ hsound) (fun _ _ hi => hi) (fun _ _ => trivial)
  | peerClosed =>
    rw [wp_bind]
    have heof' := TcpConnection.refreshAfter_atEof (heof rfl) activity (E := fun _ => True)
    refine wp_mono (wp_and heof' hrefresh) ?_ (fun _ hi => hi.2)
    rintro _ w₂ ⟨heof₂, hcounted₂⟩
    have hkeeps := TcpConnection.handleClose_keeps closeCallback_keeps
    refine hsettle ?_ (hcounted₂.keep hkeeps (keeps_counted hkeeps handleClose_paid))
    exact wp_mono (TcpConnection.handleClose_atEof closeCallback_keeps_conn heof₂) (fun _ _ hi => hi)
      (fun _ _ => trivial)
  | failed =>
    rw [wp_bind, wp_update]
    have hsound : Sound files w₁ := hsound (by simp)
    have hsound' : Sound files w₁.addErrors := hsound.of_eq rfl rfl rfl rfl
    have hcounted' : Since reads pieces (Counted site files) w₁.addErrors := by
      obtain ⟨used, hreads, requests, as, htrack, hpaid, hall⟩ := hcounted
      exact ⟨used, hreads, requests, as, htrack, hpaid.same rfl, hall⟩
    have hkeeps := TcpConnection.handleError_keeps closeCallback_keeps
    refine hsettle ?_ (hcounted'.keep hkeeps (keeps_counted hkeeps handleError_paid))
    exact wp_mono (TcpConnection.handleError_sound closeCallback_keeps_conn _ hsound') (fun _ _ hi => hi)
      (fun _ _ => trivial)

theorem callback_settled (hwhole : site.Whole files) {reads : List ReadAnswer}
    (h : Since reads pieces (Settled site files) w) (cb : ChannelCallback) :
    wp (TcpConnection.callback closeCallback (messageCallback site) cb)
      (fun _ w' => Since reads pieces (Settled site files) w')
      (Since reads pieces (Stuck site files)) w := by
  cases cb with
  | read => exact handleRead_settled hwhole h
  | write =>
    have hkeeps := TcpConnection.handleWrite_keeps closeCallback_keeps
    exact h.keep hkeeps (keeps_settled (callback_sound site .write) hkeeps handleWrite_paid)
  | close =>
    have hkeeps := TcpConnection.handleClose_keeps closeCallback_keeps
    exact h.keep hkeeps (keeps_settled (callback_sound site .close) hkeeps handleClose_paid)
  | error =>
    have hkeeps := TcpConnection.handleError_keeps closeCallback_keeps
    exact h.keep hkeeps (keeps_settled (callback_sound site .error) hkeeps handleError_paid)

end Session

/-! ## Runs -/

/-- The kernel gives some bytes of each piece of a file that is copied. -/
def Answers.Copies (answers : Answers) : Prop := ∀ a ∈ answers.preads, a.Reads

/-- The kernel's next answers; those that were not used are gone. -/
theorem Paid.give (h : Paid files moves w) {answers : Answers} (hanswers : answers.Copies) :
    Paid files moves (answers.give w) := by
  obtain ⟨taken, htaken, pieces, hmoves, hl, rfl⟩ := h
  refine ⟨pieces.flatMap Piece.answers ++ answers.preads, ?_, pieces, hmoves, ?_, rfl⟩
  · intro a ha
    rcases List.mem_append.mp ha with ha | ha
    · exact htaken a (List.mem_append_left _ ha)
    · exact hanswers a ha
  · exact hl.untouched ⟨rfl, rfl, rfl, rfl, rfl, rfl, rfl, rfl, rfl⟩

theorem Settled.app (h : Settled site files pieces w) {f : Session → Session}
    (hf : ∀ requests as, w.app.Track site pieces.flatten requests as w.conn.input →
      (f w.app).Track site pieces.flatten requests as w.conn.input) :
    Settled site files pieces (w.mapApp f) := by
  obtain ⟨requests, as, hserves, hall⟩ := h
  exact ⟨requests, as, ⟨hf _ _ hserves.track, hserves.along.same rfl rfl⟩, hall⟩

theorem Settled.functor (hwhole : site.Whole files) {reply : Reply} {functors : List Reply} {answers : Answers}
    (hanswers : answers.Copies) (h : Settled site files pieces w) (hfunctors : w.app.functors = reply :: functors) :
    wp (Session.respond site reply) (fun _ w' => Settled site files pieces w') (Stuck site files pieces)
      (answers.give (w.mapApp fun app => { app with functors := functors })) := by
  obtain ⟨requests, as, hserves, -⟩ := h
  have hchosen : reply.Chosen site := by
    have hknown := hserves.track.known.functors
    rw [hfunctors, List.forall_mem_cons] at hknown
    exact hknown.1.2
  have hsent : Answered.Sent site files as
      (answers.give (w.mapApp fun app => { app with functors := functors })) := by
    refine ⟨hserves.along.sound.of_eq rfl rfl rfl rfl, ?_⟩
    exact Paid.give (w := w.mapApp _) (hserves.along.paid.same rfl) hanswers
  have hrespond := (output_along hwhole).respond hsent hchosen hserves.track.length
  refine wp_mono (Session.serves_of_along hrespond (Session.respond_reading site reply _)
    (hserves.track.functor answers hfunctors)) ?_ ?_
  · rintro _ w' ⟨hdone, -⟩
    refine ⟨requests, _, hdone, fun hw => ?_⟩
    have hnone := (hserves.track.inTurn hw).functors
    rw [hfunctors] at hnone
    cases hnone
  · rintro w' ⟨hstuck, -⟩
    exact ⟨requests, _, hstuck⟩

/-- **Every step keeps account of what was read, answered and handed over.** -/
theorem settled_books (hwhole : site.Whole files) :
    Books site Answers.Copies (Settled site files) (Stuck site files) where
  stuck h := h.counted.stuck
  give hanswers h := by
    obtain ⟨requests, as, hserves, hall⟩ := h
    refine ⟨requests, as, ⟨hserves.track.schedule _, ?_, hserves.along.paid.give hanswers⟩, hall⟩
    exact hserves.along.sound.of_eq rfl rfl rfl rfl
  callback cb h := Session.callback_settled hwhole h cb
  swap h := h.app fun _ _ htrack => htrack.swapFunctors
  functor hanswers h hfunctors := h.functor hwhole hanswers hfunctors
  worker move h := h.app (f := fun app => app.workerMove site move) fun _ _ htrack => htrack.workerMove move
  workerStuck move h := by
    obtain ⟨requests, as, hserves⟩ := h
    exact ⟨requests, as, hserves.track.workerMove move, hserves.along.same rfl⟩

namespace Receiving

variable {s : Receiving} {idleSeconds : Rat} {s₀ : Serving}

/-- The kernel keeps to `Answers.Copies`. -/
def Copies (_ : Receiving) (e : SiteEvent) : Prop := e.answers.Copies

theorem started_accounted (h₀ : Serving.Started idleSeconds s₀) :
    Accounted s₀.world.files s₀.world.preads [] s₀.world := by
  obtain ⟨w, hfresh, -, rfl⟩ := h₀
  have hsetUp : wp (Serving.setUp idleSeconds) (fun _ w' => Accounted w.files w.preads [] w')
      (fun _ => False) w := by
    unfold Serving.setUp
    rw [wp_bind]
    refine wp_mono (start_accounted hfresh) ?_ (fun _ hf => hf)
    intro _ w₁ h₁
    split
    · unfold TcpConnection.setIdleTimeout
      rw [wp_bind, wp_update, wp_bind, wp_world]
      have h₂ : Accounted w.files w.preads [] { w₁ with conn := { w₁.conn with
          idleTimeoutSeconds := idleSeconds } } :=
        h₁.untouched ⟨rfl, rfl, rfl, rfl, rfl, rfl, rfl, rfl, rfl⟩ rfl
      split
      · exact Session.refreshIdleTimer_accounted h₂
      · exact h₂
    · exact h₁
  unfold wp at hsetUp
  unfold Serving.run
  cases hp : Serving.setUp idleSeconds w with
  | waits w' =>
    rw [hp] at hsetUp
    exact hsetUp.elim
  | returned u w' =>
    rw [hp] at hsetUp
    obtain ⟨pieces, hmoves, hl, -⟩ := hsetUp
    have hnil : pieces = [] := List.map_eq_nil_iff.mp hmoves
    subst hnil
    refine ⟨[], rfl, ?_, rfl⟩
    rw [hl.disk]
    exact hl

theorem started_settled (site : Site) (h₀ : Serving.Started idleSeconds s₀) (hpreads : ∀ a ∈ s₀.world.preads, a.Reads) :
    Settled site s₀.world.files [] s₀.world := by
  obtain ⟨files, hsound⟩ := Serving.started_sound h₀
  have hfiles : s₀.world.files = files := (Inv.env hsound).files
  refine ⟨[], [], ⟨started_track h₀, hfiles ▸ hsound, _, hpreads, ?_⟩, fun _ => Or.inr rfl⟩
  exact started_accounted h₀

/-- What holds of every run. -/
theorem reached_fits (hwhole : site.Whole s₀.world.files) (h₀ : Serving.Started idleSeconds s₀)
    (hpreads : ∀ a ∈ s₀.world.preads, a.Reads) (h : Machine.Reached (step site) Copies ⟨s₀, []⟩ s) :
    s.Fits (Settled site s₀.world.files) (Stuck site s₀.world.files) := by
  have hsettled := started_settled site h₀ hpreads
  exact (settled_books hwhole).reached ⟨hsettled.counted.stuck, fun _ => hsettled⟩ h

end Receiving

/-! ## The answers of the serial server -/

namespace Session

/-- The answers before the last one come first, the serial server's go no
further. -/
theorem Track.answers (hw : site.workerThreads = 0) (h : s.Track site received requests as input) :
    ((as.any fun a => a.key.final) = false → as <+: Serial.answers site received) ∧
      ((as.any fun a => a.key.final) = true → Serial.answers site received <+: as) := by
  have hi := h.inTurn hw
  obtain ⟨later, hlater⟩ := h.follows.taken
  constructor
  · intro hopen
    obtain ⟨hkeep, has⟩ := hi.going_on hopen
    rw [has, Serial.answers, ← hlater, Serial.upToFinal_keep hkeep]
    apply List.prefix_append_of_prefix
    exact (Serial.serve_prefix site (List.prefix_append _ _)).map _
  · intro hended
    obtain ⟨k, has⟩ := hi.answers
    by_cases hkeep : ∀ r ∈ requests, r.keepAlive = true
    · -- the last answer was the one to malformed input
      have hpos : 0 < k := by
        by_contra hzero
        have hzero : k = 0 := Nat.eq_zero_of_not_pos hzero
        rw [has, hzero, List.replicate_zero, List.append_nil, List.any_map, List.any_eq_true] at hended
        obtain ⟨reply, hreply, hfinal⟩ := hended
        have hr : reply.request ∈ requests := by
          rw [← Serial.map_request_serve site requests]
          exact List.mem_map_of_mem hreply
        have hfinal : (!reply.request.keepAlive) = true := hfinal
        rw [hkeep _ hr] at hfinal
        cases hfinal
      have hm : Answered.malformed ∈ as := by
        rw [has]
        exact List.mem_append_right _ (List.mem_replicate.mpr ⟨Nat.pos_iff_ne_zero.mp hpos, rfl⟩)
      have herror := h.follows.kError (h.malformed hm)
      rw [Serial.answers, herror, has, Serial.upToFinal_self hkeep, if_pos ⟨rfl, hkeep⟩,
        List.prefix_append_right_inj]
      obtain ⟨n, rfl⟩ := Nat.exists_eq_add_of_lt hpos
      exact ⟨List.replicate n .malformed, by rw [Nat.zero_add, List.replicate_succ]; rfl⟩
    · have hno : ¬ ∀ r ∈ (Serial.requestsOf received).1, r.keepAlive = true := by
        intro hall
        apply hkeep
        intro r hr
        apply hall
        rw [← hlater]
        exact List.mem_append_left _ hr
      rw [Serial.answers, if_neg (fun hand => hno hand.2), List.append_nil, ← hlater, Serial.upToFinal_final hkeep,
        has]
      apply List.prefix_append_of_prefix
      exact (Serial.serve_prefix site (Serial.upToFinal_prefix requests)).map _

theorem Track.answers_eq (hw : site.workerThreads = 0) (h : s.Track site received requests as input)
    (hall : AllAnswered site received requests as) (hopen : (as.any fun a => a.key.final) = false) :
    as = Serial.answers site received := by
  obtain ⟨hkeep, has⟩ := (h.inTurn hw).going_on hopen
  have hmore : Serial.requestsOf received = (requests, .kNeedMore) := by
    rcases hall hw with hended | hmore
    · rw [hopen] at hended
      cases hended
    · exact hmore
  have hgood : ¬ ((HttpParser.Result.kNeedMore = .kBadRequest) ∧ ∀ r ∈ requests, r.keepAlive = true) :=
    fun hand => by cases hand.1
  rw [Serial.answers, hmore, Serial.upToFinal_self hkeep, if_neg hgood, List.append_nil]
  exact has

/-- The first requests are answered in their order, and then malformed input, once or more often. -/
theorem Track.served (hw : site.workerThreads = 0) (h : s.Track site received requests as input) :
    ∃ requests k, requests <+: (Serial.requestsOf received).1 ∧
      as = (Serial.serve site requests).1.map .reply ++ List.replicate k .malformed ∧
      (0 < k → Serial.requestsOf received = (requests, .kBadRequest)) := by
  obtain ⟨k, has⟩ := (h.inTurn hw).answers
  refine ⟨requests, k, h.follows.taken, has, fun hk => h.follows.kError (h.malformed ?_)⟩
  rw [has]
  exact List.mem_append_right _ (List.mem_replicate.mpr ⟨Nat.pos_iff_ne_zero.mp hk, rfl⟩)

end Session

namespace Receiving

variable {s : Receiving} {idleSeconds : Rat} {s₀ : Serving}

def sending (files : Nat → Bytes) (s : Receiving) : Bytes :=
  s.serving.world.wire ++ unsent files s.serving.world.conn

/-- `as` were sent, and the client is sent their bytes whole and one behind the other. -/
structure Sends (site : Site) (files : Nat → Bytes) (s : Receiving) (as : List Answered) : Prop where
  keys : as.map Answered.key = s.serving.world.app.sent
  front : s.serving.world.wire <+: Answered.text files site as
  whole : s.serving.waiting = false → s.serving.world.conn.closed = false →
    s.sending files = Answered.text files site as

/-- `as` are the answers of the serial server, up to the first one that ends
the connection; what follows that are answers to the next requests, and then
to malformed input. -/
structure LikeSerial (site : Site) (s : Receiving) (as : List Answered) : Prop where
  served : ∃ requests k, requests <+: (Serial.requestsOf s.received).1 ∧
    as = (Serial.serve site requests).1.map .reply ++ List.replicate k .malformed ∧
    (0 < k → Serial.requestsOf s.received = (requests, .kBadRequest))
  front : (as.any fun a => a.key.final) = false → as <+: Serial.answers site s.received
  ended : (as.any fun a => a.key.final) = true → Serial.answers site s.received <+: as
  complete : s.serving.waiting = false → (as.any fun a => a.key.final) = false → as = Serial.answers site s.received

/-- No file has ended early. -/
def NoShortFile (s : Receiving) : Prop :=
  ∀ fd asked, .sendfile fd asked (some 0) ∉ s.serving.world.trace

theorem Fits.sends (hfits : s.Fits (Settled site files) (Stuck site files)) (hfiles : s.NoShortFile) :
    ∃ requests as, s.Sends site files as ∧
      s.serving.world.app.Track site s.received requests as s.serving.world.conn.input ∧
      (s.serving.waiting = false → AllAnswered site s.received requests as) := by
  by_cases hwaiting : s.serving.waiting = true
  · have hreturned : s.serving.waiting ≠ false := by simpa using hwaiting
    obtain ⟨requests, as, htrack, hleaving⟩ := hfits.stuck
    refine ⟨requests, as, ⟨htrack.sent, hleaving.all hfiles, ?_⟩, htrack, ?_⟩
    · exact fun h => absurd h hreturned
    · exact fun h => absurd h hreturned
  · obtain ⟨requests, as, hserves, hall⟩ := hfits.settled (by simpa using hwaiting)
    obtain ⟨hfront, hwhole⟩ := hserves.along.paid.all hfiles
    exact ⟨requests, as, ⟨hserves.track.sent, hfront, fun _ => hwhole⟩, hserves.track, fun _ => hall⟩

theorem Fits.likeSerial (hfits : s.Fits (Settled site files) (Stuck site files)) (hworkers : site.workerThreads = 0)
    (hfiles : s.NoShortFile) : ∃ as, s.Sends site files as ∧ s.LikeSerial site as := by
  obtain ⟨requests, as, hsends, htrack, hall⟩ := hfits.sends hfiles
  obtain ⟨hfront, hended⟩ := htrack.answers hworkers
  exact ⟨as, hsends, htrack.served hworkers, hfront, hended,
    fun hreturned hopen => htrack.answers_eq hworkers (hall hreturned) hopen⟩

/-- **A connection without workers is a serial server.** -/
theorem serves_in_turn (hworkers : site.workerThreads = 0) (h₀ : Serving.Started idleSeconds s₀)
    (hpreads : ∀ a ∈ s₀.world.preads, a.Reads) (hwhole : site.Whole s₀.world.files)
    (h : Machine.Reached (step site) Copies ⟨s₀, []⟩ s) (hfiles : s.NoShortFile) :
    ∃ as, s.Sends site s₀.world.files as ∧ s.LikeSerial site as :=
  (reached_fits hwhole h₀ hpreads h).likeSerial hworkers hfiles

def fileSite (workerThreads : Nat) : Site :=
  { Serving.plainSite workerThreads with handle := fun _ _ => { fileBody := some ⟨3, 0, 5⟩ } }

def hello : World Session := TcpConnection.accepted 7 [] [] [] (fun _ => bytes "hello") {}

theorem hello_started : Serving.Started 0 (Serving.run (Serving.setUp 0) hello) :=
  ⟨hello, TcpConnection.accepted_fresh .., rfl, rfl⟩

theorem hello_preads : ∀ a ∈ (Serving.run (Serving.setUp 0) hello).world.preads, a.Reads :=
  fun _ ha => absurd ha List.not_mem_nil

theorem fileSite_whole (workerThreads : Nat) :
    (fileSite workerThreads).Whole (Serving.run (Serving.setUp 0) hello).world.files := by
  intro k request file hfile
  cases hfile
  exact (by decide : 0 + 5 ≤ (bytes "hello").length)

def twoFiles : List SiteEvent :=
  [.ready EPOLLIN { reads := [.data (bytes "GET /a HT"), .again] },
    .ready EPOLLIN {
      reads := [.data (bytes "TP/1.1" ++ CRLF ++ CRLF ++ bytes "GET /b"), .data (bytes " HTTP/1.1" ++ CRLF ++ CRLF),
        .again]
      writes := [.count 1000, .count 1000]
      sendfiles := [.count 5, .count 2, .again] }]

theorem copies_of_none {es : List SiteEvent} (h : ∀ e ∈ es, e.answers.preads = []) (s : Receiving) :
    Machine.Meets (step site) Copies s es := by
  apply Machine.Meets.of_forall (P := fun e : SiteEvent => e.answers.Copies)
  intro e he a ha
  rw [h e he] at ha
  exact absurd ha List.not_mem_nil

def unended : Syscall → Bool
  | .sendfile _ _ ret => ret != some 0
  | _ => true

theorem noShortFile_of_unended (h : s.serving.world.trace.all (unended ·) = true) : s.NoShortFile := by
  intro fd asked hm
  have hcall := List.all_eq_true.mp h _ hm
  exact absurd hcall Bool.false_ne_true

theorem serves_in_turn_files : ∃ s,
    Machine.run (step (fileSite 0)) ⟨Serving.run (Serving.setUp 0) hello, []⟩ twoFiles = some s ∧
    s.received = Serving.get "/a" ++ Serving.get "/b" ∧
    unsent (Serving.run (Serving.setUp 0) hello).world.files s.serving.world.conn = bytes "llo" ∧
    ∃ as, s.Sends (fileSite 0) (Serving.run (Serving.setUp 0) hello).world.files as ∧ s.LikeSerial (fileSite 0) as := by
  have hend : (Machine.run (step (fileSite 0)) ⟨Serving.run (Serving.setUp 0) hello, []⟩ twoFiles).map
      (fun s => (s.received, unsent (Serving.run (Serving.setUp 0) hello).world.files s.serving.world.conn,
        s.serving.world.trace.all (unended ·))) = some (Serving.get "/a" ++ Serving.get "/b", bytes "llo", true) := by
    decide +kernel
  obtain ⟨s, hs, hend⟩ := Option.map_eq_some_iff.mp hend
  simp only [Prod.mk.injEq] at hend
  exact ⟨s, hs, hend.1, hend.2.1, serves_in_turn rfl hello_started hello_preads (fileSite_whole 0)
    (.of_run hs (copies_of_none (by decide) _)) (noShortFile_of_unended hend.2.2)⟩

/-- Each reply is the one to the request of its number, none is sent twice,
and malformed input is answered where there is some. -/
structure Matched (site : Site) (s : Receiving) (as : List Answered) : Prop where
  belongs : ∀ r, .reply r ∈ as → r.Belongs site (Serial.requestsOf s.received).1
  once : s.serving.answered.Nodup
  malformed : .malformed ∈ as → (Serial.requestsOf s.received).2 = .kBadRequest

/-- **With any number of workers the answers belong to their requests.** -/
theorem responses_matched (h₀ : Serving.Started idleSeconds s₀) (hpreads : ∀ a ∈ s₀.world.preads, a.Reads)
    (hwhole : site.Whole s₀.world.files) (h : Machine.Reached (step site) Copies ⟨s₀, []⟩ s)
    (hfiles : s.NoShortFile) : ∃ as, s.Sends site s₀.world.files as ∧ s.Matched site as := by
  obtain ⟨requests, as, hsends, htrack, -⟩ := (reached_fits hwhole h₀ hpreads h).sends hfiles
  have hflow := Serving.reached_of_started h₀ (reached_serving h)
  refine ⟨as, hsends, ?_, (Flow.answered_nodup hflow).1, ?_⟩
  · intro r hr
    obtain ⟨later, hlater⟩ := htrack.follows.taken
    rw [← hlater]
    exact (htrack.replies r hr).append later
  · intro hm
    rw [htrack.follows.kError (htrack.malformed hm)]

def statusFirst : List SiteEvent :=
  [.ready EPOLLIN {
      reads := [.data (Serving.get "/a" ++ Serving.get "/api/status"), .again]
      writes := [.count 1000]
      sendfiles := [.count 5] },
    .worker .take, .worker (.post 0), .takeFunctors,
    .runFunctor { writes := [.count 1000], sendfiles := [.count 2, .again] }]

theorem responses_matched_status : ∃ s,
    Machine.run (step (fileSite 1)) ⟨Serving.run (Serving.setUp 0) hello, []⟩ statusFirst = some s ∧
    s.serving.answered = [1, 0] ∧
    ∃ as, s.Sends (fileSite 1) (Serving.run (Serving.setUp 0) hello).world.files as ∧ s.Matched (fileSite 1) as := by
  have hend : (Machine.run (step (fileSite 1)) ⟨Serving.run (Serving.setUp 0) hello, []⟩ statusFirst).map
      (fun s => (s.serving.answered, s.serving.world.trace.all (unended ·))) = some ([1, 0], true) := by
    decide +kernel
  obtain ⟨s, hs, hend⟩ := Option.map_eq_some_iff.mp hend
  simp only [Prod.mk.injEq] at hend
  exact ⟨s, hs, hend.1, responses_matched hello_started hello_preads (fileSite_whole 1)
    (.of_run hs (copies_of_none (by decide) _)) (noShortFile_of_unended hend.2)⟩

end Receiving

end Myself
