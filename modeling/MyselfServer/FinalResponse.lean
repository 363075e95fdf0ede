import MyselfServer.SerialSession

/-!
# Nothing follows a final response

Reading goes on behind a response that ends the connection, and what is read
then is answered as well. Whether that happens is a matter of the pieces in
which the input arrives (`Serial.Quiet`), and with workers of what they still
have when a final response goes out (`nothing_follows_final`).
-/

namespace Myself

open Text Prog

/-! ## Pieces of input -/

namespace Serial

/-- The bytes hold malformed input or a request that is not keep-alive. -/
def Over (received : Bytes) : Prop :=
  (requestsOf received).2 = .kBadRequest ∨ ∃ r ∈ (requestsOf received).1, r.keepAlive = false

/-- Only the last request may be one that is not keep-alive, and behind the
requests nothing is malformed. -/
def Ends (received : Bytes) : Prop :=
  (requestsOf received).2 = .kNeedMore ∧ ∀ r ∈ (requestsOf received).1.dropLast, r.keepAlive = true

/-- A piece that comes when the earlier ones are over completes nothing. -/
def QuietFrom (received : Bytes) : List Bytes → Prop
  | [] => True
  | piece :: pieces =>
    (piece ≠ [] → Over received → Ends (received ++ piece)) ∧ QuietFrom (received ++ piece) pieces

def Quiet (pieces : List Bytes) : Prop := QuietFrom [] pieces

instance (received : Bytes) : Decidable (Over received) := inferInstanceAs (Decidable (_ ∨ _))

instance (received : Bytes) : Decidable (Ends received) := inferInstanceAs (Decidable (_ ∧ _))

instance decidableQuietFrom : ∀ (received : Bytes) (pieces : List Bytes), Decidable (QuietFrom received pieces)
  | _, [] => isTrue trivial
  | received, piece :: pieces =>
    have := decidableQuietFrom (received ++ piece) pieces
    inferInstanceAs (Decidable (_ ∧ _))

instance (pieces : List Bytes) : Decidable (Quiet pieces) := decidableQuietFrom [] pieces

theorem quietFrom_append (received : Bytes) (pieces pieces' : List Bytes) :
    QuietFrom received (pieces ++ pieces') ↔
      QuietFrom received pieces ∧ QuietFrom (received ++ pieces.flatten) pieces' := by
  induction pieces generalizing received with
  | nil => simp [QuietFrom]
  | cons piece pieces ih => simp only [List.cons_append, QuietFrom, ih, List.flatten_cons, List.append_assoc, and_assoc]

theorem quiet_concat (pieces : List Bytes) (piece : Bytes) :
    Quiet (pieces ++ [piece]) ↔
      Quiet pieces ∧ (piece ≠ [] → Over pieces.flatten → Ends (pieces.flatten ++ piece)) := by
  rw [Quiet, quietFrom_append]
  simp only [QuietFrom, List.nil_append, and_true]
  rfl

theorem quiet_append_nil (pieces : List Bytes) {empty : List Bytes} (h : ∀ piece ∈ empty, piece = []) :
    Quiet (pieces ++ empty) ↔ Quiet pieces := by
  induction empty using List.reverseRecOn with
  | nil => rw [List.append_nil]
  | append_singleton empty piece ih =>
    have hpiece : piece = [] := h piece (List.mem_append_right _ List.mem_cons_self)
    rw [← List.append_assoc, quiet_concat, ih fun piece hp => h piece (List.mem_append_left _ hp), hpiece]
    simp

/-- Nothing was taken or answered that ends the connection. -/
structure Open (requests : List HttpRequest) (as : List Answered) : Prop where
  keep : ∀ r ∈ requests, r.keepAlive = true
  good : .malformed ∉ as

variable {received : Bytes} {requests requests' : List HttpRequest} {as as' : List Answered} {again : Bool}

theorem Open.orderly (h : Open requests as) : Orderly requests as := .of_keep h.keep h.good

theorem upToFinal_eq_iff (requests : List HttpRequest) :
    upToFinal requests = requests ↔ ∀ r ∈ requests.dropLast, r.keepAlive = true := by
  rcases List.eq_nil_or_concat requests with rfl | ⟨requests, request, rfl⟩
  · simp [upToFinal]
  · rw [List.concat_eq_append, List.dropLast_concat]
    exact ⟨keep_of_upToFinal, fun h => upToFinal_concat h request⟩

end Serial

open Serial

section
variable {received : Bytes} {requests requests' : List HttpRequest} {as as' : List Answered} {again : Bool}

/-- While nothing has ended the connection, a pass ends it properly. -/
theorem Turn.orderly (h : Turn received requests as requests' as' again) (ho : Serial.Open requests as) :
    Serial.Orderly requests' as' := by
  cases h with
  | more _ => exact ho.orderly
  | replied reply _ =>
    have hno : .malformed ∉ as ++ [.reply reply] := by
      intro hm
      rcases List.mem_append.mp hm with hm | hm
      · exact ho.good hm
      · cases List.mem_singleton.mp hm
    refine ⟨upToFinal_concat ho.keep _, ?_, fun hm => absurd hm hno⟩
    rw [count_zero hno]
    exact Nat.zero_le 1
  | submitted request _ =>
    refine ⟨upToFinal_concat ho.keep _, ?_, fun hm => absurd hm ho.good⟩
    rw [count_zero ho.good]
    exact Nat.zero_le 1
  | refused _ =>
    refine ⟨upToFinal_self ho.keep, ?_, fun _ => ho.keep⟩
    rw [List.countP_append, count_zero ho.good]
    rfl

theorem Turn.open (h : Turn received requests as requests' as' true) (ho : Serial.Open requests as) :
    Serial.Open requests' as' := by
  generalize hagain : true = again at h
  have hconcat : ∀ request : HttpRequest, request.keepAlive = true →
      ∀ r ∈ requests ++ [request], r.keepAlive = true := by
    intro request hkeep r hr
    rcases List.mem_append.mp hr with hr | hr
    · exact ho.keep r hr
    · rw [List.mem_singleton.mp hr]
      exact hkeep
  cases h with
  | more _ => cases hagain
  | replied reply _ =>
    refine ⟨hconcat _ hagain.symm, fun hm => ?_⟩
    rcases List.mem_append.mp hm with hm | hm
    · exact ho.good hm
    · cases List.mem_singleton.mp hm
  | submitted request _ => exact ⟨hconcat _ hagain.symm, ho.good⟩
  | refused _ => cases hagain

/-- The last pass of a callback has come to what ends the connection, where there is such. -/
theorem Turn.not_open (h : Turn received requests as requests' as' false) (hover : Serial.Over received) :
    ¬ Serial.Open requests' as' := by
  intro ho
  generalize hagain : false = again at h
  cases h with
  | more hmore =>
    rcases hover with hbad | ⟨r, hr, hfinal⟩
    · rw [hmore] at hbad
      cases hbad
    · rw [hmore] at hr
      rw [ho.keep r hr] at hfinal
      cases hfinal
  | replied reply _ =>
    rw [ho.keep _ (List.mem_append_right _ List.mem_cons_self)] at hagain
    cases hagain
  | submitted request _ =>
    rw [ho.keep _ (List.mem_append_right _ List.mem_cons_self)] at hagain
    cases hagain
  | refused _ => exact ho.good (List.mem_append_right _ List.mem_cons_self)

theorem not_taken (hbad : requestsOf received = (requests, .kBadRequest)) {request : HttpRequest} :
    ¬ requests ++ [request] <+: (requestsOf received).1 := by
  intro htaken
  have hlen := htaken.length_le
  rw [hbad] at hlen
  simp only [List.length_append, List.length_singleton] at hlen
  omega

/-- A pass behind what ends the connection: it finds nothing, or it takes or answers too much. -/
theorem Turn.late (h : Turn received requests as requests' as' again)
    (hbad : .malformed ∈ as → requestsOf received = (requests, .kBadRequest)) (hover : ¬ Serial.Open requests as) :
    (requests' = requests ∧ as' = as ∧ requestsOf received = (requests, .kNeedMore)) ∨
      (¬ Serial.Orderly requests' as' ∧ ¬ Serial.Ends received) := by
  -- a request behind those that were taken
  have hrequest : ∀ request : HttpRequest, requests ++ [request] <+: (requestsOf received).1 →
      (¬ ∀ r ∈ requests, r.keepAlive = true) ∧ ¬ Serial.Ends received := by
    intro request htaken
    have hno : .malformed ∉ as := fun hm => not_taken (hbad hm) htaken
    have hkeep : ¬ ∀ r ∈ requests, r.keepAlive = true := fun hkeep => hover ⟨hkeep, hno⟩
    refine ⟨hkeep, fun hends => hkeep fun r hr => hends.2 r ?_⟩
    obtain ⟨later, hlater⟩ := htaken
    rw [← hlater, List.append_assoc, List.dropLast_append_of_ne_nil (by simp)]
    exact List.mem_append_left _ hr
  cases h with
  | more hmore => exact Or.inl ⟨rfl, rfl, hmore⟩
  | replied reply htaken =>
    obtain ⟨hkeep, hends⟩ := hrequest _ htaken
    exact Or.inr ⟨fun ho => hkeep (keep_of_upToFinal ho.upToFinal), hends⟩
  | submitted request htaken =>
    obtain ⟨hkeep, hends⟩ := hrequest _ htaken
    exact Or.inr ⟨fun ho => hkeep (keep_of_upToFinal ho.upToFinal), hends⟩
  | refused hrefused =>
    refine Or.inr ⟨fun ho => ?_, fun hends => ?_⟩
    · obtain ⟨hkeep, hno⟩ := ho.before_malformed
      exact hover ⟨hkeep, hno⟩
    · have hmore := hends.1
      rw [hrefused] at hmore
      cases hmore

theorem Turn.not_open_again (h : Turn received requests as requests' as' again) (hover : ¬ Serial.Open requests as) :
    ¬ Serial.Open requests' as' := by
  intro ho
  apply hover
  cases h with
  | more _ => exact ho
  | replied reply _ =>
    exact ⟨fun r hr => ho.keep r (List.mem_append_left _ hr), fun hm => ho.good (List.mem_append_left _ hm)⟩
  | submitted request _ => exact ⟨fun r hr => ho.keep r (List.mem_append_left _ hr), ho.good⟩
  | refused _ => exact absurd (List.mem_append_right _ List.mem_cons_self) ho.good

/-- A callback behind what ends the connection; `quiet` says that the pieces before it were quiet. -/
structure Late (received : Bytes) (quiet : Prop) (requests : List HttpRequest) (as : List Answered) : Prop where
  bad : .malformed ∈ as → requestsOf received = (requests, .kBadRequest)
  past : ¬ Serial.Open requests as
  ends : quiet → Serial.Ends received → Serial.Orderly requests as
  orderly : Serial.Orderly requests as → quiet

variable {quiet : Prop}

theorem Late.turn (h : Late received quiet requests as) (hturn : Turn received requests as requests' as' again) :
    quiet ∧ Serial.Ends received ↔ Serial.Orderly requests' as' := by
  rcases hturn.late h.bad h.past with ⟨rfl, rfl, hmore⟩ | ⟨horderly, hends⟩
  · refine ⟨fun hq => h.ends hq.1 hq.2, fun ho => ⟨h.orderly ho, ?_⟩⟩
    unfold Serial.Ends
    rw [hmore]
    exact ⟨rfl, (upToFinal_eq_iff _).mp ho.upToFinal⟩
  · exact ⟨fun hq => absurd hq.2 hends, fun ho => absurd ho horderly⟩

theorem Late.next (h : Late received quiet requests as) (hturn : Turn received requests as requests' as' true) :
    Late received quiet requests' as' := by
  have hiff := h.turn hturn
  refine ⟨?_, hturn.not_open_again h.past, fun hq he => hiff.mp ⟨hq, he⟩, fun ho => (hiff.mpr ho).1⟩
  intro hm
  generalize hagain : true = again at hturn
  cases hturn with
  | more _ => cases hagain
  | replied reply htaken =>
    rcases List.mem_append.mp hm with hm | hm
    · exact absurd htaken (not_taken (h.bad hm))
    · cases List.mem_singleton.mp hm
  | submitted request htaken => exact absurd htaken (not_taken (h.bad hm))
  | refused _ => cases hagain

end

/-! ## Callbacks -/

variable {site : Site} {pieces : List Bytes} {received input : Bytes} {requests : List HttpRequest}
  {as : List Answered} {s : Session} {w : World Session}

/-- Between two callbacks: what ends the connection was taken or answered, and
nothing behind it, as far as the pieces are quiet. -/
def Heard (site : Site) (pieces : List Bytes) (w : World Session) : Prop :=
  ∃ requests as, w.app.Track site pieces.flatten requests as w.conn.input ∧
    (Serial.Over pieces.flatten → ¬ Serial.Open requests as) ∧ (Serial.Quiet pieces ↔ Serial.Orderly requests as)

def Hearing (site : Site) (pieces : List Bytes) (w : World Session) : Prop :=
  ∃ requests as, w.app.Track site pieces.flatten requests as w.conn.input ∧
    (Serial.Quiet pieces ↔ Serial.Orderly requests as)

theorem Heard.hearing (h : Heard site pieces w) : Hearing site pieces w := by
  obtain ⟨requests, as, htrack, -, hquiet⟩ := h
  exact ⟨requests, as, htrack, hquiet⟩

theorem along_any (site : Site) : Along site (fun _ _ => True) (fun _ _ => True) where
  parsed _ _ _ _ := trivial
  respond _ _ _ := wp_of_forall (fun _ _ => trivial) (fun _ => trivial)
  malformed _ _ := wp_of_forall (fun _ _ => trivial) (fun _ => trivial)

namespace Session

theorem Track.open (h : s.Track site received requests as input) (hover : ¬ Serial.Over received) :
    Serial.Open requests as where
  keep r hr := by
    by_contra hfinal
    exact hover (Or.inr ⟨r, h.follows.taken.subset hr, by simpa using hfinal⟩)
  good hm := by
    apply hover
    left
    rw [h.follows.kError (h.malformed hm)]

/-- The callback on a piece of input. -/
theorem messageCallback_heard {piece : Bytes} (hpiece : piece ≠ [])
    (hover : Serial.Over pieces.flatten → ¬ Serial.Open requests as)
    (hopen : ¬ Serial.Over pieces.flatten → Serial.Open requests as)
    (hquiet : Serial.Quiet pieces ↔ Serial.Orderly requests as)
    (htrack : w.app.Track site (pieces ++ [piece]).flatten requests as w.conn.input) :
    wp (messageCallback site)
      (fun _ w' => Heard site (pieces ++ [piece]) w' ∧ w'.reads = w.reads)
      (fun w' => Hearing site (pieces ++ [piece]) w' ∧ w'.reads = w.reads) w := by
  have hflat : (pieces ++ [piece]).flatten = pieces.flatten ++ piece := by simp
  have hserves : Serves site (fun _ _ => True) (pieces ++ [piece]).flatten requests as w := ⟨htrack, trivial⟩
  by_cases hend : Serial.Over pieces.flatten
  · have hlate : Late (pieces ++ [piece]).flatten (Serial.Quiet pieces) requests as :=
      ⟨fun hm => htrack.follows.kError (htrack.malformed hm), hover hend, fun hq _ => hquiet.mp hq, hquiet.mpr⟩
    have hpieces : Serial.Quiet (pieces ++ [piece]) ↔ Serial.Quiet pieces ∧ Serial.Ends (pieces ++ [piece]).flatten := by
      rw [quiet_concat, hflat]
      exact and_congr_right fun _ => ⟨fun h => h hpiece hend, fun h _ _ => h⟩
    refine wp_mono (messageCallback_serves (along_any site) (fun hk hturn => hk.next hturn) hserves hlate) ?_ ?_
    · rintro _ w' ⟨⟨_, _, requests', as', hk, hturn, hdone⟩, hreads⟩
      refine ⟨⟨requests', as', hdone.track, fun _ => hturn.not_open_again hk.past, ?_⟩, hreads⟩
      rw [hpieces]
      exact hk.turn hturn
    · rintro w' ⟨⟨_, _, requests', as', _, hk, hturn, hdone⟩, hreads⟩
      refine ⟨⟨requests', as', hdone.track, ?_⟩, hreads⟩
      rw [hpieces]
      exact hk.turn hturn
  · have hpieces : Serial.Quiet (pieces ++ [piece]) := by
      rw [quiet_concat]
      exact ⟨hquiet.mpr (hopen hend).orderly, fun _ h => absurd h hend⟩
    refine wp_mono (messageCallback_serves (along_any site) (fun hk hturn => hturn.open hk) hserves (hopen hend)) ?_ ?_
    · rintro _ w' ⟨⟨_, _, requests', as', hk, hturn, hdone⟩, hreads⟩
      exact ⟨⟨requests', as', hdone.track, hturn.not_open, iff_of_true hpieces (hturn.orderly hk)⟩, hreads⟩
    · rintro w' ⟨⟨_, _, requests', as', _, hk, hturn, hdone⟩, hreads⟩
      exact ⟨⟨requests', as', hdone.track, iff_of_true hpieces (hturn.orderly hk)⟩, hreads⟩

theorem keeps_heard {p : Prog (World Session) Unit} (hkeeps : Keeps World.reading p) :
    ∀ pieces w, Heard site pieces w →
      wp p (fun _ w' => Heard site pieces w') (Hearing site pieces) w := by
  rintro pieces w ⟨requests, as, htrack, hend, hquiet⟩
  have key : ∀ w' : World Session, w'.reading = w.reading → Heard site pieces w' := by
    intro w' hreading
    simp only [World.reading, Prod.mk.injEq] at hreading
    refine ⟨requests, as, ?_, hend, hquiet⟩
    rw [hreading.2.1, hreading.2.2]
    exact htrack
  exact wp_mono hkeeps.wp (fun _ w' hi => key w' hi) (fun w' hi => (key w' hi).hearing)

theorem readRound_heard {reads : List ReadAnswer} (h : Since reads pieces (Heard site) w) (activity : Bool) :
    wp (TcpConnection.readRound (messageCallback site) activity)
      (fun _ w' => Since reads pieces (Heard site) w') (Since reads pieces (Hearing site)) w := by
  obtain ⟨used, hreads, requests, as, htrack, hover, hquiet⟩ := h
  unfold TcpConnection.readRound
  rw [wp_bind]
  refine wp_mono (readFd_since pieces hreads) ?_ ?_
  · rintro a w₁ ⟨-, -, happ, used₁, pieces₁, hsince, hpieces, hinput, hdata⟩
    have htrack₁ : w₁.app.Track site ((pieces ++ piecesOf used) ++ pieces₁).flatten requests as w₁.conn.input := by
      rw [happ, hinput, List.flatten_append]
      exact htrack.read _
    -- a read that brings nothing
    have hnothing : (∀ n, a ≠ .count (n + 1)) → Since reads pieces (Heard site) w₁ := by
      intro hne
      rcases hdata with ⟨-, hempty⟩ | ⟨piece, n, -, -, heq⟩
      · have hflat : ((pieces ++ piecesOf used) ++ pieces₁).flatten = (pieces ++ piecesOf used).flatten := by
          rw [List.flatten_append, List.flatten_eq_nil_iff.mpr hempty, List.append_nil]
        refine ⟨used₁, hsince, requests, as, ?_⟩
        rw [hpieces, quiet_append_nil _ hempty]
        rw [hflat] at htrack₁ ⊢
        exact ⟨htrack₁, hover, hquiet⟩
      · exact absurd heq (hne n)
    cases a with
    | count n =>
      simp only [wp_ite, wp_bind, wp_update, wp_pure]
      cases n with
      | zero => exact hnothing (fun n => by simp)
      | succ n =>
        rw [if_pos (Nat.succ_pos n)]
        rcases hdata with ⟨hne, -⟩ | ⟨piece, -, hone, hpiece, -⟩
        · exact absurd rfl (hne n)
        rw [hone] at htrack₁ hpieces
        refine wp_mono (messageCallback_heard (w := w₁.addBytesRead (n + 1)) hpiece hover htrack.open hquiet
          htrack₁) ?_ ?_
        · rintro _ w₂ ⟨hdone, hreads₂⟩
          refine ⟨used₁, ?_, ?_⟩
          · rw [hreads₂]
            exact hsince
          · rw [hpieces]
            exact hdone
        · rintro w₂ ⟨hdone, hreads₂⟩
          refine ⟨used₁, ?_, ?_⟩
          · rw [hreads₂]
            exact hsince
          · rw [hpieces]
            exact hdone
    | again => exact hnothing (fun n => by simp)
    | interrupted => exact hnothing (fun n => by simp)
    | failed errno => exact hnothing (fun n => by simp)
  · rintro w₁ rfl
    exact ⟨used, hreads, requests, as, htrack, hquiet⟩

theorem handleRead_heard {reads : List ReadAnswer} (h : Since reads pieces (Heard site) w) :
    wp (TcpConnection.handleRead closeCallback (messageCallback site))
      (fun _ w' => Since reads pieces (Heard site) w') (Since reads pieces (Hearing site)) w := by
  unfold TcpConnection.handleRead
  rw [wp_bind]
  refine wp_mono (wp_loop (TcpConnection.readRound_decreases (messageCallback_reads site))
    (I := fun _ w' => Since reads pieces (Heard site) w') (Q := fun _ w' => Since reads pieces (Heard site) w')
    (E := Since reads pieces (Hearing site)) ?_ false w h) ?_ (fun _ hi => hi)
  · intro activity w₁ h₁
    refine wp_mono (readRound_heard h₁ activity) ?_ (fun _ hi => hi)
    rintro r w₂ h₂
    cases r with
    | inl activity => exact h₂
    | inr ending => exact h₂
  · rintro ⟨activity, ending⟩ w₁ h₁
    have hrefresh := TcpConnection.refreshAfter_keeps (σ := Session) activity
    cases ending with
    | again => exact h₁.keep hrefresh (keeps_heard hrefresh)
    | peerClosed =>
      have hkeeps := Keeps.bind hrefresh fun _ => TcpConnection.handleClose_keeps closeCallback_keeps
      exact h₁.keep hkeeps (keeps_heard hkeeps)
    | failed =>
      have hkeeps : Keeps World.reading (do
          update World.addErrors
          TcpConnection.handleError closeCallback) :=
        Keeps.update_bind (fun _ => rfl) (TcpConnection.handleError_keeps closeCallback_keeps)
      exact h₁.keep hkeeps (keeps_heard hkeeps)

theorem callback_heard {reads : List ReadAnswer} (h : Since reads pieces (Heard site) w)
    (cb : ChannelCallback) :
    wp (TcpConnection.callback closeCallback (messageCallback site) cb)
      (fun _ w' => Since reads pieces (Heard site) w') (Since reads pieces (Hearing site)) w := by
  cases cb with
  | read => exact handleRead_heard h
  | write =>
    have hkeeps := TcpConnection.handleWrite_keeps closeCallback_keeps
    exact h.keep hkeeps (keeps_heard hkeeps)
  | close =>
    have hkeeps := TcpConnection.handleClose_keeps closeCallback_keeps
    exact h.keep hkeeps (keeps_heard hkeeps)
  | error =>
    have hkeeps := TcpConnection.handleError_keeps closeCallback_keeps
    exact h.keep hkeeps (keeps_heard hkeeps)

end Session

/-! ## Runs -/

theorem Heard.app {f : Session → Session} (h : Heard site pieces w)
    (hf : ∀ requests as, w.app.Track site pieces.flatten requests as w.conn.input →
      (f w.app).Track site pieces.flatten requests as w.conn.input) : Heard site pieces (w.mapApp f) := by
  obtain ⟨requests, as, htrack, hover, hquiet⟩ := h
  exact ⟨requests, as, hf _ _ htrack, hover, hquiet⟩

/-- Replies add nothing that an order of the requests forbids. -/
theorem Serial.orderly_reply (requests : List HttpRequest) (as : List Answered) (reply : Reply) :
    (Serial.Orderly requests (as ++ [Answered.reply reply]) ↔ Serial.Orderly requests as) ∧
      (Serial.Open requests (as ++ [Answered.reply reply]) → Serial.Open requests as) := by
  have hmem : .malformed ∈ as ++ [Answered.reply reply] ↔ .malformed ∈ as := by simp
  have hcount : (as ++ [Answered.reply reply]).countP Answered.isMalformed = as.countP Answered.isMalformed := by
    rw [List.countP_append]
    rfl
  refine ⟨⟨fun h => h.before_reply, fun h => ⟨h.upToFinal, ?_, ?_⟩⟩, fun h => ⟨h.keep, ?_⟩⟩
  · rw [hcount]
    exact h.once
  · exact fun hm => h.last (hmem.mp hm)
  · exact fun hm => h.good (hmem.mpr hm)

theorem heard_books (site : Site) : Books site (fun _ => True) (Heard site) (Hearing site) where
  stuck h := h.hearing
  give _ h := by
    obtain ⟨requests, as, htrack, hover, hquiet⟩ := h
    exact ⟨requests, as, htrack.schedule _, hover, hquiet⟩
  callback cb h := Session.callback_heard h cb
  swap h := h.app fun _ _ htrack => htrack.swapFunctors
  functor {pieces w reply functors answers} _ h hfunctors := by
    obtain ⟨requests, as, htrack, hover, hquiet⟩ := h
    have hsent := htrack.functor answers hfunctors
    obtain ⟨horderly, hopen⟩ := Serial.orderly_reply requests as reply
    have hdone : ∀ w' : World Session, w'.reading = (answers.reads, w.conn.input, ({ w.app with
        functors := functors, schedule := answers.schedule } : Session).sending (some reply.index)
          (!reply.request.keepAlive)) → Heard site pieces w' := by
      intro w' hreading
      simp only [World.reading, Prod.mk.injEq] at hreading
      refine ⟨requests, as ++ [.reply reply], ?_, fun ho h => hover ho (hopen h), hquiet.trans horderly.symm⟩
      rw [hreading.2.1, hreading.2.2]
      exact hsent
    exact wp_mono (Session.respond_reading site reply _) (fun _ w' hr => hdone w' hr)
      (fun w' hr => (hdone w' hr).hearing)
  worker move h := h.app (f := fun app => app.workerMove site move) fun _ _ htrack => htrack.workerMove move
  workerStuck move h := by
    obtain ⟨requests, as, htrack, hquiet⟩ := h
    exact ⟨requests, as, htrack.workerMove move, hquiet⟩

namespace Receiving

variable {s : Receiving} {idleSeconds : Rat} {s₀ : Serving}

/-- No response was passed to `send` behind a final one. -/
def NothingFollows (s : Receiving) : Prop :=
  ∀ before response after, s.serving.world.app.sent = before ++ response :: after →
    response.final = true → after = []

/-- Where nothing follows a final response, the answers before the last one are not final. -/
theorem NothingFollows.not_final (h : s.NothingFollows) {before after : List Answered}
    (hkeys : (before ++ after).map Answered.key = s.serving.world.app.sent) (hafter : after ≠ []) :
    ∀ a ∈ before, a.key.final = false := by
  intro a ha
  by_contra hfinal
  obtain ⟨front, later, rfl⟩ := List.append_of_mem ha
  have hnil := h (front.map Answered.key) a.key ((later ++ after).map Answered.key)
    (by rw [← hkeys]; simp) (by simpa using hfinal)
  rw [List.map_eq_nil_iff, List.append_eq_nil_iff] at hnil
  exact hafter hnil.2

/-- Without workers the answers are orderly where nothing follows a final one. -/
theorem NothingFollows.orderly (h : s.NothingFollows) {received : Bytes} (hworkers : site.workerThreads = 0)
    (htrack : s.serving.world.app.Track site received requests as s.serving.world.conn.input) :
    Serial.Orderly requests as := by
  obtain ⟨k, has⟩ := (htrack.inTurn hworkers).answers
  have hkeep : ∀ {front : List HttpRequest} {after : List Answered},
      as = (serve site front).1.map .reply ++ after → after ≠ [] → ∀ r ∈ front, r.keepAlive = true := by
    intro front after heq hafter r hr
    rw [← map_request_serve site front] at hr
    obtain ⟨reply, hreply, rfl⟩ := List.mem_map.mp hr
    have hfinal := h.not_final (heq ▸ htrack.sent) hafter _ (List.mem_map_of_mem hreply)
    simpa [Answered.key] using hfinal
  have hmalformed : .malformed ∈ as → k ≠ 0 := by
    rintro hm rfl
    rw [has, List.replicate_zero, List.append_nil] at hm
    obtain ⟨reply, -, hreply⟩ := List.mem_map.mp hm
    cases hreply
  refine ⟨?_, ?_, fun hm => hkeep has (by simp [hmalformed hm])⟩
  · rcases List.eq_nil_or_concat requests with rfl | ⟨front, request, rfl⟩
    · rfl
    · rw [List.concat_eq_append] at has ⊢
      rw [serve_concat, List.map_append, List.append_assoc] at has
      exact upToFinal_concat (hkeep has (by simp)) request
  · have hnone : ((serve site requests).1.map Answered.reply).countP Answered.isMalformed = 0 := by
      apply count_zero
      intro hm
      obtain ⟨reply, -, hreply⟩ := List.mem_map.mp hm
      cases hreply
    have hall : (List.replicate k Answered.malformed).countP Answered.isMalformed = k := by
      rw [List.countP_replicate]
      rfl
    rw [has, List.countP_append, hnone, hall, Nat.zero_add]
    by_contra hmany
    obtain ⟨n, rfl⟩ : ∃ n, k = n + 2 := ⟨k - 2, by omega⟩
    have hsplit : List.replicate (n + 2) Answered.malformed = [.malformed] ++ List.replicate (n + 1) .malformed := rfl
    have hkeys := htrack.sent
    rw [has, hsplit, ← List.append_assoc] at hkeys
    have hfinal := h.not_final hkeys (by simp) .malformed (List.mem_append_right _ List.mem_cons_self)
    cases hfinal

/-- **Nothing follows a final response** where a piece that is read when the
input is over completes nothing, and no request is with the workers or on its
way back when a final response goes out. Without workers this is so exactly
where the pieces are quiet. -/
theorem nothing_follows_final (h₀ : Serving.Started idleSeconds s₀)
    (h : Machine.Reached (step site) Machine.Any ⟨s₀, []⟩ s) :
    (Serial.Quiet s.pieces → (∀ out, .final out ∈ s.serving.world.app.history → out = 0) → s.NothingFollows) ∧
      (site.workerThreads = 0 → (s.NothingFollows ↔ Serial.Quiet s.pieces)) := by
  have hflow := Serving.reached_of_started h₀ (reached_serving h)
  have hheard : Heard site [] s₀.world := by
    refine ⟨[], [], started_track h₀, ?_, iff_of_true trivial ⟨rfl, Nat.zero_le 1, ?_⟩⟩
    · rintro (hbad | ⟨r, hr, -⟩)
      · cases hbad
      · exact absurd hr List.not_mem_nil
    · exact fun hm => absurd hm List.not_mem_nil
  have hfits : s.Fits (Heard site) (Hearing site) :=
    (heard_books site).reached ⟨hheard.hearing, fun _ => hheard⟩ h
  obtain ⟨requests, as, htrack, hquiet⟩ := hfits.stuck
  have hends : Serial.Quiet s.pieces → (∀ out, .final out ∈ s.serving.world.app.history → out = 0) →
      s.NothingFollows := by
    intro hpieces hlast
    have hearly := htrack.early (hquiet.mp hpieces)
    refine (Flow.reached_ending hflow fun n hn => (hearly n hn).ends ?_).last
    rintro out rfl
    exact hlast out hn
  refine ⟨hends, fun hworkers => ⟨fun hnothing => hquiet.mpr (hnothing.orderly hworkers htrack), fun hpieces => ?_⟩⟩
  rw [hworkers] at hflow
  exact hends hpieces (Flow.final_no_workers hflow)

def lastRequest : List SiteEvent :=
  Serving.arrives [Serving.get "/a", bytes "GET /b HTTP/1.0" ++ CRLF ++ CRLF, bytes "GET /c"] ::
    (Serving.work ++ Serving.work)

def leavesNone : Flow.Note → Bool
  | .final out => out == 0
  | _ => true

theorem nothing_follows_final_close : ∃ s,
    Machine.run (step (Serving.plainSite 1)) ⟨Serving.run (Serving.setUp 0) Serving.accepted, []⟩ lastRequest = some s ∧
    s.serving.answered = [0, 1] ∧ Serial.Quiet s.pieces ∧ s.NothingFollows := by
  have hend : (Machine.run (step (Serving.plainSite 1)) ⟨Serving.run (Serving.setUp 0) Serving.accepted, []⟩
      lastRequest).map (fun s => (s.serving.answered, decide (Serial.Quiet s.pieces),
        s.serving.world.app.history.all (leavesNone ·))) = some ([0, 1], true, true) := by
    decide +kernel
  obtain ⟨s, hs, hend⟩ := Option.map_eq_some_iff.mp hend
  simp only [Prod.mk.injEq, decide_eq_true_eq] at hend
  obtain ⟨hanswered, hquiet, hnotes⟩ := hend
  refine ⟨s, hs, hanswered, hquiet, ?_⟩
  apply (nothing_follows_final Serving.accepted_started (.of_run_any hs)).1 hquiet
  intro out hout
  exact beq_iff_eq.mp (List.all_eq_true.mp hnotes _ hout)

/-- Malformed input comes in two reads: the second one is answered as well. -/
theorem bad_request_twice : ∃ s,
    Machine.run (step (Serving.plainSite 0)) ⟨Serving.run (Serving.setUp 0) Serving.accepted, []⟩
      [Serving.arrives [bytes "x" ++ CRLF, bytes "y"]] = some s ∧
    s.serving.world.app.sent = [⟨none, true⟩, ⟨none, true⟩] ∧ ¬ s.NothingFollows := by
  have hend : (Machine.run (step (Serving.plainSite 0)) ⟨Serving.run (Serving.setUp 0) Serving.accepted, []⟩
      [Serving.arrives [bytes "x" ++ CRLF, bytes "y"]]).map (fun s => s.serving.world.app.sent) =
        some [⟨none, true⟩, ⟨none, true⟩] := by
    decide +kernel
  obtain ⟨s, hs, hend⟩ := Option.map_eq_some_iff.mp hend
  refine ⟨s, hs, hend, fun hnothing => ?_⟩
  have hlast := hnothing [] ⟨none, true⟩ [⟨none, true⟩] hend rfl
  cases hlast

end Receiving

end Myself
