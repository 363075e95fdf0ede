import MyselfServer.ReadPath
import MyselfServer.ResponseOrder

/-!
# The client closes its side

A connection at work keeps `Sound`, whatever the kernel answers, so each read
that finds the end of the stream is followed by a close that has something
left exactly when `EPOLLOUT` was registered (`nothing_lost_iff`).
-/

namespace Myself

open Text Prog

variable {files : Nat → Bytes} {site : Site} {w : World Session}

namespace Session

theorem closeCallback_keeps_conn :
    Keeps (fun w : World Session => (w.conn, w.files, w.trace)) closeCallback :=
  Keeps.update fun _ => rfl

/-- What the session and the counters are has no part in the invariant. -/
theorem sound_mapApp {w w' : World Session} (h : Sound files w)
    (hs : (w'.conn, w'.reactor, w'.files, w'.trace) = (w.conn, w.reactor, w.files, w.trace)) :
    Sound files w' := by
  simp only [Prod.mk.injEq] at hs
  exact h.of_eq hs.1 hs.2.1 hs.2.2.1 hs.2.2.2

/-! ## The message callback -/

theorem send_sound (data : Bytes) : Maintains (Sound files) (TcpConnection.send closeCallback data) := by
  intro w h
  exact wp_mono (TcpConnection.send_spec (fun _ => closeCallback_keeps_conn) h data)
    (fun _ _ hi => hi.sound) (fun _ hi => hi)

theorem sendFile_sound (file : FileBody) :
    Maintains (Sound files) (TcpConnection.sendFile closeCallback file) := by
  intro w h
  refine wp_mono (TcpConnection.sendFile_spec (fun _ => closeCallback_keeps_conn) h
    fun hf => hf.elim) (fun _ _ hi => hi.sound) ?_
  rintro w' (hi | hi)
  · exact hi.sound
  · exact hi.sound

theorem shutdownWrite_sound :
    Maintains (Sound files) (TcpConnection.shutdownWrite : Prog (World Session) Unit) :=
  fun _ h => TcpConnection.shutdownWrite_spec h

theorem sendResponse_sound (site : Site) (index : Option Nat) (final : Bool)
    (response : HttpResponse) (includeBody : Bool) :
    Maintains (Sound files) (sendResponse site index final response includeBody) := by
  apply Maintains.bind Maintains.world
  intro w
  exact Maintains.update_bind (fun _ h => sound_mapApp h rfl) (send_sound _)

theorem respond_sound (site : Site) (reply : Reply) : Maintains (Sound files) (respond site reply) := by
  apply Maintains.bind
  · exact Maintains.ite (Maintains.update fun _ h => sound_mapApp h rfl) (Maintains.pure _)
  intro _
  apply Maintains.bind (sendResponse_sound _ _ _ _ _)
  intro _
  apply Maintains.bind
  · unfold sendFileBody
    split
    · exact sendFile_sound _
    · exact Maintains.pure _
  intro _
  exact Maintains.update_bind (fun _ h => sound_mapApp h rfl) (Maintains.ite (Maintains.pure _) shutdownWrite_sound)

theorem answerBadRequest_sound (site : Site) : Maintains (Sound files) (answerBadRequest site) := by
  refine Maintains.update_bind (fun _ h => sound_mapApp h rfl) ?_
  apply Maintains.bind (sendResponse_sound _ _ _ _ _)
  intro _
  exact Maintains.update_bind (fun _ h => sound_mapApp h rfl) (shutdownWrite_sound)

theorem noteRequest_sound (inline : Bool) : Maintains (Sound files) (noteRequest inline) :=
  Maintains.update fun _ h => sound_mapApp h rfl

theorem dispatch_sound (site : Site) : Maintains (Sound files) (dispatch site) := by
  have htake : Maintains (Sound files) takeRequest := by
    apply Maintains.bind Maintains.world
    intro w
    exact Maintains.update_bind (fun _ h => sound_mapApp h rfl) (Maintains.pure _)
  have hlimited : ∀ request, Maintains (Sound files) (limited site request) := by
    intro request
    apply Maintains.ite (Maintains.pure _)
    apply Maintains.bind Maintains.world
    intro w
    exact Maintains.update_bind (fun _ h => sound_mapApp h rfl) (Maintains.pure _)
  have hhandle : ∀ task, Maintains (Sound files) (handle site task) := by
    intro task
    apply Maintains.bind Maintains.world
    intro w
    exact Maintains.update_bind (fun _ h => sound_mapApp h rfl) (Maintains.pure _)
  apply Maintains.bind htake
  intro task
  refine Maintains.update_bind (fun _ h => sound_mapApp h rfl) ?_
  apply Maintains.bind (hlimited task.request)
  intro isLimited
  apply Maintains.ite
  · apply Maintains.bind (noteRequest_sound true)
    intro _
    refine Maintains.update_bind (fun _ h => sound_mapApp h rfl) ?_
    exact Maintains.bind (respond_sound site _) fun _ => Maintains.pure _
  apply Maintains.ite
  · apply Maintains.bind (noteRequest_sound false)
    intro _
    exact Maintains.update_bind (fun _ h => sound_mapApp h rfl) (Maintains.pure _)
  · apply Maintains.bind (noteRequest_sound true)
    intro _
    apply Maintains.bind (hhandle task)
    intro reply
    exact Maintains.bind (respond_sound site reply) fun _ => Maintains.pure _

theorem parsed_sound (parser : HttpParser) (rest : Bytes) : Maintains (Sound files) (parsed parser rest) :=
  fun _ h => h.same ⟨⟨_, _, _, rfl⟩, rfl, rfl⟩ h.trace

theorem messageRound_sound (site : Site) (u : Unit) : Maintains (Sound files) (messageRound site u) := by
  refine Maintains.update_bind (fun _ h => sound_mapApp h rfl) ?_
  apply Maintains.bind Maintains.world
  intro w
  cases w.app.parser.parse w.conn.input with
  | bad parser rest =>
    apply Maintains.bind (parsed_sound parser rest)
    intro _
    exact Maintains.bind (answerBadRequest_sound site) fun _ => Maintains.pure _
  | done parser rest =>
    apply Maintains.bind (parsed_sound parser rest)
    intro _
    apply Maintains.bind (dispatch_sound site)
    exact fun _ => Maintains.ite (Maintains.pure _) (Maintains.pure _)
  | more parser rest => exact Maintains.bind (parsed_sound parser rest) fun _ => Maintains.pure _
  | moved parser rest => exact Maintains.bind (parsed_sound parser rest) fun _ => Maintains.pure _
  | next parser rest => exact Maintains.bind (parsed_sound parser rest) fun _ => Maintains.pure _

theorem messageCallback_sound (site : Site) : Maintains (Sound files) (messageCallback site) :=
  Maintains.loop (messageRound_sound site) ()

/-! ## Events -/

theorem callback_sound (site : Site) (cb : ChannelCallback) :
    Maintains (Sound files) (TcpConnection.callback closeCallback (messageCallback site) cb) := by
  cases cb with
  | read =>
    exact TcpConnection.handleRead_sound closeCallback_keeps_conn (messageCallback_reads site)
      (messageCallback_sound site)
  | write => exact fun w h => TcpConnection.handleWrite_spec (fun _ => closeCallback_keeps_conn) h
  | close => exact TcpConnection.handleClose_sound closeCallback_keeps_conn
  | error => exact TcpConnection.handleError_sound closeCallback_keeps_conn

end Session

namespace Serving

variable {idleSeconds : Rat} {s s' s₀ : Serving}

theorem sound_stable (site : Site) : Stable site (Sound files) where
  callback := Session.callback_sound site
  give _ _ h := Session.sound_mapApp h rfl
  swap _ h _ := Session.sound_mapApp h rfl
  functor _ reply _ h _ _ := Session.respond_sound site reply _ (Session.sound_mapApp h rfl)
  worker _ _ h := Session.sound_mapApp h rfl

theorem setIdleTimeout_sound (idleSeconds : Rat) :
    Maintains (Sound files) (TcpConnection.setIdleTimeout idleSeconds : Prog (World Session) Unit) := by
  apply Maintains.update_bind
  · exact fun _ h => h.same ⟨⟨_, _, _, rfl⟩, rfl, rfl⟩ h.trace
  · apply Maintains.bind Maintains.world
    exact fun _ => Maintains.ite TcpConnection.refreshIdleTimer_sound (Maintains.pure _)

theorem started_sound (h₀ : Started idleSeconds s₀) : ∃ files, Sound files s₀.world := by
  obtain ⟨w, hfresh, -, rfl⟩ := h₀
  refine ⟨w.files, ?_⟩
  have henv : Env False w.files w := by
    refine Env.of_not not_false rfl ?_
    rw [hfresh.trace]
    exact ⟨(fun _ _ hm => nomatch hm), fun before _ _ _ heq => by simp at heq⟩
  have hsetUp : wp (setUp idleSeconds) (fun _ w' => Sound w.files w') (Sound w.files) w := by
    unfold setUp
    rw [wp_bind]
    refine wp_mono (start_spec hfresh henv (E := fun _ => False)) ?_ (fun _ hf => hf.elim)
    intro _ w₁ h₁
    exact Maintains.ite (setIdleTimeout_sound idleSeconds) (Maintains.pure _) w₁ (Or.inr h₁)
  exact run_of_wp hsetUp

/-! ## The close at the end of the stream -/

/-- A close that follows the end of the stream has nothing left to send. -/
def NothingLost (trace : List Syscall) : Prop :=
  ∀ before fd armed fd' left after,
    trace = before ++ .read fd (some 0) armed :: .close fd' left :: after → left = false

def Drained (trace : List Syscall) : Prop :=
  ∀ fd armed, .read fd (some 0) armed ∈ trace → armed = false

/-- **Closing at the end of the stream loses nothing exactly when `EPOLLOUT`
is not registered then.** -/
theorem nothing_lost_iff (h₀ : Started idleSeconds s₀)
    (h : Machine.Reached (step site) Machine.Any s₀ s) :
    NothingLost s.world.trace ↔ Drained s.world.trace := by
  obtain ⟨files, hsound₀⟩ := started_sound h₀
  have htrace := ((sound_stable site).reached hsound₀ h).trace
  constructor
  · intro hlost fd armed hm
    obtain ⟨before, after, heq⟩ := List.append_of_mem hm
    obtain ⟨rest, rfl⟩ := htrace.eof before fd armed after heq
    exact hlost before fd armed fd armed rest heq
  · intro hdrained before fd armed fd' left after heq
    obtain ⟨rest, hrest⟩ := htrace.eof before fd armed (.close fd' left :: after) heq
    cases hrest
    refine hdrained fd _ ?_
    rw [heq]
    exact List.mem_append_right _ (List.mem_cons_self ..)

/-! ## Runs -/

def closesLater : List SiteEvent :=
  [arrives [get "/a"], .ready EPOLLOUT { writes := [.count 1000] },
    .ready EPOLLIN { reads := [.data []] }]

theorem nothing_lost_later : ∃ s,
    Machine.run (step (plainSite 0)) (run (setUp 0) accepted) closesLater = some s ∧
    .close (some 7) false ∈ s.world.trace ∧ NothingLost s.world.trace := by
  have htrace : (Machine.run (step (plainSite 0)) (run (setUp 0) accepted) closesLater).map
      (fun s => s.world.trace) = some [.read (some 7) (some 19) false, .read (some 7) none true,
        .write (some 7) 95 (some 95), .read (some 7) (some 0) false, .close (some 7) false] := by
    decide +kernel
  obtain ⟨s, hs, htrace⟩ := Option.map_eq_some_iff.mp htrace
  refine ⟨s, hs, by rw [htrace]; simp, ?_⟩
  rw [nothing_lost_iff accepted_started (.of_run_any hs), htrace]
  intro fd armed hm
  simp at hm
  exact hm.2

/-- The end of the stream is read behind the request: the response is lost. -/
theorem response_lost : ∃ s,
    Machine.run (step (plainSite 0)) (run (setUp 0) accepted)
      [.ready EPOLLIN { reads := [.data (get "/a"), .data []] }] = some s ∧
    s.world.wire = [] ∧ ¬ NothingLost s.world.trace := by
  have hend : (Machine.run (step (plainSite 0)) (run (setUp 0) accepted)
      [.ready EPOLLIN { reads := [.data (get "/a"), .data []] }]).map
        (fun s => (s.world.wire, s.world.trace)) = some ([], [.read (some 7) (some 19) false,
          .read (some 7) (some 0) true, .close (some 7) true]) := by
    decide +kernel
  obtain ⟨s, hs, hend⟩ := Option.map_eq_some_iff.mp hend
  simp only [Prod.mk.injEq] at hend
  refine ⟨s, hs, hend.1, ?_⟩
  intro hlost
  rw [hend.2] at hlost
  have := hlost [.read (some 7) (some 19) false] (some 7) true (some 7) true [] rfl
  cases this

end Serving

end Myself
