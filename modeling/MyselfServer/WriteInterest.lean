import MyselfServer.Frames
import MyselfServer.ShortFiles

/-!
# The events a connection waits for

`EPOLLET` is in the read mask and in the write mask: after `enableReading` it
makes `isWriting` true, and `disableWriting` takes it away from reading. On an
open connection the two interests are kept apart exactly while `EPOLLOUT` is
registered, and never behind `start`.
-/

namespace Myself

open Text Prog

/-- The masks of a connection: before anything is written, while something is
to be written, and after that. -/
def Interests (m : Mask) : Prop :=
  m = Channel.kReadEvent ∨ m = Channel.kReadEvent ||| Channel.kWriteEvent ∨
    m = Channel.kReadEvent &&& ~~~Channel.kWriteEvent

theorem Interests.or_write {m : Mask} (h : Interests m) : Interests (m ||| Channel.kWriteEvent) := by
  rcases h with rfl | rfl | rfl <;> exact Or.inr (Or.inl (by decide))

theorem Interests.and_not_write {m : Mask} (h : Interests m) :
    Interests (m &&& ~~~Channel.kWriteEvent) := by
  rcases h with rfl | rfl | rfl <;> exact Or.inr (Or.inr (by decide))

section
variable {σ : Type}

/-- `isWriting` says whether `EPOLLOUT` is registered, and all of the read
mask is registered. -/
structure Separate (w : World σ) : Prop where
  writing : w.conn.channel.isWriting = w.armed
  reading : ∃ events, w.reactor.interest[w.conn.channel.fd]? = some events ∧
    events &&& Channel.kReadEvent = Channel.kReadEvent

def Wired (w : World σ) : Prop :=
  w.conn.closed = true ∨
    w.conn.channel.Attached w.reactor ∧ Interests w.conn.channel.events

variable {w w' : World σ}

theorem Wired.same (h : Wired w) (hconn : w'.conn.closed = w.conn.closed)
    (hchannel : w'.conn.channel = w.conn.channel) (hreactor : w'.reactor = w.reactor) : Wired w' := by
  unfold Wired
  rw [hconn, hchannel, hreactor]
  exact h

theorem Wired.enableWriting (h : Wired w) : Wired (w.withChannel Channel.enableWriting) :=
  h.imp id fun h => ⟨h.1.enableWriting, h.2.or_write⟩

theorem Wired.disableWriting (h : Wired w) : Wired (w.withChannel Channel.disableWriting) :=
  h.imp id fun h => ⟨h.1.disableWriting, h.2.and_not_write⟩

/-- On an open connection the interests are separate while `EPOLLOUT` is registered. -/
theorem Wired.separate_iff (h : Wired w) (hopen : w.conn.closed = false) :
    Separate w ↔ w.armed = true := by
  rcases h with h | ⟨hatt, hevents⟩
  · exact absurd (hopen.symm.trans h) Bool.false_ne_true
  have harmed : w.armed = (w.conn.channel.events &&& EPOLLOUT != 0) := by
    simp only [World.armed, hatt.interest]
  have hread : (∃ events, w.reactor.interest[w.conn.channel.fd]? = some events ∧
      events &&& Channel.kReadEvent = Channel.kReadEvent) ↔
      w.conn.channel.events &&& Channel.kReadEvent = Channel.kReadEvent := by
    simp [hatt.interest]
  have hiff : Separate w ↔ w.conn.channel.isWriting = w.armed ∧
      w.conn.channel.events &&& Channel.kReadEvent = Channel.kReadEvent :=
    ⟨fun hs => ⟨hs.writing, hread.mp hs.reading⟩, fun hs => ⟨hs.1, hread.mpr hs.2⟩⟩
  rw [hiff, harmed, Channel.isWriting]
  rcases hevents with hevents | hevents | hevents <;> rw [hevents] <;> decide

def World.interests (w : World σ) : Bool × Channel × Reactor :=
  (w.conn.closed, w.conn.channel, w.reactor)

theorem wired_of_keeps {α : Type} {p : Prog (World σ) α} (h : Keeps World.interests p) :
    Maintains Wired p := by
  apply h.maintains
  intro w w' hsame hw
  simp only [World.interests, Prod.mk.injEq] at hsame
  exact hw.same hsame.1 hsame.2.1 hsame.2.2

namespace TcpConnection

theorem wired_steady : Steady (Wired (σ := σ)) where
  same w w' hsame hw := by
    simp only [World.frame, Prod.mk.injEq] at hsame
    exact hw.same hsame.1.2.2.2.1 hsame.1.2.2.2.2.1 hsame.1.2.2.2.2.2
  enableWriting _ h := h.enableWriting
  disableWriting _ h := h.disableWriting
  refreshIdleTimer w h := by
    unfold World.refreshIdleTimer
    split
    · exact h
    · obtain ⟨timers, idleTimer, hcancel⟩ := cancelIdleTimer_same w
      rw [hcancel]
      exact h.same rfl rfl rfl

theorem readFd_wired : Maintains Wired (readFd : Prog (World σ) Answer) := by
  apply wired_of_keeps
  intro w
  unfold readFd
  split <;> rfl

section
variable {closeCallback : Prog (World σ) Unit} (hcb : Keeps World.interests closeCallback)
include hcb

/-- A connection is marked as closed before its channel is disabled. -/
theorem handleClose_wired : Maintains Wired (handleClose closeCallback) := by
  intro w h
  simp only [handleClose, wp_bind, wp_world, wp_ite, wp_update, wp_pure]
  split
  · exact h
  · obtain ⟨timers, idleTimer, hcancel⟩ :=
      cancelIdleTimer_same ({ w with conn := { w.conn with closed := true } } : World σ)
    rw [hcancel]
    exact wired_of_keeps hcb _ (Or.inl rfl)

variable {messageCallback : Prog (World σ) Unit} (hm : Maintains Wired messageCallback)
include hm

omit hcb in
theorem readRound_wired (activity : Bool) : Maintains Wired (readRound messageCallback activity) := by
  apply Maintains.bind readFd_wired
  intro a
  cases a with
  | count n =>
    apply Maintains.ite
    · refine Maintains.update_bind (fun _ h => h.same rfl rfl rfl) ?_
      exact Maintains.bind hm fun _ => Maintains.pure _
    · exact Maintains.pure _
  | again => exact Maintains.pure _
  | interrupted => exact Maintains.pure _
  | failed errno => exact Maintains.pure _

theorem handleRead_wired : Maintains Wired (handleRead closeCallback messageCallback) := by
  apply Maintains.bind (Maintains.loop (readRound_wired hm) false)
  rintro ⟨activity, ending⟩
  cases ending with
  | again => exact refreshAfter_maintains wired_steady activity
  | peerClosed =>
    exact Maintains.bind (refreshAfter_maintains wired_steady activity) fun _ =>
      handleClose_wired hcb
  | failed =>
    exact update_bind_maintains wired_steady (fun _ => rfl)
      (handleError_maintains wired_steady (handleClose_wired hcb))

end

end TcpConnection

/-! ## Runs -/

theorem Call.perform_wired {closeCallback : Prog (World σ) Unit}
    (hcb : Keeps World.interests closeCallback) (c : Call) :
    Maintains Wired (c.perform closeCallback) := by
  have hclose := TcpConnection.handleClose_wired hcb
  cases c with
  | send data => exact TcpConnection.send_maintains TcpConnection.wired_steady hclose data
  | sendFile file => exact TcpConnection.sendFile_maintains TcpConnection.wired_steady hclose file
  | shutdownWrite => exact TcpConnection.shutdownWrite_maintains TcpConnection.wired_steady
  | writeEvent => exact TcpConnection.handleWrite_maintains TcpConnection.wired_steady hclose

theorem Call.performAll_wired {closeCallback : Prog (World σ) Unit}
    (hcb : Keeps World.interests closeCallback) (calls : List Call) :
    Maintains Wired (Call.performAll closeCallback calls) := by
  induction calls with
  | nil => exact Maintains.pure _
  | cons c calls ih => exact Maintains.bind (c.perform_wired hcb) fun _ => ih

inductive Happening where
  | move (m : Move)
  | event (revents : Mask)

/-- What a message callback does: it takes from the buffer, works on what is
its own, and calls the connection. -/
structure CallbackOutcome (σ : Type) where
  unread : Bytes
  app : σ
  calls : List Call

section
variable (closeCallback : Prog (World σ) Unit) (reply : World σ → CallbackOutcome σ)

def answerWith : Prog (World σ) Unit := do
  let w ← world
  update fun w' => { w' with conn := { w'.conn with input := (reply w).unread }, app := (reply w).app }
  Call.performAll closeCallback (reply w).calls

def Happening.perform : Happening → Prog (World σ) Unit
  | .move m => m.perform closeCallback
  | .event revents => TcpConnection.dispatch closeCallback (answerWith closeCallback reply) revents

def Happening.performAll : List Happening → Prog (World σ) Unit
  | [] => pure ()
  | h :: hs => do
    h.perform closeCallback reply
    Happening.performAll hs

def InRun (w : World σ) (happenings : List Happening) (w' : World σ) : Prop :=
  ∃ before after, happenings = before ++ after ∧
    (do TcpConnection.start; Happening.performAll closeCallback reply before) w = .returned () w'

end

section
variable {closeCallback : Prog (World σ) Unit} {reply : World σ → CallbackOutcome σ}
  (hcb : Keeps World.interests closeCallback)
include hcb

theorem Happening.perform_wired (h : Happening) :
    Maintains Wired (h.perform closeCallback reply) := by
  have hanswer : Maintains Wired (answerWith closeCallback reply) := by
    apply Maintains.bind Maintains.world
    intro w
    refine Maintains.update_bind (fun _ h => h.same rfl rfl rfl) ?_
    exact Call.performAll_wired hcb _
  have hclose := TcpConnection.handleClose_wired hcb
  cases h with
  | move m =>
    cases m with
    | call c => exact c.perform_wired hcb
    | close => exact hclose
  | event revents =>
    apply TcpConnection.dispatch_maintains
    intro cb
    cases cb with
    | read => exact TcpConnection.handleRead_wired hcb hanswer
    | write => exact TcpConnection.handleWrite_maintains TcpConnection.wired_steady hclose
    | close => exact hclose
    | error => exact TcpConnection.handleError_maintains TcpConnection.wired_steady hclose

theorem Happening.performAll_wired (hs : List Happening) :
    Maintains Wired (Happening.performAll closeCallback reply hs) := by
  induction hs with
  | nil => exact Maintains.pure _
  | cons h hs ih => exact Maintains.bind (h.perform_wired hcb) fun _ => ih

end

/-- Behind `start` the connection waits for reading, and `isWriting` is true. -/
theorem start_wired (hw : Fresh w) {E : World σ → Prop} :
    wp TcpConnection.start
      (fun _ w' => Wired w' ∧ w'.conn.closed = false ∧ w'.armed = false) E w := by
  obtain ⟨self, connfd, hconn⟩ := hw.conn
  have hchannels := hw.channels
  have hinterest := hw.interest
  rw [hconn] at hchannels hinterest
  have hatt := Channel.attached_enableReading (r := w.reactor)
    (c := { self := self, fd := connfd }) rfl hchannels hinterest
  have hatt' := hatt.updateChannel rfl hatt.active hatt.reading
  have hchannel : w.conn.channel = { self := self, fd := connfd } := by rw [hconn]
  simp only [TcpConnection.start, wp_bind, wp_update]
  have hevents : ({ self := self, fd := connfd : Channel }.enableReading w.reactor).1.events =
      Channel.kReadEvent := by
    show (0 : Mask) ||| Channel.kReadEvent = Channel.kReadEvent
    decide
  refine ⟨Or.inr ⟨?_, Or.inl ?_⟩, ?_, ?_⟩
  · simp only [World.withChannel, hchannel]
    exact hatt'
  · simp only [World.withChannel, hchannel]
    exact hevents
  · simp only [World.withChannel, hconn]
  · have hi := hatt'.interest
    simp only [World.armed, World.withChannel, hchannel]
    rw [hi, hevents]
    decide

/-- **The interests are never separate from `start` on**: they are in the
states in which `EPOLLOUT` is registered, and in no other ones, such as the first. -/
theorem interests_mixed {closeCallback : Prog (World σ) Unit} (reply : World σ → CallbackOutcome σ)
    (hcb : Keeps World.interests closeCallback) (hw : Fresh w) (happenings : List Happening) :
    (¬ ∀ w', InRun closeCallback reply w happenings w' → w'.conn.closed = false → Separate w') ∧
    ∀ w', InRun closeCallback reply w happenings w' → w'.conn.closed = false →
      (Separate w' ↔ w'.armed = true) := by
  have hstart := start_wired hw (E := fun _ => False)
  have hrun : ∀ w', InRun closeCallback reply w happenings w' → w'.conn.closed = false →
      (Separate w' ↔ w'.armed = true) := by
    rintro w' ⟨before, after, -, hret⟩ hopen
    have hall : wp (do TcpConnection.start; Happening.performAll closeCallback reply before)
        (fun _ w' => Wired w') (fun _ => True) w := by
      rw [wp_bind]
      refine wp_mono hstart ?_ (fun _ _ => trivial)
      rintro _ w₁ ⟨hwired, -⟩
      exact wp_mono (Happening.performAll_wired hcb before w₁ hwired) (fun _ _ h => h)
        (fun _ _ => trivial)
    unfold wp at hall
    rw [hret] at hall
    exact hall.separate_iff hopen
  refine ⟨fun hall => ?_, hrun⟩
  unfold wp at hstart
  cases hret : TcpConnection.start w with
  | waits w₁ =>
    rw [hret] at hstart
    exact hstart
  | returned u w₁ =>
    rw [hret] at hstart
    have hin : InRun closeCallback reply w happenings w₁ := by
      refine ⟨[], happenings, rfl, ?_⟩
      simp only [Bind.bind, hret]
      rfl
    have hsep := hall w₁ hin hstart.2.1
    rw [hrun w₁ hin hstart.2.1, hstart.2.2] at hsep
    cases hsep

@[irreducible] def byteWorld : World Unit :=
  TcpConnection.accepted 7 [.count 1] [] [] (fun _ => []) ()

theorem byteWorld_fresh : Fresh byteWorld := by
  rw [byteWorld]
  exact TcpConnection.accepted_fresh ..

theorem interests_mixed_byte :
    (¬ ∀ w', InRun (pure ()) (fun w => ⟨[], w.app, []⟩) byteWorld
        [.move (.call (.send [65])), .event EPOLLOUT] w' → w'.conn.closed = false → Separate w') ∧
    ∀ w', InRun (pure ()) (fun w => ⟨[], w.app, []⟩) byteWorld
        [.move (.call (.send [65])), .event EPOLLOUT] w' → w'.conn.closed = false →
      (Separate w' ↔ w'.armed = true) :=
  interests_mixed _ (fun _ => rfl) byteWorld_fresh _

/-- In the first state `isWriting` is true without `EPOLLOUT`; when the byte
is written `EPOLLET` is gone. -/
theorem interest_lost :
    wp (do
        TcpConnection.start
        Happening.performAll (pure ()) (fun w => ⟨[], w.app, []⟩) [])
      (fun _ w' => w'.conn.channel.isWriting = true ∧ w'.armed = false) (fun _ => False) byteWorld ∧
    wp (do
        TcpConnection.start
        Happening.performAll (pure ()) (fun w => ⟨[], w.app, []⟩)
          [.move (.call (.send [65])), .event EPOLLOUT])
      (fun _ w' => w'.conn.closed = false ∧
        w'.reactor.interest[7]? = some (EPOLLIN ||| EPOLLPRI)) (fun _ => False) byteWorld := by
  constructor
  · rw [byteWorld]
    decide +kernel
  · rw [byteWorld]
    decide +kernel

end

end Myself
