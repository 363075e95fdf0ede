import MyselfServer.TcpConnection

/-!
# What sending leaves alone

Nothing that sends or closes touches the unread answers of the kernel's
reads, the input buffer, or what the callbacks of the connection work on.
-/

namespace Myself

open Text Prog

section
variable {σ : Type}

def World.reading (w : World σ) : List ReadAnswer × Bytes × σ := (w.reads, w.conn.input, w.app)

def World.timing (w : World σ) : TimerQueue Nat × Nat × Timestamp × TimerId × Rat :=
  (w.timers, w.sequence, w.clock, w.conn.idleTimer, w.conn.idleTimeoutSeconds)

/-- What the functions that send leave alone but for the mask, and what
closing is about. -/
def World.frame (w : World σ) : (List ReadAnswer × Bytes × σ × Bool × Channel × Reactor) ×
    (TimerQueue Nat × Nat × Timestamp × TimerId × Rat) :=
  ((w.reads, w.conn.input, w.app, w.conn.closed, w.conn.channel, w.reactor), w.timing)

/-- The invariant is about the frame, and neither the interest in writing nor
a new idle timer has a part in it. -/
structure Steady (I : World σ → Prop) : Prop where
  same : ∀ w w' : World σ, w'.frame = w.frame → I w → I w'
  enableWriting : ∀ w, I w → I (w.withChannel Channel.enableWriting)
  disableWriting : ∀ w, I w → I (w.withChannel Channel.disableWriting)
  refreshIdleTimer : ∀ w, I w → I w.refreshIdleTimer

namespace TcpConnection

theorem write_frame (data : Bytes) : Keeps World.frame (write data : Prog (World σ) Answer) := by
  intro w
  unfold write
  split <;> rfl

theorem sendfile_frame (file : FileBody) :
    Keeps World.frame (sendfile file : Prog (World σ) Answer) := by
  intro w
  unfold sendfile
  split <;> rfl

theorem pread_frame (file : FileBody) (total : Nat) :
    Keeps World.frame (pread file total : Prog (World σ) ReadAnswer) := by
  intro w
  unfold pread
  split <;> rfl

section
variable {I : World σ → Prop} (hI : Steady I)
include hI

theorem update_maintains {f : World σ → World σ} (hf : ∀ w, (f w).frame = w.frame) :
    Maintains I (update f) :=
  Maintains.update fun w h => hI.same w (f w) (hf w) h

theorem update_bind_maintains {α : Type} {f : World σ → World σ} {k : Unit → Prog (World σ) α}
    (hf : ∀ w, (f w).frame = w.frame) (hk : Maintains I (k ())) : Maintains I (update f >>= k) :=
  Maintains.bind (update_maintains hI hf) fun _ => hk

theorem refreshAfter_maintains (activity : Bool) :
    Maintains I (refreshAfter activity : Prog (World σ) Unit) :=
  Maintains.ite (Maintains.update hI.refreshIdleTimer) (Maintains.pure _)

theorem enableWriting_maintains : Maintains I (enableWriting : Prog (World σ) Unit) :=
  Maintains.update hI.enableWriting

theorem shutdownSocket_maintains : Maintains I (shutdownSocket : Prog (World σ) Unit) :=
  update_maintains hI fun _ => rfl

theorem queueOutput_maintains (data : Bytes) :
    Maintains I (queueOutput data : Prog (World σ) Unit) := by
  apply Maintains.ite
  · exact update_bind_maintains hI (fun _ => rfl) (enableWriting_maintains hI)
  · exact Maintains.pure _

theorem writeDone_maintains : Maintains I (writeDone : Prog (World σ) Unit) := by
  refine Maintains.update_bind hI.disableWriting ?_
  apply Maintains.bind Maintains.world
  intro w
  exact Maintains.ite (shutdownSocket_maintains hI) (Maintains.pure _)

theorem copyFile_maintains (file : FileBody) :
    Maintains I (copyFile file : Prog (World σ) Bytes) := by
  apply Maintains.loop
  intro data
  apply Maintains.ite
  · apply Maintains.bind ((pread_frame file _).maintains hI.same)
    intro a
    cases a with
    | data bytes => exact Maintains.ite (Maintains.pure _) (Maintains.pure _)
    | again => exact Maintains.pure _
    | interrupted => exact Maintains.pure _
    | failed errno => exact Maintains.pure _
  · exact Maintains.pure _

theorem shutdownWrite_maintains : Maintains I (shutdownWrite : Prog (World σ) Unit) := by
  apply Maintains.bind Maintains.world
  intro w
  apply Maintains.ite (Maintains.pure _)
  exact Maintains.ite (shutdownSocket_maintains hI) (update_maintains hI fun _ => rfl)

variable {closeCallback : Prog (World σ) Unit} (hclose : Maintains I (handleClose closeCallback))
include hclose

theorem fail_maintains : Maintains I (do
    update World.addErrors
    handleClose closeCallback) :=
  update_bind_maintains hI (fun _ => rfl) hclose

theorem handleError_maintains : Maintains I (handleError closeCallback) :=
  update_bind_maintains hI (fun _ => rfl) (fail_maintains hI hclose)

/-! ## Sending -/

theorem sendInLoop_maintains (data : Bytes) : Maintains I (sendInLoop closeCallback data) := by
  apply Maintains.bind Maintains.world
  intro w
  apply Maintains.ite
  · apply Maintains.bind ((write_frame data).maintains hI.same)
    intro a
    cases a with
    | count n => exact update_bind_maintains hI (fun _ => rfl) (queueOutput_maintains hI _)
    | again => exact queueOutput_maintains hI data
    | interrupted => exact queueOutput_maintains hI data
    | failed errno => exact fail_maintains hI hclose
  · exact queueOutput_maintains hI data

theorem send_maintains (data : Bytes) : Maintains I (send closeCallback data) := by
  apply Maintains.bind Maintains.world
  intro w
  exact Maintains.ite (Maintains.pure _) (sendInLoop_maintains hI hclose data)

/-! ## Writing out -/

theorem flushRound_maintains (limit : Nat) : Maintains I (flushRound closeCallback limit) := by
  have hfail : Maintains I (do
      update World.addErrors
      handleClose closeCallback
      pure (.inr false : Nat ⊕ Bool)) := by
    refine update_bind_maintains hI (fun _ => rfl) ?_
    exact Maintains.bind hclose fun _ => Maintains.pure _
  apply Maintains.bind Maintains.world
  intro w
  apply Maintains.ite
  · apply Maintains.bind ((write_frame _).maintains hI.same)
    intro a
    cases a with
    | count n =>
      apply Maintains.ite
      · exact update_bind_maintains hI (fun _ => rfl) (Maintains.pure _)
      · exact hfail
    | again => exact Maintains.pure _
    | interrupted => exact Maintains.pure _
    | failed errno => exact hfail
  · exact Maintains.pure _

theorem flushOutput_maintains (limit : Nat) : Maintains I (flushOutput closeCallback limit) :=
  Maintains.loop (flushRound_maintains hI hclose) limit

theorem fileRound_maintains (file : FileBody) (u : Unit) :
    Maintains I (fileRound closeCallback file u) := by
  apply Maintains.bind Maintains.world
  intro w
  apply Maintains.ite
  · apply Maintains.bind ((sendfile_frame file).maintains hI.same)
    intro a
    cases a with
    | count n =>
      apply Maintains.ite
      · exact update_bind_maintains hI (fun _ => rfl) (Maintains.pure _)
      · exact update_bind_maintains hI (fun _ => rfl) (Maintains.pure _)
    | again => exact Maintains.pure _
    | interrupted => exact Maintains.pure _
    | failed errno =>
      refine update_bind_maintains hI (fun _ => rfl) ?_
      exact Maintains.bind hclose fun _ => Maintains.pure _
  · exact Maintains.pure _

theorem sendPendingFile_maintains (file : FileBody) :
    Maintains I (sendPendingFile closeCallback file) := by
  apply Maintains.bind (Maintains.loop (fileRound_maintains hI hclose file) ())
  intro ok
  apply Maintains.ite
  · exact update_bind_maintains hI (fun _ => rfl) (Maintains.pure _)
  · exact Maintains.pure _

theorem writeBeforeFile_maintains : Maintains I (writeBeforeFile closeCallback) := by
  apply Maintains.bind Maintains.world
  intro w
  apply Maintains.ite
  · apply Maintains.bind (flushOutput_maintains hI hclose _)
    intro ok
    apply Maintains.ite
    · exact update_bind_maintains hI (fun _ => rfl) (Maintains.pure _)
    · exact Maintains.pure _
  · exact Maintains.pure _

theorem writeFile_maintains : Maintains I (writeFile closeCallback) := by
  apply Maintains.bind Maintains.world
  intro w
  cases w.conn.pendingFile with
  | none => exact Maintains.pure _
  | some file => exact sendPendingFile_maintains hI hclose file

theorem writeBehindFile_maintains : Maintains I (writeBehindFile closeCallback) := by
  apply Maintains.bind Maintains.world
  intro w
  exact Maintains.ite (flushOutput_maintains hI hclose _) (Maintains.pure _)

theorem handleWrite_maintains : Maintains I (handleWrite closeCallback) := by
  apply Maintains.bind Maintains.world
  intro w
  apply Maintains.ite (Maintains.pure _)
  apply Maintains.bind (writeBeforeFile_maintains hI hclose)
  intro ok
  refine Maintains.ite ?_ (Maintains.pure _)
  apply Maintains.bind (writeFile_maintains hI hclose)
  intro ok
  refine Maintains.ite ?_ (Maintains.pure _)
  apply Maintains.bind (writeBehindFile_maintains hI hclose)
  intro ok
  exact Maintains.ite (writeDone_maintains hI) (Maintains.pure _)

/-! ## Files -/

theorem sendFile_maintains (file : FileBody) : Maintains I (sendFile closeCallback file) := by
  apply Maintains.bind Maintains.world
  intro w
  apply Maintains.ite (Maintains.pure _)
  apply Maintains.ite
  · exact Maintains.bind (copyFile_maintains hI file) fun data =>
      sendInLoop_maintains hI hclose data
  · refine update_bind_maintains hI (fun _ => rfl) ?_
    exact Maintains.bind (enableWriting_maintains hI) fun _ => handleWrite_maintains hI hclose

end

/-! ## What is read -/

theorem cancelIdleTimer_reading (w : World σ) : w.cancelIdleTimer.reading = w.reading := by
  unfold World.cancelIdleTimer
  split <;> rfl

theorem refreshIdleTimer_reading (w : World σ) : w.refreshIdleTimer.reading = w.reading := by
  unfold World.refreshIdleTimer
  split
  · rfl
  · exact cancelIdleTimer_reading w

theorem steady_reading (v : List ReadAnswer × Bytes × σ) :
    Steady (fun w : World σ => w.reading = v) where
  same w w' hw h := by
    simp only [World.frame, Prod.mk.injEq] at hw
    rw [← h, World.reading, World.reading, hw.1.1, hw.1.2.1, hw.1.2.2.1]
  enableWriting _ h := h
  disableWriting _ h := h
  refreshIdleTimer w h := (refreshIdleTimer_reading w).trans h

theorem refreshIdleTimer_keeps : Keeps World.reading (update (World.refreshIdleTimer (σ := σ))) :=
  Keeps.update refreshIdleTimer_reading

theorem refreshAfter_keeps (activity : Bool) :
    Keeps World.reading (refreshAfter activity : Prog (World σ) Unit) :=
  keeps_of_maintains fun v => refreshAfter_maintains (steady_reading v) activity

theorem shutdownWrite_keeps : Keeps World.reading (shutdownWrite : Prog (World σ) Unit) :=
  keeps_of_maintains fun v => shutdownWrite_maintains (steady_reading v)

section
variable {closeCallback : Prog (World σ) Unit} (hcb : Keeps World.reading closeCallback)
include hcb

theorem handleClose_keeps : Keeps World.reading (handleClose closeCallback) := by
  apply Keeps.bind Keeps.world
  intro w
  apply Keeps.ite (Keeps.pure _)
  refine Keeps.update_bind (fun _ => rfl) ?_
  refine Keeps.update_bind cancelIdleTimer_reading ?_
  refine Keeps.update_bind (fun _ => rfl) ?_
  refine Keeps.update_bind (fun _ => rfl) ?_
  refine Keeps.update_bind (fun _ => rfl) ?_
  exact Keeps.update_bind (fun _ => rfl) hcb

theorem handleClose_maintains (v : List ReadAnswer × Bytes × σ) :
    Maintains (fun w => w.reading = v) (handleClose closeCallback) :=
  (handleClose_keeps hcb).maintains fun _ _ hg h => hg.trans h

theorem handleError_keeps : Keeps World.reading (handleError closeCallback) :=
  keeps_of_maintains fun v => handleError_maintains (steady_reading v) (handleClose_maintains hcb v)

theorem send_keeps (data : Bytes) : Keeps World.reading (send closeCallback data) :=
  keeps_of_maintains fun v => send_maintains (steady_reading v) (handleClose_maintains hcb v) data

theorem handleWrite_keeps : Keeps World.reading (handleWrite closeCallback) :=
  keeps_of_maintains fun v => handleWrite_maintains (steady_reading v) (handleClose_maintains hcb v)

theorem sendFile_keeps (file : FileBody) : Keeps World.reading (sendFile closeCallback file) :=
  keeps_of_maintains fun v =>
    sendFile_maintains (steady_reading v) (handleClose_maintains hcb v) file

end

/-! ## Reading -/

theorem readFd_app : Keeps World.app (readFd : Prog (World σ) Answer) := by
  intro w
  unfold readFd
  split <;> rfl

theorem readFd_shorter (w : World σ) :
    wp readFd (fun a w' => (∃ errno, a = .failed errno) ∨ w'.reads.length < w.reads.length)
      (fun _ => True) w := by
  unfold wp readFd
  cases hfd : w.conn.socket.fd with
  | none => exact Or.inl ⟨_, rfl⟩
  | some fd =>
    cases hr : w.reads with
    | nil => trivial
    | cons a rest =>
      cases a with
      | data bytes => exact Or.inr (Nat.lt_succ_self _)
      | again => exact Or.inr (Nat.lt_succ_self _)
      | interrupted => exact Or.inr (Nat.lt_succ_self _)
      | failed errno => exact Or.inl ⟨_, rfl⟩

/-- The loop of `handleRead` ends when the message callback reads nothing. -/
theorem readRound_decreases {messageCallback : Prog (World σ) Unit}
    (hm : ∀ w, wp messageCallback (fun _ w' => w'.reads = w.reads) (fun _ => True) w) :
    Decreases (fun w : World σ => w.reads.length) (readRound messageCallback) := by
  apply Decreases.of_wp
  intro activity w
  simp only [readRound, wp_bind]
  refine wp_mono (readFd_shorter w) ?_ (fun _ _ => trivial)
  intro a w' hw
  cases a with
  | count n =>
    rcases hw with ⟨_, h⟩ | hw
    · cases h
    · simp only [wp_ite, wp_bind, wp_update, wp_pure]
      split
      · refine wp_mono (hm _) ?_ (fun _ h => h)
        intro _ w₁ h₁ _ _
        rw [h₁]
        exact hw
      · exact fun _ h => absurd h Sum.inr_ne_inl
  | again => exact fun _ h => absurd h Sum.inr_ne_inl
  | interrupted =>
    rcases hw with ⟨_, h⟩ | hw
    · cases h
    · exact fun _ _ => hw
  | failed errno => exact fun _ h => absurd h Sum.inr_ne_inl

/-! ## Events -/

/-- What every callback of the channel maintains, an event maintains. -/
theorem dispatch_maintains {I : World σ → Prop} {closeCallback messageCallback : Prog (World σ) Unit}
    (h : ∀ cb, Maintains I (callback closeCallback messageCallback cb)) (revents : Mask) :
    Maintains I (dispatch closeCallback messageCallback revents) := by
  have hcallbacks : ∀ cbs, Maintains I (callbacks closeCallback messageCallback cbs) := by
    intro cbs
    induction cbs with
    | nil => exact Maintains.pure _
    | cons cb cbs ih => exact Maintains.bind (h cb) fun _ => ih
  apply Maintains.bind Maintains.world
  intro w
  exact Maintains.ite (hcallbacks _) (Maintains.pure _)

end TcpConnection

end

end Myself
