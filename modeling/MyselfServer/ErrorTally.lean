import MyselfServer.Frames
import MyselfServer.HandleWrite

/-!
# Errors of a connection, counted

`Tally` balances `errorsTotal` with the connection's one way to die and with
the errors that the owner of the connection counts itself, of which some can be
still to come. The functions that send count an error exactly when they close
the connection, and behind the close they make no call.
-/

namespace Myself

open Text Prog

def Syscall.onSocket : Syscall → Bool
  | .read _ _ _ => true
  | .write _ _ _ => true
  | .sendfile _ _ _ => true
  | .getsockopt _ => true
  | .shutdown _ _ => false
  | .close _ _ => false

def Syscall.isClose : Syscall → Bool
  | .close _ _ => true
  | _ => false

def Quiet (trace : List Syscall) : Prop :=
  trace.Pairwise fun first later => first.isClose = true → later.onSocket = false

theorem Quiet.call {trace : List Syscall} (h : ∀ c ∈ trace, c.isClose = false) (c : Syscall)
    (hq : Quiet trace) : Quiet (trace ++ [c]) := by
  refine List.pairwise_append.mpr ⟨hq, List.pairwise_singleton _ c, ?_⟩
  intro first hfirst _ _ hclose
  rw [h first hfirst] at hclose
  cases hclose

section
variable {σ : Type}

/-- The connection is closed and was not closed by its owner or its peer
(`gentle`), or it is open. -/
structure Tally (owed base : Nat) (extra : σ → Nat) (gentle : Bool) (w : World σ) : Prop where
  errors : w.metrics.errorsTotal + owed =
    base + (w.conn.closed && !gentle).toNat + extra w.app
  live : w.conn.closed = false →
    gentle = false ∧ w.conn.socket.fd.isSome = true ∧ ∀ c ∈ w.trace, c.isClose = false
  quiet : Quiet w.trace

def World.account (w : World σ) : Nat × Bool × Socket × List Syscall × σ :=
  (w.metrics.errorsTotal, w.conn.closed, w.conn.socket, w.trace, w.app)

variable {owed base : Nat} {extra : σ → Nat} {gentle : Bool} {w w' : World σ}

theorem Tally.same (h : Tally owed base extra gentle w) (hw : w'.account = w.account) :
    Tally owed base extra gentle w' := by
  simp only [World.account, Prod.mk.injEq] at hw
  obtain ⟨herrors, hclosed, hsocket, htrace, happ⟩ := hw
  refine ⟨?_, ?_, ?_⟩
  · rw [herrors, hclosed, happ]
    exact h.errors
  · rw [hclosed, hsocket, htrace]
    exact h.live
  · rw [htrace]
    exact h.quiet

structure Live (owed base : Nat) (extra : σ → Nat) (w : World σ) : Prop where
  tally : Tally owed base extra false w
  isOpen : w.conn.closed = false

theorem Tally.isLive (h : Tally owed base extra gentle w) (hopen : w.conn.closed = false) :
    Live owed base extra w := by
  obtain rfl := (h.live hopen).1
  exact ⟨h, hopen⟩

theorem Live.same (h : Live owed base extra w) (hw : w'.account = w.account) :
    Live owed base extra w' := by
  refine ⟨h.tally.same hw, ?_⟩
  simp only [World.account, Prod.mk.injEq] at hw
  rw [hw.2.1]
  exact h.isOpen

theorem Live.call (h : Live owed base extra w) {c : Syscall} (hc : c.isClose = false)
    (hw : w'.account = (w.log c).account) : Live owed base extra w' := by
  obtain ⟨hgentle, hfd, hnone⟩ := h.tally.live h.isOpen
  have hlogged : Live owed base extra (w.log c) := by
    refine ⟨⟨h.tally.errors, fun _ => ⟨hgentle, hfd, ?_⟩, h.tally.quiet.call hnone c⟩, h.isOpen⟩
    intro c' hc'
    rcases List.mem_append.mp hc' with hc' | hc'
    · exact hnone c' hc'
    · rw [List.mem_singleton.mp hc']
      exact hc
  exact hlogged.same hw

theorem live_of_keeps {α : Type} {p : Prog (World σ) α} (h : Keeps World.account p) :
    Maintains (Live owed base extra) p :=
  h.maintains fun _ _ hw hl => hl.same hw

theorem tally_of_keeps {α : Type} {p : Prog (World σ) α} (h : Keeps World.account p) :
    Maintains (Tally owed base extra gentle) p :=
  h.maintains fun _ _ hw hl => hl.same hw

def ClosedFrom (w w' : World σ) : Prop :=
  ∃ socket fd left,
    w'.account = (w.metrics.errorsTotal, true, socket, w.trace ++ [.close fd left], w.app)

theorem Live.closedFrom (h : Live owed base extra w) (hw : ClosedFrom w w') :
    w'.metrics.errorsTotal + owed = base + extra w'.app ∧ w'.conn.closed = true ∧ Quiet w'.trace := by
  obtain ⟨socket, fd, left, hw⟩ := hw
  simp only [World.account, Prod.mk.injEq] at hw
  obtain ⟨herrors, hclosed, -, htrace, happ⟩ := hw
  obtain ⟨-, -, hnone⟩ := h.tally.live h.isOpen
  have hold := h.tally.errors
  rw [h.isOpen, Bool.false_and] at hold
  refine ⟨?_, hclosed, ?_⟩
  · rw [herrors, happ]
    exact hold
  · rw [htrace]
    exact h.tally.quiet.call hnone _

theorem Live.closes (h : Live owed base extra w) (hw : ClosedFrom w w') :
    Tally owed base extra true w' := by
  obtain ⟨herrors, hclosed, hquiet⟩ := h.closedFrom hw
  refine ⟨?_, fun hopen => ?_, hquiet⟩
  · rw [hclosed]
    exact herrors
  · rw [hclosed] at hopen
    cases hopen

theorem Live.fails (h : Live owed base extra w) (hw : ClosedFrom w.addErrors w') :
    Tally owed base extra false w' := by
  have hcounted : Live owed (base + 1) extra w.addErrors := by
    refine ⟨⟨?_, h.tally.live, h.tally.quiet⟩, h.isOpen⟩
    have herrors := h.tally.errors
    simp only [World.addErrors]
    omega
  obtain ⟨herrors, hclosed, hquiet⟩ := hcounted.closedFrom hw
  refine ⟨?_, fun hopen => ?_, hquiet⟩
  · rw [hclosed]
    exact herrors
  · rw [hclosed] at hopen
    cases hopen

/-- A part of `handleWrite` that returns true leaves the connection open. -/
structure Passed (owed base : Nat) (extra : σ → Nat) (ok : Bool) (w : World σ) : Prop where
  tally : Tally owed base extra false w
  live : ok = true → Live owed base extra w

theorem Live.passed (h : Live owed base extra w) (ok : Bool) : Passed owed base extra ok w :=
  ⟨h.tally, fun _ => h⟩

namespace TcpConnection

theorem write_live (data : Bytes) :
    Maintains (Live owed base extra) (write data : Prog (World σ) Answer) := by
  intro w h
  unfold wp write
  split
  · rename_i heq
    split at heq
    · cases heq
      exact h.call rfl rfl
    · cases heq
    · cases heq
      exact h.call rfl rfl
    · cases heq
      exact h.call rfl rfl
  · rename_i heq
    split at heq
    · cases heq
    · cases heq
      exact h
    · cases heq
    · cases heq

theorem sendfile_live (file : FileBody) :
    Maintains (Live owed base extra) (sendfile file : Prog (World σ) Answer) := by
  intro w h
  unfold wp sendfile
  split
  · rename_i heq
    split at heq
    · cases heq
      exact h.call rfl rfl
    · cases heq
    · cases heq
      exact h.call rfl rfl
    · cases heq
      exact h.call rfl rfl
  · rename_i heq
    split at heq
    · cases heq
    · cases heq
      exact h
    · cases heq
    · cases heq

theorem pread_account (file : FileBody) (total : Nat) :
    Keeps World.account (pread file total : Prog (World σ) ReadAnswer) := by
  intro w
  unfold pread
  split <;> rfl

theorem cancelIdleTimer_account (w : World σ) : w.cancelIdleTimer.account = w.account := by
  unfold World.cancelIdleTimer
  split <;> rfl

theorem refreshIdleTimer_account (w : World σ) : w.refreshIdleTimer.account = w.account := by
  unfold World.refreshIdleTimer
  split
  · rfl
  · exact cancelIdleTimer_account w

theorem queueOutput_account (data : Bytes) :
    Keeps World.account (queueOutput data : Prog (World σ) Unit) :=
  Keeps.ite (Keeps.update_bind (fun _ => rfl) (Keeps.update fun _ => rfl)) (Keeps.pure _)

theorem refreshAfter_account (activity : Bool) :
    Keeps World.account (refreshAfter activity : Prog (World σ) Unit) :=
  Keeps.ite (Keeps.update refreshIdleTimer_account) (Keeps.pure _)

theorem copyFile_account (file : FileBody) :
    Keeps World.account (copyFile file : Prog (World σ) Bytes) := by
  apply Keeps.loop
  intro data
  apply Keeps.ite
  · apply Keeps.bind (pread_account file _)
    intro a
    cases a with
    | data bytes => exact Keeps.ite (Keeps.pure _) (Keeps.pure _)
    | again => exact Keeps.pure _
    | interrupted => exact Keeps.pure _
    | failed errno => exact Keeps.pure _
  · exact Keeps.pure _

theorem shutdownSocket_tally :
    Maintains (Tally owed base extra gentle) (shutdownSocket : Prog (World σ) Unit) := by
  intro w h
  refine ⟨h.errors, fun hopen => ?_, ?_⟩
  · obtain ⟨hgentle, hfd, hnone⟩ := h.live hopen
    refine ⟨hgentle, hfd, fun c hc => ?_⟩
    rcases List.mem_append.mp hc with hc | hc
    · exact hnone c hc
    · rw [List.mem_singleton.mp hc]
      rfl
  · refine List.pairwise_append.mpr ⟨h.quiet, List.pairwise_singleton _ _, ?_⟩
    intro first _ later hlater _
    rw [List.mem_singleton.mp hlater]
    rfl

theorem shutdownWrite_tally :
    Maintains (Tally owed base extra gentle) (shutdownWrite : Prog (World σ) Unit) := by
  apply Maintains.bind Maintains.world
  intro w
  apply Maintains.ite (Maintains.pure _)
  exact Maintains.ite shutdownSocket_tally (tally_of_keeps (Keeps.update fun _ => rfl))

section
variable {closeCallback : Prog (World σ) Unit} (hcb : Keeps World.account closeCallback)
include hcb

theorem handleClose_closedFrom (hopen : w.conn.closed = false) :
    wp (handleClose closeCallback) (fun _ w' => ClosedFrom w w') (ClosedFrom w) w := by
  have hcancel := cancelIdleTimer_account ({ w with conn := { w.conn with closed := true } } : World σ)
  simp only [World.account, Prod.mk.injEq] at hcancel
  obtain ⟨herrors, hclosed, -, htrace, happ⟩ := hcancel
  simp only [handleClose, wp_bind, wp_world, wp_ite, wp_update]
  rw [if_neg (by rw [hopen]; exact Bool.false_ne_true)]
  have key : ∀ {w₁ w' : World σ}, w'.account = w₁.account → w₁.metrics.errorsTotal = w.metrics.errorsTotal →
      w₁.conn.closed = true → (∃ fd left, w₁.trace = w.trace ++ [.close fd left]) →
      w₁.app = w.app → ClosedFrom w w' := by
    rintro w₁ w' hw he hc ⟨fd, left, ht⟩ ha
    refine ⟨w₁.conn.socket, fd, left, hw.trans ?_⟩
    simp only [World.account, he, hc, ht, ha]
  have htraced : ∀ call, (World.cancelIdleTimer { w with conn := { w.conn with closed := true } }).trace ++
      [call] = w.trace ++ [call] := by
    intro call
    rw [htrace]
  refine wp_mono hcb.wp ?_ ?_
  · intro _ w' hw'
    exact key hw' herrors hclosed ⟨_, _, htraced _⟩ happ
  · intro w' hw'
    exact key hw' herrors hclosed ⟨_, _, htraced _⟩ happ

theorem handleClose_gentle (h : Live owed base extra w) :
    wp (handleClose closeCallback) (fun _ w' => Tally owed base extra true w')
      (Tally owed base extra true) w :=
  wp_mono (handleClose_closedFrom hcb h.isOpen) (fun _ _ hw => h.closes hw) fun _ hw => h.closes hw

theorem fail_tally (h : Live owed base extra w) :
    wp (do
      update World.addErrors
      handleClose closeCallback) (fun _ w' => Tally owed base extra false w')
      (Tally owed base extra false) w := by
  rw [wp_bind, wp_update]
  have hopen : w.addErrors.conn.closed = false := h.isOpen
  exact wp_mono (handleClose_closedFrom hcb hopen) (fun _ _ hw => h.fails hw) fun _ hw => h.fails hw

/-- A round that fails is the last one. -/
theorem fail_stops {β : Type} (h : Live owed base extra w) :
    wp (do
      update World.addErrors
      handleClose closeCallback
      pure (.inr false : β ⊕ Bool))
      (fun r w' => r.elim (fun _ => Live owed base extra w') fun ok => Passed owed base extra ok w')
      (Tally owed base extra false) w := by
  have hclosed := fail_tally hcb h
  rw [wp_bind, wp_update] at hclosed
  simp only [wp_bind, wp_update, wp_pure]
  exact wp_mono hclosed (fun _ _ ht => ⟨ht, fun hok => by cases hok⟩) fun _ ht => ht

theorem handleError_tally (h : Live owed base extra w) :
    wp (handleError closeCallback) (fun _ w' => Tally owed base extra false w')
      (Tally owed base extra false) w := by
  unfold handleError
  rw [wp_bind, wp_update]
  exact fail_tally hcb (h.call (c := .getsockopt w.conn.socket.fd) rfl rfl)

/-! ## Sending -/

omit hcb in
theorem queueOutput_tally (h : Live owed base extra w) (data : Bytes) :
    wp (queueOutput data) (fun _ w' => Tally owed base extra false w') (Tally owed base extra false) w :=
  tally_of_keeps (queueOutput_account data) w h.tally

theorem sendInLoop_tally (h : Live owed base extra w) (data : Bytes) :
    wp (sendInLoop closeCallback data) (fun _ w' => Tally owed base extra false w')
      (Tally owed base extra false) w := by
  simp only [sendInLoop, wp_bind, wp_world, wp_ite]
  split
  · refine wp_mono (write_live data w h) ?_ fun _ h' => h'.tally
    intro a w' h'
    cases a with
    | count n =>
      simp only [wp_bind, wp_update]
      have hsame : Live owed base extra (w'.addBytesWritten n) := h'.same rfl
      exact queueOutput_tally hsame _
    | again => exact queueOutput_tally h' data
    | interrupted => exact queueOutput_tally h' data
    | failed errno => exact fail_tally hcb h'
  · exact queueOutput_tally h data

theorem send_tally (data : Bytes) :
    Maintains (Tally owed base extra gentle) (send closeCallback data) := by
  intro w h
  simp only [send, wp_bind, wp_world, wp_ite]
  split
  · exact h
  · rename_i hopen
    rw [Bool.not_eq_true] at hopen
    have hlive := h.isLive hopen
    obtain rfl := (h.live hopen).1
    exact sendInLoop_tally hcb hlive data

/-! ## Writing out -/

theorem flushRound_tally (h : Live owed base extra w) (limit : Nat) :
    wp (flushRound closeCallback limit)
      (fun r w' => r.elim (fun _ => Live owed base extra w') fun ok => Passed owed base extra ok w')
      (Tally owed base extra false) w := by
  simp only [flushRound, wp_bind, wp_world, wp_ite, wp_pure]
  split
  · refine wp_mono (write_live _ w h) ?_ fun _ h' => h'.tally
    intro a w' h'
    cases a with
    | count n =>
      simp only [wp_ite, wp_bind, wp_update, wp_pure]
      split
      · exact h'.same rfl
      · have hstops := fail_stops hcb (β := Nat) h'
        simp only [wp_bind, wp_update, wp_pure] at hstops
        exact hstops
    | again => exact h'.passed false
    | interrupted => exact h'
    | failed errno => exact fail_stops hcb h'
  · exact h.passed true

theorem flushOutput_tally (h : Live owed base extra w) (limit : Nat) :
    wp (flushOutput closeCallback limit)
      (Passed owed base extra)
      (Tally owed base extra false) w :=
  wp_loop flushRound_decreases (I := fun _ w => Live owed base extra w)
    (fun limit _ h => flushRound_tally hcb h limit) limit w h

theorem fileRound_tally (h : Live owed base extra w) (file : FileBody) (u : Unit) :
    wp (fileRound closeCallback file u)
      (fun r w' => r.elim (fun _ => Live owed base extra w') fun ok => Passed owed base extra ok w')
      (Tally owed base extra false) w := by
  simp only [fileRound, wp_bind, wp_world, wp_ite, wp_pure]
  split
  · refine wp_mono (sendfile_live file w h) ?_ fun _ h' => h'.tally
    intro a w' h'
    cases a with
    | count n =>
      simp only [wp_ite, wp_bind, wp_update, wp_pure]
      split
      · exact h'.same rfl
      · have hsame : Live owed base extra { w' with conn := { w'.conn with fileRemaining := 0 } } :=
          h'.same rfl
        exact hsame.passed true
    | again => exact h'.passed false
    | interrupted => exact h'
    | failed errno => exact fail_stops hcb h'
  · exact h.passed true

theorem sendPendingFile_tally (h : Live owed base extra w) (file : FileBody) :
    wp (sendPendingFile closeCallback file)
      (Passed owed base extra)
      (Tally owed base extra false) w := by
  simp only [sendPendingFile, wp_bind]
  refine wp_mono (wp_loop (fileRound_decreases file) (I := fun _ w => Live owed base extra w)
    (Q := Passed owed base extra)
    (fun u _ h => fileRound_tally hcb h file u) () w h) ?_ fun _ ht => ht
  rintro ok w' ⟨ht, hok⟩
  simp only [wp_ite, wp_bind, wp_update, wp_pure]
  split
  · rename_i hyes
    have hsame : Live owed base extra
        { w' with conn := { w'.conn with pendingFile := none, fileRemaining := 0 } } :=
      (hok hyes).same rfl
    exact hsame.passed true
  · exact ⟨ht, fun hyes => by cases hyes⟩

theorem writeBeforeFile_tally (h : Live owed base extra w) :
    wp (writeBeforeFile closeCallback)
      (Passed owed base extra)
      (Tally owed base extra false) w := by
  simp only [writeBeforeFile, wp_bind, wp_world, wp_ite, wp_pure]
  split
  · refine wp_mono (flushOutput_tally hcb h _) ?_ fun _ ht => ht
    rintro ok w' ⟨ht, hok⟩
    simp only [wp_update]
    split
    · rename_i hyes
      have hsame : Live owed base extra { w' with conn := { w'.conn with preFileBytes := 0 } } :=
        (hok hyes).same rfl
      exact hsame.passed true
    · exact ⟨ht, fun hyes => by cases hyes⟩
  · exact h.passed true

theorem writeFile_tally (h : Live owed base extra w) :
    wp (writeFile closeCallback)
      (Passed owed base extra)
      (Tally owed base extra false) w := by
  simp only [writeFile, wp_bind, wp_world]
  cases w.conn.pendingFile with
  | none => exact h.passed true
  | some file => exact sendPendingFile_tally hcb h file

theorem writeBehindFile_tally (h : Live owed base extra w) :
    wp (writeBehindFile closeCallback)
      (Passed owed base extra)
      (Tally owed base extra false) w := by
  simp only [writeBehindFile, wp_bind, wp_world, wp_ite, wp_pure]
  split
  · exact flushOutput_tally hcb h _
  · exact h.passed true

omit hcb in
theorem writeDone_tally (h : Live owed base extra w) :
    wp writeDone (fun _ w' => Tally owed base extra false w') (Tally owed base extra false) w := by
  simp only [writeDone, wp_bind, wp_update, wp_world, wp_ite, wp_pure]
  have hsame : Live owed base extra (w.withChannel Channel.disableWriting) := h.same rfl
  split
  · exact shutdownSocket_tally _ hsame.tally
  · exact hsame.tally

theorem handleWrite_live (h : Live owed base extra w) :
    wp (handleWrite closeCallback) (fun _ w' => Tally owed base extra false w')
      (Tally owed base extra false) w := by
  simp only [handleWrite, wp_bind, wp_world, wp_ite, wp_pure]
  rw [if_neg (by rw [h.isOpen]; exact Bool.false_ne_true)]
  refine wp_mono (writeBeforeFile_tally hcb h) ?_ fun _ ht => ht
  rintro ok₁ w₁ ⟨ht₁, hok₁⟩
  split
  · rename_i hyes₁
    refine wp_mono (writeFile_tally hcb (hok₁ hyes₁)) ?_ fun _ ht => ht
    rintro ok₂ w₂ ⟨ht₂, hok₂⟩
    split
    · rename_i hyes₂
      refine wp_mono (writeBehindFile_tally hcb (hok₂ hyes₂)) ?_ fun _ ht => ht
      rintro ok₃ w₃ ⟨ht₃, hok₃⟩
      split
      · rename_i hyes₃
        exact writeDone_tally (hok₃ hyes₃)
      · exact ht₃
    · exact ht₂
  · exact ht₁

theorem handleWrite_tally : Maintains (Tally owed base extra gentle) (handleWrite closeCallback) := by
  intro w h
  by_cases hopen : w.conn.closed = false
  · have hlive := h.isLive hopen
    obtain rfl := (h.live hopen).1
    exact handleWrite_live hcb hlive
  · rw [Bool.not_eq_false] at hopen
    simp only [handleWrite, wp_bind, wp_world, wp_ite, wp_pure]
    rw [if_pos hopen]
    exact h

theorem sendFile_tally (file : FileBody) :
    Maintains (Tally owed base extra gentle) (sendFile closeCallback file) := by
  intro w h
  simp only [sendFile, wp_bind, wp_world, wp_ite, wp_pure]
  split
  · exact h
  · rename_i hnot
    rw [not_or, Bool.not_eq_true] at hnot
    have hlive := h.isLive hnot.1
    obtain rfl := (h.live hnot.1).1
    split
    · refine wp_mono (live_of_keeps (copyFile_account file) w hlive) ?_ fun _ h' => h'.tally
      exact fun data w' h' => sendInLoop_tally hcb h' data
    · simp only [wp_update, enableWriting]
      exact handleWrite_live hcb (hlive.same rfl)

end

end TcpConnection

end

end Myself
