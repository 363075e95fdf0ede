import MyselfServer.Frames
import MyselfServer.HandleWrite

/-!
# handleRead

The reading side keeps the invariant of the write path under every kernel
(`Sound`), when the message callback does. The end of the stream is the one
point where the trace is in between: the connection is closed at once.
-/

namespace Myself

open Text Prog

section
variable {σ : Type} {files : Nat → Bytes} {w w' : World σ}

/-- The invariant with nothing assumed of the kernel. -/
def Sound (files : Nat → Bytes) (w : World σ) : Prop := Inv False files [] w

theorem Inv.sound {sent : Bytes} (h : Inv False files sent w) : Sound files w := by
  rcases h with h | h
  · exact Or.inl h
  · exact Or.inr { h with sent := ⟨fun hf => hf.elim, fun hf => hf.elim⟩ }

theorem Env.of_not {c : Prop} (hc : ¬ c) (hf : w.files = files) (ht : TraceOk w.trace) :
    Env c files w :=
  ⟨fun h => absurd h hc, fun h => absurd h hc, fun h => absurd h hc, hf, ht⟩

structure SameWriting (w w' : World σ) : Prop where
  conn : ∃ input seconds timer, w'.conn =
    { w.conn with input := input, idleTimeoutSeconds := seconds, idleTimer := timer }
  reactor : w'.reactor = w.reactor
  files : w'.files = w.files

theorem Rest.same (h : Rest False files [] w) (hs : SameWriting w w') (ht : TraceOk w'.trace) :
    Rest False files [] w' := by
  obtain ⟨input, seconds, timer, hconn⟩ := hs.conn
  have hshape := h.toMid.shape
  refine ⟨⟨⟨?_, ?_, ?_, ?_, ?_, ?_⟩,
    Env.of_not not_false (hs.files.trans h.toMid.env.files) ht,
    fun hf => hf.elim, fun hf => hf.elim⟩, ?_⟩
  · rw [hconn]; exact hshape.isOpen
  · rw [hconn]; exact hshape.socket
  · rw [hconn, hs.reactor]; exact hshape.attached
  · simp only [World.left, hconn]; exact hshape.armed
  · rw [hconn]; exact hshape.pre
  · rw [hconn]; exact hshape.noFile
  · simp only [World.left, hconn]; exact h.drained

theorem Sound.trace (h : Sound files w) : TraceOk w.trace := h.env.trace

theorem Sound.same (h : Sound files w) (hs : SameWriting w w') (ht : TraceOk w'.trace) :
    Sound files w' := by
  rcases h with h | h
  · obtain ⟨input, seconds, timer, hconn⟩ := hs.conn
    refine Or.inl ⟨Env.of_not not_false (hs.files.trans h.env.files) ht, ?_, ?_, h.failing⟩
    · rw [hconn]; exact h.isClosed
    · rw [hconn]; exact h.socket
  · exact Or.inr (h.same hs ht)

theorem Sound.of_eq (h : Sound files w) (hc : w'.conn = w.conn) (hr : w'.reactor = w.reactor)
    (hf : w'.files = w.files) (ht : w'.trace = w.trace) : Sound files w' :=
  h.same ⟨⟨_, _, _, hc⟩, hr, hf⟩ (ht ▸ h.trace)

/-! ## The end of the stream -/

theorem TraceOk.append_eof {trace : List Syscall} (h : TraceOk trace) (fd : Option Nat)
    (armed : Bool) : TraceOk (trace ++ [.read fd (some 0) armed] ++ [.close fd armed]) where
  shutdown fd' left hm := by
    simp only [List.mem_append, List.mem_singleton, reduceCtorEq, or_false] at hm
    exact h.shutdown fd' left hm
  eof before fd' armed' after heq := by
    rcases List.eq_nil_or_concat after with rfl | ⟨after₁, last, rfl⟩
    · have := (List.append_inj' heq rfl).2
      simp at this
    rw [List.concat_eq_append, ← List.cons_append, ← List.append_assoc] at heq
    have hfront := (List.append_inj' heq rfl).1
    have hlast := (List.append_inj' heq rfl).2
    simp only [List.cons.injEq, and_true] at hlast
    rcases List.eq_nil_or_concat after₁ with rfl | ⟨after₂, last₂, rfl⟩
    · -- the read is the one that was added
      have hread := (List.append_inj' hfront rfl).2
      simp only [List.cons.injEq, Syscall.read.injEq, true_and, and_true] at hread
      obtain ⟨rfl, rfl⟩ := hread
      exact ⟨[], by rw [← hlast]; rfl⟩
    · rw [List.concat_eq_append, ← List.cons_append, ← List.append_assoc] at hfront
      obtain ⟨rest, hrest⟩ := h.eof before fd' armed' after₂ (List.append_inj' hfront rfl).1
      refine ⟨rest ++ [last₂] ++ [last], ?_⟩
      rw [List.concat_eq_append, List.concat_eq_append, hrest]
      simp only [List.cons_append]

/-- The end of the stream was read, and nothing was done since. -/
structure AtEof (files : Nat → Bytes) (w : World σ) : Prop where
  isOpen : w.conn.closed = false
  files : w.files = files
  trace : ∃ trace, TraceOk trace ∧ w.trace = trace ++ [.read w.conn.socket.fd (some 0) w.left]

theorem Rest.armed_eq_left {c : Prop} {sent : Bytes} (h : Rest c files sent w) :
    w.armed = w.left := by
  rw [h.toMid.shape.armed_eq, Bool.eq_iff_iff]
  exact ⟨h.drained, h.toMid.shape.armed⟩

namespace TcpConnection

theorem readFd_spec (h : Sound files w) :
    wp readFd (fun a w' => match a with
        | .count 0 => AtEof files w'
        | _ => Sound files w')
      (Sound files) w := by
  have hlog : ∀ {v : World σ} {fd ret}, SameWriting w v → v.trace = w.trace → ret ≠ some 0 →
      Sound files (v.log (.read fd ret v.armed)) := by
    intro v fd ret hs ht hret
    refine h.same ⟨hs.conn, hs.reactor, hs.files⟩ ?_
    have hok : TraceOk v.trace := ht ▸ h.trace
    apply hok.append
    · exact fun _ _ h => nomatch h
    · intro fd' armed' heq
      cases heq
      exact hret rfl
  unfold wp readFd
  cases hfd : w.conn.socket.fd with
  | none => exact hlog ⟨⟨_, _, _, rfl⟩, rfl, rfl⟩ rfl (fun h => nomatch h)
  | some fd =>
    have hrest : Rest False files [] w := by
      rcases h with h | h
      · rw [h.socket] at hfd
        cases hfd
      · exact h
    cases hr : w.reads with
    | nil => exact h
    | cons a rest =>
      cases a with
      | data bytes =>
        cases bytes with
        | nil =>
          refine ⟨hrest.toMid.shape.isOpen, hrest.toMid.env.files, w.trace, hrest.toMid.env.trace, ?_⟩
          have hleft := hrest.armed_eq_left
          simp only [World.log, List.append_nil, List.length_nil, hfd]
          exact congrArg (fun a => w.trace ++ [.read (some fd) (some 0) a]) hleft
        | cons b bytes =>
          exact hlog (v := { w with
            reads := rest, conn := { w.conn with input := w.conn.input ++ (b :: bytes) } })
            ⟨⟨_, _, _, rfl⟩, rfl, rfl⟩ rfl (by simp)
      | again =>
        exact hlog (v := { w with reads := rest }) ⟨⟨_, _, _, rfl⟩, rfl, rfl⟩ rfl
          (fun h => nomatch h)
      | interrupted =>
        exact hlog (v := { w with reads := rest }) ⟨⟨_, _, _, rfl⟩, rfl, rfl⟩ rfl
          (fun h => nomatch h)
      | failed errno =>
        exact hlog (v := { w with reads := rest }) ⟨⟨_, _, _, rfl⟩, rfl, rfl⟩ rfl
          (fun h => nomatch h)

theorem refreshIdleTimer_same (w : World σ) : ∃ timers sequence timer, w.refreshIdleTimer =
    { w with timers := timers, sequence := sequence, conn := { w.conn with idleTimer := timer } } := by
  unfold World.refreshIdleTimer
  split
  · exact ⟨_, _, _, rfl⟩
  · obtain ⟨timers, timer, hcancel⟩ := cancelIdleTimer_same w
    rw [hcancel]
    exact ⟨_, _, _, rfl⟩

theorem refreshIdleTimer_sound : Maintains (Sound files) (update (World.refreshIdleTimer (σ := σ))) := by
  apply Maintains.update
  intro w h
  obtain ⟨timers, sequence, timer, heq⟩ := refreshIdleTimer_same w
  rw [heq]
  exact h.same ⟨⟨_, _, _, rfl⟩, rfl, rfl⟩ h.trace

theorem refreshAfter_sound (activity : Bool) :
    Maintains (Sound files) (refreshAfter activity : Prog (World σ) Unit) :=
  Maintains.ite refreshIdleTimer_sound (Maintains.pure _)

theorem refreshAfter_atEof (h : AtEof files w) (activity : Bool) {E : World σ → Prop} :
    wp (refreshAfter activity) (fun _ w' => AtEof files w') E w := by
  unfold refreshAfter
  split
  · obtain ⟨timers, sequence, timer, heq⟩ := refreshIdleTimer_same w
    rw [wp_update, heq]
    exact ⟨h.isOpen, h.files, h.trace⟩
  · exact h

section
variable {closeCallback messageCallback : Prog (World σ) Unit}
  (hcb : Keeps (fun w : World σ => (w.conn, w.files, w.trace)) closeCallback)
include hcb

theorem handleClose_sound : Maintains (Sound files) (handleClose closeCallback) := by
  rintro w (h | h)
  · simp only [handleClose, wp_bind, wp_world, wp_ite]
    rw [if_pos h.isClosed]
    exact Or.inl h
  · exact close_spec (fun _ => hcb) h.toMid.shape.isOpen h.toMid.env not_false

theorem handleError_sound : Maintains (Sound files) (handleError closeCallback) := by
  apply Maintains.update_bind
  · intro w h
    refine h.same ⟨⟨_, _, _, rfl⟩, rfl, rfl⟩ ?_
    exact h.trace.append (fun _ _ h => nomatch h) (fun _ _ h => nomatch h)
  · exact Maintains.update_bind (fun _ h => Sound.of_eq h rfl rfl rfl rfl) (handleClose_sound hcb)

/-- The close that the end of the stream brings has something left exactly
when `EPOLLOUT` was registered. -/
theorem handleClose_atEof (h : AtEof files w) :
    wp (handleClose closeCallback) (fun _ w' => Sound files w') (Sound files) w := by
  obtain ⟨trace, hok, htrace⟩ := h.trace
  refine handleClose_closes (fun _ => hcb) h.isOpen h.files not_false ?_
  rw [htrace]
  exact hok.append_eof _ _

/-- **Reading keeps the invariant.** -/
theorem handleRead_sound
    (hreads : ∀ w, wp messageCallback (fun _ w' => w'.reads = w.reads) (fun _ => True) w)
    (hm : Maintains (Sound files) messageCallback) :
    Maintains (Sound files) (handleRead closeCallback messageCallback) := by
  intro w h
  unfold handleRead
  rw [wp_bind]
  have hloop := wp_loop (readRound_decreases hreads)
    (I := fun _ w' => Sound files w') (E := Sound files)
    (Q := fun r w' => match r.2 with
      | .peerClosed => AtEof files w'
      | _ => Sound files w') ?_ false w h
  · refine wp_mono hloop ?_ (fun _ hi => hi)
    rintro ⟨activity, ending⟩ w₁ h₁
    cases ending with
    | again => exact refreshAfter_sound activity w₁ h₁
    | peerClosed =>
      rw [wp_bind]
      refine wp_mono (refreshAfter_atEof h₁ activity (E := fun _ => False)) ?_ (fun _ hf => hf.elim)
      exact fun _ w₂ h₂ => handleClose_atEof hcb h₂
    | failed =>
      rw [wp_bind, wp_update]
      exact handleError_sound hcb w₁.addErrors (Sound.of_eq h₁ rfl rfl rfl rfl)
  · intro activity w₁ h₁
    simp only [readRound, wp_bind]
    refine wp_mono (readFd_spec h₁) ?_ (fun _ hi => hi)
    intro a w₂ h₂
    cases a with
    | count n =>
      simp only [wp_ite, wp_bind, wp_update, wp_pure]
      cases n with
      | zero => exact h₂
      | succ n =>
        rw [if_pos (Nat.succ_pos n)]
        exact hm _ (Sound.of_eq h₂ rfl rfl rfl rfl)
    | again => exact h₂
    | interrupted => exact h₂
    | failed errno => exact h₂

end

end TcpConnection

end

end Myself
