import MyselfServer.AsyncLogging

/-!
# The buffer of the logging front end

`append` uses `current_` without a look at it. The last section of the
background thread moves it away and puts nothing back: from then on it is null
until `flush` is called, and a thread that is started again takes the null
pointer for a full buffer.
-/

namespace Myself

open Text Machine

namespace AsyncLogging

structure FrontReady (s : AsyncLogging) : Prop where
  current : s.current.isSome = true
  crashed : s.crashed = false

structure NoNull (s : AsyncLogging) : Prop where
  front : s.FrontReady
  buffers : ∀ p ∈ s.buffers, p.isSome = true
  toWrite : ∀ p ∈ s.buffersToWrite, p.isSome = true

section
variable {s s' : AsyncLogging} {e : LogEvent} {es : List LogEvent}

theorem NoNull.same (h : s.NoNull) (hsame : (s'.current, s'.crashed, s'.buffers, s'.buffersToWrite) =
    (s.current, s.crashed, s.buffers, s.buffersToWrite)) : s'.NoNull := by
  simp only [Prod.mk.injEq] at hsame
  obtain ⟨hcurrent, hcrashed, hbuffers, htoWrite⟩ := hsame
  exact ⟨⟨hcurrent ▸ h.front.current, hcrashed.trans h.front.crashed⟩, hbuffers ▸ h.buffers, htoWrite ▸ h.toWrite⟩

theorem NoNull.append (h : s.NoNull) (data : Bytes) : (s.append data).NoNull := by
  obtain ⟨b, hb⟩ := Option.isSome_iff_exists.mp h.front.current
  simp only [AsyncLogging.append, hb]
  split
  · exact ⟨⟨rfl, h.front.crashed⟩, h.buffers, h.toWrite⟩
  · exact ⟨⟨rfl, h.front.crashed⟩, mem_concat_some h.buffers, h.toWrite⟩

theorem NoNull.flush (h : s.NoNull) : s.flush.NoNull := by
  obtain ⟨b, hb⟩ := Option.isSome_iff_exists.mp h.front.current
  simp only [AsyncLogging.flush, hb]
  split
  · exact ⟨⟨rfl, h.front.crashed⟩, mem_concat_some h.buffers, h.toWrite⟩
  · exact h

theorem NoNull.swapBuffers (h : s.NoNull) : s.swapBuffers.NoNull := by
  obtain ⟨b, hb⟩ := Option.isSome_iff_exists.mp h.front.current
  refine ⟨⟨rfl, h.front.crashed⟩, h.toWrite, ?_⟩
  simp only [AsyncLogging.swapBuffers, hb]
  exact mem_concat_some h.buffers

theorem NoNull.writeBuffer (h : s.NoNull) (k : Nat) : (s.writeBuffer k).NoNull := by
  unfold AsyncLogging.writeBuffer
  cases hget : s.buffersToWrite[k]? with
  | none => exact ⟨⟨h.front.current, h.front.crashed⟩, h.buffers, fun _ hp => absurd hp List.not_mem_nil⟩
  | some p =>
    obtain ⟨b, rfl⟩ := Option.isSome_iff_exists.mp (h.toWrite p (List.mem_of_getElem? hget))
    exact h.same rfl

/-- Every step but the final section puts a buffer back. -/
theorem noNull_step (h : s.NoNull) (he : e ≠ .drain) (hs : step s e = some s') : s'.NoNull := by
  cases e with
  | start =>
    simp only [step] at hs
    split at hs
    · cases hs
    split at hs
    · cases hs
      exact h
    · cases hs
      exact ⟨⟨h.front.current, h.front.crashed⟩, h.buffers, fun _ hp => absurd hp List.not_mem_nil⟩
  | stop =>
    simp only [step] at hs
    split at hs
    · cases hs
    split at hs
    · cases hs
      exact h.same rfl
    · cases hs
      exact h
  | join =>
    simp only [step] at hs
    split at hs
    · cases hs
      exact h.same rfl
    · cases hs
  | append data =>
    cases hs
    exact h.append data
  | flush =>
    cases hs
    exact h.flush
  | test =>
    simp only [step] at hs
    split at hs
    · cases hs
      exact h.same rfl
    · cases hs
  | lock =>
    simp only [step] at hs
    split at hs
    · split at hs
      · cases hs
        exact h.same rfl
      · cases hs
        exact h.swapBuffers
    · cases hs
  | wake timedOut =>
    simp only [step] at hs
    split at hs
    · split at hs
      · cases hs
        exact h
      · cases hs
        exact h.swapBuffers
    · cases hs
  | write =>
    simp only [step] at hs
    split at hs
    · rename_i k hk
      cases hs
      exact h.writeBuffer k
    · cases hs
  | drain => exact absurd rfl he

theorem noNull_init : NoNull {} :=
  ⟨⟨rfl, rfl⟩, fun _ hp => absurd hp List.not_mem_nil, fun _ hp => absurd hp List.not_mem_nil⟩

def AlwaysReady (es : List LogEvent) : Prop :=
  ∀ before after, es = before ++ after → ∀ s, run step {} before = some s → s.FrontReady

/-- **The front end has a buffer in every state of a run exactly when the
background thread does not run its final section.** -/
theorem always_ready_iff (hrun : run step {} es = some s) : AlwaysReady es ↔ .drain ∉ es := by
  constructor
  · intro hready hdrain
    obtain ⟨before, after, rfl⟩ := List.append_of_mem hdrain
    -- the state behind the final section
    rw [List.append_cons, run_append] at hrun
    obtain ⟨s₁, hs₁, -⟩ := Option.bind_eq_some_iff.mp hrun
    have hcurrent := (hready _ after (List.append_cons ..) s₁ hs₁).current
    rw [run_append] at hs₁
    obtain ⟨s₀, -, hlast⟩ := Option.bind_eq_some_iff.mp hs₁
    simp only [run, step] at hlast
    split at hlast
    · cases hlast
    · rename_i heq
      split at heq
      · cases heq
        cases hlast
        cases hcurrent
      · cases heq
  · rintro hdrain before after rfl s₁ hs₁
    have hnone : ∀ e ∈ before, e ≠ .drain := by
      rintro e he rfl
      exact hdrain (List.mem_append_left _ he)
    have hreached := Reached.of_run hs₁ (Meets.of_forall hnone)
    exact (hreached.invariant noNull_init fun _ _ _ hi hc hs => noNull_step hi hc hs).front

end

theorem always_ready_iff_flushed :
    AlwaysReady [.append (bytes "a"), .flush, .start, .test, .lock, .append (bytes "b")] := by
  have hrun : run step {} [.append (bytes "a"), .flush, .start, .test, .lock, .append (bytes "b")] =
      some _ := rfl
  refine (always_ready_iff hrun).mpr ?_
  simp

/-- A record after `stop`, and a thread that is started once more. -/
theorem no_buffer_after_stop :
    (run step {} [.start, .stop, .test, .drain, .join, .append (bytes "a")]).map
        AsyncLogging.crashed = some true ∧
      (run step {} [.start, .stop, .test, .drain, .join, .start, .test, .lock, .wake true,
        .write]).map AsyncLogging.crashed = some true ∧
      ¬ AlwaysReady [.start, .stop, .test, .drain, .join, .append (bytes "a")] := by
  refine ⟨rfl, rfl, fun hready => ?_⟩
  have hrun : run step {} [.start, .stop, .test, .drain, .join, .append (bytes "a")] = some _ := rfl
  have hcrashed := (hready _ [] (List.append_nil _).symm _ hrun).crashed
  cases hcrashed

end AsyncLogging

end Myself
