import MyselfServer.EventLoop

/-!
# Stopping a loop

Two things that can go wrong when another thread calls `quit`. The store of
`loop` into `quit_` comes after the thread has given its pointer away, so a
`quit` in between is forgotten (`quit_kept`, `quit_lost`). And `loop` looks at
`quit_` behind the functors only, so what was queued after they were taken
over stays behind (`tasks_run`, `task_left`).
-/

namespace Myself

open Machine

variable {κ : Type}

namespace EventLoop

/-! ## The flag -/

def beforeLoop (s : EventLoop κ) : Bool :=
  match s.phase with
  | .constructed => true
  | .published => true
  | _ => false

def QuitReturned (s : EventLoop κ) (t : Nat) : Prop :=
  .quit t ∈ s.log ∧ s.clients t ≠ .quitting

/-- The loop does not go on with `quit_` equal to false after a `quit`. -/
def QuitKept (s : EventLoop κ) : Prop :=
  ∀ t, s.QuitReturned t → s.looping = true → s.quit = true

def QuitInLoop (s : EventLoop κ) : LoopEvent κ → Prop
  | .quit _ => s.beforeLoop = false
  | _ => True

structure Flagged (s : EventLoop κ) : Prop where
  before : s.beforeLoop = true → ∀ t, .quit t ∉ s.log
  kept : ∀ t, .quit t ∈ s.log → s.quit = true

theorem flagged_init (self : Nat) : (init self : EventLoop κ).Flagged where
  before _ _ := List.not_mem_nil
  kept _ h := absurd h List.not_mem_nil

/-- Steps that write no `quit` and leave the flag alone. -/
theorem Flagged.of_quiet {s s' : EventLoop κ} (h : s.Flagged)
    (hbefore : s'.beforeLoop = true → s.beforeLoop = true)
    (hlog : ∀ t, .quit t ∈ s'.log → .quit t ∈ s.log) (hquit : s.quit = true → s'.quit = true) :
    s'.Flagged where
  before hb t hin := h.before (hbefore hb) t (hlog t hin)
  kept t hin := hquit (h.kept t (hlog t hin))

theorem quit_mem_notes {log : List Rounds.Note} {task : Rounds.Task} {t : Nat}
    (h : .quit t ∈ log ++ task.notes) : .quit t ∈ log := by
  rcases List.mem_append.mp h with h | h
  · exact h
  · unfold Rounds.Task.notes at h
    split at h
    · cases h
    · cases List.mem_singleton.mp h

theorem queueOwn_same (s : EventLoop κ) (functor : Functor κ) : ∃ own,
    s.queueOwn functor = { s.push none functor with own := own } := by
  unfold queueOwn
  dsimp only
  split
  · exact ⟨_, rfl⟩
  · exact ⟨s.own, rfl⟩

theorem execute_same (s : EventLoop κ) (f : Posted κ) (rest : List (Posted κ)) :
    ∃ timerQueue inCall, s.execute f rest =
      { s with
        timerQueue := timerQueue
        phase := .running rest inCall
        log := s.log ++ [.executed f.ticket] } := by
  unfold execute
  cases f.functor with
  | timer task => exact ⟨_, _, rfl⟩
  | call => exact ⟨s.timerQueue, _, rfl⟩

theorem Flagged.loop {s s' : EventLoop κ} (h : s.Flagged) (hm : LoopMove s s') : s'.Flagged := by
  have later : ∀ v : EventLoop κ, v.beforeLoop = false → v.log = s.log → v.quit = s.quit →
      v.Flagged := by
    intro v hb hlog hquit
    refine h.of_quiet (fun hb' => ?_) (fun t hin => hlog ▸ hin) (fun hq => hquit.trans hq)
    exact absurd (hb.symm.trans hb') Bool.false_ne_true
  have noted : ∀ (v : EventLoop κ) (note : Rounds.Note), v.beforeLoop = false →
      v.log = s.log ++ [note] → (∀ t, note ≠ .quit t) → v.quit = s.quit → v.Flagged := by
    intro v note hb hlog hnote hquit
    refine h.of_quiet (fun hb' => ?_) (fun t hin => ?_) (fun hq => hquit.trans hq)
    · exact absurd (hb.symm.trans hb') Bool.false_ne_true
    · rw [hlog] at hin
      rcases List.mem_append.mp hin with hin | hin
      · exact hin
      · exact absurd (List.mem_singleton.mp hin).symm (hnote t)
  cases hm with
  | publish hp => exact h.of_quiet (fun _ => by rw [beforeLoop, hp]) (fun _ hin => hin) id
  | reset hp =>
    have hbefore : s.beforeLoop = true := by rw [beforeLoop, hp]
    exact ⟨fun hb => absurd hb Bool.false_ne_true, fun t hin => absurd hin (h.before hbefore t)⟩
  | finish hp hq => exact noted _ .returned rfl rfl (fun t ht => by cases ht) rfl
  | goOn hp hq => exact later _ rfl rfl rfl
  | wait now hp => exact later _ rfl rfl rfl
  | report at' ms hp hr => exact later _ rfl rfl rfl
  | wake at' ms hp => exact later _ rfl rfl rfl
  | read hp => exact h.of_quiet (fun hb => hb) (fun _ hin => hin) id
  | drained hp hz => exact later _ rfl rfl rfl
  | expire now hp => exact later _ rfl rfl rfl
  | runTimer now timer rest inCall hp => exact later _ rfl rfl rfl
  | callPendingFunctors now inCall hp => exact later _ rfl rfl rfl
  | swap hp => exact later _ rfl rfl rfl
  | execute f rest inCall hp =>
    obtain ⟨timerQueue, inCall', heq⟩ := execute_same s f rest
    rw [heq]
    exact noted _ (.executed f.ticket) rfl rfl (fun t ht => by cases ht) rfl
  | endFunctors inCall hp => exact later _ rfl rfl rfl
  | destroy hp => exact later _ rfl rfl rfl

theorem flagged_step {s s' : EventLoop κ} {e : LoopEvent κ} (h : s.Flagged)
    (hc : s.QuitInLoop e) (hs : step s e = some s') : s'.Flagged := by
  cases step_move hs with
  | loop s' ho hm => exact h.loop hm
  | ownQueue functor he ho hcall =>
    obtain ⟨own, heq⟩ := queueOwn_same s functor
    rw [heq]
    exact h.of_quiet (fun hb => hb) (fun _ hin => quit_mem_notes hin) id
  | ownTimer tasks n ho hcall => exact h.of_quiet (fun hb => hb) (fun _ hin => hin) id
  | ownQuit ho hcall => exact h.of_quiet (fun hb => hb) (fun _ hin => hin) fun _ => rfl
  | ownWakeup ho =>
    obtain ⟨eventfd, ready, heq⟩ := writeWakeup_same s
    rw [heq]
    exact h.of_quiet (fun hb => hb) (fun _ hin => hin) id
  | queue t functor n hshared hidle =>
    exact h.of_quiet (fun hb => hb) (fun u hin => quit_mem_notes hin) id
  | cancelNothing n => exact h.of_quiet (fun hb => hb) (fun _ hin => hin) id
  | quit t he hshared hidle =>
    subst he
    have hlooping : s.beforeLoop = false := hc
    exact ⟨fun hb => absurd (hlooping.symm.trans hb) Bool.false_ne_true, fun _ _ => rfl⟩
  | wakeup t hidle =>
    obtain ⟨eventfd, ready, heq⟩ := writeWakeup_same s
    rw [heq]
    exact h.of_quiet (fun hb => hb) (fun _ hin => hin) id

/-- **A `quit` behind the store of `loop` is kept.** -/
theorem quit_kept (self : Nat) {s : EventLoop κ} (h : Reached step QuitInLoop (init self) s) :
    s.QuitKept := by
  have hflagged : s.Flagged :=
    h.invariant (flagged_init self) fun _ _ _ hi hc hs => flagged_step hi hc hs
  exact fun t ht _ => hflagged.kept t ht.1

instance (s : EventLoop κ) (e : LoopEvent κ) : Decidable (QuitInLoop s e) :=
  match e with
  | .quit _ => inferInstanceAs (Decidable (_ = false))
  | .publish | .reset | .test | .nextTimeoutMs _ | .epollReturn _ | .readWakeup
  | .handleExpiredTimers _ | .runTimer | .callPendingFunctors | .swap | .runFunctor
  | .endFunctors | .destroy | .ownQueue _ | .ownWakeup | .ownTimer _ | .ownQuit | .queue _ _
  | .timer _ _ | .wakeup _ => inferInstanceAs (Decidable True)

/-- The loop is quit while it waits. -/
theorem quit_kept_waiting :
    ∃ s : EventLoop Unit, Reached step QuitInLoop (init 0) s ∧ s.QuitReturned 1 ∧
      s.looping = true ∧ s.quit = true := by
  have hrun : runIf step QuitInLoop (init 0 : EventLoop Unit)
      [.publish, .reset, .test, .nextTimeoutMs 0, .quit 1, .wakeup 1] = some _ := rfl
  have h := Reached.of_runIf hrun
  refine ⟨_, h, ⟨List.mem_singleton.mpr rfl, by decide⟩, rfl, ?_⟩
  exact quit_kept 0 h 1 ⟨List.mem_singleton.mpr rfl, by decide⟩ rfl

/-- `quit` comes back before `loop` stores into `quit_`: the thread takes the
wake-up for one without a cause and waits for ever. -/
theorem quit_lost :
    ∃ s : EventLoop Unit, Reached step Any (init 0) s ∧ s.phase = .waiting 0 (-1) ∧
      s.eventfd = 0 ∧ ¬ s.QuitKept := by
  have hrun : run step (init 0 : EventLoop Unit)
      [.publish, .quit 1, .wakeup 1, .reset, .test, .nextTimeoutMs 0, .epollReturn true,
        .readWakeup, .readWakeup, .handleExpiredTimers 0, .callPendingFunctors, .swap,
        .endFunctors, .test, .nextTimeoutMs 0] = some _ := rfl
  refine ⟨_, Reached.of_run_any hrun, rfl, rfl, ?_⟩
  intro hkept
  have hquit := hkept 1 ⟨List.mem_singleton.mpr rfl, by decide⟩ rfl
  exact Bool.false_ne_true hquit

/-! ## The tasks -/

def swapAhead (s : EventLoop κ) : Bool :=
  match s.phase with
  | .computing => true
  | .waiting _ _ => true
  | .dispatching _ => true
  | .expiring _ _ _ => true
  | .swapping => true
  | _ => false

def rounds (s : EventLoop κ) : Rounds.State where
  pending := s.pendingFunctors.map Posted.toTask
  running := match s.phase with
    | .running functors _ => functors.map Posted.toTask
    | _ => []
  ahead := s.swapAhead
  ended := match s.phase with
    | .returned => true
    | .destroyed => true
    | _ => false
  log := s.log

/-- A thread that calls `quit` has nothing in the list, or the list is taken
over once more before `quit_` is looked at. -/
def QuitSafe (s : EventLoop κ) : LoopEvent κ → Prop
  | .quit t => s.rounds.Safe t
  | _ => True

theorem loop_rounds {s s' : EventLoop κ} (hm : LoopMove s s') :
    s'.rounds = s.rounds ∨ Rounds.Step s.rounds s'.rounds := by
  have same : ∀ phase : LoopPhase κ, s.phase = phase → s.rounds = { s with phase := phase }.rounds := by
    intro phase hp
    rw [← hp]
  cases hm with
  | publish hp => exact Or.inl (same _ hp).symm
  | reset hp => exact Or.inl (same _ hp).symm
  | finish hp hq =>
    rw [same _ hp]
    exact Or.inr (.finish _ rfl rfl rfl)
  | goOn hp hq =>
    rw [same _ hp]
    exact Or.inr (.goOn _ rfl)
  | wait now hp => exact Or.inl (same _ hp).symm
  | report at' ms hp hr => exact Or.inl (same _ hp).symm
  | wake at' ms hp => exact Or.inl (same _ hp).symm
  | read hp => exact Or.inl rfl
  | drained hp hz => exact Or.inl (same _ hp).symm
  | expire now hp => exact Or.inl (same _ hp).symm
  | runTimer now timer rest inCall hp => exact Or.inl (same _ hp).symm
  | callPendingFunctors now inCall hp => exact Or.inl (same _ hp).symm
  | swap hp =>
    rw [same _ hp]
    exact Or.inr (.takeOver _ rfl rfl)
  | execute f rest inCall hp =>
    obtain ⟨timerQueue, inCall', heq⟩ := execute_same s f rest
    rw [same _ hp, heq]
    exact Or.inr (.execute _ f.toTask (rest.map Posted.toTask) rfl)
  | endFunctors inCall hp => exact Or.inl (same _ hp).symm
  | destroy hp => exact Or.inl (same _ hp).symm

theorem push_rounds (s : EventLoop κ) (thread : Option Nat) (functor : Functor κ) :
    Rounds.Step s.rounds (s.push thread functor).rounds := by
  have hstep := Rounds.Step.post s.rounds ⟨s.tickets, thread⟩
  have hpending : s.rounds.pending ++ [⟨s.tickets, thread⟩] =
      (s.push thread functor).rounds.pending := by
    simp only [rounds, push, List.map_append, List.map_cons, List.map_nil]
  rw [hpending] at hstep
  exact hstep

theorem step_rounds {s s' : EventLoop κ} {e : LoopEvent κ} (hc : s.QuitSafe e)
    (hs : step s e = some s') : s'.rounds = s.rounds ∨ Rounds.Step s.rounds s'.rounds := by
  cases step_move hs with
  | loop s' ho hm => exact loop_rounds hm
  | ownQueue functor he ho hcall =>
    obtain ⟨own, heq⟩ := queueOwn_same s functor
    rw [heq]
    exact Or.inr (push_rounds s none functor)
  | ownTimer tasks n ho hcall => exact Or.inl rfl
  | ownQuit ho hcall => exact Or.inl rfl
  | ownWakeup ho =>
    obtain ⟨eventfd, ready, heq⟩ := writeWakeup_same s
    rw [heq]
    exact Or.inl rfl
  | queue t functor n hshared hidle =>
    exact Or.inr (push_rounds { s with nextTimerSequence := n } (some t) functor)
  | cancelNothing n => exact Or.inl rfl
  | quit t he hshared hidle =>
    subst he
    exact Or.inr (.quit s.rounds t hc)
  | wakeup t hidle =>
    obtain ⟨eventfd, ready, heq⟩ := writeWakeup_same s
    rw [heq]
    exact Or.inl rfl

theorem reached_rounds (self : Nat) {s : EventLoop κ} (h : Reached step QuitSafe (init self) s) :
    Rounds.Reached s.rounds := by
  refine h.invariant (I := fun s => Rounds.Reached s.rounds) .refl ?_
  intro s e s' hi hc hs
  rcases step_rounds hc hs with heq | hstep
  · rw [heq]
    exact hi
  · exact hi.tail hstep

/-- **What a thread queued before its `quit` is run**, in the runs whose calls
of `quit` are safe for the thread that makes them. -/
theorem tasks_run (self : Nat) {s : EventLoop κ} (h : Reached step QuitSafe (init self) s) :
    Rounds.TasksRun s.log := Rounds.reached_tasksRun (reached_rounds self h)

instance (s : EventLoop κ) (e : LoopEvent κ) : Decidable (QuitSafe s e) :=
  match e with
  | .quit _ => inferInstanceAs (Decidable (_ ∨ _))
  | .publish | .reset | .test | .nextTimeoutMs _ | .epollReturn _ | .readWakeup
  | .handleExpiredTimers _ | .runTimer | .callPendingFunctors | .swap | .runFunctor
  | .endFunctors | .destroy | .ownQueue _ | .ownWakeup | .ownTimer _ | .ownQuit | .queue _ _
  | .timer _ _ | .wakeup _ => inferInstanceAs (Decidable True)

/-- A thread queues a task and quits while the loop waits. -/
theorem tasks_run_waiting :
    ∃ s : EventLoop Unit, Reached step QuitSafe (init 0) s ∧ .returned ∈ s.log ∧
      Rounds.Promised s.log 1 0 ∧ Rounds.ExecutedInTime s.log 0 := by
  have hrun : runIf step QuitSafe (init 0 : EventLoop Unit)
      [.publish, .reset, .test, .nextTimeoutMs 0, .queue 1 .call, .wakeup 1, .quit 1, .wakeup 1,
        .epollReturn true, .readWakeup, .readWakeup, .handleExpiredTimers 0,
        .callPendingFunctors, .swap, .runFunctor, .endFunctors, .test] = some _ := rfl
  have h := Reached.of_runIf hrun
  have hpromised : Rounds.Promised [.posted 1 0, .quit 1, .executed 0, .returned] 1 0 :=
    ⟨[.posted 1 0], [.executed 0, .returned], rfl, by decide⟩
  have hover : Rounds.Note.returned ∈
      [Rounds.Note.posted 1 0, .quit 1, .executed 0, .returned] := by decide
  exact ⟨_, h, hover, hpromised, tasks_run 0 h hover 1 0 hpromised⟩

/-- A thread queues a task and quits when the functors of the round have been
taken over: the loop returns and leaves the task behind. -/
theorem task_left :
    ∃ s : EventLoop Unit, Reached step Any (init 0) s ∧ s.phase = .returned ∧
      ¬ Rounds.TasksRun s.log := by
  have hrun : run step (init 0 : EventLoop Unit)
      [.publish, .reset, .test, .nextTimeoutMs 0, .epollReturn false, .handleExpiredTimers 0,
        .callPendingFunctors, .swap, .queue 1 .call, .wakeup 1, .quit 1, .wakeup 1, .endFunctors,
        .test] = some _ := rfl
  refine ⟨_, Reached.of_run_any hrun, rfl, ?_⟩
  intro hall
  have hin := hall (List.mem_of_getElem? (i := 2) rfl) 1 0 ⟨[.posted 1 0], [.returned], rfl, by decide⟩
  exact absurd hin (by unfold Rounds.ExecutedInTime; decide)

end EventLoop

end Myself
