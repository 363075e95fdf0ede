import MyselfServer.EventLoop

/-!
# No lost wake-up

While the loop thread waits in `epoll_wait`, nothing is queued without a
write of the eventfd that epoll has still to report, or a thread that is
about to make one; and the wait ends no later than the first timer is due.
Between the wait and the next `swap` nothing has to be said: the list is
taken over before the thread waits again.
-/

namespace Myself

open Machine

variable {κ : Type}

/-! ## The timeout -/

def TimerQueue.Sorted (q : TimerQueue κ) : Prop := q.entries.Pairwise fun x y => x.when ≤ y.when

theorem sorted_insertEntry {e : Entry κ} {xs : List (Entry κ)}
    (h : xs.Pairwise fun x y => x.when ≤ y.when) :
    (insertEntry e xs).Pairwise fun x y => x.when ≤ y.when := by
  induction xs with
  | nil => exact List.pairwise_singleton _ _
  | cons x xs ih =>
    obtain ⟨hx, hxs⟩ := List.pairwise_cons.mp h
    simp only [insertEntry]
    split
    · rename_i hlt
      have hle : e.when ≤ x.when := by
        simp only [EntryCompare] at hlt
        split at hlt
        · exact le_of_lt (of_decide_eq_true hlt)
        · rename_i heq
          exact le_of_eq (not_not.mp heq)
      refine List.pairwise_cons.mpr ⟨?_, h⟩
      intro y hy
      rcases List.mem_cons.mp hy with rfl | hy
      · exact hle
      · exact le_trans hle (hx y hy)
    · split
      · rename_i hgt
        have hle : x.when ≤ e.when := by
          simp only [EntryCompare] at hgt
          split at hgt
          · exact le_of_lt (of_decide_eq_true hgt)
          · rename_i heq
            exact le_of_eq (not_not.mp heq)
        refine List.pairwise_cons.mpr ⟨?_, ih hxs⟩
        intro y hy
        rcases mem_insertEntry hy with rfl | hy
        · exact hle
        · exact hx y hy
      · exact h

namespace TimerQueue

theorem Sorted.insertInLoop {q : TimerQueue κ} (h : q.Sorted) (timer : Timer κ) :
    (q.insertInLoop timer).Sorted := sorted_insertEntry h

theorem Sorted.cancelInLoop {q : TimerQueue κ} (h : q.Sorted) (timerId : TimerId) :
    (q.cancelInLoop timerId).Sorted := by
  unfold TimerQueue.cancelInLoop
  split
  · exact h
  · split
    · exact h
    · exact List.Pairwise.filter _ h

theorem Sorted.perform {q : TimerQueue κ} (h : q.Sorted) (task : TimerTask κ) :
    (q.perform task).Sorted := by
  cases task with
  | insertInLoop timer => exact h.insertInLoop timer
  | cancelInLoop timerId => exact h.cancelInLoop timerId

theorem Sorted.performAll {q : TimerQueue κ} (h : q.Sorted)
    (tasks : List (TimerTask κ)) : (tasks.foldl TimerQueue.perform q).Sorted := by
  induction tasks generalizing q with
  | nil => exact h
  | cons task tasks ih => exact ih (h.perform task)

theorem Sorted.takeExpired {q : TimerQueue κ} (h : q.Sorted) (currentTime : Timestamp) :
    Sorted { q with entries := (TimerQueue.takeExpired currentTime q.entries).2 } := by
  obtain ⟨due, heq, -, -⟩ := takeExpired_split currentTime q.entries
  have hsuffix : (TimerQueue.takeExpired currentTime q.entries).2 <:+ q.entries := ⟨due, heq.symm⟩
  exact h.sublist hsuffix.sublist

theorem Sorted.beforeRun {q : TimerQueue κ} (h : q.Sorted) (currentTime : Timestamp)
    (timer : Timer κ) : (q.beforeRun currentTime timer).Sorted := by
  unfold TimerQueue.beforeRun
  split
  · exact h.insertInLoop _
  · exact h

/-- The wait is for ever if there is no timer, and else no longer than any of
them has left, in nanoseconds. -/
structure FitsWait (q : TimerQueue κ) (computedAt : Timestamp) (waitMs : Int) : Prop where
  forever : waitMs < 0 → q.entries = []
  notLate : q.entries ≠ [] →
    ∀ e ∈ q.entries, waitMs * 1000000 ≤ max 0 (e.when - computedAt)

theorem msUntil_le (now when : Timestamp) : msUntil now when * 1000000 ≤ max 0 (when - now) := by
  unfold msUntil
  split
  · simp
  · rename_i h
    have hpos : 0 ≤ when - now := sub_nonneg.mpr (le_of_lt (not_le.mp h))
    have hdiv : (when - now).tdiv 1000000 * 1000000 ≤ when - now := by
      rw [Int.tdiv_eq_ediv_of_nonneg hpos]
      exact Int.ediv_mul_le _ (by decide)
    exact le_trans hdiv (le_max_right _ _)

theorem nextTimeoutMs_fits {q : TimerQueue κ} (h : q.Sorted) (now : Timestamp) :
    q.FitsWait now (q.nextTimeoutMs now) := by
  cases hq : q.entries with
  | nil => exact ⟨fun _ => hq, fun hne => absurd hq hne⟩
  | cons e es =>
    have hms : q.nextTimeoutMs now =
        if msUntil now e.when ≤ 0 then 0 else min (msUntil now e.when) kMaxTimeoutMs := by
      simp only [nextTimeoutMs, hq]
    have hnonneg : 0 ≤ q.nextTimeoutMs now := by
      rw [hms]
      split
      · exact le_refl 0
      · rename_i hpos
        exact le_min (le_of_lt (not_le.mp hpos)) (by decide)
    have hfirst : q.nextTimeoutMs now * 1000000 ≤ max 0 (e.when - now) := by
      rw [hms]
      split
      · simp
      · have hmin := min_le_left (msUntil now e.when) kMaxTimeoutMs
        exact le_trans (by omega) (msUntil_le now e.when)
    refine ⟨fun hneg => absurd hnonneg (not_le.mpr hneg), fun _ x hx => ?_⟩
    have hle : e.when ≤ x.when := by
      rw [hq] at hx
      have hsorted := List.pairwise_cons.mp (hq ▸ h : (e :: es).Pairwise fun x y => x.when ≤ y.when)
      rcases List.mem_cons.mp hx with rfl | hx
      · exact le_refl _
      · exact hsorted.1 x hx
    exact le_trans hfirst (max_le_max_left 0 (sub_le_sub_right hle _))

end TimerQueue

namespace EventLoop

/-! ## The eventfd -/

def swapNext (s : EventLoop κ) : Bool :=
  match s.phase with
  | .dispatching _ => true
  | .expiring _ _ _ => true
  | .swapping => true
  | _ => false

def inFunctors (s : EventLoop κ) : Bool :=
  match s.phase with
  | .swapping => true
  | .running _ _ => true
  | _ => false

/-- While the thread waits: what is queued was announced, or is about to be,
and the timeout fits the timers. -/
structure Awake (s : EventLoop κ) : Prop where
  announced : ∀ computedAt waitMs, s.phase = .waiting computedAt waitMs →
    s.pendingFunctors = [] ∨ 0 < s.eventfd ∧ s.ready = true ∨ ∃ t, s.clients t = .queueing
  timeout : ∀ computedAt waitMs, s.phase = .waiting computedAt waitMs →
    s.timerQueue.FitsWait computedAt waitMs

def OwnCallsInLoop (s : EventLoop κ) : LoopEvent κ → Prop
  | .ownQueue _ => s.looping = true
  | _ => True

structure Alert (s : EventLoop κ) : Prop where
  edge : 0 < s.eventfd → s.ready = true ∨ s.phase = .dispatching true
  pending : s.pendingFunctors ≠ [] → s.swapNext = true ∨ 0 < s.eventfd ∨
    (∃ t, s.clients t = .queueing) ∨ s.own = .queueing
  calling : s.callingPendingFunctors = s.inFunctors
  own : s.own ≠ .idle → s.inFunctors = true
  sorted : s.timerQueue.Sorted
  timeout : ∀ computedAt waitMs, s.phase = .waiting computedAt waitMs →
    s.timerQueue.FitsWait computedAt waitMs

theorem alert_init (self : Nat) : (init self : EventLoop κ).Alert where
  edge h := absurd h (lt_irrefl 0)
  pending h := absurd rfl h
  calling := rfl
  own h := absurd rfl h
  sorted := List.Pairwise.nil
  timeout _ _ h := by cases h

theorem Alert.awake {s : EventLoop κ} (h : s.Alert) : s.Awake := by
  refine ⟨fun at' ms hp => ?_, h.timeout⟩
  by_cases hempty : s.pendingFunctors = []
  · exact Or.inl hempty
  rcases h.pending hempty with hnext | hfd | hclient | hown
  · rw [swapNext, hp] at hnext
    cases hnext
  · refine Or.inr (Or.inl ⟨hfd, ?_⟩)
    rcases h.edge hfd with hr | hd
    · exact hr
    · rw [hp] at hd
      cases hd
  · exact Or.inr (Or.inr hclient)
  · have hin := h.own (by rw [hown]; decide)
    rw [inFunctors, hp] at hin
    cases hin

/-- A write of the eventfd, or one that finds it full. -/
theorem writeWakeup_edge (s : EventLoop κ) (h : 0 < s.eventfd → s.ready = true ∨
    s.phase = .dispatching true) : 0 < s.writeWakeup.eventfd ∧
    (s.writeWakeup.ready = true ∨ s.phase = .dispatching true) := by
  unfold writeWakeup
  split
  · exact ⟨Nat.succ_pos _, Or.inl rfl⟩
  · rename_i hfull
    have hpos : 0 < s.eventfd := by
      have : 0 < EVENTFD_MAX := by decide
      omega
    exact ⟨hpos, h hpos⟩

def work (s : EventLoop κ) : Nat × Bool × List (Posted κ) × (Nat → Client) × Client :=
  (s.eventfd, s.ready, s.pendingFunctors, s.clients, s.own)

/-- A move of the loop thread that leaves the queue of functors and the eventfd alone. -/
theorem Alert.of_same {s v : EventLoop κ} (h : s.Alert) (hwork : v.work = s.work)
    (hedge : s.phase = .dispatching true → v.phase = .dispatching true)
    (hnext : s.swapNext = true → v.swapNext = true)
    (hcalling : v.callingPendingFunctors = v.inFunctors)
    (hown : s.own ≠ .idle → v.inFunctors = true) (hsorted : v.timerQueue.Sorted)
    (hwait : ∀ computedAt waitMs, v.phase = .waiting computedAt waitMs →
      v.timerQueue.FitsWait computedAt waitMs) : v.Alert := by
  simp only [work, Prod.mk.injEq] at hwork
  obtain ⟨hfd, hready, hpending, hclients, ho⟩ := hwork
  refine ⟨?_, ?_, hcalling, ?_, hsorted, hwait⟩
  · rw [hfd, hready]
    exact fun hpos => (h.edge hpos).imp_right hedge
  · rw [hpending, hfd, hclients, ho]
    exact fun hne => (h.pending hne).imp_left hnext
  · rw [ho]
    exact hown

theorem Alert.loop {s s' : EventLoop κ} (h : s.Alert) (ho : s.own = .idle) (hm : LoopMove s s') :
    s'.Alert := by
  have hown : ∀ v : EventLoop κ, s.own ≠ .idle → v.inFunctors = true := fun _ hne => absurd ho hne
  have calling : ∀ (phase : LoopPhase κ) (b : Bool), s.phase = phase →
      { s with phase := phase }.inFunctors = b → s.callingPendingFunctors = b := by
    intro phase b hp hb
    rw [h.calling, inFunctors, hp]
    exact hb
  have next : ∀ phase : LoopPhase κ, s.phase = phase → { s with phase := phase }.swapNext = false →
      ∀ b : Bool, s.swapNext = true → b = true := by
    intro phase hp hb b ht
    rw [swapNext, hp] at ht
    exact absurd (hb.symm.trans ht) Bool.false_ne_true
  have edge : ∀ phase phase' : LoopPhase κ, s.phase = phase → phase ≠ .dispatching true →
      s.phase = .dispatching true → phase' = .dispatching true := by
    intro phase phase' hp hne hd
    exact absurd (hp.symm.trans hd) hne
  cases hm with
  | publish hp =>
    exact h.of_same rfl (edge _ _ hp (by simp)) (next _ hp rfl _) (calling _ _ hp rfl) (hown _) h.sorted
      (fun _ _ hw => by cases hw)
  | reset hp =>
    exact h.of_same rfl (edge _ _ hp (by simp)) (next _ hp rfl _) (calling _ _ hp rfl) (hown _) h.sorted
      (fun _ _ hw => by cases hw)
  | finish hp hq =>
    exact h.of_same rfl (edge _ _ hp (by simp)) (next _ hp rfl _) (calling _ _ hp rfl) (hown _) h.sorted
      (fun _ _ hw => by cases hw)
  | goOn hp hq =>
    exact h.of_same rfl (edge _ _ hp (by simp)) (next _ hp rfl _) (calling _ _ hp rfl) (hown _) h.sorted
      (fun _ _ hw => by cases hw)
  | wait now hp =>
    refine h.of_same rfl (edge _ _ hp (by simp)) (next _ hp rfl _) (calling _ _ hp rfl) (hown _) h.sorted ?_
    intro at' ms hw
    cases hw
    exact TimerQueue.nextTimeoutMs_fits h.sorted now
  | report at' ms hp hr =>
    exact ⟨fun _ => Or.inr rfl, fun _ => Or.inl rfl, calling _ _ hp rfl, hown _, h.sorted,
      (fun _ _ hw => by cases hw)⟩
  | wake at' ms hp =>
    exact h.of_same rfl (edge _ _ hp (by simp)) (fun _ => rfl) (calling _ _ hp rfl) (hown _) h.sorted
      (fun _ _ hw => by cases hw)
  | read hp =>
    refine ⟨fun hpos => absurd hpos (lt_irrefl 0), fun _ => Or.inl ?_, h.calling, hown _,
      h.sorted, h.timeout⟩
    rw [swapNext, hp]
  | drained hp hz =>
    refine ⟨fun hpos => absurd hpos ?_, fun _ => Or.inl rfl, calling _ _ hp rfl, hown _, h.sorted,
      (fun _ _ hw => by cases hw)⟩
    show ¬ 0 < s.eventfd
    omega
  | expire now hp =>
    exact h.of_same rfl (edge _ _ hp (by simp)) (fun _ => rfl) (calling _ _ hp rfl) (hown _)
      (h.sorted.takeExpired now) (fun _ _ hw => by cases hw)
  | runTimer now timer rest inCall hp =>
    exact h.of_same rfl (edge _ _ hp (by simp)) (fun _ => rfl) (calling _ _ hp rfl) (hown _)
      (h.sorted.beforeRun now timer) (fun _ _ hw => by cases hw)
  | callPendingFunctors now inCall hp =>
    exact h.of_same rfl (edge _ _ hp (by simp)) (fun _ => rfl) rfl (hown _) h.sorted
      (fun _ _ hw => by cases hw)
  | swap hp =>
    refine ⟨fun hpos => ?_, fun hne => absurd rfl hne, calling _ _ hp rfl, hown _, h.sorted,
      (fun _ _ hw => by cases hw)⟩
    exact (h.edge hpos).imp_right (edge _ _ hp (by simp))
  | execute f rest inCall hp =>
    have hsorted : ∀ task : TimerTask κ, (s.timerQueue.perform task).Sorted := h.sorted.perform
    unfold execute
    cases f.functor with
    | timer task =>
      exact h.of_same rfl (edge _ _ hp (by simp)) (next _ hp rfl _) (calling _ _ hp rfl) (hown _)
        (hsorted task) (fun _ _ hw => by cases hw)
    | call =>
      exact h.of_same rfl (edge _ _ hp (by simp)) (next _ hp rfl _) (calling _ _ hp rfl) (hown _)
        h.sorted (fun _ _ hw => by cases hw)
  | endFunctors inCall hp =>
    exact h.of_same rfl (edge _ _ hp (by simp)) (next _ hp rfl _) rfl (hown _) h.sorted
      (fun _ _ hw => by cases hw)
  | destroy hp =>
    exact h.of_same rfl (edge _ _ hp (by simp)) (next _ hp rfl _) (calling _ _ hp rfl) (hown _) h.sorted
      (fun _ _ hw => by cases hw)

/-- A callback outside of the functors runs ahead of the next `swap`. -/
theorem swapNext_of_callback {s : EventLoop κ} (hloop : s.looping = true)
    (hcall : s.inCallback = true) (hout : s.inFunctors = false) : s.swapNext = true := by
  unfold looping at hloop
  unfold inCallback at hcall
  unfold inFunctors at hout
  unfold swapNext
  cases hp : s.phase <;> simp_all

theorem Alert.queueOwn {s : EventLoop κ} (h : s.Alert) (functor : Functor κ)
    (hloop : s.looping = true) (hcall : s.inCallback = true) (ho : s.own = .idle) :
    (s.queueOwn functor).Alert := by
  by_cases hin : s.callingPendingFunctors = true
  · have heq : s.queueOwn functor = { s.push none functor with own := .queueing } := by
      unfold EventLoop.queueOwn
      exact if_pos hin
    rw [heq]
    exact ⟨h.edge, fun _ => Or.inr (Or.inr (Or.inr rfl)), h.calling, fun _ => h.calling ▸ hin,
      h.sorted, h.timeout⟩
  · have heq : s.queueOwn functor = s.push none functor := by
      unfold EventLoop.queueOwn
      exact if_neg hin
    have hout : s.inFunctors = false := by
      rw [← h.calling]
      simpa using hin
    rw [heq]
    exact ⟨h.edge, fun _ => Or.inl (swapNext_of_callback hloop hcall hout), h.calling,
      fun hne => absurd ho hne, h.sorted, h.timeout⟩

theorem not_waiting_of_callback {s : EventLoop κ} (hcall : s.inCallback = true)
    {computedAt : Timestamp} {waitMs : Int} : s.phase ≠ .waiting computedAt waitMs := by
  intro hp
  rw [inCallback, hp] at hcall
  cases hcall

theorem writeWakeup_own (s : EventLoop κ) : s.writeWakeup.own = s.own := by
  obtain ⟨eventfd, ready, heq⟩ := writeWakeup_same s
  rw [heq]

/-- A thread makes the wake-up it owes. -/
theorem Alert.wakeup {s : EventLoop κ} (h : s.Alert) (clients : Nat → Client) (own : Client)
    (hown : own ≠ .idle → s.own ≠ .idle) :
    Alert { s.writeWakeup with clients := clients, own := own } := by
  have hedge := writeWakeup_edge s h.edge
  obtain ⟨eventfd, ready, heq⟩ := writeWakeup_same s
  rw [heq] at hedge ⊢
  exact ⟨fun _ => hedge.2, fun _ => Or.inr (Or.inl hedge.1), h.calling, fun hne => h.own (hown hne),
    h.sorted, h.timeout⟩

theorem alert_step {s s' : EventLoop κ} {e : LoopEvent κ} (h : s.Alert) (hc : s.OwnCallsInLoop e)
    (hs : step s e = some s') : s'.Alert := by
  cases step_move hs with
  | loop s' ho hm => exact h.loop ho hm
  | ownQueue functor he ho hcall =>
    subst he
    exact h.queueOwn functor hc hcall ho
  | ownTimer tasks n ho hcall =>
    exact h.of_same rfl id id h.calling h.own (h.sorted.performAll tasks)
      fun _ _ hp => absurd hp (not_waiting_of_callback hcall)
  | ownQuit ho hcall => exact h.of_same rfl id id h.calling h.own h.sorted h.timeout
  | ownWakeup ho => exact h.wakeup _ _ fun hne => absurd rfl hne
  | queue t functor n hshared hidle =>
    exact ⟨h.edge, fun _ => Or.inr (Or.inr (Or.inl ⟨t, setClient_self _ _ _⟩)), h.calling, h.own,
      h.sorted, h.timeout⟩
  | cancelNothing n => exact h.of_same rfl id id h.calling h.own h.sorted h.timeout
  | quit t he hshared hidle =>
    refine ⟨h.edge, fun hne => ?_, h.calling, h.own, h.sorted, h.timeout⟩
    refine (h.pending hne).imp_right (Or.imp_right (Or.imp_left ?_))
    rintro ⟨u, hu⟩
    refine ⟨u, ?_⟩
    have hut : u ≠ t := by
      intro heq
      rw [heq, hidle] at hu
      cases hu
    exact (setClient_ne _ _ hut).trans hu
  | wakeup t hbusy => exact h.wakeup _ _ fun hne => writeWakeup_own s ▸ hne

/-- **No lost wake-up.** While the loop thread waits in `epoll_wait` nothing is
queued unannounced, and the timeout is no longer than any timer has left. -/
theorem no_lost_wakeup (self : Nat) {s : EventLoop κ}
    (h : Reached step OwnCallsInLoop (init self) s) : s.Awake := by
  have halert : s.Alert :=
    h.invariant (alert_init self) fun _ _ _ hi hc hs => alert_step hi hc hs
  exact halert.awake

instance (s : EventLoop κ) (e : LoopEvent κ) : Decidable (OwnCallsInLoop s e) :=
  match e with
  | .ownQueue _ => inferInstanceAs (Decidable (_ = true))
  | .publish | .reset | .test | .nextTimeoutMs _ | .epollReturn _ | .readWakeup
  | .handleExpiredTimers _ | .runTimer | .callPendingFunctors | .swap | .runFunctor
  | .endFunctors | .destroy | .ownWakeup | .ownTimer _ | .ownQuit | .queue _ _
  | .timer _ _ | .quit _ | .wakeup _ => inferInstanceAs (Decidable True)

/-- A thread is between the two halves of `queueInLoop` while the loop waits for a timer. -/
theorem no_lost_wakeup_waiting :
    ∃ s : EventLoop Unit, Reached step OwnCallsInLoop (init 0) s ∧ s.phase = .waiting 0 5 ∧
      s.pendingFunctors.length = 1 ∧ s.eventfd = 0 ∧ s.Awake := by
  have hrun : runIf step OwnCallsInLoop (init 0 : EventLoop Unit)
      [.publish, .ownTimer (.addTimer () 5000000 0), .reset, .test, .nextTimeoutMs 0,
        .queue 1 .call] = some _ := rfl
  have h := Reached.of_runIf hrun
  exact ⟨_, h, rfl, rfl, rfl, no_lost_wakeup 0 h⟩

end EventLoop

end Myself
