import MyselfServer.TimerRuns

/-!
# The idle timers of a loop, as a table

What idle timers are about: for each connection of a loop whether it is
closed, its timeout, its timer and the time of its last activity, and beside
them the loop's timers, most of which may belong to other code. A timer
belongs to the code that got its number, or to the one connection that its
callback closes; the table is kept when every connection that waits for its
timeout has such a timer, and no other one has.
-/

namespace Myself

open Machine

/-- A timer's callback is the address of the connection it closes. -/
structure IdleState where
  self : Nat
  closed : Bool := false
  idleTimeoutSeconds : Rat := 0
  idleTimer : TimerId := {}
  lastActivity : Timestamp := 0

def IdleState.awaited (st : IdleState) : Bool := !st.closed && decide (0 < st.idleTimeoutSeconds)

/-- `handed` are the numbers of the timers that other code has added. -/
structure IdleTable where
  seen : Nat → Option IdleState
  loop : TimerLoop Nat
  clock : Timestamp
  addresses : List Nat
  handed : List Nat

/-! ## More about the timers of a loop -/

namespace TimerLoop

def forget (s : TimerLoop Nat) : TimerLoop Nat := { s with log := [] }

theorem Sound.forget {s : TimerLoop Nat} (h : Sound s) : Sound s.forget where
  exact := h.exact
  nodup := h.nodup
  below := h.below
  ran := by simp [TimerLoop.forget]

theorem Sound.active_lt {s : TimerLoop Nat} (h : Sound s) {m : Nat} {t : Timer Nat}
    (ht : s.queue.activeTimers[m]? = some t) : m < s.counter :=
  (h.exact.held m t ht).elim (fun hb => h.batch_lt hb) fun hn => h.sequences_lt hn

theorem cancelInLoop_self (q : TimerQueue Nat) (timerId : TimerId) :
    (q.cancelInLoop timerId).self = q.self := by
  unfold TimerQueue.cancelInLoop
  split
  · rfl
  · split <;> rfl

theorem Sound.cancelled {s : TimerLoop Nat} (h : Sound s) (timerId : TimerId) :
    Sound { s with queue := s.queue.cancelInLoop timerId } where
  exact := h.exact.cancelInLoop timerId
  nodup := nodup_of_subperm (map_subperm (cancelInLoop_timers s timerId)) h.nodup
  below t ht := h.below t ((cancelInLoop_timers s timerId).subset ht)
  ran := h.ran

theorem Sound.inserted {s : TimerLoop Nat} (h : Sound s) {t : Timer Nat} (ht : t.sequence = s.counter) :
    Sound { s with queue := s.queue.insertInLoop t, counter := s.counter + 1 } := by
  have hqueue : t.sequence ∉ s.queue.sequences := fun hn => by
    have := h.sequences_lt hn
    omega
  have hbatch : t.sequence ∉ s.batchSequences := fun hn => by
    have := h.batch_lt hn
    omega
  have hperm : ({ s with queue := s.queue.insertInLoop t, counter := s.counter + 1 } :
      TimerLoop Nat).timers.Perm (t :: s.timers) := perm_front (insertInLoop_timers hqueue)
  refine ⟨h.exact.insertInLoop hbatch hqueue, ?_, ?_, fun n hn => Nat.lt_succ_of_lt (h.ran n hn)⟩
  · rw [(hperm.map Timer.sequence).nodup_iff, List.map_cons, List.nodup_cons]
    refine ⟨fun hin => ?_, h.nodup⟩
    obtain ⟨u, hu, heq⟩ := List.mem_map.mp hin
    have := h.below u hu
    omega
  · intro u hu
    rcases List.mem_cons.mp (hperm.mem_iff.mp hu) with rfl | hu
    · exact ht ▸ Nat.lt_succ_self _
    · exact Nat.lt_succ_of_lt (h.below u hu)

theorem cancelled_active {q : TimerQueue Nat} {timerId : TimerId} {m : Nat} {t : Timer Nat}
    (h : (q.cancelInLoop timerId).activeTimers[m]? = some t) : q.activeTimers[m]? = some t := by
  unfold TimerQueue.cancelInLoop at h
  split at h
  · exact h
  · split at h
    · exact h
    · simp only [Std.TreeMap.getElem?_erase] at h
      split at h
      · cases h
      · exact h

theorem cancelled_inactive {q : TimerQueue Nat} {timerId : TimerId} (ho : timerId.owner = some q.self) :
    (q.cancelInLoop timerId).activeTimers[timerId.sequence]? = none := by
  simp only [TimerQueue.cancelInLoop, ho, ne_eq, not_true_eq_false, if_false]
  split
  · assumption
  · simp

theorem inserted_active (q : TimerQueue Nat) (t : Timer Nat) (m : Nat) :
    (q.insertInLoop t).activeTimers[m]? = if t.sequence = m then some t else q.activeTimers[m]? := by
  simp only [TimerQueue.insertInLoop, Std.TreeMap.getElem?_insert, Std.LawfulEqCmp.compare_eq_iff_eq]

end TimerLoop

/-! ## The table is kept -/

namespace IdleTable

variable {v : IdleTable} {ex : Nat → Prop} {n : Nat} {st : IdleState}

def Foreign (v : IdleTable) (m : Nat) (t : Timer Nat) : Prop :=
  m ∈ v.handed ∧ v.seen t.callback = none

def Own (v : IdleTable) (m : Nat) (t : Timer Nat) : Prop :=
  m ∉ v.handed ∧ 0 < m ∧ t.repeat = false ∧ ∃ st, v.seen t.callback = some st ∧
    st.awaited = true ∧ st.idleTimer = ⟨m, some v.loop.queue.self⟩

def Taken (v : IdleTable) (t : Timer Nat) : Prop :=
  v.Foreign t.sequence t ∨
    t.sequence ∉ v.handed ∧ t.repeat = false ∧ (v.seen t.callback).isSome = true ∧
      ∀ u, v.loop.queue.activeTimers[t.sequence]? = some u → u.callback = t.callback

def Posted (v : IdleTable) : TimerTask Nat → Prop
  | .insertInLoop t => v.Foreign t.sequence t
  | .cancelInLoop timerId => timerId.owner = some v.loop.queue.self → timerId.sequence ∈ v.handed

/-- A connection is known by its address, and its timer is nobody else's. -/
structure Sane (v : IdleTable) (n : Nat) (st : IdleState) : Prop where
  self : st.self = n
  heard : st.lastActivity ≤ v.clock
  timer : st.idleTimer.valid = true →
    st.idleTimer.owner = some v.loop.queue.self ∧ st.idleTimer.sequence < v.loop.counter ∧
    st.idleTimer.sequence ∉ v.handed ∧
    ∀ t, v.loop.queue.activeTimers[st.idleTimer.sequence]? = some t → t.callback = n

/-- The timer was set between the last activity and now, for the time when the
timeout is over. -/
def Since (v : IdleTable) (st : IdleState) (t : Timer Nat) : Prop :=
  ∃ armed, st.lastActivity ≤ armed ∧ armed ≤ v.clock ∧
    t.expiration = addTime armed (secondsToDuration st.idleTimeoutSeconds)

def Timed (v : IdleTable) (n : Nat) (st : IdleState) : Prop :=
  ∃ t, v.loop.queue.activeTimers[st.idleTimer.sequence]? = some t ∧ t.callback = n ∧ v.Since st t

/-- The exceptions are connections in the middle of a change. -/
structure Kept (ex : Nat → Prop) (v : IdleTable) : Prop where
  sound : v.loop.Sound
  positive : 0 < v.loop.counter
  handed : ∀ m ∈ v.handed, m < v.loop.counter
  known : ∀ n, (v.seen n).isSome = true ↔ n ∈ v.addresses
  nodup : v.addresses.Nodup
  sane : ∀ n st, v.seen n = some st → v.Sane n st
  active : ∀ m t, v.loop.queue.activeTimers[m]? = some t → v.Foreign m t ∨ v.Own m t
  batch : ∀ t ∈ v.loop.batch, v.Taken t
  posted : ∀ task ∈ v.loop.pendingFunctors, v.Posted task
  timed : ∀ n st, ¬ ex n → v.seen n = some st → st.awaited = true → v.Timed n st

theorem Kept.mono {ex' : Nat → Prop} (h : Kept ex v) (hex : ∀ n, ex n → ex' n) : Kept ex' v :=
  { h with timed := fun n st hn => h.timed n st fun he => hn (hex n he) }

/-- An active timer that closes a connection is the one that the connection knows. -/
theorem Kept.own (h : Kept ex v) (hn : v.seen n = some st) {m : Nat} {t : Timer Nat}
    (ht : v.loop.queue.activeTimers[m]? = some t) (hcallback : t.callback = n) :
    st.awaited = true ∧ st.idleTimer = ⟨m, some v.loop.queue.self⟩ ∧ 0 < m := by
  rcases h.active m t ht with ⟨-, hnone⟩ | ⟨-, hpos, -, st', hst, haw, htimer⟩
  · rw [hcallback, hn] at hnone
    cases hnone
  · rw [hcallback, hn] at hst
    cases hst
    exact ⟨haw, htimer, hpos⟩

/-! ## Other code's timers -/

/-- What other code does touches no number of a connection's timer. -/
structure Change (v : IdleTable) (s : TimerLoop Nat) (handed : List Nat) : Prop where
  sound : s.Sound
  self : s.queue.self = v.loop.queue.self
  counter : v.loop.counter ≤ s.counter
  old : ∀ m ∈ v.handed, m ∈ handed
  new : ∀ m ∈ handed, m ∈ v.handed ∨ v.loop.counter ≤ m ∧ m < s.counter
  active : ∀ m t, s.queue.activeTimers[m]? = some t →
    v.loop.queue.activeTimers[m]? = some t ∨ m ∈ handed ∧ v.seen t.callback = none
  kept : ∀ m t, m ∉ handed → v.loop.queue.activeTimers[m]? = some t →
    s.queue.activeTimers[m]? = some t
  batch : ∀ t ∈ s.batch, t ∈ v.loop.batch ∨ v.loop.queue.activeTimers[t.sequence]? = some t
  posted : ∀ task ∈ s.pendingFunctors, task ∈ v.loop.pendingFunctors ∨
    { v with handed := handed }.Posted task

theorem Kept.change (h : Kept ex v) {s : TimerLoop Nat} {handed : List Nat} (hc : Change v s handed) :
    Kept ex { v with loop := s, handed := handed } := by
  have hlow : ∀ m, m < v.loop.counter → m ∉ v.handed → m ∉ handed := by
    intro m hm hn hin
    rcases hc.new m hin with hin | ⟨hle, -⟩
    · exact hn hin
    · omega
  have hforeign : ∀ m t, v.Foreign m t → { v with loop := s, handed := handed }.Foreign m t :=
    fun m t ht => ⟨hc.old m ht.1, ht.2⟩
  have hown : ∀ m t, m < v.loop.counter → v.Own m t →
      { v with loop := s, handed := handed }.Own m t := by
    rintro m t hm ⟨hn, hpos, hr, st, hst, haw, htimer⟩
    exact ⟨hlow m hm hn, hpos, hr, st, hst, haw, by rw [htimer, hc.self]⟩
  have hclass : ∀ m t, v.loop.queue.activeTimers[m]? = some t →
      { v with loop := s, handed := handed }.Foreign m t ∨ { v with loop := s, handed := handed }.Own m t :=
    fun m t ht => (h.active m t ht).imp (hforeign m t) (hown m t (h.sound.active_lt ht))
  constructor
  · exact hc.sound
  · exact Nat.lt_of_lt_of_le h.positive hc.counter
  · intro m hm
    rcases hc.new m hm with hm | hm
    · exact Nat.lt_of_lt_of_le (h.handed m hm) hc.counter
    · exact hm.2
  · exact h.known
  · exact h.nodup
  · intro n st hst
    obtain ⟨hself, hheard, htimer⟩ := h.sane n st hst
    refine ⟨hself, hheard, fun hv => ?_⟩
    obtain ⟨ho, hlt, hn, ht⟩ := htimer hv
    refine ⟨ho.trans (congrArg some hc.self.symm), Nat.lt_of_lt_of_le hlt hc.counter, hlow _ hlt hn, ?_⟩
    intro t hact
    rcases hc.active _ t hact with hact | ⟨hin, -⟩
    · exact ht t hact
    · exact absurd hin (hlow _ hlt hn)
  · intro m t ht
    rcases hc.active m t ht with ht | ht
    · exact hclass m t ht
    · exact Or.inl ht
  · intro t ht
    rcases hc.batch t ht with ht | ht
    · rcases h.batch t ht with hf | ⟨hn, hr, hs, hu⟩
      · exact Or.inl (hforeign _ _ hf)
      · have hnew := hlow _ (h.sound.batch_lt (List.mem_map_of_mem ht)) hn
        refine Or.inr ⟨hnew, hr, hs, fun u hact => ?_⟩
        rcases hc.active _ u hact with hact | ⟨hin, -⟩
        · exact hu u hact
        · exact absurd hin hnew
    · rcases hclass _ t ht with hf | ⟨hn, -, hr, st, hst, -⟩
      · exact Or.inl hf
      · refine Or.inr ⟨hn, hr, Option.isSome_iff_exists.mpr ⟨st, hst⟩, fun u hact => ?_⟩
        rcases hc.active _ u hact with hact | ⟨hin, -⟩
        · exact congrArg Timer.callback (Option.some.inj (hact.symm.trans ht))
        · exact absurd hin hn
  · intro task htask
    rcases hc.posted task htask with htask | htask
    · have hp := h.posted task htask
      cases task with
      | insertInLoop t => exact hforeign _ _ hp
      | cancelInLoop timerId =>
        exact fun ho => hc.old _ (hp (ho.trans (congrArg some hc.self)))
    · cases task with
      | insertInLoop t => exact htask
      | cancelInLoop timerId => exact fun ho => htask (ho.trans (congrArg some hc.self))
  · intro n st hn hst haw
    obtain ⟨t, ht, hcallback, hsince⟩ := h.timed n st hn hst haw
    refine ⟨t, hc.kept _ t ?_ ht, hcallback, hsince⟩
    rcases h.active _ t ht with ⟨-, hnone⟩ | ⟨hm, -⟩
    · rw [hcallback, hst] at hnone
      cases hnone
    · exact hlow _ (h.sound.active_lt ht) hm

/-- What happens to the timers without a connection: other code adds timers and
cancels those, what was posted runs, and a batch is taken, run and finished. -/
def Apart (v : IdleTable) : TimerEvent Nat → Prop
  | .elsewhere => True
  | .postAddTimer callback _ _ => v.seen callback = none
  | .postCancel timerId => timerId.owner = some v.loop.queue.self → timerId.sequence ∈ v.handed
  | .runFunctor => True
  | .addTimer callback _ _ => v.seen callback = none
  | .cancel timerId => timerId.owner = some v.loop.queue.self → timerId.sequence ∈ v.handed
  | .handleExpiredTimers _ => True
  | .runNext => ∀ t ∈ v.loop.batch.head?, v.seen t.callback = none
  | .finish => True

def handing (v : IdleTable) (e : TimerEvent Nat) : List Nat :=
  ((TimerLoop.adds v.loop e).map Timer.sequence).toList ++ v.handed

theorem change_cancel {timerId : TimerId}
    (hid : timerId.owner = some v.loop.queue.self → timerId.sequence ∈ v.handed) {m : Nat}
    {t : Timer Nat} (hm : m ∉ v.handed) (ht : v.loop.queue.activeTimers[m]? = some t) :
    (v.loop.queue.cancelInLoop timerId).activeTimers[m]? = some t := by
  by_cases ho : timerId.owner = some v.loop.queue.self
  · have hne : timerId.sequence ≠ m := fun heq => hm (heq ▸ hid ho)
    rw [TimerQueue.cancelInLoop_active hne]
    exact ht
  · simp only [TimerQueue.cancelInLoop, ne_eq, ho, not_false_eq_true, if_true]
    exact ht

/-- The active timers stay as they are. -/
theorem change_quiet {s : TimerLoop Nat} (hsound : s.Sound) (hself : s.queue.self = v.loop.queue.self)
    (hactive : s.queue.activeTimers = v.loop.queue.activeTimers) (hcounter : v.loop.counter ≤ s.counter)
    (hbatch : ∀ t ∈ s.batch, t ∈ v.loop.batch ∨ v.loop.queue.activeTimers[t.sequence]? = some t)
    (hposted : ∀ task ∈ s.pendingFunctors, task ∈ v.loop.pendingFunctors ∨ v.Posted task) :
    Change v s v.handed where
  sound := hsound
  self := hself
  counter := hcounter
  old m hm := hm
  new m hm := Or.inl hm
  active m t ht := by
    rw [hactive] at ht
    exact Or.inl ht
  kept m t _ ht := by
    rw [hactive]
    exact ht
  batch := hbatch
  posted := hposted

/-- A timer of other code leaves. -/
theorem change_cancelled {s : TimerLoop Nat} {timerId : TimerId} (hsound : s.Sound)
    (hqueue : s.queue = v.loop.queue.cancelInLoop timerId)
    (hid : timerId.owner = some v.loop.queue.self → timerId.sequence ∈ v.handed) (hcounter : s.counter = v.loop.counter)
    (hbatch : s.batch = v.loop.batch) (hposted : ∀ task ∈ s.pendingFunctors, task ∈ v.loop.pendingFunctors) :
    Change v s v.handed where
  sound := hsound
  self := by
    rw [hqueue]
    exact TimerLoop.cancelInLoop_self _ _
  counter := hcounter.ge
  old m hm := hm
  new m hm := Or.inl hm
  active m t ht := by
    rw [hqueue] at ht
    exact Or.inl (TimerLoop.cancelled_active ht)
  kept m t hm ht := by
    rw [hqueue]
    exact change_cancel hid hm ht
  batch t ht := Or.inl (hbatch ▸ ht)
  posted task ht := Or.inl (hposted task ht)

theorem inserted_foreign {q : TimerQueue Nat} {u : Timer Nat} {handed : List Nat} {seen : Nat → Option IdleState}
    (hu : u.sequence ∈ handed) (hseen : seen u.callback = none) {m : Nat} {t : Timer Nat} :
    ((q.insertInLoop u).activeTimers[m]? = some t →
      q.activeTimers[m]? = some t ∨ m ∈ handed ∧ seen t.callback = none) ∧
    (m ∉ handed → q.activeTimers[m]? = some t → (q.insertInLoop u).activeTimers[m]? = some t) := by
  rw [TimerLoop.inserted_active]
  constructor
  · intro ht
    split at ht
    · rename_i hm
      cases ht
      exact Or.inr ⟨hm ▸ hu, hseen⟩
    · exact Or.inl ht
  · intro hm ht
    have hne : u.sequence ≠ m := fun heq => hm (heq ▸ hu)
    rw [if_neg hne]
    exact ht

theorem new_handed {s : TimerLoop Nat} (hcounter : s.counter = v.loop.counter + 1) :
    ∀ m ∈ v.loop.counter :: v.handed, m ∈ v.handed ∨ v.loop.counter ≤ m ∧ m < s.counter := by
  intro m hm
  rcases List.mem_cons.mp hm with rfl | hm
  · exact Or.inr ⟨Nat.le_refl _, by omega⟩
  · exact Or.inl hm

theorem Kept.change_of_step (h : Kept ex v) {e : TimerEvent Nat} {s : TimerLoop Nat}
    (he : v.Apart e) (hs : v.loop.step e = some s) : Change v s.forget (v.handing e) := by
  have hsound := (TimerLoop.sound_step h.sound hs).forget
  have hsame : ∀ task ∈ v.loop.pendingFunctors, task ∈ v.loop.pendingFunctors ∨ v.Posted task :=
    fun task ht => Or.inl ht
  cases e with
  | elsewhere =>
    cases hs
    exact change_quiet hsound rfl rfl (Nat.le_succ _) (fun t ht => Or.inl ht) hsame
  | postAddTimer callback when intervalSeconds =>
    cases hs
    refine ⟨hsound, rfl, Nat.le_succ _, fun m hm => List.mem_cons_of_mem _ hm, new_handed rfl,
      fun m t ht => Or.inl ht, fun m t _ ht => ht, fun t ht => Or.inl ht, ?_⟩
    intro task htask
    rcases List.mem_append.mp htask with htask | htask
    · exact Or.inl htask
    · rw [List.mem_singleton.mp htask]
      exact Or.inr ⟨List.mem_cons_self .., he⟩
  | postCancel timerId =>
    simp only [TimerLoop.step] at hs
    split at hs
    · cases hs
      refine change_quiet hsound rfl rfl (Nat.le_refl _) (fun t ht => Or.inl ht) ?_
      intro task htask
      rcases List.mem_append.mp htask with htask | htask
      · exact Or.inl htask
      · rw [List.mem_singleton.mp htask]
        exact Or.inr he
    · cases hs
      exact change_quiet hsound rfl rfl (Nat.le_refl _) (fun t ht => Or.inl ht) hsame
  | runFunctor =>
    simp only [TimerLoop.step] at hs
    split at hs
    · rename_i task rest hphase htasks
      have htask := h.posted task (by rw [htasks]; exact List.mem_cons_self ..)
      have hrest : ∀ u ∈ rest, u ∈ v.loop.pendingFunctors :=
        fun u hu => by rw [htasks]; exact List.mem_cons_of_mem _ hu
      cases hs
      cases task with
      | insertInLoop u =>
        refine ⟨hsound, rfl, Nat.le_refl _, fun m hm => hm, fun m hm => Or.inl hm, ?_, ?_,
          fun t ht => Or.inl ht, fun task ht => Or.inl (hrest task ht)⟩
        · exact fun m t => (inserted_foreign htask.1 htask.2).1
        · exact fun m t => (inserted_foreign htask.1 htask.2).2
      | cancelInLoop timerId => exact change_cancelled hsound rfl htask rfl rfl hrest
    · cases hs
  | addTimer callback when intervalSeconds =>
    simp only [TimerLoop.step] at hs
    split at hs
    · cases hs
      have hnew : v.loop.counter ∈ v.loop.counter :: v.handed := List.mem_cons_self ..
      have hseen : v.seen callback = none := he
      refine ⟨hsound, rfl, Nat.le_succ _, fun m hm => List.mem_cons_of_mem _ hm, new_handed rfl, ?_, ?_,
        fun t ht => Or.inl ht, fun task ht => Or.inl ht⟩
      · exact fun m t => (inserted_foreign hnew hseen).1
      · exact fun m t => (inserted_foreign hnew hseen).2
    · cases hs
  | cancel timerId =>
    simp only [TimerLoop.step] at hs
    split at hs
    · cases hs
      split at hsound
      · rename_i hv
        rw [if_pos hv]
        exact change_cancelled hsound rfl he rfl rfl fun task ht => ht
      · rename_i hv
        rw [if_neg hv]
        exact change_quiet hsound rfl rfl (Nat.le_refl _) (fun t ht => Or.inl ht) hsame
    · cases hs
  | handleExpiredTimers currentTime =>
    simp only [TimerLoop.step] at hs
    split at hs
    · cases hs
    · cases hs
      refine change_quiet hsound rfl rfl (Nat.le_refl _) ?_ hsame
      intro t ht
      obtain ⟨due, hes, hdue, -⟩ := takeExpired_split currentTime v.loop.queue.entries
      have ht : t ∈ due.map Entry.timer := hdue ▸ ht
      obtain ⟨e, hin, rfl⟩ := List.mem_map.mp ht
      have hin : e ∈ v.loop.queue.entries := by
        rw [hes]
        exact List.mem_append_left _ hin
      right
      rw [(h.sound.exact.key e hin).1]
      exact h.sound.exact.active e hin
  | runNext =>
    simp only [TimerLoop.step] at hs
    split at hs
    · rename_i currentTime u rest running hphase
      have hbatch : v.loop.batch = u :: rest := by rw [TimerLoop.batch, hphase]
      have hu : v.seen u.callback = none := he u (by rw [hbatch]; rfl)
      have hhanded : u.sequence ∈ v.handed := by
        rcases h.batch u (by rw [hbatch]; exact List.mem_cons_self ..) with hf | ⟨-, -, hsome, -⟩
        · exact hf.1
        · rw [hu] at hsome
          cases hsome
      cases hs
      have hactive : ∀ m, (v.loop.queue.beforeRun currentTime u).activeTimers[m]? =
          if u.sequence = m then if u.repeat then some (u.restart currentTime) else none
          else v.loop.queue.activeTimers[m]? := TimerLoop.beforeRun_active _ _
      refine ⟨hsound, ?_, Nat.le_refl _, fun m hm => hm, fun m hm => Or.inl hm, ?_, ?_, ?_, hsame⟩
      · simp only [TimerLoop.forget, TimerQueue.beforeRun]
        split <;> rfl
      · intro m t ht
        have ht := (hactive m).symm.trans ht
        split at ht
        · rename_i hm
          split at ht
          · cases ht
            refine Or.inr ⟨hm ▸ hhanded, ?_⟩
            rw [Timer.restart]
            split <;> exact hu
          · cases ht
        · exact Or.inl ht
      · intro m t hm ht
        have hne : u.sequence ≠ m := fun heq => hm (heq ▸ hhanded)
        have := hactive m
        rw [if_neg hne] at this
        exact this.trans ht
      · intro t ht
        left
        rw [hbatch]
        exact List.mem_cons_of_mem _ ht
    · cases hs
  | finish =>
    simp only [TimerLoop.step] at hs
    split at hs
    · cases hs
      exact change_quiet hsound rfl rfl (Nat.le_refl _) (fun t ht => absurd ht List.not_mem_nil) hsame
    · cases hs

theorem Kept.apart (h : Kept ex v) {e : TimerEvent Nat} {s : TimerLoop Nat}
    (he : v.Apart e) (hs : v.loop.step e = some s) :
    Kept ex { v with loop := s.forget, handed := v.handing e } :=
  h.change (h.change_of_step he hs)

/-! ## A connection's own timer -/

def set (v : IdleTable) (n : Nat) (st : IdleState) : IdleTable :=
  { v with seen := fun m => if m = n then some st else v.seen m }

structure Turn (v : IdleTable) (n : Nat) (st : IdleState) (s : TimerLoop Nat) : Prop where
  sound : s.Sound
  self : s.queue.self = v.loop.queue.self
  counter : v.loop.counter ≤ s.counter
  active : ∀ (m : Nat) (t : Timer Nat), s.queue.activeTimers[m]? = some t →
    v.loop.queue.activeTimers[m]? = some t ∧ t.callback ≠ n ∨
    (v.loop.queue.activeTimers[m]? = some t ∨ v.loop.counter ≤ m) ∧
      ({ v with loop := s }.set n st).Own m t
  kept : ∀ (m : Nat) (t : Timer Nat), v.loop.queue.activeTimers[m]? = some t → t.callback ≠ n →
    s.queue.activeTimers[m]? = some t
  batch : ∀ t ∈ s.batch, t ∈ v.loop.batch
  posted : s.pendingFunctors = v.loop.pendingFunctors
  sane : ({ v with loop := s }.set n st).Sane n st

theorem Kept.turn {ex' : Nat → Prop} (h : Kept ex v) {s : TimerLoop Nat} {old : IdleState}
    (hn : v.seen n = some old) (ht : Turn v n st s) (hex : ∀ m, m ≠ n → ex m → ex' m)
    (htimed : ¬ ex' n → st.awaited = true → ({ v with loop := s }.set n st).Timed n st) :
    Kept ex' ({ v with loop := s }.set n st) := by
  have hother : ∀ m, m ≠ n → ({ v with loop := s }.set n st).seen m = v.seen m :=
    fun m hm => if_neg hm
  have hnone : ∀ m, v.seen m = none → ({ v with loop := s }.set n st).seen m = none := by
    intro m hm
    rw [hother m, hm]
    rintro rfl
    rw [hn] at hm
    cases hm
  have hsome : ∀ m, (({ v with loop := s }.set n st).seen m).isSome = (v.seen m).isSome := by
    intro m
    by_cases hm : m = n
    · rw [hm, hn]
      simp [set]
    · rw [hother m hm]
  have hforeign : ∀ m t, v.Foreign m t → ({ v with loop := s }.set n st).Foreign m t :=
    fun m t hf => ⟨hf.1, hnone _ hf.2⟩
  constructor
  · exact ht.sound
  · exact Nat.lt_of_lt_of_le h.positive ht.counter
  · exact fun m hm => Nat.lt_of_lt_of_le (h.handed m hm) ht.counter
  · intro m
    rw [hsome]
    exact h.known m
  · exact h.nodup
  · intro m st' hst
    by_cases hm : m = n
    · rw [hm] at hst ⊢
      have heq : st = st' := Option.some.inj ((if_pos rfl).symm.trans hst)
      exact heq ▸ ht.sane
    · rw [hother m hm] at hst
      obtain ⟨hself, hheard, htimer⟩ := h.sane m st' hst
      refine ⟨hself, hheard, fun hv => ?_⟩
      obtain ⟨ho, hlt, hnot, hcallback⟩ := htimer hv
      refine ⟨ho.trans (congrArg some ht.self.symm), Nat.lt_of_lt_of_le hlt ht.counter, hnot, ?_⟩
      intro t hact
      rcases ht.active _ t hact with ⟨hact, -⟩ | ⟨hact | hle, -⟩
      · exact hcallback t hact
      · exact hcallback t hact
      · omega
  · intro m t hact
    rcases ht.active m t hact with ⟨hact, hne⟩ | ⟨-, hown⟩
    · rcases h.active m t hact with hf | ⟨hm, hpos, hr, st', hst, haw, htimer⟩
      · exact Or.inl (hforeign m t hf)
      · refine Or.inr ⟨hm, hpos, hr, st', (hother _ hne).trans hst, haw, ?_⟩
        rw [htimer]
        exact congrArg _ (congrArg some ht.self.symm)
    · exact Or.inr hown
  · intro t hin
    have hin := ht.batch t hin
    rcases h.batch t hin with hf | ⟨hm, hr, hs, hu⟩
    · exact Or.inl (hforeign _ t hf)
    · refine Or.inr ⟨hm, hr, (hsome _).trans hs, fun u hact => ?_⟩
      have hlt := h.sound.batch_lt (List.mem_map_of_mem hin)
      rcases ht.active _ u hact with ⟨hact, -⟩ | ⟨hact | hle, -⟩
      · exact hu u hact
      · exact hu u hact
      · omega
  · intro task htask
    have hp := h.posted task (ht.posted ▸ htask)
    cases task with
    | insertInLoop t => exact hforeign _ t hp
    | cancelInLoop timerId => exact fun ho => hp (ho.trans (congrArg some ht.self))
  · intro m st' hm hst haw
    by_cases hmn : m = n
    · rw [hmn] at hst hm ⊢
      have heq : st = st' := Option.some.inj ((if_pos rfl).symm.trans hst)
      exact heq ▸ htimed hm (heq ▸ haw)
    · rw [hother m hmn] at hst
      obtain ⟨t, hact, hcallback, hsince⟩ := h.timed m st' (fun he => hm (hex m hmn he)) hst haw
      exact ⟨t, ht.kept _ t hact (hcallback ▸ hmn), hcallback, hsince⟩

def unarmed (v : IdleTable) (st : IdleState) : TimerLoop Nat :=
  if st.idleTimer.valid then { v.loop with queue := v.loop.queue.cancelInLoop st.idleTimer } else v.loop

theorem Kept.unarmed_active (h : Kept ex v) (hn : v.seen n = some st) {m : Nat} {t : Timer Nat}
    (ht : (v.unarmed st).queue.activeTimers[m]? = some t) :
    v.loop.queue.activeTimers[m]? = some t ∧ t.callback ≠ n := by
  unfold unarmed at ht
  split at ht
  · rename_i hv
    have hact := TimerLoop.cancelled_active ht
    refine ⟨hact, fun hcallback => ?_⟩
    obtain ⟨-, htimer, -⟩ := h.own hn hact hcallback
    have hgone := TimerLoop.cancelled_inactive ((h.sane n st hn).timer hv).1
    rw [htimer] at hgone ht
    rw [hgone] at ht
    cases ht
  · rename_i hv
    refine ⟨ht, fun hcallback => ?_⟩
    obtain ⟨-, htimer, hpos⟩ := h.own hn ht hcallback
    rw [htimer] at hv
    simp [TimerId.valid] at hv
    omega

theorem Kept.unarmed_kept (h : Kept ex v) (hn : v.seen n = some st) {m : Nat} {t : Timer Nat}
    (ht : v.loop.queue.activeTimers[m]? = some t) (hne : t.callback ≠ n) :
    (v.unarmed st).queue.activeTimers[m]? = some t := by
  unfold unarmed
  split
  · rename_i hv
    obtain ⟨-, -, -, hcallback⟩ := (h.sane n st hn).timer hv
    have hm : st.idleTimer.sequence ≠ m := fun heq => hne (hcallback t (heq ▸ ht))
    exact (TimerQueue.cancelInLoop_active hm).trans ht
  · exact ht

theorem unarmed_same (v : IdleTable) (st : IdleState) :
    (v.unarmed st).queue.self = v.loop.queue.self ∧ (v.unarmed st).counter = v.loop.counter ∧
      (v.unarmed st).batch = v.loop.batch ∧
      (v.unarmed st).pendingFunctors = v.loop.pendingFunctors := by
  unfold unarmed
  split
  · exact ⟨TimerLoop.cancelInLoop_self _ _, rfl, rfl, rfl⟩
  · exact ⟨rfl, rfl, rfl, rfl⟩

theorem Kept.unarmed_sound (h : Kept ex v) (st : IdleState) : (v.unarmed st).Sound := by
  unfold unarmed
  split
  · exact h.sound.cancelled _
  · exact h.sound

theorem Kept.closed {ex' : Nat → Prop} (h : Kept ex v) (hex : ∀ m, m ≠ n → ex m → ex' m)
    (hn : v.seen n = some st) {st' : IdleState} (hself : st'.self = st.self)
    (hheard : st'.lastActivity = st.lastActivity) (htimer : st'.idleTimer.valid = false)
    (hclosed : st'.closed = true) : Kept ex' ({ v with loop := v.unarmed st }.set n st') := by
  obtain ⟨hqueue, hcounter, hbatch, hposted⟩ := unarmed_same v st
  obtain ⟨hname, hlast, -⟩ := h.sane n st hn
  refine h.turn hn ⟨h.unarmed_sound st, hqueue, hcounter.ge, ?_, ?_, ?_, hposted, ?_⟩ hex ?_
  · exact fun m t ht => Or.inl (h.unarmed_active hn ht)
  · exact fun m t ht hne => h.unarmed_kept hn ht hne
  · exact fun t ht => hbatch ▸ ht
  · exact ⟨hself.trans hname, hheard.trans_le hlast, fun hv => absurd (htimer.symm.trans hv) Bool.false_ne_true⟩
  · intro _ haw
    rw [IdleState.awaited, hclosed] at haw
    cases haw

theorem Kept.unless {ex' : Nat → Prop} (h : Kept ex v) (hex : ∀ m, m ≠ n → ex m → ex' m)
    (hn : v.seen n = some st) (haw : st.awaited = false) : Kept ex' v := by
  refine { h with timed := fun m st' hm hst haw' => ?_ }
  by_cases hmn : m = n
  · rw [hmn, hn] at hst
    cases hst
    exact absurd (haw.symm.trans haw') Bool.false_ne_true
  · exact h.timed m st' (fun he => hm (hex m hmn he)) hst haw'

def armed (v : IdleTable) (n : Nat) (st : IdleState) : TimerLoop Nat :=
  { v.unarmed st with
    queue := (v.unarmed st).queue.insertInLoop
      ⟨n, addTime v.clock (secondsToDuration st.idleTimeoutSeconds), 0, v.loop.counter⟩
    counter := v.loop.counter + 1 }

theorem Kept.refreshed {ex' : Nat → Prop} (h : Kept ex v) (hex : ∀ m, m ≠ n → ex m → ex' m)
    (hn : v.seen n = some st) (haw : st.awaited = true) :
    Kept ex' ({ v with loop := v.armed n st }.set n
      { st with idleTimer := ⟨v.loop.counter, some v.loop.queue.self⟩ }) := by
  obtain ⟨hself, hcounter, hbatch, hposted⟩ := unarmed_same v st
  obtain ⟨hname, hheard, -⟩ := h.sane n st hn
  have hactive := TimerLoop.inserted_active (v.unarmed st).queue
    ⟨n, addTime v.clock (secondsToDuration st.idleTimeoutSeconds), 0, v.loop.counter⟩
  have hfresh : v.loop.counter ∉ v.handed := fun hin => Nat.lt_irrefl _ (h.handed _ hin)
  have hsound : (v.armed n st).Sound := by
    have := (h.unarmed_sound st).inserted (t :=
      ⟨n, addTime v.clock (secondsToDuration st.idleTimeoutSeconds), 0, v.loop.counter⟩) hcounter.symm
    rw [hcounter] at this
    exact this
  refine h.turn hn ⟨hsound, hself, Nat.le_succ _, ?_, ?_, ?_, hposted, ?_⟩ hex ?_
  · intro m t ht
    have ht := (hactive m).symm.trans ht
    split at ht
    · rename_i hm
      cases ht
      cases hm
      refine Or.inr ⟨Or.inr (Nat.le_refl _), hfresh, h.positive, rfl, _, if_pos rfl, haw, ?_⟩
      exact congrArg _ (congrArg some hself.symm)
    · exact Or.inl (h.unarmed_active hn ht)
  · intro m t ht hne
    have hm : ¬ v.loop.counter = m := fun heq => by
      have := h.sound.active_lt ht
      omega
    exact (hactive m).trans ((if_neg hm).trans (h.unarmed_kept hn ht hne))
  · exact fun t ht => hbatch ▸ ht
  · refine ⟨hname, hheard, fun _ => ⟨congrArg some hself.symm, Nat.lt_succ_self _, hfresh, ?_⟩⟩
    intro t ht
    have ht := (hactive _).symm.trans ht
    rw [if_pos rfl] at ht
    cases ht
    rfl
  · intro _ _
    exact ⟨_, (hactive _).trans (if_pos rfl), rfl, v.clock, hheard, Int.le_refl _, rfl⟩

/-- Time, and what a connection notes, without its timer. -/
theorem Kept.noted (h : Kept ex v) (hn : v.seen n = some st) {st' : IdleState}
    (hself : st'.self = st.self) (htimer : st'.idleTimer = st.idleTimer)
    (haw : st.awaited = true → st'.awaited = true) (hheard : st'.lastActivity ≤ v.clock) :
    Kept (fun m => ex m ∨ m = n) (v.set n st') := by
  obtain ⟨hname, -, hsane⟩ := h.sane n st hn
  refine h.turn (s := v.loop) hn ⟨h.sound, rfl, Nat.le_refl _, ?_, ?_, ?_, rfl, ?_⟩
    (fun m _ he => Or.inl he) fun hn' => absurd (Or.inr rfl) hn'
  · intro m t ht
    by_cases hcallback : t.callback = n
    · right
      refine ⟨Or.inl ht, ?_⟩
      rcases h.active m t ht with ⟨-, hnone⟩ | ⟨hm, hpos, hr, -⟩
      · rw [hcallback, hn] at hnone
        cases hnone
      · obtain ⟨haw', htimer', -⟩ := h.own hn ht hcallback
        exact ⟨hm, hpos, hr, st', if_pos hcallback, haw haw', htimer.trans htimer'⟩
    · exact Or.inl ⟨ht, hcallback⟩
  · exact fun m t ht _ => ht
  · exact fun t ht => ht
  · refine ⟨hself.trans hname, hheard, ?_⟩
    rw [htimer]
    exact hsane

theorem Kept.elapsed (h : Kept ex v) (d : Nat) : Kept ex { v with clock := v.clock + d } := by
  have hlater : v.clock ≤ v.clock + d := by simp
  refine { h with sane := fun n st hn => ?_, timed := fun n st hex hn haw => ?_ }
  · obtain ⟨hname, hheard, htimer⟩ := h.sane n st hn
    exact ⟨hname, hheard.trans hlater, htimer⟩
  · obtain ⟨t, hact, hcallback, armed, hlast, hnow, hexpiration⟩ := h.timed n st hex hn haw
    exact ⟨t, hact, hcallback, armed, hlast, hnow.trans hlater, hexpiration⟩

theorem set_same (hn : v.seen n = some st) : v.set n st = v := by
  have hseen : (fun m => if m = n then some st else v.seen m) = v.seen := by
    funext m
    split
    · rename_i hm
      rw [hm, hn]
    · rfl
  rw [set, hseen]

/-- The timer of a connection leaves the batch, and its callback is about to run. -/
theorem Kept.firing (h : Kept ex v) {currentTime : Timestamp} {t : Timer Nat} {rest : List (Timer Nat)}
    {running : Option Nat} (hphase : v.loop.phase = .handleExpired currentTime (t :: rest) running)
    (hn : v.seen t.callback = some st) {s : TimerLoop Nat} (hs : v.loop.step .runNext = some s) :
    Kept (fun m => ex m ∨ m = t.callback) { v with loop := s.forget } := by
  have hsound := (TimerLoop.sound_step h.sound hs).forget
  have hbatch : v.loop.batch = t :: rest := by rw [TimerLoop.batch, hphase]
  have htaken := h.batch t (by rw [hbatch]; exact List.mem_cons_self ..)
  simp only [TimerLoop.step, hphase] at hs
  cases hs
  obtain ⟨hname, hheard, htimer⟩ := h.sane _ st hn
  obtain ⟨-, hr, -, hu⟩ := htaken.resolve_left fun hf => by
    have := hf.2
    rw [hn] at this
    cases this
  have hactive : ∀ m, (v.loop.queue.beforeRun currentTime t).activeTimers[m]? =
      if t.sequence = m then none else v.loop.queue.activeTimers[m]? := by
    intro m
    rw [TimerLoop.beforeRun_active, hr]
    rfl
  have hself : (v.loop.queue.beforeRun currentTime t).self = v.loop.queue.self := by
    rw [TimerQueue.beforeRun, hr]
    rfl
  have hold : ∀ (m : Nat) (u : Timer Nat), (v.loop.queue.beforeRun currentTime t).activeTimers[m]? = some u →
      v.loop.queue.activeTimers[m]? = some u := by
    intro m u hact
    rw [hactive m] at hact
    split at hact
    · cases hact
    · exact hact
  refine (set_same (v := { v with loop := TimerLoop.forget _ }) hn) ▸ h.turn hn ⟨hsound, hself, Nat.le_refl _,
    ?_, ?_, ?_, rfl, ?_⟩ (fun m _ he => Or.inl he) fun hn' => absurd (Or.inr rfl) hn'
  · intro m u hact
    have hact := hold m u hact
    by_cases hcallback : u.callback = t.callback
    · right
      refine ⟨Or.inl hact, ?_⟩
      rcases h.active m u hact with ⟨-, hnone⟩ | ⟨hm, hpos, hru, -⟩
      · rw [hcallback, hn] at hnone
        cases hnone
      · obtain ⟨haw, hid, -⟩ := h.own hn hact hcallback
        refine ⟨hm, hpos, hru, st, if_pos hcallback, haw, ?_⟩
        rw [hid]
        exact congrArg _ (congrArg some hself.symm)
    · exact Or.inl ⟨hact, hcallback⟩
  · intro m u hact hne
    have hm : ¬ t.sequence = m := fun heq => hne (hu u (heq ▸ hact))
    exact (hactive m).trans ((if_neg hm).trans hact)
  · intro u hin
    rw [hbatch]
    exact List.mem_cons_of_mem _ hin
  · refine ⟨hname, hheard, fun hv => ?_⟩
    obtain ⟨ho, hlt, hm, hcallback⟩ := htimer hv
    exact ⟨ho.trans (congrArg some hself.symm), hlt, hm, fun u hact => hcallback u (hold _ u hact)⟩

def Free (v : IdleTable) (n : Nat) : Prop :=
  (∀ t ∈ v.loop.timers, t.callback ≠ n) ∧ ∀ p ∈ v.loop.queue.activeTimers.toList, p.2.callback ≠ n

instance (v : IdleTable) (n : Nat) : Decidable (v.Free n) := inferInstanceAs (Decidable (_ ∧ _))

def add (v : IdleTable) (n : Nat) : IdleTable :=
  { v.set n { self := n, lastActivity := v.clock } with addresses := n :: v.addresses }

theorem Kept.added (h : Kept ex v) (hn : v.seen n = none) (hfree : v.Free n) : Kept ex (v.add n) := by
  have hother : ∀ m, m ≠ n → (v.add n).seen m = v.seen m := fun m hm => if_neg hm
  have hactive : ∀ (m : Nat) (t : Timer Nat), v.loop.queue.activeTimers[m]? = some t → t.callback ≠ n := fun m t ht =>
    hfree.2 (m, t) (Std.TreeMap.mem_toList_iff_getElem?_eq_some.mpr ht)
  have hkept : ∀ (m : Nat) (t : Timer Nat), t.callback ≠ n → v.Foreign m t → (v.add n).Foreign m t :=
    fun m t hne hf => ⟨hf.1, (hother _ hne).trans hf.2⟩
  constructor
  · exact h.sound
  · exact h.positive
  · exact h.handed
  · intro m
    by_cases hm : m = n
    · rw [hm]
      simp [add, set]
    · show ((v.add n).seen m).isSome = true ↔ m ∈ n :: v.addresses
      rw [hother m hm, h.known m, List.mem_cons]
      exact ⟨Or.inr, fun hin => hin.resolve_left hm⟩
  · refine List.nodup_cons.mpr ⟨fun hin => ?_, h.nodup⟩
    rw [← h.known n, hn] at hin
    cases hin
  · intro m st hst
    by_cases hm : m = n
    · rw [hm] at hst ⊢
      have heq : ({ self := n, lastActivity := v.clock } : IdleState) = st :=
        Option.some.inj ((if_pos rfl).symm.trans hst)
      rw [← heq]
      exact ⟨rfl, Int.le_refl _, fun hv => absurd hv (by simp [TimerId.valid])⟩
    · obtain ⟨hself, hheard, htimer⟩ := h.sane m st ((hother m hm).symm.trans hst)
      exact ⟨hself, hheard, htimer⟩
  · intro m t ht
    have hne := hactive m t ht
    rcases h.active m t ht with hf | ⟨hm, hpos, hr, st, hst, hrest⟩
    · exact Or.inl (hkept m t hne hf)
    · exact Or.inr ⟨hm, hpos, hr, st, (hother _ hne).trans hst, hrest⟩
  · intro t ht
    have hne := hfree.1 t (List.mem_append_left _ ht)
    rcases h.batch t ht with hf | ⟨hm, hr, hs, hu⟩
    · exact Or.inl (hkept _ t hne hf)
    · exact Or.inr ⟨hm, hr, (congrArg Option.isSome (hother _ hne)).trans hs, hu⟩
  · intro task htask
    have hp := h.posted task htask
    cases task with
    | insertInLoop t =>
      refine hkept _ t (hfree.1 t ?_) hp
      refine List.mem_append_right _ (List.mem_append_right _ ?_)
      exact List.mem_filterMap.mpr ⟨_, htask, rfl⟩
    | cancelInLoop timerId => exact hp
  · intro m st hm hst haw
    by_cases hmn : m = n
    · rw [hmn] at hst
      have heq : ({ self := n, lastActivity := v.clock } : IdleState) = st :=
        Option.some.inj ((if_pos rfl).symm.trans hst)
      rw [← heq] at haw
      cases haw
    · exact h.timed m st hm ((hother m hmn).symm.trans hst) haw

/-! ## The timers that are there -/

/-- Of these timers each connection that waits has one, and no other connection has any. -/
structure Matches (v : IdleTable) (ts : List (Timer Nat)) : Prop where
  awaited : ∀ n st, v.seen n = some st → st.awaited = true →
    ∃ t, ts.filter (fun t => t.callback = n) = [t] ∧ v.Since st t
  other : ∀ n st, v.seen n = some st → st.awaited = false →
    ts.filter (fun t => t.callback = n) = []
  size : ts.length = v.addresses.countP (fun n => (v.seen n).any IdleState.awaited) +
    ts.countP fun t => !decide (t.callback ∈ v.addresses)

theorem countP_mem_cons {ts : List (Timer Nat)} {n : Nat} {ns : List Nat} (hn : n ∉ ns) :
    ts.countP (fun t => decide (t.callback ∈ n :: ns)) =
      ts.countP (fun t => t.callback = n) + ts.countP fun t => decide (t.callback ∈ ns) := by
  induction ts with
  | nil => rfl
  | cons t ts ih =>
    rw [List.countP_cons, List.countP_cons, List.countP_cons, ih]
    by_cases ht : t.callback = n
    · have hout : t.callback ∉ ns := ht ▸ hn
      simp [ht, hn]
      omega
    · simp [ht]
      omega

theorem countP_addresses {ts : List (Timer Nat)} (p : Nat → Bool) {ns : List Nat} (hns : ns.Nodup)
    (h : ∀ n ∈ ns, ts.countP (fun t => t.callback = n) = if p n then 1 else 0) :
    ts.countP (fun t => decide (t.callback ∈ ns)) = ns.countP p := by
  induction ns with
  | nil => simp
  | cons n ns ih =>
    obtain ⟨hn, hns⟩ := List.nodup_cons.mp hns
    obtain ⟨hone, hrest⟩ := List.forall_mem_cons.mp h
    rw [countP_mem_cons hn, ih hns hrest, hone, List.countP_cons]
    omega

theorem Kept.matches (h : Kept (fun _ => False) v) {ts : List (Timer Nat)}
    (hmem : ∀ t, t ∈ ts ↔ ∃ m : Nat, v.loop.queue.activeTimers[m]? = some t)
    (hnodup : (ts.map Timer.sequence).Nodup) : v.Matches ts := by
  have hnone : ∀ n st, v.seen n = some st → st.awaited = false →
      ts.filter (fun t => t.callback = n) = [] := by
    intro n st hn haw
    rw [List.filter_eq_nil_iff]
    intro t ht hcallback
    obtain ⟨m, hact⟩ := (hmem t).mp ht
    have := (h.own hn hact (by simpa using hcallback)).1
    rw [haw] at this
    cases this
  have hone : ∀ n st, v.seen n = some st → st.awaited = true →
      ∃ t, ts.filter (fun t => t.callback = n) = [t] ∧ v.Since st t := by
    intro n st hn haw
    obtain ⟨t, hact, hcallback, hsince⟩ := h.timed n st not_false hn haw
    refine ⟨t, ?_, hsince⟩
    rw [← List.perm_singleton, List.perm_ext_iff_of_nodup (hnodup.of_map _ |>.filter _) (List.nodup_singleton t)]
    intro u
    rw [List.mem_filter, List.mem_singleton, hmem]
    constructor
    · rintro ⟨⟨m, hu⟩, hcallback'⟩
      have hid := (h.own hn hu (by simpa using hcallback')).2.1
      rw [hid] at hact
      exact Option.some.inj (hu.symm.trans hact)
    · rintro rfl
      exact ⟨⟨_, hact⟩, by simpa using hcallback⟩
  refine ⟨hone, hnone, ?_⟩
  have hcount : ts.countP (fun t => decide (t.callback ∈ v.addresses)) =
      v.addresses.countP fun n => (v.seen n).any IdleState.awaited :=
    countP_addresses _ h.nodup fun n hn => ?_
  · rw [← hcount, List.length_eq_countP_add_countP fun t => decide (t.callback ∈ v.addresses)]
    congr 1
    apply List.countP_congr
    simp
  · obtain ⟨st, hst⟩ := Option.isSome_iff_exists.mp ((h.known n).mpr hn)
    rw [List.countP_eq_length_filter, hst]
    cases haw : st.awaited with
    | true =>
      obtain ⟨t, ht, -⟩ := hone n st hst haw
      rw [ht]
      simp [haw]
    | false =>
      rw [hnone n st hst haw]
      simp [haw]

/-- At every time the index of the queue matches the connections. -/
theorem Kept.matches_active (h : Kept (fun _ => False) v) :
    v.Matches (v.loop.queue.activeTimers.toList.map Prod.snd) := by
  apply h.matches
  · intro t
    simp only [List.mem_map, Prod.exists, exists_eq_right, Std.TreeMap.mem_toList_iff_getElem?_eq_some]
  · have hkeys : (v.loop.queue.activeTimers.toList.map Prod.snd).map Timer.sequence =
        v.loop.queue.activeTimers.toList.map Prod.fst := by
      rw [List.map_map]
      apply List.map_congr_left
      rintro ⟨m, t⟩ hin
      exact h.sound.exact.named m t (Std.TreeMap.mem_toList_iff_getElem?_eq_some.mp hin)
    rw [hkeys, Std.TreeMap.map_fst_toList_eq_keys]
    exact Std.TreeMap.nodup_keys

/-- Between two rounds its set does, too. -/
theorem Kept.matches_entries (h : Kept (fun _ => False) v) (hidle : v.loop.phase = .idle) :
    v.Matches (v.loop.queue.entries.map Entry.timer) := by
  have hcoherent := h.sound.coherent hidle
  apply h.matches
  · intro t
    rw [List.mem_map]
    constructor
    · rintro ⟨e, he, rfl⟩
      exact ⟨e.sequence, h.sound.exact.active e he⟩
    · rintro ⟨m, ht⟩
      obtain ⟨e, he, -, rfl⟩ := (hcoherent.same m t).mp ht
      exact ⟨e, he, rfl⟩
  · have hseq : (v.loop.queue.entries.map Entry.timer).map Timer.sequence = v.loop.queue.sequences := by
      rw [List.map_map]
      exact List.map_congr_left fun e he => (hcoherent.key e he).2.symm
    rw [hseq]
    exact hcoherent.once

end IdleTable

end Myself
