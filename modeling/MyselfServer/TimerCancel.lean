import MyselfServer.TimerLoop

/-!
# Cancelled timers

A batch that `handleExpiredTimers` has taken is out of reach of `cancel`:
what it holds is run. As long as no cancel is for such a timer, a cancelled
timer is gone from the queue and never runs again.
-/

namespace Myself

open Machine

variable {κ : Type}

/-! ## The log -/

namespace TimerLoop

theorem cancelled_append {log : List TimerNote} {x : TimerNote} {n : Nat} :
    Cancelled (log ++ [x]) n ↔ Cancelled log n ∨ x = .cancelled n ∧ .inserted n ∈ log := by
  constructor
  · rintro ⟨before, after, h, hin⟩
    rcases List.eq_nil_or_concat after with rfl | ⟨after, y, rfl⟩
    · obtain ⟨rfl, hx⟩ := List.append_inj' h rfl
      simp only [List.cons.injEq, and_true] at hx
      exact Or.inr ⟨hx, hin⟩
    · rw [List.concat_eq_append, ← List.cons_append, ← List.append_assoc] at h
      exact Or.inl ⟨before, after, (List.append_inj' h rfl).1, hin⟩
  · rintro (⟨before, after, rfl, hin⟩ | ⟨rfl, hin⟩)
    · exact ⟨before, after ++ [x], by simp, hin⟩
    · exact ⟨log, [], rfl, hin⟩

theorem Cancelled.inserted {log : List TimerNote} {n : Nat} (h : Cancelled log n) :
    .inserted n ∈ log := by
  obtain ⟨before, after, rfl, hin⟩ := h
  exact List.mem_append_left _ hin

theorem NeverAgain.append {log : List TimerNote} {x : TimerNote} (h : NeverAgain log)
    (hx : ∀ n, x = .started n → ¬ Cancelled log n) : NeverAgain (log ++ [x]) := by
  intro n before after heq hin
  rcases List.eq_nil_or_concat after with rfl | ⟨after, y, rfl⟩
  · exact List.not_mem_nil
  · rw [List.concat_eq_append, ← List.cons_append, ← List.append_assoc] at heq
    obtain ⟨hlog, hy⟩ := List.append_inj' heq rfl
    simp only [List.cons.injEq, and_true] at hy
    rw [List.concat_eq_append, List.mem_append, List.mem_singleton]
    rintro (hm | hm)
    · exact h n before after hlog hin hm
    · exact hx n (hy.trans hm.symm) ⟨before, after, hlog, hin⟩

end TimerLoop

/-! ## The queue -/

namespace TimerQueue

def sequences (q : TimerQueue κ) : List Nat := q.entries.map Entry.sequence

/-- What the queue keeps to while the given timers are in a batch: an entry
is there once, under the time of its timer, and its timer is active. -/
structure WF (q : TimerQueue κ) (batch : List Nat) : Prop where
  active : ∀ e ∈ q.entries, q.activeTimers[e.sequence]? = some e.timer
  key : ∀ e ∈ q.entries, e.timer.sequence = e.sequence ∧ e.timer.expiration = e.when
  nodup : (batch ++ q.sequences).Nodup

theorem mem_sequences {q : TimerQueue κ} {n : Nat} :
    n ∈ q.sequences ↔ ∃ e ∈ q.entries, e.sequence = n := List.mem_map

theorem insertInLoop_perm {q : TimerQueue κ} {t : Timer κ} (h : t.sequence ∉ q.sequences) :
    (q.insertInLoop t).entries.Perm (⟨t.expiration, t.sequence, t⟩ :: q.entries) := by
  apply insertEntry_perm
  intro x hx heq
  exact h (mem_sequences.mpr ⟨x, hx, heq⟩)

theorem WF.insertInLoop {q : TimerQueue κ} {batch : List Nat} {t : Timer κ} (h : q.WF batch)
    (hb : t.sequence ∉ batch) (he : t.sequence ∉ q.sequences) : (q.insertInLoop t).WF batch := by
  have hperm := insertInLoop_perm he
  constructor
  · intro e hin
    simp only [TimerQueue.insertInLoop, Std.TreeMap.getElem?_insert,
      Std.LawfulEqCmp.compare_eq_iff_eq]
    rcases List.mem_cons.mp (hperm.mem_iff.mp hin) with rfl | hin
    · exact if_pos rfl
    · have hne : ¬ t.sequence = e.sequence := fun heq => he (mem_sequences.mpr ⟨e, hin, heq.symm⟩)
      rw [if_neg hne]
      exact h.active e hin
  · intro e hin
    rcases List.mem_cons.mp (hperm.mem_iff.mp hin) with rfl | hin
    · exact ⟨rfl, rfl⟩
    · exact h.key e hin
  · have hseq : (q.insertInLoop t).sequences.Perm (t.sequence :: q.sequences) :=
      hperm.map Entry.sequence
    have hall : (batch ++ (q.insertInLoop t).sequences).Perm (t.sequence :: (batch ++ q.sequences)) :=
      (hseq.append_left batch).trans List.perm_middle
    rw [hall.nodup_iff, List.nodup_cons, List.mem_append]
    exact ⟨fun hm => hm.elim hb he, h.nodup⟩

/-- Entries only leave the queue in a cancel. -/
theorem cancelInLoop_entries (q : TimerQueue κ) (timerId : TimerId) :
    (q.cancelInLoop timerId).entries.Sublist q.entries := by
  unfold TimerQueue.cancelInLoop
  split
  · exact List.Sublist.refl _
  · split
    · exact List.Sublist.refl _
    · exact List.filter_sublist

theorem WF.cancelled {q : TimerQueue κ} {batch : List Nat} (h : q.WF batch) {timerId : TimerId}
    (ho : timerId.owner = some q.self) :
    Gone (q.cancelInLoop timerId) timerId.sequence := by
  simp only [TimerQueue.cancelInLoop, ho, ne_eq, not_true_eq_false, if_false]
  cases ha : q.activeTimers[timerId.sequence]? with
  | none =>
    refine ⟨?_, ha⟩
    intro e hin heq
    have := h.active e hin
    rw [heq, ha] at this
    cases this
  | some timer =>
    refine ⟨?_, by simp⟩
    intro e hin heq
    obtain ⟨hmem, hne⟩ : e ∈ q.entries ∧ ¬ (e.when = timer.expiration ∧ e.sequence = timer.sequence) :=
      mem_eraseEntry.mp hin
    have hact := h.active e hmem
    rw [heq, ha] at hact
    cases hact
    obtain ⟨hseq, hexp⟩ := h.key e hmem
    exact hne ⟨hexp.symm, hseq.symm⟩

/-- A cancel does not touch the other timers. -/
theorem cancelInLoop_active {q : TimerQueue κ} {timerId : TimerId} {n : Nat}
    (hn : timerId.sequence ≠ n) :
    (q.cancelInLoop timerId).activeTimers[n]? = q.activeTimers[n]? := by
  unfold TimerQueue.cancelInLoop
  split
  · rfl
  · split
    · rfl
    · simp only [Std.TreeMap.getElem?_erase, Std.LawfulEqCmp.compare_eq_iff_eq, if_neg hn]

theorem WF.cancelInLoop {q : TimerQueue κ} {batch : List Nat} (h : q.WF batch)
    (timerId : TimerId) : (q.cancelInLoop timerId).WF batch := by
  have hsub := cancelInLoop_entries q timerId
  constructor
  · intro e hin
    by_cases hn : timerId.sequence = e.sequence
    · by_cases ho : timerId.owner = some q.self
      · exact absurd hn.symm ((h.cancelled ho).1 e hin)
      · simp only [TimerQueue.cancelInLoop, ne_eq, ho, not_false_eq_true, if_true] at hin ⊢
        exact h.active e hin
    · rw [cancelInLoop_active hn]
      exact h.active e (hsub.subset hin)
  · intro e hin
    exact h.key e (hsub.subset hin)
  · exact h.nodup.sublist ((hsub.map Entry.sequence).append_left batch)

theorem WF.takeExpired {q : TimerQueue κ} (h : q.WF []) (currentTime : Timestamp) :
    { q with entries := (TimerQueue.takeExpired currentTime q.entries).2 }.WF
      ((TimerQueue.takeExpired currentTime q.entries).1.map Timer.sequence) ∧
    ∀ n, n ∈ (TimerQueue.takeExpired currentTime q.entries).1.map Timer.sequence ++
      ((TimerQueue.takeExpired currentTime q.entries).2.map Entry.sequence) ↔ n ∈ q.sequences := by
  obtain ⟨due, hes, hdue, -⟩ := takeExpired_split currentTime q.entries
  have hin : ∀ e ∈ (TimerQueue.takeExpired currentTime q.entries).2, e ∈ q.entries := by
    intro e he
    rw [hes]
    exact List.mem_append_right _ he
  have hmap : (TimerQueue.takeExpired currentTime q.entries).1.map Timer.sequence =
      due.map Entry.sequence := by
    rw [hdue, List.map_map]
    apply List.map_congr_left
    intro e he
    exact (h.key e (by rw [hes]; exact List.mem_append_left _ he)).1
  have hseq : q.sequences = due.map Entry.sequence ++
      (TimerQueue.takeExpired currentTime q.entries).2.map Entry.sequence := by
    rw [← List.map_append, ← hes]
    rfl
  rw [hmap]
  refine ⟨⟨fun e he => h.active e (hin e he), fun e he => h.key e (hin e he), ?_⟩, ?_⟩
  · have := h.nodup
    rw [List.nil_append, hseq] at this
    exact this
  · intro n
    rw [← hseq]

theorem WF.beforeRun {q : TimerQueue κ} {batch : List Nat} {t : Timer κ}
    (h : q.WF (t.sequence :: batch)) (currentTime : Timestamp) :
    (q.beforeRun currentTime t).WF batch ∧
      ∀ n, n ∈ (q.beforeRun currentTime t).sequences → n = t.sequence ∨ n ∈ q.sequences := by
  have hnodup := h.nodup
  rw [List.cons_append, List.nodup_cons, List.mem_append, not_or] at hnodup
  obtain ⟨⟨hb, he⟩, hrest⟩ := hnodup
  have hwf : q.WF batch := ⟨h.active, h.key, hrest⟩
  unfold TimerQueue.beforeRun
  split
  · rename_i hr
    have hseq : (t.restart currentTime).sequence = t.sequence := by simp [Timer.restart, hr]
    refine ⟨hwf.insertInLoop (by rw [hseq]; exact hb) (by rw [hseq]; exact he), ?_⟩
    intro n hn
    have hperm := (insertInLoop_perm (t := t.restart currentTime) (by rw [hseq]; exact he)).map
      Entry.sequence
    have hmem := hperm.mem_iff.mp hn
    rw [List.map_cons, List.mem_cons, hseq] at hmem
    exact hmem
  · refine ⟨⟨?_, h.key, hrest⟩, fun n hn => Or.inr hn⟩
    intro e hin
    have hne : ¬ t.sequence = e.sequence := fun heq => he (mem_sequences.mpr ⟨e, hin, heq.symm⟩)
    simp only [Std.TreeMap.getElem?_erase, Std.LawfulEqCmp.compare_eq_iff_eq, if_neg hne]
    exact h.active e hin

/-! ## Timers that are gone -/

theorem gone_insertInLoop {q : TimerQueue κ} {t : Timer κ} {n : Nat} (h : Gone q n)
    (ht : t.sequence ∉ q.sequences) (hn : t.sequence ≠ n) :
    Gone (q.insertInLoop t) n := by
  constructor
  · intro e hin
    rcases List.mem_cons.mp ((insertInLoop_perm ht).mem_iff.mp hin) with rfl | hin
    · exact hn
    · exact h.1 e hin
  · simp only [TimerQueue.insertInLoop, Std.TreeMap.getElem?_insert,
      Std.LawfulEqCmp.compare_eq_iff_eq, if_neg hn]
    exact h.2

theorem gone_cancelInLoop {q : TimerQueue κ} {n : Nat} (h : Gone q n)
    (timerId : TimerId) : Gone (q.cancelInLoop timerId) n := by
  refine ⟨fun e hin => h.1 e ((cancelInLoop_entries q timerId).subset hin), ?_⟩
  unfold TimerQueue.cancelInLoop
  split
  · exact h.2
  · split
    · exact h.2
    · simp only [Std.TreeMap.getElem?_erase]
      split
      · rfl
      · exact h.2

theorem gone_beforeRun {q : TimerQueue κ} {t : Timer κ} {n : Nat} (h : Gone q n)
    (ht : t.sequence ∉ q.sequences) (hn : t.sequence ≠ n) (currentTime : Timestamp) :
    Gone (q.beforeRun currentTime t) n := by
  unfold TimerQueue.beforeRun
  split
  · rename_i hr
    have hseq : (t.restart currentTime).sequence = t.sequence := by simp [Timer.restart, hr]
    exact gone_insertInLoop h (by rw [hseq]; exact ht) (by rw [hseq]; exact hn)
  · refine ⟨h.1, ?_⟩
    simp only [Std.TreeMap.getElem?_erase]
    split
    · rfl
    · exact h.2

end TimerQueue

/-! ## Runs of the loop -/

namespace TimerLoop

def batchSequences (s : TimerLoop κ) : List Nat := s.batch.map Timer.sequence

def posted (tasks : List (TimerTask κ)) : List Nat :=
  tasks.filterMap fun
    | .insertInLoop timer => some timer.sequence
    | .cancelInLoop _ => none

structure Inv (s : TimerLoop κ) : Prop where
  wf : s.queue.WF s.batchSequences
  known : ∀ n, n ∈ s.batchSequences ++ s.queue.sequences → .inserted n ∈ s.log
  below : ∀ n, .inserted n ∈ s.log → n < s.counter
  nodup : (posted s.pendingFunctors).Nodup
  fresh : ∀ n ∈ posted s.pendingFunctors, n < s.counter ∧ .inserted n ∉ s.log
  gone : ∀ n, Cancelled s.log n → s.queue.Gone n ∧ n ∉ s.batchSequences
  again : NeverAgain s.log

theorem inv_init (self : Nat) : Inv (init self : TimerLoop κ) where
  wf := ⟨by simp [init], by simp [init], by simp [init, batchSequences, batch, TimerQueue.sequences]⟩
  known := by simp [init, batchSequences, batch, TimerQueue.sequences]
  below := by simp [init]
  nodup := List.nodup_nil
  fresh := by simp [init, posted]
  gone := by
    rintro n ⟨before, after, h, -⟩
    simp [init] at h
  again := by
    rintro n before after h
    simp [init] at h

theorem Inv.insertInLoop {s : TimerLoop κ} (h : Inv s) {t : Timer κ}
    (hlog : .inserted t.sequence ∉ s.log) (hlt : t.sequence < s.counter)
    (hpost : t.sequence ∉ posted s.pendingFunctors) : Inv (s.insertInLoop t) := by
  have hnew : t.sequence ∉ s.batchSequences ++ s.queue.sequences := fun hm => hlog (h.known _ hm)
  rw [List.mem_append, not_or] at hnew
  have hother : ∀ n, TimerNote.inserted n ∈ s.log → t.sequence ≠ n :=
    fun n hn heq => hlog (heq ▸ hn)
  have hwas : ∀ n, Cancelled (s.log ++ [.inserted t.sequence]) n → Cancelled s.log n := by
    intro n hn
    rcases cancelled_append.mp hn with hn | ⟨hn, -⟩
    · exact hn
    · cases hn
  constructor
  · exact h.wf.insertInLoop hnew.1 hnew.2
  · intro n hn
    simp only [TimerLoop.insertInLoop, List.mem_append, List.mem_singleton]
    rcases List.mem_append.mp hn with hn | hn
    · exact Or.inl (h.known n (List.mem_append_left _ hn))
    · have := ((TimerQueue.insertInLoop_perm hnew.2).map Entry.sequence).mem_iff.mp hn
      rcases List.mem_cons.mp this with rfl | hn
      · exact Or.inr rfl
      · exact Or.inl (h.known n (List.mem_append_right _ hn))
  · intro n hn
    simp only [TimerLoop.insertInLoop, List.mem_append, List.mem_singleton,
      TimerNote.inserted.injEq] at hn
    rcases hn with hn | rfl
    · exact h.below n hn
    · exact hlt
  · exact h.nodup
  · intro n hn
    obtain ⟨hc, hl⟩ := h.fresh n hn
    refine ⟨hc, ?_⟩
    simp only [TimerLoop.insertInLoop, List.mem_append, List.mem_singleton,
      TimerNote.inserted.injEq]
    rintro (hm | rfl)
    · exact hl hm
    · exact hpost hn
  · intro n hn
    obtain ⟨hg, hb⟩ := h.gone n (hwas n hn)
    exact ⟨TimerQueue.gone_insertInLoop hg hnew.2 (hother n (hwas n hn).inserted), hb⟩
  · exact h.again.append fun n hx => nomatch hx

theorem Inv.cancelInLoop {s : TimerLoop κ} (h : Inv s) {timerId : TimerId}
    (hb : timerId.owner = some s.queue.self → timerId.sequence ∉ s.batchSequences) :
    Inv (s.cancelInLoop timerId) := by
  have hsub := (TimerQueue.cancelInLoop_entries s.queue timerId).map Entry.sequence
  have hins : ∀ n, TimerNote.inserted n ∈ (s.cancelInLoop timerId).log ↔ .inserted n ∈ s.log := by
    intro n
    simp only [TimerLoop.cancelInLoop]
    split
    · simp
    · rfl
  constructor
  · exact h.wf.cancelInLoop timerId
  · intro n hn
    rw [hins]
    rcases List.mem_append.mp hn with hn | hn
    · exact h.known n (List.mem_append_left _ hn)
    · exact h.known n (List.mem_append_right _ (hsub.subset hn))
  · intro n hn
    exact h.below n ((hins n).mp hn)
  · exact h.nodup
  · intro n hn
    rw [hins]
    exact h.fresh n hn
  · intro n hn
    simp only [TimerLoop.cancelInLoop] at hn
    have hcase : Cancelled s.log n ∨ timerId.owner = some s.queue.self ∧ timerId.sequence = n := by
      split at hn
      · rename_i ho
        rcases cancelled_append.mp hn with hn | ⟨hn, -⟩
        · exact Or.inl hn
        · simp only [TimerNote.cancelled.injEq] at hn
          exact Or.inr ⟨ho, hn⟩
      · exact Or.inl hn
    rcases hcase with hn | ⟨ho, rfl⟩
    · obtain ⟨hg, hnb⟩ := h.gone n hn
      exact ⟨TimerQueue.gone_cancelInLoop hg timerId, hnb⟩
    · exact ⟨h.wf.cancelled ho, hb ho⟩
  · simp only [TimerLoop.cancelInLoop]
    split
    · exact h.again.append fun n hx => nomatch hx
    · exact h.again

theorem Inv.runNext {s : TimerLoop κ} (h : Inv s) {currentTime : Timestamp} {t : Timer κ}
    {rest : List (Timer κ)} {running : Option Nat}
    (hp : s.phase = .handleExpired currentTime (t :: rest) running) :
    Inv { s with
      queue := s.queue.beforeRun currentTime t
      phase := .handleExpired currentTime rest (some t.sequence)
      log := s.log ++ [.started t.sequence] } := by
  have hbatch : s.batchSequences = t.sequence :: rest.map Timer.sequence := by
    simp only [batchSequences, batch, hp, List.map_cons]
  have hwf := h.wf
  rw [hbatch] at hwf
  obtain ⟨hwf', hsub⟩ := hwf.beforeRun currentTime
  have hnodup := hwf.nodup
  rw [List.cons_append, List.nodup_cons, List.mem_append, not_or] at hnodup
  have hins : ∀ n, TimerNote.inserted n ∈ s.log ++ [.started t.sequence] ↔ .inserted n ∈ s.log := by
    intro n
    simp
  have hwas : ∀ n, Cancelled (s.log ++ [.started t.sequence]) n → Cancelled s.log n := by
    intro n hn
    rcases cancelled_append.mp hn with hn | ⟨hn, -⟩
    · exact hn
    · cases hn
  constructor
  · exact hwf'
  · intro n hn
    rw [hins]
    apply h.known
    rw [hbatch]
    rcases List.mem_append.mp hn with hn | hn
    · exact List.mem_append_left _ (List.mem_cons_of_mem _ hn)
    · rcases hsub n hn with rfl | hn
      · exact List.mem_append_left _ (List.mem_cons_self ..)
      · exact List.mem_append_right _ hn
  · intro n hn
    exact h.below n ((hins n).mp hn)
  · exact h.nodup
  · intro n hn
    rw [hins]
    exact h.fresh n hn
  · intro n hn
    obtain ⟨hg, hnb⟩ := h.gone n (hwas n hn)
    rw [hbatch, List.mem_cons, not_or] at hnb
    exact ⟨TimerQueue.gone_beforeRun hg hnodup.1.2 (Ne.symm hnb.1) currentTime, hnb.2⟩
  · apply h.again.append
    intro n hx hn
    simp only [TimerNote.started.injEq] at hx
    have hnb := (h.gone n hn).2
    rw [hbatch, ← hx] at hnb
    exact hnb (List.mem_cons_self ..)

theorem posted_append_insert (tasks : List (TimerTask κ)) (t : Timer κ) :
    posted (tasks ++ [.insertInLoop t]) = posted tasks ++ [t.sequence] := by
  simp [posted]

theorem posted_append_cancel (tasks : List (TimerTask κ)) (timerId : TimerId) :
    posted (tasks ++ [.cancelInLoop timerId]) = posted tasks := by
  simp [posted]

theorem Inv.counter {s : TimerLoop κ} (h : Inv s) : Inv { s with counter := s.counter + 1 } where
  wf := h.wf
  known := h.known
  below n hn := Nat.lt_succ_of_lt (h.below n hn)
  nodup := h.nodup
  fresh n hn := ⟨Nat.lt_succ_of_lt (h.fresh n hn).1, (h.fresh n hn).2⟩
  gone := h.gone
  again := h.again

theorem inv_step {s s' : TimerLoop κ} {e : TimerEvent κ} (h : Inv s) (hc : SparesBatch s e)
    (hs : step s e = some s') : Inv s' := by
  cases e with
  | elsewhere =>
    cases hs
    exact h.counter
  | postAddTimer callback when intervalSeconds =>
    cases hs
    have hnot : s.counter ∉ posted s.pendingFunctors :=
      fun hm => Nat.lt_irrefl _ (h.fresh _ hm).1
    refine ⟨h.wf, h.known, h.counter.below, ?_, ?_, h.gone, h.again⟩
    · rw [posted_append_insert]
      refine List.nodup_append.mpr ⟨h.nodup, by simp, ?_⟩
      intro n hn m hm heq
      rw [heq, List.mem_singleton.mp hm] at hn
      exact hnot hn
    · intro n hn
      rw [posted_append_insert, List.mem_append, List.mem_singleton] at hn
      rcases hn with hn | rfl
      · exact h.counter.fresh n hn
      · exact ⟨Nat.lt_succ_self _, fun hm => Nat.lt_irrefl _ (h.below _ hm)⟩
  | postCancel timerId =>
    simp only [step] at hs
    split at hs
    · cases hs
      refine ⟨h.wf, h.known, h.below, ?_, ?_, h.gone, h.again⟩
      · rw [posted_append_cancel]
        exact h.nodup
      · rw [posted_append_cancel]
        exact h.fresh
    · cases hs
      exact h
  | runFunctor =>
    simp only [step] at hs
    split at hs
    · rename_i task rest hp htasks
      cases hs
      have hbatch : s.batchSequences = [] := by simp only [batchSequences, batch, hp, List.map_nil]
      have hnodup := h.nodup
      have hfresh := h.fresh
      rw [htasks] at hnodup hfresh
      cases task with
      | insertInLoop t =>
        have hposted : posted (.insertInLoop t :: rest) = t.sequence :: posted rest := rfl
        rw [hposted, List.nodup_cons] at hnodup
        rw [hposted] at hfresh
        have hrest : Inv { s with pendingFunctors := rest } :=
          ⟨h.wf, h.known, h.below, hnodup.2,
            fun n hn => hfresh n (List.mem_cons_of_mem _ hn), h.gone, h.again⟩
        obtain ⟨hlt, hlog⟩ := hfresh t.sequence (List.mem_cons_self ..)
        exact hrest.insertInLoop hlog hlt hnodup.1
      | cancelInLoop timerId =>
        have hrest : Inv { s with pendingFunctors := rest } :=
          ⟨h.wf, h.known, h.below, hnodup, hfresh, h.gone, h.again⟩
        apply hrest.cancelInLoop
        intro _ hm
        have : timerId.sequence ∈ s.batchSequences := hm
        rw [hbatch] at this
        cases this
    · cases hs
  | addTimer callback when intervalSeconds =>
    simp only [step] at hs
    split at hs
    · cases hs
      apply h.counter.insertInLoop
      · exact fun hm => Nat.lt_irrefl _ (h.below _ hm)
      · exact Nat.lt_succ_self _
      · exact fun hm => Nat.lt_irrefl _ (h.fresh _ hm).1
    · cases hs
  | cancel timerId =>
    simp only [step] at hs
    split at hs
    · cases hs
      split
      · apply h.cancelInLoop
        intro ho hm
        obtain ⟨t, ht, heq⟩ := List.mem_map.mp hm
        exact hc ho t ht heq
      · exact h
    · cases hs
  | handleExpiredTimers currentTime =>
    simp only [step] at hs
    split at hs
    · cases hs
    · rename_i hp
      cases hs
      have hbatch : s.batchSequences = [] := by simp only [batchSequences, batch, hp, List.map_nil]
      have hwf := h.wf
      rw [hbatch] at hwf
      obtain ⟨hwf', hsame⟩ := hwf.takeExpired currentTime
      refine ⟨hwf', ?_, h.below, h.nodup, h.fresh, ?_, h.again⟩
      · intro n hn
        exact h.known n (List.mem_append_right _ ((hsame n).mp hn))
      · intro n hn
        obtain ⟨⟨hg, ha⟩, -⟩ := h.gone n hn
        have hnot : n ∉ s.queue.sequences := by
          intro hm
          obtain ⟨e, he, heq⟩ := TimerQueue.mem_sequences.mp hm
          exact hg e he heq
        rw [← hsame n, List.mem_append, not_or] at hnot
        refine ⟨⟨?_, ha⟩, hnot.1⟩
        intro e he heq
        exact hnot.2 (List.mem_map.mpr ⟨e, he, heq⟩)
  | runNext =>
    simp only [step] at hs
    split at hs
    · rename_i hp
      cases hs
      exact h.runNext hp
    · cases hs
  | finish =>
    simp only [step] at hs
    split at hs
    · rename_i hp
      cases hs
      have hbatch : s.batchSequences = [] := by simp only [batchSequences, batch, hp, List.map_nil]
      have hwf := h.wf
      have hknown := h.known
      have hgone := h.gone
      rw [hbatch] at hwf hknown
      exact ⟨hwf, hknown, h.below, h.nodup, h.fresh,
        fun n hn => ⟨(hgone n hn).1, List.not_mem_nil⟩, h.again⟩
    · cases hs

/-- **A cancelled timer never runs again**, in the runs in which no cancel is
for a timer that `handleExpiredTimers` has taken out and not yet run. -/
theorem cancelled_gone (self : Nat) {s : TimerLoop κ}
    (h : Reached step SparesBatch (init self) s) :
    NeverAgain s.log ∧ (s.phase = .idle → ∀ n, Cancelled s.log n → s.queue.Gone n) := by
  have hinv : Inv s := h.invariant (inv_init self) fun _ _ _ hi hc hs => inv_step hi hc hs
  exact ⟨hinv.again, fun _ n hn => (hinv.gone n hn).1⟩

instance (s : TimerLoop κ) (e : TimerEvent κ) : Decidable (SparesBatch s e) := by
  cases e <;> unfold SparesBatch <;> infer_instance

/-- Both timers are due, and the second one, which repeats, is cancelled
before the loop looks at them. -/
def cancelEarly : List (TimerEvent Unit) :=
  [.addTimer () 1 0, .addTimer () 1 1, .cancel ⟨2, some 7⟩, .handleExpiredTimers 2, .runNext, .finish]

theorem cancelled_gone_early :
    ∃ s : TimerLoop Unit, runIf step SparesBatch (init 7) cancelEarly = some s ∧
      s.log = [.inserted 1, .inserted 2, .cancelled 2, .started 1] ∧ NeverAgain s.log ∧ s.queue.Gone 2 := by
  have hrun : runIf step SparesBatch (init 7) cancelEarly = some _ := rfl
  obtain ⟨hnever, hgone⟩ := cancelled_gone 7 (Reached.of_runIf hrun)
  exact ⟨_, hrun, rfl, hnever, hgone rfl 2 ⟨[.inserted 1, .inserted 2], [.started 1], rfl, by decide⟩⟩

/-- Two timers are due in one call; the callback of the first cancels the
second, which repeats: it runs all the same, and is queued again. -/
theorem cancel_in_batch_runs :
    ∃ s : TimerLoop Unit, Reached step Any (init 7) s ∧ s.phase = .idle ∧ Cancelled s.log 2 ∧
      ¬ NeverAgain s.log ∧ ¬ s.queue.Gone 2 := by
  have hrun : run step (init 7 : TimerLoop Unit)
      [.addTimer () 1 0, .addTimer () 1 1, .handleExpiredTimers 2, .runNext,
        .cancel ⟨2, some 7⟩, .runNext, .finish] = some _ := rfl
  refine ⟨_, Reached.of_run_any hrun, rfl, ?_, ?_, ?_⟩
  · exact ⟨[.inserted 1, .inserted 2, .started 1], [.started 2], rfl, by decide⟩
  · intro h
    exact h 2 [.inserted 1, .inserted 2, .started 1] [.started 2] rfl (by decide) (by decide)
  · intro h
    exact absurd rfl (h.1 _ (List.mem_singleton_self _))

/-! ## The batch -/

/-- The steps of the queue write the log; nothing is taken back. -/
theorem step_batch {s s' : TimerLoop κ} {e : TimerEvent κ} (hs : step s e = some s') :
    ∃ notes, s'.log = s.log ++ notes ∧
      ∀ n ∈ s.batchSequences, .started n ∈ notes ∨ n ∈ s'.batchSequences := by
  cases e with
  | elsewhere => cases hs; exact ⟨[], by simp, fun n hn => Or.inr hn⟩
  | postAddTimer _ _ _ => cases hs; exact ⟨[], by simp, fun n hn => Or.inr hn⟩
  | postCancel timerId =>
    simp only [step] at hs
    split at hs <;> cases hs <;> exact ⟨[], by simp, fun n hn => Or.inr hn⟩
  | runFunctor =>
    simp only [step] at hs
    split at hs
    · rename_i task rest hp _
      cases hs
      have hnone : ∀ n, n ∉ s.batchSequences := by simp [batchSequences, batch, hp]
      cases task with
      | insertInLoop t => exact ⟨[.inserted t.sequence], rfl, fun n hn => absurd hn (hnone n)⟩
      | cancelInLoop timerId =>
        simp only [perform, TimerLoop.cancelInLoop]
        split
        · exact ⟨_, rfl, fun n hn => absurd hn (hnone n)⟩
        · exact ⟨[], by simp, fun n hn => absurd hn (hnone n)⟩
    · cases hs
  | addTimer _ _ _ =>
    simp only [step] at hs
    split at hs
    · cases hs
      exact ⟨_, rfl, fun n hn => Or.inr hn⟩
    · cases hs
  | cancel timerId =>
    simp only [step] at hs
    split at hs
    · cases hs
      split
      · simp only [TimerLoop.cancelInLoop]
        split
        · exact ⟨_, rfl, fun n hn => Or.inr hn⟩
        · exact ⟨[], by simp, fun n hn => Or.inr hn⟩
      · exact ⟨[], by simp, fun n hn => Or.inr hn⟩
    · cases hs
  | handleExpiredTimers _ =>
    simp only [step] at hs
    split at hs
    · cases hs
    · rename_i hp
      cases hs
      refine ⟨[], by simp, ?_⟩
      intro n hn
      simp [batchSequences, batch, hp] at hn
  | runNext =>
    simp only [step] at hs
    split at hs
    · rename_i t rest _ hp
      cases hs
      refine ⟨[.started t.sequence], rfl, ?_⟩
      intro n hn
      have hbatch : s.batchSequences = t.sequence :: rest.map Timer.sequence := by
        simp only [batchSequences, batch, hp, List.map_cons]
      rw [hbatch] at hn
      rcases List.mem_cons.mp hn with rfl | hn
      · exact Or.inl (List.mem_singleton_self _)
      · exact Or.inr hn
    · cases hs
  | finish =>
    simp only [step] at hs
    split at hs
    · rename_i hp
      cases hs
      refine ⟨[], by simp, ?_⟩
      intro n hn
      simp [batchSequences, batch, hp] at hn
    · cases hs

/-- Once taken into a batch, a timer runs before the queue is quiescent again. -/
theorem batch_runs {s s' : TimerLoop κ} (h : Reached step Any s s') (hidle : s'.phase = .idle)
    {n : Nat} (hn : n ∈ s.batchSequences) :
    ∃ notes, s'.log = s.log ++ notes ∧ .started n ∈ notes := by
  have hall : ∃ notes, s'.log = s.log ++ notes ∧
      (.started n ∈ notes ∨ n ∈ s'.batchSequences) := by
    refine h.invariant (I := fun s' => ∃ notes, s'.log = s.log ++ notes ∧
      (.started n ∈ notes ∨ n ∈ s'.batchSequences)) ⟨[], by simp, Or.inr hn⟩ ?_
    rintro s₁ e s₂ ⟨notes, hlog, hin⟩ - hs
    obtain ⟨more, hmore, hb⟩ := step_batch hs
    refine ⟨notes ++ more, by rw [hmore, hlog, List.append_assoc], ?_⟩
    rcases hin with hin | hin
    · exact Or.inl (List.mem_append_left _ hin)
    · exact (hb n hin).imp_left (List.mem_append_right _)
  obtain ⟨notes, hlog, hin⟩ := hall
  refine ⟨notes, hlog, ?_⟩
  rcases hin with hin | hin
  · exact hin
  · simp [batchSequences, batch, hidle] at hin

/-- A cancel for a timer of the batch comes too late: the timer still runs. -/
theorem cancel_in_batch {s s₁ s' : TimerLoop κ} {timerId : TimerId} (hv : timerId.valid = true)
    (ho : timerId.owner = some s.queue.self) (hb : timerId.sequence ∈ s.batchSequences)
    (hin : .inserted timerId.sequence ∈ s.log) (hs : step s (.cancel timerId) = some s₁)
    (h : Reached step Any s₁ s') (hidle : s'.phase = .idle) : ¬ NeverAgain s'.log := by
  simp only [step, hv, if_true] at hs
  split at hs
  · cases hs
    have hb₁ : timerId.sequence ∈ (s.cancelInLoop timerId).batchSequences := hb
    obtain ⟨notes, hlog, hstart⟩ := batch_runs h hidle hb₁
    have hlog₁ : (s.cancelInLoop timerId).log = s.log ++ [.cancelled timerId.sequence] := by
      simp only [TimerLoop.cancelInLoop, ho, if_true]
    rw [hlog₁, List.append_assoc] at hlog
    exact fun hagain => hagain _ _ _ hlog hin hstart
  · cases hs

end TimerLoop

end Myself
