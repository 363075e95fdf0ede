import Mathlib.Data.List.Nodup
import Mathlib.Data.List.Perm.Subperm
import Mathlib.Data.Prod.Lex
import MyselfServer.TimerCancel

/-!
# Whole runs of the timers

The set is ordered by the times at which its entries went in, and a timer is
active exactly while it is in the set or in the batch. From this a call of
`handleExpiredTimers` runs the due timers of the set it finds, in the order of
the set, whatever their callbacks add and cancel, and a timer that does not
repeat runs once.
-/

namespace Myself

open Machine

variable {κ : Type}

/-! ## The order of the set -/

def Entry.key (e : Entry κ) : Timestamp ×ₗ Nat := toLex (e.when, e.sequence)

theorem compare_iff {a b : Entry κ} : EntryCompare a b = true ↔ a.key < b.key := by
  rw [Entry.key, Entry.key, Prod.Lex.toLex_lt_toLex, EntryCompare]
  by_cases hw : a.when = b.when
  · simp [hw]
  · simp [hw]

theorem ordered_insertEntry {e : Entry κ} {xs : List (Entry κ)}
    (h : xs.Pairwise fun x y => x.key < y.key) : (insertEntry e xs).Pairwise fun x y => x.key < y.key := by
  induction xs with
  | nil => exact List.pairwise_singleton _ _
  | cons x xs ih =>
    obtain ⟨hx, hxs⟩ := List.pairwise_cons.mp h
    simp only [insertEntry]
    split
    · rename_i hlt
      refine List.pairwise_cons.mpr ⟨?_, h⟩
      intro y hy
      rcases List.mem_cons.mp hy with rfl | hy
      · exact compare_iff.mp hlt
      · exact (compare_iff.mp hlt).trans (hx y hy)
    · split
      · rename_i hgt
        refine List.pairwise_cons.mpr ⟨?_, ih hxs⟩
        intro y hy
        rcases mem_insertEntry hy with rfl | hy
        · exact compare_iff.mp hgt
        · exact hx y hy
      · exact h

/-- What is taken is what is due: behind the first entry that is not, none is. -/
theorem takeExpired_due {es : List (Entry κ)} (h : es.Pairwise fun x y => x.key < y.key)
    (currentTime : Timestamp) :
    TimerQueue.takeExpired currentTime es =
      ((es.filter fun e => e.when ≤ currentTime).map Entry.timer,
        es.filter fun e => !decide (e.when ≤ currentTime)) := by
  induction es with
  | nil => rfl
  | cons e es ih =>
    obtain ⟨he, hes⟩ := List.pairwise_cons.mp h
    by_cases hw : e.when ≤ currentTime
    · simp [TimerQueue.takeExpired, hw, ih hes]
    · have hlater : ∀ x ∈ es, ¬ x.when ≤ currentTime := by
        intro x hx hle
        have hlt := he x hx
        rw [Entry.key, Entry.key, Prod.Lex.toLex_lt_toLex] at hlt
        rcases hlt with hlt | ⟨heq, -⟩
        · exact hw (le_of_lt (lt_of_lt_of_le hlt hle))
        · exact hw (le_of_eq_of_le heq hle)
      have hnone : es.filter (fun x => decide (x.when ≤ currentTime)) = [] := by
        simpa using hlater
      have hall : es.filter (fun x => !decide (x.when ≤ currentTime)) = es := by
        simpa using hlater
      simp [TimerQueue.takeExpired, hw, hnone, hall]

theorem restart_sequence (t : Timer κ) (currentTime : Timestamp) :
    (t.restart currentTime).sequence = t.sequence := by
  unfold Timer.restart
  split <;> rfl

namespace TimerQueue

structure Exact (q : TimerQueue κ) (batch : List Nat) : Prop extends q.WF batch where
  ordered : q.entries.Pairwise fun x y => x.key < y.key
  named : ∀ (n : Nat) (t : Timer κ), q.activeTimers[n]? = some t → t.sequence = n
  held : ∀ (n : Nat) (t : Timer κ), q.activeTimers[n]? = some t → n ∈ batch ∨ n ∈ q.sequences

theorem mem_insertInLoop_sequences {q : TimerQueue κ} {t : Timer κ} (h : t.sequence ∉ q.sequences)
    {n : Nat} : n ∈ (q.insertInLoop t).sequences ↔ n = t.sequence ∨ n ∈ q.sequences := by
  rw [sequences, ((insertInLoop_perm h).map Entry.sequence).mem_iff, List.map_cons, List.mem_cons]
  rfl

theorem Exact.insertInLoop {q : TimerQueue κ} {batch : List Nat} {t : Timer κ} (h : q.Exact batch)
    (hb : t.sequence ∉ batch) (he : t.sequence ∉ q.sequences) : (q.insertInLoop t).Exact batch where
  toWF := h.toWF.insertInLoop hb he
  ordered := ordered_insertEntry h.ordered
  named n u hu := by
    simp only [TimerQueue.insertInLoop, Std.TreeMap.getElem?_insert,
      Std.LawfulEqCmp.compare_eq_iff_eq] at hu
    split at hu
    · cases hu
      assumption
    · exact h.named n u hu
  held n u hu := by
    rw [mem_insertInLoop_sequences he]
    simp only [TimerQueue.insertInLoop, Std.TreeMap.getElem?_insert,
      Std.LawfulEqCmp.compare_eq_iff_eq] at hu
    split at hu
    · rename_i heq
      exact Or.inr (Or.inl heq.symm)
    · exact (h.held n u hu).imp_right Or.inr

/-- A cancel takes the entry and the active timer of one number, or nothing. -/
theorem cancelInLoop_keeps {q : TimerQueue κ} {timerId : TimerId}
    (hnamed : ∀ (n : Nat) (t : Timer κ), q.activeTimers[n]? = some t → t.sequence = n)
    {n : Nat} {t : Timer κ} (h : (q.cancelInLoop timerId).activeTimers[n]? = some t) :
    q.activeTimers[n]? = some t ∧ (n ∈ q.sequences → n ∈ (q.cancelInLoop timerId).sequences) := by
  unfold TimerQueue.cancelInLoop at h ⊢
  split
  · rename_i ho
    rw [if_pos ho] at h
    exact ⟨h, id⟩
  · rename_i ho
    rw [if_neg ho] at h
    split
    · rename_i ha
      rw [ha] at h
      exact ⟨h, id⟩
    · rename_i timer ha
      simp only [ha, Std.TreeMap.getElem?_erase, Std.LawfulEqCmp.compare_eq_iff_eq] at h
      split at h
      · cases h
      · rename_i hne
        refine ⟨h, fun hn => ?_⟩
        obtain ⟨e, he, rfl⟩ := mem_sequences.mp hn
        refine mem_sequences.mpr ⟨e, mem_eraseEntry.mpr ⟨he, fun heq => ?_⟩, rfl⟩
        exact hne ((hnamed _ _ ha).symm.trans heq.2.symm)

theorem Exact.cancelInLoop {q : TimerQueue κ} {batch : List Nat} (h : q.Exact batch)
    (timerId : TimerId) : (q.cancelInLoop timerId).Exact batch where
  toWF := h.toWF.cancelInLoop timerId
  ordered := h.ordered.sublist (cancelInLoop_entries q timerId)
  named n u hu := h.named n u (cancelInLoop_keeps h.named hu).1
  held n u hu := by
    obtain ⟨hold, hstay⟩ := cancelInLoop_keeps h.named hu
    exact (h.held n u hold).imp_right hstay

theorem Exact.takeExpired {q : TimerQueue κ} (h : q.Exact []) (currentTime : Timestamp) :
    { q with entries := (TimerQueue.takeExpired currentTime q.entries).2 }.Exact
      ((TimerQueue.takeExpired currentTime q.entries).1.map Timer.sequence) where
  toWF := (h.toWF.takeExpired currentTime).1
  ordered := by
    rw [takeExpired_due h.ordered]
    exact h.ordered.filter _
  named := h.named
  held n u hu := by
    have hn : n ∈ q.sequences := (h.held n u hu).resolve_left List.not_mem_nil
    exact List.mem_append.mp (((h.toWF.takeExpired currentTime).2 n).mpr hn)

theorem Exact.beforeRun {q : TimerQueue κ} {batch : List Nat} {t : Timer κ}
    (h : q.Exact (t.sequence :: batch)) (currentTime : Timestamp) :
    (q.beforeRun currentTime t).Exact batch := by
  have hnodup := h.nodup
  rw [List.cons_append, List.nodup_cons, List.mem_append, not_or] at hnodup
  obtain ⟨⟨hb, he⟩, -⟩ := hnodup
  have hwf := (h.toWF.beforeRun currentTime).1
  unfold TimerQueue.beforeRun at hwf ⊢
  split
  · rename_i hr
    rw [if_pos hr] at hwf
    have hseq := restart_sequence t currentTime
    refine ⟨hwf, ordered_insertEntry h.ordered, fun n u hu => ?_, fun n u hu => ?_⟩
    · simp only [TimerQueue.insertInLoop, Std.TreeMap.getElem?_insert,
        Std.LawfulEqCmp.compare_eq_iff_eq] at hu
      split at hu
      · cases hu
        assumption
      · exact h.named n u hu
    · rw [mem_insertInLoop_sequences (hseq ▸ he), hseq]
      simp only [TimerQueue.insertInLoop, Std.TreeMap.getElem?_insert,
        Std.LawfulEqCmp.compare_eq_iff_eq, hseq] at hu
      split at hu
      · rename_i heq
        exact Or.inr (Or.inl heq.symm)
      · rename_i hne
        rcases h.held n u hu with hn | hn
        · exact Or.inl ((List.mem_cons.mp hn).resolve_left fun heq => hne heq.symm)
        · exact Or.inr (Or.inr hn)
  · rename_i hr
    rw [if_neg hr] at hwf
    have hother : ∀ (n : Nat) (u : Timer κ), (q.activeTimers.erase t.sequence)[n]? = some u →
        t.sequence ≠ n ∧ q.activeTimers[n]? = some u := by
      intro n u hu
      simp only [Std.TreeMap.getElem?_erase, Std.LawfulEqCmp.compare_eq_iff_eq] at hu
      split at hu
      · cases hu
      · exact ⟨by assumption, hu⟩
    refine ⟨hwf, h.ordered, fun n u hu => h.named n u (hother n u hu).2, fun n u hu => ?_⟩
    obtain ⟨hne, hu⟩ := hother n u hu
    exact (h.held n u hu).imp_left fun hn => (List.mem_cons.mp hn).resolve_left fun heq => hne heq.symm

end TimerQueue

namespace TimerLoop

/-! ## The timers that are still to run -/

def postedTimers (tasks : List (TimerTask κ)) : List (Timer κ) :=
  tasks.filterMap fun
    | .insertInLoop timer => some timer
    | .cancelInLoop _ => none

def timers (s : TimerLoop κ) : List (Timer κ) :=
  s.batch ++ (s.queue.entries.map Entry.timer ++ postedTimers s.pendingFunctors)

structure Sound (s : TimerLoop κ) : Prop where
  exact : s.queue.Exact s.batchSequences
  nodup : (s.timers.map Timer.sequence).Nodup
  below : ∀ t ∈ s.timers, t.sequence < s.counter
  ran : ∀ n, .started n ∈ s.log → n < s.counter

inductive Effect (s s' : TimerLoop κ) (notes : List TimerNote) : Prop where
  | fewer (hquiet : ∀ n, .started n ∉ notes) (h : s'.timers.Subperm s.timers)
  | added (hquiet : ∀ n, .started n ∉ notes) (t : Timer κ) (ht : t.sequence = s.counter)
      (hc : s'.counter = s.counter + 1) (h : s'.timers.Perm (t :: s.timers))
  | ran (t : Timer κ) (rest : List (Timer κ)) (currentTime : Timestamp)
      (hn : notes = [.started t.sequence]) (ht : s.timers = t :: rest)
      (h : s'.timers.Perm (if t.repeat then t.restart currentTime :: rest else rest))

theorem mem_timers_of_entry {s : TimerLoop κ} {e : Entry κ} (h : e ∈ s.queue.entries) :
    e.timer ∈ s.timers :=
  List.mem_append_right _ (List.mem_append_left _ (List.mem_map_of_mem h))

theorem Sound.sequences_lt {s : TimerLoop κ} (h : Sound s) {n : Nat} (hn : n ∈ s.queue.sequences) :
    n < s.counter := by
  obtain ⟨e, he, rfl⟩ := TimerQueue.mem_sequences.mp hn
  rw [← (h.exact.key e he).1]
  exact h.below _ (mem_timers_of_entry he)

theorem Sound.batch_lt {s : TimerLoop κ} (h : Sound s) {n : Nat} (hn : n ∈ s.batchSequences) :
    n < s.counter := by
  obtain ⟨t, ht, rfl⟩ := List.mem_map.mp hn
  exact h.below t (List.mem_append_left _ ht)

/-- The number of a posted timer is not in the queue yet. -/
theorem Sound.posted_new {s : TimerLoop κ} (h : Sound s) {t : Timer κ} {rest : List (TimerTask κ)}
    (htasks : s.pendingFunctors = .insertInLoop t :: rest) : t.sequence ∉ s.queue.sequences := by
  intro hn
  obtain ⟨e, he, heq⟩ := TimerQueue.mem_sequences.mp hn
  have hposted : postedTimers s.pendingFunctors = t :: postedTimers rest := by
    rw [htasks]
    rfl
  have hnodup := h.nodup
  rw [timers, hposted, List.map_append, List.map_append] at hnodup
  have hqueue := List.nodup_append.mp (List.nodup_append.mp hnodup).2.1
  refine hqueue.2.2 _ (List.mem_map_of_mem (List.mem_map_of_mem he)) t.sequence (by simp) ?_
  rw [(h.exact.key e he).1, heq]

theorem insertInLoop_timers {q : TimerQueue κ} {t : Timer κ} (h : t.sequence ∉ q.sequences) :
    ((q.insertInLoop t).entries.map Entry.timer).Perm (t :: q.entries.map Entry.timer) :=
  (TimerQueue.insertInLoop_perm h).map Entry.timer

theorem cancelInLoop_timers (s : TimerLoop κ) (timerId : TimerId) :
    (s.cancelInLoop timerId).timers.Subperm s.timers :=
  ((((TimerQueue.cancelInLoop_entries s.queue timerId).map Entry.timer).append_right _).append_left
    _).subperm

theorem perm_front {α : Type} {t : α} {xs ys zs us : List α} (h : ys.Perm (t :: zs)) :
    (xs ++ (ys ++ us)).Perm (t :: (xs ++ (zs ++ us))) :=
  ((h.append_right us).append_left xs).trans List.perm_middle

theorem quiet_cancel (s : TimerLoop κ) (timerId : TimerId) :
    ∃ notes, (s.cancelInLoop timerId).log = s.log ++ notes ∧ ∀ n, TimerNote.started n ∉ notes := by
  simp only [TimerLoop.cancelInLoop]
  split
  · exact ⟨_, rfl, by simp⟩
  · exact ⟨[], by simp, by simp⟩

def adds (s : TimerLoop κ) : TimerEvent κ → Option (Timer κ)
  | .addTimer callback when intervalSeconds => some ⟨callback, when, intervalSeconds, s.counter⟩
  | .postAddTimer callback when intervalSeconds => some ⟨callback, when, intervalSeconds, s.counter⟩
  | _ => none

theorem step_adds {s s' : TimerLoop κ} {e : TimerEvent κ} {t : Timer κ} (h : Sound s)
    (ht : adds s e = some t) (hs : step s e = some s') :
    t.sequence = s.counter ∧ s'.counter = s.counter + 1 ∧ s'.timers.Perm (t :: s.timers) ∧
      ∃ notes, s'.log = s.log ++ notes ∧ ∀ n, .started n ∉ notes := by
  cases e with
  | postAddTimer callback when intervalSeconds =>
    cases ht
    cases hs
    refine ⟨rfl, rfl, ?_, [], by simp, by simp⟩
    have hposted : postedTimers (s.pendingFunctors ++
        [.insertInLoop ⟨callback, when, intervalSeconds, s.counter⟩]) =
          postedTimers s.pendingFunctors ++ [⟨callback, when, intervalSeconds, s.counter⟩] := by
      simp [postedTimers]
    rw [timers, hposted, ← List.append_assoc, ← List.append_assoc]
    refine (List.perm_append_singleton _ _).trans ?_
    rw [timers, List.append_assoc]
    exact .refl _
  | addTimer callback when intervalSeconds =>
    cases ht
    simp only [step] at hs
    split at hs
    · cases hs
      exact ⟨rfl, rfl, perm_front (insertInLoop_timers fun hn => Nat.lt_irrefl _ (h.sequences_lt hn)),
        [.inserted s.counter], rfl, by simp⟩
    · cases hs
  | elsewhere => cases ht
  | postCancel _ => cases ht
  | runFunctor => cases ht
  | cancel _ => cases ht
  | handleExpiredTimers _ => cases ht
  | runNext => cases ht
  | finish => cases ht

theorem step_effect {s s' : TimerLoop κ} {e : TimerEvent κ} (h : Sound s) (hs : step s e = some s') :
    s.counter ≤ s'.counter ∧ ∃ notes, s'.log = s.log ++ notes ∧ Effect s s' notes := by
  have hsame : ∀ {s' : TimerLoop κ}, s'.timers = s.timers → s'.timers.Subperm s.timers :=
    fun heq => heq ▸ List.Subperm.refl _
  have hadds : ∀ {t : Timer κ}, adds s e = some t →
      s.counter ≤ s'.counter ∧ ∃ notes, s'.log = s.log ++ notes ∧ Effect s s' notes := by
    intro t ht
    obtain ⟨hseq, hc, hperm, notes, hlog, hquiet⟩ := step_adds h ht hs
    exact ⟨hc ▸ Nat.le_succ _, notes, hlog, .added hquiet t hseq hc hperm⟩
  cases e with
  | elsewhere =>
    cases hs
    exact ⟨Nat.le_succ _, [], by simp, .fewer (by simp) (hsame rfl)⟩
  | postAddTimer callback when intervalSeconds =>
    exact hadds rfl
  | postCancel timerId =>
    simp only [step] at hs
    split at hs
    · cases hs
      refine ⟨Nat.le_refl _, [], by simp, .fewer (by simp) (hsame ?_)⟩
      simp [timers, postedTimers, batch]
    · cases hs
      exact ⟨Nat.le_refl _, [], by simp, .fewer (by simp) (hsame rfl)⟩
  | runFunctor =>
    simp only [step] at hs
    split at hs
    · rename_i task rest hp htasks
      cases hs
      have hbatch : s.batch = [] := by simp only [batch, hp]
      cases task with
      | insertInLoop t =>
        have htimers : s.timers = s.queue.entries.map Entry.timer ++ t :: postedTimers rest := by
          rw [timers, hbatch, htasks, List.nil_append]
          rfl
        have hnot := h.posted_new htasks
        refine ⟨Nat.le_refl _, [.inserted t.sequence], rfl, .fewer (by simp) (List.Perm.subperm ?_)⟩
        rw [htimers]
        have hb : (({ s with pendingFunctors := rest } : TimerLoop κ).insertInLoop t).batch = [] := hbatch
        rw [perform, timers, hb, List.nil_append]
        exact ((insertInLoop_timers hnot).append_right _).trans List.perm_middle.symm
      | cancelInLoop timerId =>
        have htimers : ({ s with pendingFunctors := rest } : TimerLoop κ).timers = s.timers := by
          rw [timers, timers, htasks]
          rfl
        obtain ⟨notes, hlog, hquiet⟩ := quiet_cancel { s with pendingFunctors := rest } timerId
        refine ⟨Nat.le_refl _, notes, hlog, .fewer hquiet ?_⟩
        rw [← htimers]
        exact cancelInLoop_timers _ timerId
    · cases hs
  | addTimer callback when intervalSeconds =>
    exact hadds rfl
  | cancel timerId =>
    simp only [step] at hs
    split at hs
    · cases hs
      split
      · obtain ⟨notes, hlog, hquiet⟩ := quiet_cancel s timerId
        exact ⟨Nat.le_refl _, notes, hlog, .fewer hquiet (cancelInLoop_timers s timerId)⟩
      · exact ⟨Nat.le_refl _, [], by simp, .fewer (by simp) (hsame rfl)⟩
    · cases hs
  | handleExpiredTimers currentTime =>
    simp only [step] at hs
    split at hs
    · cases hs
    · rename_i hp
      cases hs
      refine ⟨Nat.le_refl _, [], by simp, .fewer (by simp) (hsame ?_)⟩
      obtain ⟨due, hes, hdue, -⟩ := takeExpired_split currentTime s.queue.entries
      have hbatch : s.batch = [] := by simp only [batch, hp]
      have hmap := congrArg (List.map Entry.timer) hes
      rw [List.map_append] at hmap
      rw [timers, timers, hbatch, hmap, List.nil_append, ← hdue, List.append_assoc]
      rfl
  | runNext =>
    simp only [step] at hs
    split at hs
    · rename_i currentTime t rest running hp
      cases hs
      have hbatch : s.batch = t :: rest := by simp only [batch, hp]
      refine ⟨Nat.le_refl _, [.started t.sequence], rfl, .ran t (rest ++
        (s.queue.entries.map Entry.timer ++ postedTimers s.pendingFunctors)) currentTime rfl
          (by rw [timers, hbatch, List.cons_append]) ?_⟩
      by_cases hr : t.repeat = true
      · have hnot : (t.restart currentTime).sequence ∉ s.queue.sequences := by
          have hnodup := h.exact.nodup
          rw [batchSequences, hbatch, List.map_cons, List.cons_append, List.nodup_cons] at hnodup
          rw [restart_sequence]
          exact fun hn => hnodup.1 (List.mem_append_right _ hn)
        rw [if_pos hr]
        simp only [timers, batch, TimerQueue.beforeRun, if_pos hr]
        exact perm_front (insertInLoop_timers hnot)
      · rw [if_neg hr]
        simp only [timers, batch, TimerQueue.beforeRun, if_neg hr]
        exact .refl _
    · cases hs
  | finish =>
    simp only [step] at hs
    split at hs
    · rename_i hp
      cases hs
      refine ⟨Nat.le_refl _, [], by simp, .fewer (by simp) (hsame ?_)⟩
      simp only [timers, batch, hp]
    · cases hs

theorem nodup_of_subperm {α : Type} {xs ys : List α} (h : xs.Subperm ys) (hy : ys.Nodup) : xs.Nodup := by
  obtain ⟨l, hperm, hsub⟩ := h
  exact hperm.nodup_iff.mp (hy.sublist hsub)

theorem map_subperm {α β : Type} {f : α → β} {xs ys : List α} (h : xs.Subperm ys) :
    (xs.map f).Subperm (ys.map f) := by
  obtain ⟨l, hperm, hsub⟩ := h
  exact ⟨l.map f, hperm.map f, hsub.map f⟩

theorem step_exact {s s' : TimerLoop κ} {e : TimerEvent κ} (h : Sound s) (hs : step s e = some s') :
    s'.queue.Exact s'.batchSequences := by
  cases e with
  | elsewhere =>
    cases hs
    exact h.exact
  | postAddTimer callback when intervalSeconds =>
    cases hs
    exact h.exact
  | postCancel timerId =>
    simp only [step] at hs
    split at hs <;> cases hs <;> exact h.exact
  | runFunctor =>
    simp only [step] at hs
    split at hs
    · rename_i task rest hp htasks
      cases hs
      have hbatch : s.batchSequences = [] := by simp only [batchSequences, batch, hp, List.map_nil]
      cases task with
      | insertInLoop t =>
        refine h.exact.insertInLoop ?_ (h.posted_new htasks)
        rw [hbatch]
        exact List.not_mem_nil
      | cancelInLoop timerId => exact h.exact.cancelInLoop timerId
    · cases hs
  | addTimer callback when intervalSeconds =>
    simp only [step] at hs
    split at hs
    · cases hs
      exact h.exact.insertInLoop (fun hn => Nat.lt_irrefl _ (h.batch_lt hn))
        fun hn => Nat.lt_irrefl _ (h.sequences_lt hn)
    · cases hs
  | cancel timerId =>
    simp only [step] at hs
    split at hs
    · cases hs
      split
      · exact h.exact.cancelInLoop timerId
      · exact h.exact
    · cases hs
  | handleExpiredTimers currentTime =>
    simp only [step] at hs
    split at hs
    · cases hs
    · rename_i hp
      cases hs
      have hbatch : s.batchSequences = [] := by simp only [batchSequences, batch, hp, List.map_nil]
      have hexact := h.exact
      rw [hbatch] at hexact
      exact hexact.takeExpired currentTime
  | runNext =>
    simp only [step] at hs
    split at hs
    · rename_i currentTime t rest running hp
      cases hs
      have hbatch : s.batchSequences = t.sequence :: rest.map Timer.sequence := by
        simp only [batchSequences, batch, hp, List.map_cons]
      have hexact := h.exact
      rw [hbatch] at hexact
      exact hexact.beforeRun currentTime
    · cases hs
  | finish =>
    simp only [step] at hs
    split at hs
    · rename_i hp
      cases hs
      have hbatch : s.batchSequences = [] := by simp only [batchSequences, batch, hp, List.map_nil]
      have hexact := h.exact
      rw [hbatch] at hexact
      exact hexact
    · cases hs

theorem sound_init (self : Nat) : Sound (init self : TimerLoop κ) where
  exact := ⟨(inv_init self).wf, .nil, by simp [init], by simp [init]⟩
  nodup := .nil
  below := by simp [init, timers, batch, postedTimers]
  ran := by simp [init]

theorem sound_step {s s' : TimerLoop κ} {e : TimerEvent κ} (h : Sound s) (hs : step s e = some s') :
    Sound s' := by
  obtain ⟨hle, notes, hlog, heffect⟩ := step_effect h hs
  have hexact := step_exact h hs
  have hran : (∀ n, .started n ∈ notes → n < s'.counter) → ∀ n, .started n ∈ s'.log → n < s'.counter := by
    intro hnew n hn
    rw [hlog] at hn
    rcases List.mem_append.mp hn with hn | hn
    · exact Nat.lt_of_lt_of_le (h.ran n hn) hle
    · exact hnew n hn
  have hbelow : ∀ t ∈ s.timers, t.sequence < s'.counter := fun t ht => Nat.lt_of_lt_of_le (h.below t ht) hle
  cases heffect with
  | fewer hquiet hsub =>
    exact ⟨hexact, nodup_of_subperm (map_subperm hsub) h.nodup, fun t ht => hbelow t (hsub.subset ht),
      hran fun n hn => absurd hn (hquiet n)⟩
  | added hquiet t ht hc hperm =>
    refine ⟨hexact, ?_, ?_, hran fun n hn => absurd hn (hquiet n)⟩
    · rw [(hperm.map Timer.sequence).nodup_iff, List.map_cons, List.nodup_cons]
      refine ⟨fun hin => ?_, h.nodup⟩
      obtain ⟨u, hu, heq⟩ := List.mem_map.mp hin
      exact Nat.lt_irrefl _ (ht ▸ heq ▸ h.below u hu)
    · intro u hu
      rcases List.mem_cons.mp (hperm.mem_iff.mp hu) with rfl | hu
      · omega
      · exact hbelow u hu
  | ran t rest now hn ht hperm =>
    have hnodup := h.nodup
    rw [ht] at hnodup hbelow
    have hlt := List.forall_mem_cons.mp hbelow
    refine ⟨hexact, ?_, ?_, hran ?_⟩
    · rw [(hperm.map Timer.sequence).nodup_iff]
      split
      · rw [List.map_cons, restart_sequence]
        exact hnodup
      · exact (List.nodup_cons.mp hnodup).2
    · intro u hu
      have hu := hperm.mem_iff.mp hu
      split at hu
      · rcases List.mem_cons.mp hu with rfl | hu
        · rw [restart_sequence]
          exact hlt.1
        · exact hlt.2 u hu
      · exact hlt.2 u hu
    · intro n hn'
      rw [hn, List.mem_singleton] at hn'
      cases hn'
      exact hlt.1

theorem reached_sound {self : Nat} {s : TimerLoop κ} (h : Reached step Any (init self) s) : Sound s :=
  h.invariant (sound_init self) fun _ _ _ hi _ hs => sound_step hi hs

/-! ## Between the calls -/

structure Coherent (q : TimerQueue κ) : Prop where
  same : ∀ (n : Nat) (t : Timer κ),
    q.activeTimers[n]? = some t ↔ ∃ e ∈ q.entries, e.sequence = n ∧ e.timer = t
  once : q.sequences.Nodup
  key : ∀ e ∈ q.entries, e.when = e.timer.expiration ∧ e.sequence = e.timer.sequence

theorem exact_coherent {q : TimerQueue κ} (h : q.Exact []) : Coherent q where
  same n t := by
    constructor
    · intro ht
      obtain ⟨e, he, rfl⟩ := TimerQueue.mem_sequences.mp ((h.held n t ht).resolve_left List.not_mem_nil)
      have hact := h.active e he
      rw [ht] at hact
      exact ⟨e, he, rfl, (Option.some.inj hact).symm⟩
    · rintro ⟨e, he, rfl, rfl⟩
      exact h.active e he
  once := h.nodup
  key e he := ⟨(h.key e he).2.symm, (h.key e he).1.symm⟩

theorem Sound.coherent {s : TimerLoop κ} (h : Sound s) (hidle : s.phase = .idle) : Coherent s.queue := by
  have hbatch : s.batchSequences = [] := by simp only [batchSequences, batch, hidle, List.map_nil]
  exact exact_coherent (hbatch ▸ h.exact)

/-! ## Timers that do not repeat -/

structure OneShot (n : Nat) (s : TimerLoop κ) : Prop where
  past : n < s.counter
  single : ∀ t ∈ s.timers, t.sequence = n → t.repeat = false
  spent : .started n ∉ s.log ∨ s.log.count (.started n) = 1 ∧ ∀ t ∈ s.timers, t.sequence ≠ n

theorem OneShot.count_le {n : Nat} {s : TimerLoop κ} (h : OneShot n s) :
    s.log.count (.started n) ≤ 1 := by
  rcases h.spent with h | ⟨h, -⟩
  · rw [List.count_eq_zero_of_not_mem h]
    exact Nat.zero_le 1
  · exact Nat.le_of_eq h

theorem oneShot_step {n : Nat} {s s' : TimerLoop κ} {e : TimerEvent κ} (hsound : Sound s)
    (h : OneShot n s) (hs : step s e = some s') : OneShot n s' := by
  obtain ⟨hle, notes, hlog, heffect⟩ := step_effect hsound hs
  have hpast := Nat.lt_of_lt_of_le h.past hle
  cases heffect with
  | fewer hquiet hsub =>
    refine ⟨hpast, fun t ht => h.single t (hsub.subset ht), ?_⟩
    rw [hlog, List.mem_append, List.count_append, List.count_eq_zero_of_not_mem (hquiet n), Nat.add_zero]
    rcases h.spent with hno | ⟨hone, hgone⟩
    · exact Or.inl fun hin => hin.elim hno (hquiet n)
    · exact Or.inr ⟨hone, fun t ht => hgone t (hsub.subset ht)⟩
  | added hquiet t ht hc hperm =>
    have hnew : t.sequence ≠ n := by
      have := h.past
      omega
    refine ⟨hpast, fun u hu => ?_, ?_⟩
    · rcases List.mem_cons.mp (hperm.mem_iff.mp hu) with rfl | hu
      · exact fun heq => absurd heq hnew
      · exact h.single u hu
    · rw [hlog, List.mem_append, List.count_append, List.count_eq_zero_of_not_mem (hquiet n),
        Nat.add_zero]
      rcases h.spent with hno | ⟨hone, hgone⟩
      · exact Or.inl fun hin => hin.elim hno (hquiet n)
      · refine Or.inr ⟨hone, fun u hu => ?_⟩
        rcases List.mem_cons.mp (hperm.mem_iff.mp hu) with rfl | hu
        · exact hnew
        · exact hgone u hu
  | ran t rest now hn ht hperm =>
    have hnodup := hsound.nodup
    have hsingle := h.single
    have hspent := h.spent
    rw [ht] at hnodup hsingle hspent
    rw [List.forall_mem_cons] at hsingle hspent
    rw [List.map_cons, List.nodup_cons] at hnodup
    by_cases heq : t.sequence = n
    · -- it runs for the first time, and is in no other place
      have hrest : ∀ u ∈ s'.timers, u.sequence ≠ n := by
        intro u hu
        rw [hperm.mem_iff, hsingle.1 heq, if_neg Bool.false_ne_true] at hu
        exact fun hun => hnodup.1 (heq ▸ hun ▸ List.mem_map_of_mem hu)
      have hno : .started n ∉ s.log := hspent.resolve_right fun hgone => hgone.2.1 heq
      refine ⟨hpast, fun u hu hun => absurd hun (hrest u hu), Or.inr ⟨?_, hrest⟩⟩
      rw [hlog, hn, heq, List.count_append, List.count_eq_zero_of_not_mem hno, List.count_singleton_self]
    · have hin : ∀ u ∈ s'.timers, u.sequence = n → u ∈ rest := by
        intro u hu hun
        rw [hperm.mem_iff] at hu
        split at hu
        · rcases List.mem_cons.mp hu with rfl | hu
          · exact absurd ((restart_sequence t now).symm.trans hun) heq
          · exact hu
        · exact hu
      have hnot : .started n ∉ notes := by
        rw [hn, List.mem_singleton]
        intro hx
        exact heq (TimerNote.started.inj hx).symm
      refine ⟨hpast, fun u hu hun => hsingle.2 u (hin u hu hun) hun, ?_⟩
      rw [hlog, List.mem_append, List.count_append, List.count_eq_zero_of_not_mem hnot, Nat.add_zero]
      rcases hspent with hno | ⟨hone, hgone⟩
      · exact Or.inl fun hin => hin.elim hno hnot
      · exact Or.inr ⟨hone, fun u hu hun => hgone.2 u (hin u hu hun) hun⟩

theorem oneShot_added {s s' : TimerLoop κ} {e : TimerEvent κ} {t : Timer κ} (h : Sound s)
    (ht : adds s e = some t) (honce : t.repeat = false) (hs : step s e = some s') :
    OneShot t.sequence s' := by
  obtain ⟨hseq, hc, hperm, notes, hlog, hquiet⟩ := step_adds h ht hs
  refine ⟨by omega, fun u hu hun => ?_, Or.inl ?_⟩
  · rcases List.mem_cons.mp (hperm.mem_iff.mp hu) with rfl | hu
    · exact honce
    · have := h.below u hu
      omega
  · rw [hlog, List.mem_append, not_or]
    refine ⟨fun hin => ?_, hquiet _⟩
    have := h.ran _ hin
    omega

theorem oneShot_runs_once {s s₁ s' : TimerLoop κ} {e : TimerEvent κ} {t : Timer κ} (h : Sound s)
    (ht : adds s e = some t) (honce : t.repeat = false) (hs : step s e = some s₁)
    (hrun : Reached step Any s₁ s') : s'.log.count (.started t.sequence) ≤ 1 := by
  have hboth : Sound s' ∧ OneShot t.sequence s' :=
    hrun.invariant (I := fun s => Sound s ∧ OneShot t.sequence s)
      ⟨sound_step h hs, oneShot_added h ht honce hs⟩
      fun _ _ _ hi _ hs => ⟨sound_step hi.1 hs, oneShot_step hi.1 hi.2 hs⟩
  exact hboth.2.count_le

/-! ## One call -/

def due (q : TimerQueue κ) (currentTime : Timestamp) : List (Entry κ) :=
  q.entries.filter fun e => e.when ≤ currentTime

def startedIn (notes : List TimerNote) : List Nat :=
  notes.filterMap fun
    | .started n => some n
    | _ => none

theorem mem_startedIn {notes : List TimerNote} {n : Nat} : n ∈ startedIn notes ↔ .started n ∈ notes := by
  rw [startedIn, List.mem_filterMap]
  constructor
  · rintro ⟨x, hx, hn⟩
    cases x <;> cases hn
    exact hx
  · intro hn
    exact ⟨_, hn, rfl⟩

/-- A call up to some moment: it has begun in the first state and goes on, or has
just ended, in the second. -/
def Call (currentTime : Timestamp) (s s' : TimerLoop κ) : Prop :=
  ∃ s₁, step s (.handleExpiredTimers currentTime) = some s₁ ∧
    Reached step (fun s _ => s.phase ≠ .idle) s₁ s'

/-- What a call does: it runs the due timers, each once and in order, and queues
those that repeat again. -/
structure RunsDue (currentTime : Timestamp) (s s' : TimerLoop κ) (notes : List TimerNote) : Prop where
  log : s'.log = s.log ++ notes
  order : startedIn notes <+: (due s.queue currentTime).map Entry.sequence
  ascending : (due s.queue currentTime).Pairwise fun x y => x.key < y.key
  all : s'.phase = .idle → startedIn notes = (due s.queue currentTime).map Entry.sequence
  added : ∀ n, .inserted n ∈ notes → .started n ∉ notes
  rearmed : ∀ e ∈ due s.queue currentTime, .started e.sequence ∈ notes → e.timer.repeat = true →
    .cancelled e.sequence ∉ notes → ∃ e' ∈ s'.queue.entries, e'.timer = e.timer.restart currentTime ∧
      e'.when = addTime currentTime (secondsToDuration e.timer.intervalSeconds) ∧
      (InClock currentTime e.timer.intervalSeconds →
        e'.when = currentTime + nanoseconds e.timer.intervalSeconds) ∧
      (0 ≤ currentTime → e'.when = currentTime + nanoseconds e.timer.intervalSeconds →
        InClock currentTime e.timer.intervalSeconds)

/-- The state of a call: what of the due timers has run, and that those that repeat
are active under their new times. -/
structure Within (currentTime : Timestamp) (s s' : TimerLoop κ) (notes : List TimerNote)
    (ran rest : List (Timer κ)) : Prop where
  log : s'.log = s.log ++ notes
  split : (due s.queue currentTime).map Entry.timer = ran ++ rest
  phase : s'.phase = .idle ∧ rest = [] ∨ ∃ running, s'.phase = .handleExpired currentTime rest running
  started : startedIn notes = ran.map Timer.sequence
  added : ∀ n, .inserted n ∈ notes → s.counter ≤ n
  counter : s.counter ≤ s'.counter
  active : ∀ t ∈ ran, t.repeat = true → .cancelled t.sequence ∉ notes →
    s'.queue.activeTimers[t.sequence]? = some (t.restart currentTime)

section
variable {currentTime : Timestamp} {s₀ s s' : TimerLoop κ} {notes : List TimerNote}
  {ran rest : List (Timer κ)}

theorem Within.below (h₀ : Sound s₀) (h : Within currentTime s₀ s notes ran rest) {t : Timer κ}
    (ht : t ∈ ran ++ rest) : t.sequence < s₀.counter := by
  rw [← h.split] at ht
  obtain ⟨e, he, rfl⟩ := List.mem_map.mp ht
  exact h₀.below _ (mem_timers_of_entry (List.mem_of_mem_filter he))

theorem Within.nodup (h₀ : Sound s₀) (h : Within currentTime s₀ s notes ran rest) :
    ((ran ++ rest).map Timer.sequence).Nodup := by
  rw [← h.split]
  have hall := h₀.nodup
  rw [timers, List.map_append, List.map_append] at hall
  have hqueue := (List.nodup_append.mp (List.nodup_append.mp hall).2.1).1
  exact hqueue.sublist ((List.filter_sublist.map Entry.timer).map Timer.sequence)

/-- Steps that leave the timers alone that have run. -/
theorem Within.quiet (h : Within currentTime s₀ s notes ran rest) {more : List TimerNote}
    (hlog : s'.log = s.log ++ more) (hphase : s'.phase = s.phase) (hstarted : startedIn more = [])
    (hadded : ∀ n, .inserted n ∈ more → s₀.counter ≤ n) (hcounter : s.counter ≤ s'.counter)
    (hactive : ∀ t ∈ ran, .cancelled t.sequence ∉ more →
      s'.queue.activeTimers[t.sequence]? = s.queue.activeTimers[t.sequence]?) :
    Within currentTime s₀ s' (notes ++ more) ran rest where
  log := by rw [hlog, h.log, List.append_assoc]
  split := h.split
  phase := by
    rw [hphase]
    exact h.phase
  started := by rw [startedIn, List.filterMap_append, ← startedIn, ← startedIn, hstarted, List.append_nil, h.started]
  added n hn := (List.mem_append.mp hn).elim (h.added n) (hadded n)
  counter := Nat.le_trans h.counter hcounter
  active t ht hr hc := by
    rw [List.mem_append, not_or] at hc
    rw [hactive t ht hc.2]
    exact h.active t ht hr hc.1

theorem Within.same (h : Within currentTime s₀ s notes ran rest) (hlog : s'.log = s.log)
    (hphase : s'.phase = s.phase) (hcounter : s.counter ≤ s'.counter) (hqueue : s'.queue = s.queue) :
    Within currentTime s₀ s' (notes ++ []) ran rest :=
  h.quiet (by rw [hlog, List.append_nil]) hphase rfl (by simp) hcounter fun _ _ _ => by rw [hqueue]

theorem Within.cancelInLoop (h : Within currentTime s₀ s notes ran rest) (timerId : TimerId) :
    ∃ notes, Within currentTime s₀ (s.cancelInLoop timerId) notes ran rest := by
  by_cases ho : timerId.owner = some s.queue.self
  · refine ⟨notes ++ [.cancelled timerId.sequence], h.quiet ?_ rfl rfl (by simp) (Nat.le_refl _) ?_⟩
    · simp only [TimerLoop.cancelInLoop, ho, if_true]
    · intro t _ hc
      apply TimerQueue.cancelInLoop_active
      simpa [eq_comm] using hc
  · refine ⟨notes ++ [], h.same ?_ rfl (Nat.le_refl _) ?_⟩
    · simp only [TimerLoop.cancelInLoop, ho, if_false]
    · simp only [TimerLoop.cancelInLoop, TimerQueue.cancelInLoop, ne_eq, ho, not_false_eq_true, if_true]

theorem beforeRun_active (q : TimerQueue κ) (t : Timer κ) (n : Nat) :
    (q.beforeRun currentTime t).activeTimers[n]? =
      if t.sequence = n then if t.repeat then some (t.restart currentTime) else none
      else q.activeTimers[n]? := by
  unfold TimerQueue.beforeRun
  by_cases hr : t.repeat = true
  · simp only [hr, if_true, TimerQueue.insertInLoop, Std.TreeMap.getElem?_insert,
      Std.LawfulEqCmp.compare_eq_iff_eq, restart_sequence]
  · simp only [hr, if_false, Std.TreeMap.getElem?_erase, Std.LawfulEqCmp.compare_eq_iff_eq,
      Bool.false_eq_true]

theorem Within.runNext (h₀ : Sound s₀) {t : Timer κ} (h : Within currentTime s₀ s notes ran (t :: rest)) :
    Within currentTime s₀
      { s with
        queue := s.queue.beforeRun currentTime t
        phase := .handleExpired currentTime rest (some t.sequence)
        log := s.log ++ [.started t.sequence] }
      (notes ++ [.started t.sequence]) (ran ++ [t]) rest where
  log := by rw [h.log, List.append_assoc]
  split := by rw [h.split, List.append_assoc, List.singleton_append]
  phase := Or.inr ⟨_, rfl⟩
  started := by
    rw [startedIn, List.filterMap_append, ← startedIn, h.started, List.map_append]
    rfl
  added n hn := by
    rcases List.mem_append.mp hn with hn | hn
    · exact h.added n hn
    · simp at hn
  counter := h.counter
  active u hu hr hc := by
    have hnodup := h.nodup h₀
    rw [List.map_append, List.map_cons, List.nodup_append] at hnodup
    rw [beforeRun_active]
    rcases List.mem_append.mp hu with hu | hu
    · have hne : u.sequence ≠ t.sequence :=
        hnodup.2.2 _ (List.mem_map_of_mem hu) _ (List.mem_cons_self ..)
      rw [if_neg hne.symm]
      exact h.active u hu hr fun hin => hc (List.mem_append_left _ hin)
    · rw [List.mem_singleton.mp hu] at hr ⊢
      rw [if_pos rfl, if_pos hr]

theorem within_step {e : TimerEvent κ} (h₀ : Sound s₀) (h : Within currentTime s₀ s notes ran rest)
    (hin : s.phase ≠ .idle) (hs : step s e = some s') :
    ∃ notes ran rest, Within currentTime s₀ s' notes ran rest := by
  obtain ⟨running, hp⟩ := h.phase.resolve_left fun hidle => hin hidle.1
  cases e with
  | elsewhere =>
    cases hs
    exact ⟨_, _, _, h.same rfl rfl (Nat.le_succ _) rfl⟩
  | postAddTimer callback when intervalSeconds =>
    cases hs
    exact ⟨_, _, _, h.same rfl rfl (Nat.le_succ _) rfl⟩
  | postCancel timerId =>
    simp only [step] at hs
    split at hs
    · cases hs
      exact ⟨_, _, _, h.same rfl rfl (Nat.le_refl _) rfl⟩
    · cases hs
      exact ⟨_, _, _, h⟩
  | runFunctor =>
    simp only [step, hp] at hs
    cases hs
  | addTimer callback when intervalSeconds =>
    simp only [step] at hs
    split at hs
    · cases hs
      have hlog : (({ s with counter := s.counter + 1 } : TimerLoop κ).insertInLoop
          ⟨callback, when, intervalSeconds, s.counter⟩).log = s.log ++ [.inserted s.counter] := rfl
      refine ⟨_, _, _, h.quiet hlog rfl rfl ?_ (Nat.le_succ _) ?_⟩
      · intro n hn
        rw [List.mem_singleton] at hn
        cases hn
        exact h.counter
      · intro t ht _
        have hlt := Nat.lt_of_lt_of_le (h.below h₀ (List.mem_append_left _ ht)) h.counter
        simp only [TimerLoop.insertInLoop, TimerQueue.insertInLoop, Std.TreeMap.getElem?_insert,
          Std.LawfulEqCmp.compare_eq_iff_eq, if_neg (Nat.ne_of_gt hlt)]
    · cases hs
  | cancel timerId =>
    simp only [step] at hs
    split at hs
    · cases hs
      split
      · obtain ⟨notes, h⟩ := h.cancelInLoop timerId
        exact ⟨_, _, _, h⟩
      · exact ⟨_, _, _, h⟩
    · cases hs
  | handleExpiredTimers now =>
    simp only [step, hp] at hs
    cases hs
  | runNext =>
    cases rest with
    | nil =>
      simp only [step, hp] at hs
      cases hs
    | cons t rest =>
      simp only [step, hp] at hs
      cases hs
      exact ⟨_, _, _, h.runNext h₀⟩
  | finish =>
    cases rest with
    | nil =>
      simp only [step, hp] at hs
      cases hs
      exact ⟨notes, ran, [], { h with phase := Or.inl ⟨rfl, rfl⟩ }⟩
    | cons t rest =>
      simp only [step, hp] at hs
      cases hs

theorem within_start (h₀ : Sound s₀) (hs : step s₀ (.handleExpiredTimers currentTime) = some s) :
    Within currentTime s₀ s [] [] ((due s₀.queue currentTime).map Entry.timer) := by
  simp only [step] at hs
  split at hs
  · cases hs
  · cases hs
    have htaken : (TimerQueue.takeExpired currentTime s₀.queue.entries).1 =
        (due s₀.queue currentTime).map Entry.timer := by
      rw [takeExpired_due h₀.exact.ordered]
      rfl
    exact ⟨by simp, rfl, Or.inr ⟨none, by rw [← htaken]⟩, rfl, by simp, Nat.le_refl _, by simp⟩

theorem Call.within (h₀ : Sound s₀) (h : Call currentTime s₀ s) :
    Sound s ∧ ∃ notes ran rest, Within currentTime s₀ s notes ran rest := by
  obtain ⟨s₁, hs, hrun⟩ := h
  refine hrun.invariant (I := fun s => Sound s ∧ ∃ notes ran rest, Within currentTime s₀ s notes ran rest)
    ⟨sound_step h₀ hs, _, _, _, within_start h₀ hs⟩ ?_
  rintro s e s' ⟨hsound, notes, ran, rest, h⟩ hin hs
  exact ⟨sound_step hsound hs, within_step h₀ h hin hs⟩

theorem Within.runsDue (h₀ : Sound s₀) (hs : Sound s) (h : Within currentTime s₀ s notes ran rest) :
    RunsDue currentTime s₀ s notes := by
  have hkeys : (due s₀.queue currentTime).map Entry.sequence = (ran ++ rest).map Timer.sequence := by
    rw [← h.split, List.map_map]
    apply List.map_congr_left
    intro e he
    exact ((h₀.exact.key e (List.mem_of_mem_filter he)).1).symm
  refine ⟨h.log, ?_, h₀.exact.ordered.filter _, fun hidle => ?_, fun n hn hstart => ?_, ?_⟩
  · rw [hkeys, h.started, List.map_append]
    exact List.prefix_append _ _
  · have hrest : rest = [] := by
      rcases h.phase with ⟨-, hrest⟩ | ⟨running, hp⟩
      · exact hrest
      · rw [hidle] at hp
        cases hp
    rw [hkeys, h.started, hrest, List.append_nil]
  · rw [← mem_startedIn, h.started] at hstart
    obtain ⟨t, ht, rfl⟩ := List.mem_map.mp hstart
    have hlt := h.below h₀ (List.mem_append_left rest ht)
    have hle := h.added _ hn
    omega
  · intro e he hstart hr hc
    have hnodup := h.nodup h₀
    have hkey := (h₀.exact.key e (List.mem_of_mem_filter he)).1
    have hmem : e.timer ∈ ran := by
      rw [← mem_startedIn, h.started] at hstart
      obtain ⟨t, ht, heq⟩ := List.mem_map.mp hstart
      have htimer : e.timer ∈ ran ++ rest := h.split ▸ List.mem_map_of_mem he
      rw [List.inj_on_of_nodup_map hnodup htimer (List.mem_append_left rest ht) (hkey.trans heq.symm)]
      exact ht
    have hact := h.active _ hmem hr (hkey ▸ hc)
    have hbatch : e.timer.sequence ∉ s.batchSequences := by
      intro hin
      have hrest : e.timer.sequence ∈ rest.map Timer.sequence := by
        rcases h.phase with ⟨hidle, -⟩ | ⟨running, hp⟩
        · simp [batchSequences, batch, hidle] at hin
        · simpa only [batchSequences, batch, hp] using hin
      rw [List.map_append, List.nodup_append] at hnodup
      exact hnodup.2.2 _ (List.mem_map_of_mem hmem) _ hrest rfl
    obtain ⟨e', he', heq⟩ := TimerQueue.mem_sequences.mp ((hs.exact.held _ _ hact).resolve_left hbatch)
    have htimer : e'.timer = e.timer.restart currentTime := by
      have hsame := hs.exact.active e' he'
      rw [heq, hact] at hsame
      exact (Option.some.inj hsame).symm
    have hwhen : e'.when = addTime currentTime (secondsToDuration e.timer.intervalSeconds) := by
      rw [← (hs.exact.key e' he').2, htimer, Timer.restart, if_pos hr]
    have hpositive : 0 < e.timer.intervalSeconds := of_decide_eq_true hr
    refine ⟨e', he', htimer, hwhen, fun hfits => ?_, fun hnow heq => ?_⟩
    · rw [hwhen, addTime_duration hpositive.le hfits]
    · exact inClock_of_addTime hnow hpositive.le (hwhen ▸ heq)

theorem perform_phase (s : TimerLoop κ) (task : TimerTask κ) : (s.perform task).phase = s.phase := by
  cases task <;> rfl

theorem idle_step {e : TimerEvent κ} (hidle : s.phase = .idle) (hs : step s e = some s') :
    s'.phase = .idle ∨ ∃ now, e = .handleExpiredTimers now := by
  cases e with
  | elsewhere => cases hs; exact Or.inl hidle
  | postAddTimer _ _ _ => cases hs; exact Or.inl hidle
  | postCancel _ =>
    simp only [step] at hs
    split at hs <;> cases hs <;> exact Or.inl hidle
  | runFunctor =>
    simp only [step] at hs
    split at hs
    · cases hs
      rw [perform_phase]
      exact Or.inl hidle
    · cases hs
  | addTimer _ _ _ =>
    simp only [step] at hs
    split at hs
    · cases hs
      exact Or.inl hidle
    · cases hs
  | cancel _ =>
    simp only [step] at hs
    split at hs
    · cases hs
      split <;> exact Or.inl hidle
    · cases hs
  | handleExpiredTimers now => exact Or.inr ⟨now, rfl⟩
  | runNext => simp [step, hidle] at hs
  | finish => simp [step, hidle] at hs

theorem in_call {self : Nat} (h : Reached step Any (init self) s) (hin : s.phase ≠ .idle) :
    ∃ currentTime s₀, Reached step Any (init self) s₀ ∧ Call currentTime s₀ s := by
  induction h with
  | start => exact absurd rfl hin
  | @next s s' e hs hc hstep ih =>
    by_cases hidle : s.phase = .idle
    · rcases idle_step hidle hstep with hidle' | ⟨now, rfl⟩
      · exact absurd hidle' hin
      · exact ⟨now, s, hs, s', hstep, .start⟩
    · obtain ⟨now, s₀, h₀, s₁, hstart, hrun⟩ := ih hidle
      exact ⟨now, s₀, h₀, s₁, hstart, hrun.next hidle hstep⟩

end

/-- **The timer queue over whole runs.** Between two calls the set and the index
agree; callbacks run in calls; a timer that does not repeat runs once at most; and
a call runs the due timers of the set it finds, and queues those that repeat for
their intervals later where that time is one of the clock. -/
theorem timers_run {self : Nat} {s : TimerLoop κ} (h : Reached step Any (init self) s) :
    (s.phase = .idle → Coherent s.queue) ∧
      (s.phase ≠ .idle → ∃ currentTime s₀, Reached step Any (init self) s₀ ∧ Call currentTime s₀ s) ∧
      (∀ e t s₁ s', adds s e = some t → t.repeat = false → step s e = some s₁ →
        Reached step Any s₁ s' → s'.log.count (.started t.sequence) ≤ 1) ∧
      ∀ currentTime s', Call currentTime s s' → ∃ notes, RunsDue currentTime s s' notes := by
  have hsound := reached_sound h
  refine ⟨hsound.coherent, in_call h, fun e t s₁ s' ht honce hs hrun =>
    oneShot_runs_once hsound ht honce hs hrun, fun currentTime s' hcall => ?_⟩
  obtain ⟨hsound', notes, ran, rest, hwithin⟩ := hcall.within hsound
  exact ⟨notes, hwithin.runsDue hsound hsound'⟩

def stateAfter (es : List (TimerEvent Unit)) : TimerLoop Unit := (run step (init 7) es).getD (init 7)

/-- A timer that repeats every ten thousand million seconds runs for the first
time: it is queued again under a time long ago. -/
theorem rearm_overflows : ∃ s s' : TimerLoop Unit, Reached step Any (init 7) s ∧ Call 2 s s' ∧
    s'.phase = .idle ∧ startedIn s'.log = [1] ∧
    s'.queue.entries.map (fun e => (e.sequence, e.timer.intervalSeconds, e.when)) =
      [(1, 10000000000, 2 - 2 ^ 63)] ∧ 2 - 2 ^ 63 ≠ 2 + nanoseconds 10000000000 := by
  have hrun : run step (init 7) [.addTimer () 1 10000000000] =
      some (stateAfter [.addTimer () 1 10000000000]) := rfl
  have hstart : step (stateAfter [.addTimer () 1 10000000000]) (.handleExpiredTimers 2) =
      some (stateAfter [.addTimer () 1 10000000000, .handleExpiredTimers 2]) := rfl
  have hrest : run step (stateAfter [.addTimer () 1 10000000000, .handleExpiredTimers 2]) [.runNext, .finish] =
      some (stateAfter [.addTimer () 1 10000000000, .handleExpiredTimers 2, .runNext, .finish]) := rfl
  have hduration : nanoseconds 10000000000 = 10000000000000000000 := by decide +kernel
  have hpast : addTime 2 (secondsToDuration 10000000000) = 2 - 2 ^ 63 := by
    rw [secondsToDuration, hduration]
    rfl
  refine ⟨_, _, Reached.of_run_any hrun, ⟨_, hstart, Reached.of_run hrest ⟨(fun h => by cases h), fun s hs => ?_⟩⟩,
    rfl, rfl, ?_, ?_⟩
  · cases hs
    exact ⟨(fun h => by cases h), fun _ _ => trivial⟩
  · rw [← hpast]
    rfl
  · rw [hduration]
    omega

/-- Two timers are due in one call; the first does not repeat, the second does. -/
theorem timers_run_two :
    ∃ s s' : TimerLoop Unit, Coherent s.queue ∧ Call 2 s s' ∧ s'.phase = .idle ∧
      ∃ notes, RunsDue 2 s s' notes := by
  have hrun : run step (init 7) [.addTimer () 1 0, .addTimer () 1 1] =
      some (stateAfter [.addTimer () 1 0, .addTimer () 1 1]) := rfl
  have hstart : step (stateAfter [.addTimer () 1 0, .addTimer () 1 1]) (.handleExpiredTimers 2) =
      some (stateAfter [.addTimer () 1 0, .addTimer () 1 1, .handleExpiredTimers 2]) := rfl
  have hrest : run step (stateAfter [.addTimer () 1 0, .addTimer () 1 1, .handleExpiredTimers 2])
      [.runNext, .runNext, .finish] = some (stateAfter [.addTimer () 1 0, .addTimer () 1 1,
        .handleExpiredTimers 2, .runNext, .runNext, .finish]) := rfl
  have hcall : Call 2 (stateAfter [.addTimer () 1 0, .addTimer () 1 1]) (stateAfter [.addTimer () 1 0,
      .addTimer () 1 1, .handleExpiredTimers 2, .runNext, .runNext, .finish]) := by
    refine ⟨_, hstart, Reached.of_run hrest ⟨(fun h => by cases h), fun s hs => ?_⟩⟩
    cases hs
    refine ⟨(fun h => by cases h), fun s hs => ?_⟩
    cases hs
    exact ⟨(fun h => by cases h), fun _ _ => trivial⟩
  have hall := timers_run (Reached.of_run_any hrun)
  exact ⟨_, _, hall.1 rfl, hcall, rfl, hall.2.2.2 2 _ hcall⟩

end TimerLoop

end Myself
