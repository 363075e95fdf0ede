import MyselfServer.Timestamp
import Std.Data.TreeMap

/-!
# Timers

`TimerQueue` as the loop thread sees it. A timer object is known by its
sequence number, which no other timer has; `restart` changes the object that
`activeTimers_` and the batch share, and `insertInLoop` follows at once, so a
timer can be modelled by its value. A pointer is `none` when it is null.
-/

namespace Myself

structure TimerId where
  sequence : Nat := 0
  owner : Option Nat := none
  deriving DecidableEq

def TimerId.valid (id : TimerId) : Bool := id.sequence != 0 && id.owner.isSome

structure Timer (κ : Type) where
  callback : κ
  expiration : Timestamp
  intervalSeconds : Rat
  sequence : Nat

section
variable {κ : Type}

def Timer.repeat (t : Timer κ) : Bool := decide (0 < t.intervalSeconds)

def Timer.restart (t : Timer κ) (currentTime : Timestamp) : Timer κ :=
  if t.repeat then { t with expiration := addTime currentTime (secondsToDuration t.intervalSeconds) }
  else t

structure Entry (κ : Type) where
  when : Timestamp
  sequence : Nat
  timer : Timer κ

def EntryCompare (lhs rhs : Entry κ) : Bool :=
  if lhs.when ≠ rhs.when then decide (lhs.when < rhs.when)
  else decide (lhs.sequence < rhs.sequence)

def insertEntry (e : Entry κ) : List (Entry κ) → List (Entry κ)
  | [] => [e]
  | x :: xs =>
    if EntryCompare e x then e :: x :: xs
    else if EntryCompare x e then x :: insertEntry e xs
    else x :: xs

def eraseEntry (e : Entry κ) (xs : List (Entry κ)) : List (Entry κ) :=
  xs.filter fun x => EntryCompare x e || EntryCompare e x

structure TimerQueue (κ : Type) where
  self : Nat
  entries : List (Entry κ) := []
  activeTimers : Std.TreeMap Nat (Timer κ) compare := ∅

namespace TimerQueue

def insertInLoop (q : TimerQueue κ) (timer : Timer κ) : TimerQueue κ :=
  { q with
    activeTimers := q.activeTimers.insert timer.sequence timer
    entries := insertEntry ⟨timer.expiration, timer.sequence, timer⟩ q.entries }

def cancelInLoop (q : TimerQueue κ) (timerId : TimerId) : TimerQueue κ :=
  if timerId.owner ≠ some q.self then q
  else match q.activeTimers[timerId.sequence]? with
    | none => q
    | some timer =>
      { q with
        activeTimers := q.activeTimers.erase timerId.sequence
        entries := eraseEntry ⟨timer.expiration, timer.sequence, timer⟩ q.entries }

/-- The first loop of `handleExpiredTimers`: the due entries leave the queue. -/
def takeExpired (currentTime : Timestamp) : List (Entry κ) → List (Timer κ) × List (Entry κ)
  | [] => ([], [])
  | e :: es =>
    if e.when ≤ currentTime then
      let (expired, rest) := takeExpired currentTime es
      (e.timer :: expired, rest)
    else ([], e :: es)

/-- The second loop of `handleExpiredTimers`, up to `timer->run()`: a
repeating timer is queued again before its callback runs. -/
def beforeRun (q : TimerQueue κ) (currentTime : Timestamp) (timer : Timer κ) : TimerQueue κ :=
  if timer.repeat then q.insertInLoop (timer.restart currentTime)
  else { q with activeTimers := q.activeTimers.erase timer.sequence }

def Gone (q : TimerQueue κ) (n : Nat) : Prop :=
  (∀ e ∈ q.entries, e.sequence ≠ n) ∧ q.activeTimers[n]? = none

end TimerQueue

/-! ## Entries -/

theorem insertEntry_perm {e : Entry κ} {xs : List (Entry κ)}
    (h : ∀ x ∈ xs, x.sequence ≠ e.sequence) : (insertEntry e xs).Perm (e :: xs) := by
  induction xs with
  | nil => exact List.Perm.refl _
  | cons x xs ih =>
    simp only [insertEntry]
    split
    · exact List.Perm.refl _
    · rename_i hlt
      split
      · have := ih fun y hy => h y (List.mem_cons_of_mem _ hy)
        exact (this.cons x).trans (List.Perm.swap e x xs)
      · rename_i hgt
        -- neither before nor behind: the same time and the same number
        exfalso
        have hx := h x (List.mem_cons_self ..)
        simp only [EntryCompare] at hlt hgt
        by_cases hw : e.when = x.when
        · simp only [hw, ne_eq, not_true_eq_false, if_false, decide_eq_true_eq] at hlt hgt
          omega
        · have hw' : ¬ x.when = e.when := fun h => hw h.symm
          simp only [ne_eq, hw, hw', not_false_eq_true, if_true, decide_eq_true_eq] at hlt hgt
          exact hw (le_antisymm (not_lt.mp hgt) (not_lt.mp hlt))

theorem mem_insertEntry {e z : Entry κ} {xs : List (Entry κ)} (h : z ∈ insertEntry e xs) :
    z = e ∨ z ∈ xs := by
  induction xs with
  | nil => exact Or.inl (List.mem_singleton.mp h)
  | cons x xs ih =>
    simp only [insertEntry] at h
    split at h
    · exact List.mem_cons.mp h
    · split at h
      · rcases List.mem_cons.mp h with rfl | h
        · exact Or.inr (List.mem_cons_self ..)
        · exact (ih h).imp_right (List.mem_cons_of_mem _)
      · exact Or.inr h

theorem mem_eraseEntry {e x : Entry κ} {xs : List (Entry κ)} :
    x ∈ eraseEntry e xs ↔ x ∈ xs ∧ ¬ (x.when = e.when ∧ x.sequence = e.sequence) := by
  simp only [eraseEntry, List.mem_filter, Bool.or_eq_true, EntryCompare]
  refine and_congr_right fun _ => ?_
  by_cases hw : x.when = e.when
  · simp only [hw, ne_eq, not_true_eq_false, if_false, decide_eq_true_eq, true_and]
    omega
  · have hw' : ¬ e.when = x.when := fun h => hw h.symm
    simp only [ne_eq, hw, hw', not_false_eq_true, if_true, decide_eq_true_eq, false_and, iff_true]
    exact lt_or_gt_of_ne hw

theorem takeExpired_split (currentTime : Timestamp) (es : List (Entry κ)) :
    ∃ due, es = due ++ (TimerQueue.takeExpired currentTime es).2 ∧
      (TimerQueue.takeExpired currentTime es).1 = due.map Entry.timer ∧
      ∀ e ∈ due, e.when ≤ currentTime := by
  induction es with
  | nil => exact ⟨[], rfl, rfl, by simp⟩
  | cons e es ih =>
    obtain ⟨due, hes, hdue, hle⟩ := ih
    simp only [TimerQueue.takeExpired]
    split
    · rename_i hw
      refine ⟨e :: due, ?_, ?_, ?_⟩
      · dsimp only
        rw [List.cons_append, ← hes]
      · dsimp only
        rw [List.map_cons, ← hdue]
      · intro x hx
        rcases List.mem_cons.mp hx with rfl | hx
        · exact hw
        · exact hle x hx
    · exact ⟨[], rfl, rfl, by simp⟩

end

end Myself
