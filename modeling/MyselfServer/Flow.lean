import Mathlib.Data.List.Perm.Basic
import Mathlib.Data.List.Range
import Mathlib.Logic.Relation

/-!
# Numbered requests between a loop and its workers

The requests of one connection are numbered as they are taken. A request is
answered at once, or it goes through the queue of a worker pool and comes
back as a task of the loop. What is sent is recorded, and `history` records
what a schedule can go wrong by. `Responses in order` and `nothing behind the
final one` are invariants of the steps whose notes are as they should be.
-/

namespace Flow

/-- A response that was passed on: the request it answers, if it is not the
answer to malformed input, and whether it is the final one. -/
structure SentResponse where
  index : Option Nat
  final : Bool
  deriving DecidableEq

/-- `out` counts the requests whose responses are with the workers or on the
way back, `ended` says that a final response was sent, and `ahead` counts the
earlier requests that workers still have when one is done. -/
inductive Note where
  | request (inline : Bool) (out : Nat) (ended : Bool)
  | malformed (ended : Bool)
  | posted (ahead : Nat)
  | final (out : Nat)

structure State where
  taken : Nat := 0
  tasks : List Nat := []
  working : List Nat := []
  posted : List Nat := []
  functors : List Nat := []
  sent : List SentResponse := []
  history : List Note := []

namespace State

def pending (f : State) : List Nat := f.functors ++ (f.posted ++ (f.working ++ f.tasks))

def answered (f : State) : List Nat := f.sent.filterMap SentResponse.index

def ended (f : State) : Bool := f.sent.any SentResponse.final

def note (f : State) (n : Note) : State := { f with history := f.history ++ [n] }

def sending (f : State) (index : Option Nat) (final : Bool) : State :=
  { f with
    sent := f.sent ++ [⟨index, final⟩]
    history := if final then f.history ++ [.final f.pending.length] else f.history }

def take (f : State) (inline : Bool) : State :=
  { f with
    taken := f.taken + 1
    history := f.history ++ [.request inline f.pending.length f.ended] }

end State

inductive Step (workers : Nat) : State → State → Prop where
  | inline (f : State) (final : Bool) :
      Step workers f ((f.take true).sending (some f.taken) final)
  | submit (f : State) (hw : 0 < workers) :
      Step workers f { f.take false with tasks := f.tasks ++ [f.taken] }
  | malformed (f : State) :
      Step workers f ((f.note (.malformed f.ended)).sending none true)
  | work (f : State) (i : Nat) (rest : List Nat) (h : f.tasks = i :: rest)
      (hw : f.working.length < workers) :
      Step workers f { f with tasks := rest, working := f.working ++ [i] }
  | post (f : State) (k i : Nat) (h : f.working[k]? = some i) :
      Step workers f { f with
        working := f.working.eraseIdx k
        posted := f.posted ++ [i]
        history := f.history ++ [.posted k] }
  | swap (f : State) (h : f.functors = []) :
      Step workers f { f with functors := f.posted, posted := [] }
  | functor (f : State) (i : Nat) (rest : List Nat) (final : Bool) (h : f.functors = i :: rest) :
      Step workers f ({ f with functors := rest }.sending (some i) final)

abbrev Reached (workers : Nat) : State → Prop := Relation.ReflTransGen (Step workers) {}

variable {workers : Nat} {f f' : State}

/-! ## Responses in order -/

/-- A request that is answered at once has no earlier one before it, and a
worker that is done has the oldest request of those with the workers. -/
def Note.InOrder : Note → Prop
  | .request inline out _ => inline = true → out = 0
  | .malformed _ => True
  | .posted ahead => ahead = 0
  | .final _ => True

def InLine (f : State) : Prop := f.answered ++ f.pending = List.range f.taken

theorem pending_eq_nil (h : f.pending.length = 0) : f.pending = [] := List.length_eq_zero_iff.mp h

theorem mem_history_sending {f : State} {index : Option Nat} {final : Bool} {n : Note}
    (h : n ∈ f.history) : n ∈ (f.sending index final).history := by
  simp only [State.sending]
  split
  · exact List.mem_append_left _ h
  · exact h

theorem answered_sending_some (f : State) (i : Nat) (final : Bool) :
    (f.sending (some i) final).answered = f.answered ++ [i] := by
  simp [State.answered, State.sending, List.filterMap_append]

theorem answered_sending_none (f : State) (final : Bool) :
    (f.sending none final).answered = f.answered := by
  simp [State.answered, State.sending, List.filterMap_append]

theorem pending_sending (f : State) (index : Option Nat) (final : Bool) :
    (f.sending index final).pending = f.pending := rfl

theorem step_history (h : Step workers f f') : ∀ n ∈ f.history, n ∈ f'.history := by
  intro n hn
  cases h with
  | inline final => exact mem_history_sending (List.mem_append_left _ hn)
  | submit hw => exact List.mem_append_left _ hn
  | malformed => exact mem_history_sending (List.mem_append_left _ hn)
  | work i rest h hw => exact hn
  | post k i h => exact List.mem_append_left _ hn
  | swap h => exact hn
  | functor i rest final h => exact mem_history_sending hn

theorem step_inLine (h : Step workers f f') (hi : InLine f) (hn : ∀ n ∈ f'.history, n.InOrder) :
    InLine f' := by
  unfold InLine at hi ⊢
  cases h with
  | inline final =>
    have hout : f.pending.length = 0 := by
      have hnote : Note.request true f.pending.length f.ended ∈
          ((f.take true).sending (some f.taken) final).history :=
        mem_history_sending (List.mem_append_right _ (List.mem_singleton.mpr rfl))
      exact hn _ hnote rfl
    rw [pending_eq_nil hout, List.append_nil] at hi
    rw [answered_sending_some, pending_sending]
    show (f.answered ++ [f.taken]) ++ f.pending = List.range (f.taken + 1)
    rw [pending_eq_nil hout, List.append_nil, hi, List.range_succ]
  | submit hw =>
    show f.answered ++ (f.functors ++ (f.posted ++ (f.working ++ (f.tasks ++ [f.taken])))) =
      List.range (f.taken + 1)
    rw [List.range_succ, ← hi]
    simp only [State.pending, List.append_assoc]
  | malformed => rwa [answered_sending_none, pending_sending]
  | work i rest h hw =>
    rw [← hi]
    show f.answered ++ (f.functors ++ (f.posted ++ ((f.working ++ [i]) ++ rest))) = _
    rw [State.pending, h, List.append_assoc f.working, List.singleton_append]
  | post k i h =>
    have hk : k = 0 := hn _ (List.mem_append_right _ (List.mem_singleton.mpr rfl))
    subst hk
    obtain ⟨rest, hw⟩ : ∃ rest, f.working = i :: rest := by
      cases hw : f.working with
      | nil => rw [hw] at h; cases h
      | cons j rest => rw [hw] at h; cases h; exact ⟨rest, rfl⟩
    rw [← hi]
    show f.answered ++ (f.functors ++ ((f.posted ++ [i]) ++ (f.working.eraseIdx 0 ++ f.tasks))) = _
    rw [State.pending, hw, List.append_assoc f.posted]
    rfl
  | swap h =>
    rw [← hi]
    show f.answered ++ (f.posted ++ ([] ++ (f.working ++ f.tasks))) = _
    rw [State.pending, h, List.nil_append, List.nil_append]
  | functor i rest final h =>
    rw [answered_sending_some, pending_sending, List.append_assoc, List.singleton_append]
    show f.answered ++ (i :: (rest ++ (f.posted ++ (f.working ++ f.tasks)))) = List.range f.taken
    rw [← hi, State.pending, h, List.cons_append]

theorem reached_inLine (h : Reached workers f) (hn : ∀ n ∈ f.history, n.InOrder) : InLine f := by
  induction h with
  | refl => rfl
  | tail _ hs ih => exact step_inLine hs (ih fun n hm => hn n (step_history hs n hm)) hn

/-- The responses are sent in the order of the requests, none left out. -/
theorem answered_eq_range (h : Reached workers f) (hn : ∀ n ∈ f.history, n.InOrder) :
    f.answered = List.range f.answered.length := by
  have hline := reached_inLine h hn
  have hle : f.answered.length ≤ f.taken := by
    have := congrArg List.length hline
    rw [List.length_append, List.length_range] at this
    omega
  have htake := congrArg (List.take f.answered.length) hline
  rwa [List.take_left' rfl, List.take_range, Nat.min_eq_left hle] at htake

theorem working_length (h : Reached workers f) : f.working.length ≤ workers := by
  induction h with
  | refl => exact Nat.zero_le _
  | tail _ hs ih =>
    cases hs with
    | inline final => exact ih
    | submit hw => exact ih
    | malformed => exact ih
    | work i rest h hw =>
      rw [List.length_append, List.length_singleton]
      exact hw
    | post k i h => exact (List.length_eraseIdx_le _ _).trans ih
    | swap h => exact ih
    | functor i rest final h => exact ih

theorem step_notes (h : Step workers f f') {n : Note} (hn : n ∈ f'.history) :
    n ∈ f.history ∨ (∃ inline, n = .request inline f.pending.length f.ended) ∨
      n = .malformed f.ended ∨ (∃ k i, f.working[k]? = some i ∧ n = .posted k) ∨
      n = .final f'.pending.length := by
  have hsending : ∀ {g : State} {index : Option Nat} {final : Bool},
      n ∈ (g.sending index final).history → n ∈ g.history ∨ n = .final g.pending.length := by
    intro g index final hm
    simp only [State.sending] at hm
    split at hm
    · exact (List.mem_append.mp hm).imp_right List.mem_singleton.mp
    · exact Or.inl hm
  cases h with
  | inline final =>
    rcases hsending hn with hm | hm
    · rcases List.mem_append.mp hm with hm | hm
      · exact Or.inl hm
      · exact Or.inr (Or.inl ⟨true, List.mem_singleton.mp hm⟩)
    · exact Or.inr (Or.inr (Or.inr (Or.inr hm)))
  | submit hw =>
    rcases List.mem_append.mp hn with hm | hm
    · exact Or.inl hm
    · exact Or.inr (Or.inl ⟨false, List.mem_singleton.mp hm⟩)
  | malformed =>
    rcases hsending hn with hm | hm
    · rcases List.mem_append.mp hm with hm | hm
      · exact Or.inl hm
      · exact Or.inr (Or.inr (Or.inl (List.mem_singleton.mp hm)))
    · exact Or.inr (Or.inr (Or.inr (Or.inr hm)))
  | work i rest h hw => exact Or.inl hn
  | post k i h =>
    rcases List.mem_append.mp hn with hm | hm
    · exact Or.inl hm
    · exact Or.inr (Or.inr (Or.inr (Or.inl ⟨k, i, h, List.mem_singleton.mp hm⟩)))
  | swap h => exact Or.inl hn
  | functor i rest final h =>
    rcases hsending hn with hm | hm
    · exact Or.inl hm
    · exact Or.inr (Or.inr (Or.inr (Or.inr hm)))

/-- A worker on its own is always done with the oldest request. -/
theorem posted_eq_zero (hw : workers ≤ 1) (h : Reached workers f) {ahead : Nat}
    (hm : .posted ahead ∈ f.history) : ahead = 0 := by
  induction h with
  | refl => cases hm
  | tail hr hs ih =>
    rcases step_notes hs hm with hm | ⟨inline, hm⟩ | hm | ⟨k, i, hk, hm⟩ | hm
    · exact ih hm
    · cases hm
    · cases hm
    · cases hm
      have hlen := working_length hr
      have hlt := (List.getElem?_eq_some_iff.mp hk).1
      omega
    · cases hm

/-- Without workers nothing is ever on its way. -/
theorem pending_no_workers (h : Reached 0 f) : f.pending = [] := by
  induction h with
  | refl => rfl
  | tail _ hs ih =>
    cases hs with
    | inline final => exact ih
    | submit hw => exact absurd hw (Nat.lt_irrefl 0)
    | malformed => exact ih
    | work i rest h hw => exact absurd hw (Nat.not_lt_zero _)
    | post k i h =>
      simp only [State.pending, List.append_eq_nil_iff] at ih
      rw [ih.2.2.1] at h
      cases h
    | swap h =>
      simp only [State.pending, List.append_eq_nil_iff] at ih ⊢
      exact ⟨ih.2.1, trivial, ih.2.2⟩
    | functor i rest final h => simp [State.pending, h] at ih

/-- Without workers the responses are always in order. -/
theorem inOrder_no_workers (h : Reached 0 f) : ∀ n ∈ f.history, n.InOrder := by
  induction h with
  | refl => exact fun n hm => nomatch hm
  | tail hr hs ih =>
    intro n hm
    rcases step_notes hs hm with hm | ⟨inline, rfl⟩ | rfl | ⟨k, i, hk, rfl⟩ | rfl
    · exact ih n hm
    · intro _
      rw [pending_no_workers hr, List.length_nil]
    · trivial
    · exact posted_eq_zero (Nat.zero_le 1) (hr.tail hs) hm
    · trivial

/-- Without workers nothing is left behind by a final response. -/
theorem final_no_workers (h : Reached 0 f) : ∀ out, .final out ∈ f.history → out = 0 := by
  induction h with
  | refl => exact fun out hm => nomatch hm
  | tail hr hs ih =>
    intro out hm
    rcases step_notes hs hm with hm | ⟨inline, hm⟩ | hm | ⟨k, i, hk, hm⟩ | hm
    · exact ih out hm
    · cases hm
    · cases hm
    · cases hm
    · cases hm
      rw [pending_no_workers (hr.tail hs), List.length_nil]

/-! ## Nothing behind the final response -/

def Note.Early : Note → Prop
  | .request _ _ ended => ended = false
  | .malformed ended => ended = false
  | .posted _ => True
  | .final _ => True

/-- A final response leaves no request behind, and nothing is taken after it. -/
def Note.Ends : Note → Prop
  | .request _ _ ended => ended = false
  | .malformed ended => ended = false
  | .posted _ => True
  | .final out => out = 0

theorem Note.Early.ends {n : Note} (h : n.Early) (hlast : ∀ out, n = .final out → out = 0) : n.Ends := by
  cases n with
  | request inline out ended => exact h
  | malformed ended => exact h
  | posted ahead => trivial
  | final out => exact hlast out rfl

/-- Only the last response that was sent can be final, and then no response
is on its way. -/
structure Ending (f : State) : Prop where
  last : ∀ before x after, f.sent = before ++ x :: after → x.final = true → after = []
  pending : f.ended = true → f.pending = []

theorem ended_append (sent : List SentResponse) (x : SentResponse) :
    (sent ++ [x]).any SentResponse.final = (sent.any SentResponse.final || x.final) := by
  simp

theorem ending_sending (hopen : f.ended = false) {index : Option Nat} {final : Bool}
    (hout : final = true → f.pending = []) : Ending (f.sending index final) where
  last before x after heq hx := by
    rcases List.eq_nil_or_concat after with rfl | ⟨after', y, rfl⟩
    · rfl
    · -- a final response among the earlier ones
      rw [List.concat_eq_append, ← List.cons_append, ← List.append_assoc] at heq
      have hsent := (List.append_inj' heq rfl).1
      have hend : f.ended = true := by
        rw [State.ended, hsent, List.any_eq_true]
        exact ⟨x, by simp, hx⟩
      rw [hopen] at hend
      cases hend
  pending := by
    intro hend
    have hsent : f.sent.any SentResponse.final = false := hopen
    rw [State.ended, State.sending, ended_append, hsent, Bool.false_or] at hend
    exact hout hend

theorem final_mem_history {index : Option Nat} :
    Note.final f.pending.length ∈ (f.sending index true).history :=
  List.mem_append_right _ (List.mem_singleton.mpr rfl)

theorem step_ending (h : Step workers f f') (hi : Ending f) (hn : ∀ n ∈ f'.history, n.Ends) :
    Ending f' := by
  have hquiet : ∀ {g : State}, g.sent = f.sent → (f.pending = [] → g.pending = []) → Ending g := by
    intro g hsent hpending
    refine ⟨by rw [hsent]; exact hi.last, ?_⟩
    intro hend
    apply hpending
    apply hi.pending
    rw [State.ended, ← hsent]
    exact hend
  have hlast : ∀ {index : Option Nat} {final : Bool} {g : State},
      (∀ n ∈ (g.sending index final).history, n.Ends) → final = true → g.pending = [] := by
    intro index final g hg hfinal
    subst hfinal
    exact pending_eq_nil (hg _ final_mem_history)
  cases h with
  | inline final =>
    have hopen : f.ended = false := hn (.request true f.pending.length f.ended)
      (mem_history_sending (List.mem_append_right _ (List.mem_singleton.mpr rfl)))
    exact ending_sending (f := f.take true) hopen (hlast hn)
  | submit hw =>
    have hopen : f.ended = false := hn (.request false f.pending.length f.ended)
      (List.mem_append_right _ (List.mem_singleton.mpr rfl))
    refine ⟨hi.last, ?_⟩
    intro hend
    have hend : f.ended = true := hend
    rw [hopen] at hend
    cases hend
  | malformed =>
    have hopen : f.ended = false := hn (.malformed f.ended)
      (mem_history_sending (List.mem_append_right _ (List.mem_singleton.mpr rfl)))
    exact ending_sending (f := f.note (.malformed f.ended)) hopen (hlast hn)
  | work i rest h hw =>
    refine hquiet rfl fun hp => ?_
    simp [State.pending, h] at hp
  | post k i h =>
    refine hquiet rfl fun hp => ?_
    have hw : f.working = [] := by
      simp only [State.pending, List.append_eq_nil_iff] at hp
      exact hp.2.2.1
    rw [hw] at h
    cases h
  | swap h =>
    refine hquiet rfl fun hp => ?_
    simp only [State.pending, List.append_eq_nil_iff] at hp ⊢
    exact ⟨hp.2.1, trivial, hp.2.2⟩
  | functor i rest final h =>
    have hopen : f.ended = false := by
      by_contra hend
      have hp := hi.pending (by simpa using hend)
      simp [State.pending, h] at hp
    exact ending_sending (f := { f with functors := rest }) hopen (hlast hn)

theorem reached_ending (h : Reached workers f) (hn : ∀ n ∈ f.history, n.Ends) : Ending f := by
  induction h with
  | refl =>
    refine ⟨?_, fun hend => nomatch hend⟩
    intro before x after heq
    simp at heq
  | tail _ hs ih => exact step_ending hs (ih fun n hm => hn n (step_history hs n hm)) hn

/-! ## Every request once -/

/-- Each request is answered or not yet, and none twice, whatever the order. -/
def Once (f : State) : Prop := (f.answered ++ f.pending).Perm (List.range f.taken)

theorem step_once (h : Step workers f f') (hi : Once f) : Once f' := by
  have hcount : ∀ j, f.answered.count j + (f.functors.count j + (f.posted.count j +
      (f.working.count j + f.tasks.count j))) = (List.range f.taken).count j := by
    intro j
    rw [← hi.count_eq j]
    simp only [State.pending, List.count_append]
  unfold Once
  rw [List.perm_iff_count]
  intro j
  have hj := hcount j
  cases h with
  | inline final =>
    rw [answered_sending_some, pending_sending]
    show ((f.answered ++ [f.taken]) ++ f.pending).count j = (List.range (f.taken + 1)).count j
    simp only [State.pending, List.count_append, List.range_succ]
    omega
  | submit hw =>
    show (f.answered ++ (f.functors ++ (f.posted ++ (f.working ++ (f.tasks ++ [f.taken]))))).count j =
      (List.range (f.taken + 1)).count j
    simp only [List.count_append, List.range_succ]
    omega
  | malformed =>
    rw [answered_sending_none, pending_sending]
    exact hi.count_eq j
  | work i rest h hw =>
    show (f.answered ++ (f.functors ++ (f.posted ++ ((f.working ++ [i]) ++ rest)))).count j = _
    rw [h, List.count_cons] at hj
    simp only [List.count_append, List.count_singleton]
    omega
  | post k i h =>
    obtain ⟨hlt, hk⟩ := List.getElem?_eq_some_iff.mp h
    have herase := (List.getElem_cons_eraseIdx_perm hlt).count_eq j
    rw [hk, List.count_cons] at herase
    show (f.answered ++ (f.functors ++ ((f.posted ++ [i]) ++ (f.working.eraseIdx k ++ f.tasks)))).count j = _
    simp only [List.count_append, List.count_singleton]
    omega
  | swap h =>
    show (f.answered ++ (f.posted ++ ([] ++ (f.working ++ f.tasks)))).count j = _
    rw [h] at hj
    simp only [List.count_append, List.count_nil] at hj ⊢
    omega
  | functor i rest final h =>
    rw [answered_sending_some, pending_sending]
    show ((f.answered ++ [i]) ++ (rest ++ (f.posted ++ (f.working ++ f.tasks)))).count j =
      (List.range f.taken).count j
    rw [h, List.count_cons] at hj
    simp only [List.count_append, List.count_singleton]
    omega

theorem reached_once (h : Reached workers f) : Once f := by
  induction h with
  | refl => exact List.Perm.refl _
  | tail _ hs ih => exact step_once hs ih

/-- No request is answered twice, and none that was not taken. -/
theorem answered_nodup (h : Reached workers f) : f.answered.Nodup ∧ ∀ i ∈ f.answered, i < f.taken := by
  have honce := reached_once h
  have hnodup := honce.nodup_iff.mpr List.nodup_range
  refine ⟨(List.nodup_append.mp hnodup).1, fun i hi => ?_⟩
  exact List.mem_range.mp (honce.mem_iff.mp (List.mem_append_left _ hi))

end Flow
