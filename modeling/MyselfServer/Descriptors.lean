import MyselfServer.Machine

/-!
# Descriptors

The descriptors of a process, and calls that open, use and close them. A call
that names a descriptor that is not open has no next table, and neither has
one that is given an open descriptor as a new one. `run_owned` is the pattern
of a function that cleans up behind it.
-/

namespace Descriptors

open Machine

inductive Action where
  | opens (fd : Nat)
  | uses (fd : Nat)
  | closes (fd : Nat)
  deriving DecidableEq

def step (table : List Nat) : Action → Option (List Nat)
  | .opens fd => if fd ∈ table then none else some (fd :: table)
  | .uses fd => if fd ∈ table then some table else none
  | .closes fd => if fd ∈ table then some (table.erase fd) else none

section
variable {table : List Nat} {fd : Nat} {calls : List Action}

theorem run_uses (hfd : fd ∈ table) (h : ∀ c ∈ calls, c = .uses fd) : run step table calls = some table := by
  induction calls with
  | nil => rfl
  | cons c calls ih =>
    have hc := h c (List.mem_cons_self ..)
    have hstep : step table c = some table := by
      rw [hc]
      exact if_pos hfd
    unfold run
    simp only [hstep]
    apply ih
    intro c' hc'
    exact h c' (List.mem_cons_of_mem _ hc')

/-- **A descriptor that is opened, used and closed** leaves the table as it was. -/
theorem run_owned (hfd : fd ∉ table) (h : ∀ c ∈ calls, c = .uses fd) :
    run step table (.opens fd :: (calls ++ [.closes fd])) = some table := by
  have hopens : step table (.opens fd) = some (fd :: table) := if_neg hfd
  have hcloses : step (fd :: table) (.closes fd) = some table := by simp [step]
  unfold run
  simp only [hopens]
  rw [run_append, run_uses (List.mem_cons_self ..) h]
  unfold run
  simp only [Option.bind_some, hcloses]
  rfl

end

end Descriptors
