import MyselfServer.Machine

/-!
# Caches that revalidate

A store holds one value, which is replaced from time to time, each value with
a stamp. A cache keeps the value it was given last and shows it again whenever
the store finds its stamp unchanged. `shown_current` says when what is shown
is what the store holds: no stamp of an earlier value may be found unchanged
unless the values are the same.
-/

namespace Revalidation

structure Version (ν β : Type) where
  stamp : ν
  value : β

/-- The versions of the store, the current one first; what the cache keeps;
and what was shown, next to what the store held then. -/
structure State (ν β : Type) where
  versions : List (Version ν β)
  cached : Option (Version ν β) := none
  shown : List (β × β) := []

inductive Event (ν β : Type) where
  | change (version : Version ν β)
  | fetch

section
variable {ν β : Type} (unchanged : ν → ν → Bool)

def State.display (s : State ν β) (version : Version ν β) (current : Version ν β) : State ν β :=
  { s with cached := some version, shown := s.shown ++ [(version.value, current.value)] }

def answer (cached : Option (Version ν β)) (current : Version ν β) : Version ν β :=
  match cached with
  | none => current
  | some version => if unchanged version.stamp current.stamp then version else current

def step (s : State ν β) : Event ν β → Option (State ν β)
  | .change version => some { s with versions := version :: s.versions }
  | .fetch =>
    match s.versions with
    | [] => none
    | current :: _ => some (s.display (answer unchanged s.cached current) current)

/-- Only versions with the same value are taken for the new one. -/
def Told (s : State ν β) : Event ν β → Prop
  | .change version => ∀ earlier ∈ s.versions, unchanged earlier.stamp version.stamp = true →
      earlier.value = version.value
  | .fetch => True

/-- What the cache keeps is a version of the store, and is found unchanged only
where it has the current value. -/
structure Coherent (s : State ν β) : Prop where
  kept : ∀ version, s.cached = some version → version ∈ s.versions
  told : ∀ current earlier, s.versions = current :: earlier → ∀ version ∈ s.versions,
    unchanged version.stamp current.stamp = true → version.value = current.value
  shown : ∀ p ∈ s.shown, p.1 = p.2

variable {unchanged} {s s' s₀ : State ν β}

theorem answer_current {current : Version ν β} {cached : Option (Version ν β)}
    (h : ∀ version, cached = some version → unchanged version.stamp current.stamp = true →
      version.value = current.value) : (answer unchanged cached current).value = current.value := by
  unfold answer
  cases cached with
  | none => rfl
  | some version =>
    by_cases hsame : unchanged version.stamp current.stamp = true
    · simp only [if_pos hsame]
      exact h version rfl hsame
    · simp only [if_neg hsame]

theorem answer_mem {current : Version ν β} {cached : Option (Version ν β)} {versions : List (Version ν β)}
    (hcached : ∀ version, cached = some version → version ∈ versions) (hcurrent : current ∈ versions) :
    answer unchanged cached current ∈ versions := by
  unfold answer
  cases cached with
  | none => exact hcurrent
  | some version =>
    by_cases hsame : unchanged version.stamp current.stamp = true
    · simp only [if_pos hsame]
      exact hcached version rfl
    · simp only [if_neg hsame]
      exact hcurrent

theorem step_coherent (h : Coherent unchanged s) {e : Event ν β} (ht : Told unchanged s e)
    (hs : step unchanged s e = some s') : Coherent unchanged s' := by
  cases e with
  | change version =>
    cases hs
    refine ⟨fun v hv => List.mem_cons_of_mem _ (h.kept v hv), ?_, h.shown⟩
    intro current earlier heq v hv hsame
    cases heq
    rcases List.mem_cons.mp hv with rfl | hv
    · rfl
    · exact ht v hv hsame
  | fetch =>
    unfold step at hs
    cases hversions : s.versions with
    | nil =>
      simp only [hversions] at hs
      cases hs
    | cons current earlier =>
      simp only [hversions, Option.some.injEq] at hs
      subst hs
      refine ⟨?_, h.told, ?_⟩
      · intro v hv
        cases hv
        apply answer_mem h.kept
        rw [hversions]
        exact List.mem_cons_self ..
      · intro p hp
        rcases List.mem_append.mp hp with hp | hp
        · exact h.shown p hp
        · rw [List.mem_singleton.mp hp]
          exact answer_current fun v hv hsame => h.told current earlier hversions v (h.kept v hv) hsame

theorem reached_coherent (h₀ : Coherent unchanged s₀)
    (h : Machine.Reached (step unchanged) (Told unchanged) s₀ s) : Coherent unchanged s :=
  Machine.Reached.invariant (I := Coherent unchanged) h₀ (fun _ _ _ hi hc hs => step_coherent hi hc hs) h

/-- **What is shown is what the store holds.** -/
theorem shown_current (h₀ : Coherent unchanged s₀)
    (h : Machine.Reached (step unchanged) (Told unchanged) s₀ s) : ∀ p ∈ s.shown, p.1 = p.2 :=
  (reached_coherent h₀ h).shown

theorem coherent_start (version : Version ν β) : Coherent unchanged ⟨[version], none, []⟩ := by
  refine ⟨(fun v hv => by cases hv), ?_, fun p hp => absurd hp List.not_mem_nil⟩
  intro current earlier heq v hv _
  cases heq
  rw [List.mem_singleton.mp hv]

end

end Revalidation
