import MyselfServer.Registry

/-!
# The connection limit

The overload check compares the size of the table with the limit, but a
connection is entered in the table later, by a task on its loop. The limit
holds as long as the tasks that are still queued are counted in.
-/

namespace Myself

open Machine

namespace Server

/-- The live connections have distinct entries, so the table is no smaller. -/
theorem Owned.live_le_size {s : Server} (h : s.Owned) : s.live.length ≤ s.registry.size := by
  have hnodup : (s.live.map Connection.fd).Nodup := by
    have := h.added
    rw [List.map_append] at this
    exact (List.nodup_append.mp this).1
  have hsub : s.live.map Connection.fd ⊆ s.registry.keys := by
    intro fd hfd
    obtain ⟨conn, hin, rfl⟩ := List.mem_map.mp hfd
    have he := h.entry conn (List.mem_append_left _ hin)
    rw [Std.TreeMap.mem_keys, Std.TreeMap.mem_iff_isSome_getElem?, he]
    rfl
  have hle := List.Nodup.length_le_of_subset hnodup hsub
  rw [List.length_map, Std.TreeMap.length_keys] at hle
  exact hle

theorem step_config {s s' : Server} {e : ServerEvent} (hs : step s e = some s') :
    s'.ioThreads = s.ioThreads ∧ s'.maxConnections = s.maxConnections := by
  cases e with
  | accept connfd =>
    simp only [step] at hs
    split at hs <;> cases hs
    exact ⟨rfl, rfl⟩
  | check =>
    simp only [step] at hs
    split at hs
    · split at hs <;> cases hs <;> exact ⟨rfl, rfl⟩
    · cases hs
  | handOff =>
    simp only [step] at hs
    split at hs
    · split at hs <;> cases hs <;> exact ⟨rfl, rfl⟩
    · cases hs
  | setUp loop =>
    simp only [step] at hs
    split at hs
    · cases hs
    · split at hs <;> cases hs
      exact ⟨rfl, rfl⟩
  | closeSocket conn =>
    simp only [step] at hs
    split at hs <;> cases hs
    exact ⟨rfl, rfl⟩
  | closeCallback loop =>
    simp only [step] at hs
    split at hs <;> cases hs
    exact ⟨rfl, rfl⟩

/-- Only a check that passes admits a connection, and it saw room in the table. -/
theorem admitted_step {s s' : Server} {e : ServerEvent} (hmax : 0 < s.maxConnections)
    (hs : step s e = some s') :
    s'.admitted ≤ s.admitted ∨
      e = .check ∧ s.registry.size < s.maxConnections ∧
        s'.admitted = 1 + s.queued.length + s.live.length := by
  cases e with
  | accept connfd =>
    simp only [step] at hs
    split at hs <;> cases hs
    left
    simp only [admitted]
    omega
  | check =>
    simp only [step] at hs
    split at hs
    · rename_i connfd hm
      split at hs
      · cases hs
        left
        simp only [admitted, hm]
        exact Nat.le_refl _
      · rename_i hroom
        cases hs
        exact Or.inr ⟨rfl, by omega, rfl⟩
    · cases hs
  | handOff =>
    simp only [step] at hs
    split at hs
    · rename_i connfd hm
      left
      split at hs <;> cases hs <;> simp only [admitted, hm, setUp, List.length_append,
        List.length_singleton] <;> omega
    · cases hs
  | setUp loop =>
    simp only [step] at hs
    split at hs
    · cases hs
    · rename_i conn hf
      have hlen := List.length_erase_add_one (List.mem_of_find?_eq_some hf)
      split at hs <;> cases hs
      left
      simp only [admitted, setUp, List.length_append, List.length_singleton]
      omega
  | closeSocket conn =>
    simp only [step] at hs
    split at hs
    · rename_i hcond
      cases hs
      left
      have := (List.erase_sublist (a := conn) (l := s.live)).length_le
      simp only [admitted]
      omega
    · cases hs
  | closeCallback loop =>
    simp only [step] at hs
    split at hs <;> cases hs
    exact Or.inl (Nat.le_refl _)

structure Limited (maxConnections : Nat) (s : Server) : Prop where
  owned : s.Owned
  config : s.maxConnections = maxConnections
  limit : s.admitted ≤ maxConnections

theorem limited_init (ioThreads maxConnections : Nat) :
    (init ioThreads maxConnections).Limited maxConnections where
  owned := owned_init ioThreads maxConnections
  config := rfl
  limit := Nat.zero_le _

theorem limited_step {maxConnections : Nat} (hmax : 0 < maxConnections) {s s' : Server}
    {e : ServerEvent} (h : s.Limited maxConnections) (hr : s.NoReuse e) (hq : s.CountsQueued e)
    (hs : step s e = some s') : s'.Limited maxConnections := by
  refine ⟨owned_step h.owned hr hs, (step_config hs).2.trans h.config, ?_⟩
  have hlimit := h.limit
  have hsize := h.owned.live_le_size
  rcases admitted_step (by rw [h.config]; exact hmax) hs with hle | ⟨rfl, hroom, heq⟩
  · omega
  · have hcount : s.registry.size + s.queued.length < s.maxConnections := hq hroom
    rw [h.config] at hcount
    omega

/-- **The connection limit holds**, in the runs in which the overload check
never passes for want of set-up tasks that are still queued, and no
connection loses its entry to another one's removal. -/
theorem admitted_le_max (ioThreads : Nat) {maxConnections : Nat} (hmax : 0 < maxConnections)
    {s : Server}
    (h : Reached step (fun s e => s.NoReuse e ∧ s.CountsQueued e)
      (init ioThreads maxConnections) s) :
    s.admitted ≤ maxConnections := by
  have hlimited : s.Limited maxConnections := by
    apply h.invariant (limited_init ioThreads maxConnections)
    rintro s e s' hi ⟨hr, hq⟩ hs
    exact limited_step hmax hi hr hq hs
  exact hlimited.limit

instance (s : Server) (e : ServerEvent) : Decidable (s.CountsQueued e) := by
  cases e <;> unfold CountsQueued <;> infer_instance

/-- With a limit of two connections: the second is accepted while the first
waits for its set-up, the third is rejected, and one more comes after a close. -/
def limitOfTwo : List ServerEvent :=
  [.accept 5, .check, .handOff, .accept 6, .check, .handOff, .setUp 0, .setUp 1, .accept 7, .check,
    .closeSocket ⟨0, 5, some 0⟩, .closeCallback (some 0), .accept 5, .check, .handOff]

theorem admitted_le_max_one :
    ∃ s, runIf step (fun s e => s.NoReuse e ∧ s.CountsQueued e) (init 2 2) limitOfTwo = some s ∧
      s.created = 3 ∧ s.admitted = 2 ∧ s.admitted ≤ 2 := by
  have hrun : runIf step (fun s e => s.NoReuse e ∧ s.CountsQueued e) (init 2 2) limitOfTwo = some _ := rfl
  exact ⟨_, hrun, by decide, by decide, admitted_le_max 2 (by decide) (Reached.of_runIf hrun)⟩

/-- With a limit of one connection, two are accepted before the first is set up. -/
theorem admitted_exceeds :
    ∃ s, Reached step Any (init 1 1) s ∧ s.admitted = 2 := by
  have hrun : run step (init 1 1) [.accept 5, .check, .handOff, .accept 6, .check, .handOff] =
      some _ := rfl
  exact ⟨_, Reached.of_run_any hrun, by decide⟩

/-! ## No IO threads -/

theorem step_queued {s s' : Server} {e : ServerEvent} (hio : s.ioThreads = 0) (hq : s.queued = [])
    (hs : step s e = some s') : s'.queued = [] := by
  cases e with
  | accept connfd =>
    simp only [step] at hs
    split at hs <;> cases hs
    exact hq
  | check =>
    simp only [step] at hs
    split at hs
    · split at hs <;> cases hs <;> exact hq
    · cases hs
  | handOff =>
    simp only [step] at hs
    split at hs
    · rw [if_pos hio] at hs
      cases hs
      exact hq
    · cases hs
  | setUp loop => simp [step, hq] at hs
  | closeSocket conn =>
    simp only [step] at hs
    split at hs <;> cases hs
    exact hq
  | closeCallback loop =>
    simp only [step] at hs
    split at hs <;> cases hs
    exact hq

/-- **Without IO threads the limit holds in every run**: a connection is set
up before the next one is accepted. -/
theorem admitted_le_max_base {maxConnections : Nat} (hmax : 0 < maxConnections) {s : Server}
    (h : Reached step Any (init 0 maxConnections) s) : s.admitted ≤ maxConnections := by
  have hall : s.Limited maxConnections ∧ s.OneLoop ∧ s.ioThreads = 0 ∧ s.queued = [] := by
    apply h.invariant (I := fun s => s.Limited maxConnections ∧ s.OneLoop ∧ s.ioThreads = 0 ∧
      s.queued = []) ⟨limited_init 0 maxConnections, oneLoop_init (Nat.zero_le 1) _, rfl, rfl⟩
    rintro s e s' ⟨hl, hone, hio, hq⟩ - hs
    have hcounts : s.CountsQueued e := by
      cases e with
      | check =>
        intro hroom
        rw [hq]
        exact hroom
      | _ => trivial
    exact ⟨limited_step hmax hl (hone.noReuse hs) hcounts hs, oneLoop_step hone hs,
      (step_config hs).1.trans hio, step_queued hio hq hs⟩
  exact hall.1.limit

end Server

end Myself
