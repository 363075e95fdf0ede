import MyselfServer.Server

/-!
# The connection table

The table is keyed by descriptor, and a descriptor is free for the kernel to
give out from the moment its socket is closed. `Owned` says what the table
is for; it is kept as long as nobody enters a connection in the table while
another one with its descriptor still has its entry to remove.
-/

namespace Myself

open Machine

namespace ConnectionRegistry

theorem getElem?_add (r : ConnectionRegistry) (fd : Nat) (conn : Connection) (n : Nat) :
    (r.add fd conn)[n]? = if fd = n then some conn else r[n]? := by
  simp only [add, Std.TreeMap.getElem?_insert, Std.LawfulEqCmp.compare_eq_iff_eq]

theorem getElem?_remove (r : ConnectionRegistry) (fd n : Nat) :
    (r.remove fd)[n]? = if fd = n then none else r[n]? := by
  simp only [remove, Std.TreeMap.getElem?_erase, Std.LawfulEqCmp.compare_eq_iff_eq]

end ConnectionRegistry

namespace Server

/-- The connection whose close callback the loop is about to run. -/
def removed (s : Server) (loop : LoopId) : Option Connection := s.closing.find? fun c => c.loop = loop

/-- Every connection that was added and not closed is the entry of its
descriptor, and the removal for one connection keeps the entries of all others. -/
structure TableOk (s : Server) : Prop where
  live : ∀ conn ∈ s.live, s.registry[conn.fd]? = some conn
  removal : ∀ loop s' conn, step s (.closeCallback loop) = some s' → s.removed loop ≠ some conn →
    s.registry[conn.fd]? = some conn → s'.registry[conn.fd]? = some conn

/-- Descriptors of open connections are distinct; connections that are not
done with the table have their entries in it. -/
structure Owned (s : Server) : Prop where
  fds : s.openFds.Nodup
  added : ((s.live ++ s.closing).map Connection.fd).Nodup
  entry : ∀ conn ∈ s.live ++ s.closing, s.registry[conn.fd]? = some conn

theorem Owned.tableOk {s : Server} (h : s.Owned) : s.TableOk where
  live conn hin := h.entry conn (List.mem_append_left _ hin)
  removal loop s' conn hs hother he := by
    simp only [step] at hs
    split at hs
    · cases hs
    · rename_i closed hf
      cases hs
      have hin := List.mem_of_find?_eq_some hf
      rw [ConnectionRegistry.getElem?_remove]
      by_cases heq : closed.fd = conn.fd
      · -- the removed entry is the closed connection's own
        have hown := h.entry closed (List.mem_append_right _ hin)
        rw [heq, he] at hown
        cases hown
        exact absurd hf hother
      · rw [if_neg heq]
        exact he

theorem owned_init (ioThreads maxConnections : Nat) : (init ioThreads maxConnections).Owned where
  fds := by simp [openFds, init, mainFds]
  added := by simp [init]
  entry := by simp [init]

/-- A connection whose descriptor nobody in the table holds is entered. -/
theorem entered {s : Server} {conn : Connection} (h : s.Owned)
    (hl : ∀ c ∈ s.live, c.fd ≠ conn.fd) (hc : ∀ c ∈ s.closing, c.fd ≠ conn.fd) :
    (((s.live ++ [conn]) ++ s.closing).map Connection.fd).Nodup ∧
      ∀ c ∈ (s.live ++ [conn]) ++ s.closing, (s.registry.add conn.fd conn)[c.fd]? = some c := by
  have hother : ∀ c ∈ s.live ++ s.closing, conn.fd ≠ c.fd := by
    intro c hin
    rcases List.mem_append.mp hin with hin | hin
    · exact (hl c hin).symm
    · exact (hc c hin).symm
  have hperm : ((s.live ++ [conn]) ++ s.closing).Perm (conn :: (s.live ++ s.closing)) := by
    rw [List.append_assoc, List.singleton_append]
    exact List.perm_middle
  constructor
  · rw [(hperm.map Connection.fd).nodup_iff, List.map_cons, List.nodup_cons]
    refine ⟨?_, h.added⟩
    intro hm
    obtain ⟨c, hin, heq⟩ := List.mem_map.mp hm
    exact hother c hin heq.symm
  · intro c hin
    rw [ConnectionRegistry.getElem?_add]
    rcases List.mem_cons.mp (hperm.mem_iff.mp hin) with rfl | hin
    · exact if_pos rfl
    · rw [if_neg (hother c hin)]
      exact h.entry c hin

theorem owned_step {s s' : Server} {e : ServerEvent} (h : s.Owned) (hc : s.NoReuse e)
    (hs : step s e = some s') : s'.Owned := by
  cases e with
  | accept connfd =>
    simp only [step] at hs
    split at hs
    · cases hs
    · rename_i hfree
      cases hs
      rw [not_or] at hfree
      obtain ⟨hbusy, hnot⟩ := hfree
      refine ⟨?_, h.added, h.entry⟩
      have hsub : (s.queued.map Connection.fd ++ s.live.map Connection.fd).Sublist s.openFds :=
        List.sublist_append_right ..
      exact List.nodup_cons.mpr ⟨fun hm => hnot (hsub.subset hm), h.fds.sublist hsub⟩
  | check =>
    simp only [step] at hs
    split at hs
    · rename_i connfd hm
      have hfds := h.fds
      simp only [openFds, hm] at hfds
      split at hs
      · cases hs
        exact ⟨hfds.of_cons, h.added, h.entry⟩
      · cases hs
        exact ⟨hfds, h.added, h.entry⟩
    · cases hs
  | handOff =>
    simp only [step] at hs
    split at hs
    · rename_i connfd hm
      have hfds := h.fds
      simp only [openFds, hm, mainFds, List.singleton_append] at hfds
      split at hs
      · rename_i hio
        cases hs
        have hnone := hc ⟨s.created, connfd, s.nextLoop⟩ (by simp [adds, hm, hio])
        have hlive : ∀ c ∈ s.live, c.fd ≠ connfd := by
          intro c hin heq
          exact (List.nodup_cons.mp hfds).1
            (List.mem_append_right _ (List.mem_map.mpr ⟨c, hin, heq⟩))
        obtain ⟨hnodup, hentry⟩ := entered h hlive hnone
        refine ⟨?_, hnodup, hentry⟩
        have hperm : (s.queued.map Connection.fd ++ (s.live.map Connection.fd ++ [connfd])).Perm
            (connfd :: (s.queued.map Connection.fd ++ s.live.map Connection.fd)) := by
          rw [← List.append_assoc]
          exact List.perm_append_singleton _ _
        simp only [openFds, mainFds, setUp, List.map_append, List.map_cons, List.map_nil,
          List.nil_append]
        exact hperm.nodup_iff.mpr hfds
      · cases hs
        refine ⟨?_, h.added, h.entry⟩
        have hperm : ((s.queued.map Connection.fd ++ [connfd]) ++ s.live.map Connection.fd).Perm
            (connfd :: (s.queued.map Connection.fd ++ s.live.map Connection.fd)) := by
          rw [List.append_assoc, List.singleton_append]
          exact List.perm_middle
        simp only [openFds, mainFds, List.map_append, List.map_cons, List.map_nil,
          List.nil_append]
        exact hperm.nodup_iff.mpr hfds
    · cases hs
  | setUp loop =>
    simp only [step] at hs
    split at hs
    · cases hs
    · rename_i conn hf
      have hin := List.mem_of_find?_eq_some hf
      split at hs
      · cases hs
      · cases hs
        have hperm : (s.queued.map Connection.fd).Perm
            (conn.fd :: (s.queued.erase conn).map Connection.fd) :=
          (List.perm_cons_erase hin).map Connection.fd
        have hall : s.openFds.Perm (mainFds s.main ++ ((s.queued.erase conn).map Connection.fd ++
            (s.live.map Connection.fd ++ [conn.fd]))) := by
          apply List.Perm.append_left
          refine (hperm.append_right _).trans ?_
          rw [← List.append_assoc]
          exact (List.perm_append_singleton _ _).symm
        have hlive : ∀ c ∈ s.live, c.fd ≠ conn.fd := by
          intro c hc heq
          have hfds := h.fds
          simp only [openFds] at hfds
          have hpart := (List.nodup_append.mp hfds).2.1
          exact (List.nodup_append.mp hpart).2.2 conn.fd (List.mem_map_of_mem hin) c.fd
            (List.mem_map_of_mem hc) heq.symm
        obtain ⟨hnodup, hentry⟩ := entered h hlive (hc conn hf)
        refine ⟨?_, hnodup, hentry⟩
        simp only [openFds, setUp, List.map_append, List.map_cons, List.map_nil]
        exact hall.nodup_iff.mp h.fds
  | closeSocket conn =>
    simp only [step] at hs
    split at hs
    · rename_i hcond
      cases hs
      have hperm : ((s.live.erase conn) ++ (s.closing ++ [conn])).Perm (s.live ++ s.closing) := by
        rw [← List.append_assoc]
        refine (List.perm_append_singleton _ _).trans ?_
        rw [← List.cons_append]
        exact ((List.perm_cons_erase hcond.1).symm).append_right _
      refine ⟨?_, ?_, ?_⟩
      · refine List.Nodup.sublist ?_ h.fds
        exact ((List.erase_sublist.map Connection.fd).append_left _).append_left _
      · exact (hperm.map Connection.fd).nodup_iff.mpr h.added
      · intro c hin
        exact h.entry c (hperm.mem_iff.mp hin)
    · cases hs
  | closeCallback loop =>
    simp only [step] at hs
    split at hs
    · cases hs
    · rename_i conn hf
      cases hs
      have hin := List.mem_of_find?_eq_some hf
      have hperm : (s.live ++ s.closing).Perm (conn :: (s.live ++ s.closing.erase conn)) :=
        ((List.perm_cons_erase hin).append_left _).trans List.perm_middle
      have hnodup := (hperm.map Connection.fd).nodup_iff.mp h.added
      rw [List.map_cons, List.nodup_cons] at hnodup
      refine ⟨h.fds, hnodup.2, ?_⟩
      intro c hc
      have hne : ¬ conn.fd = c.fd := fun heq =>
        hnodup.1 (heq ▸ List.mem_map_of_mem hc)
      rw [ConnectionRegistry.getElem?_remove, if_neg hne]
      exact h.entry c (hperm.mem_iff.mpr (List.mem_cons_of_mem _ hc))

/-- **The table under descriptor reuse**, in the runs in which no connection
is added between the closing of another one with its descriptor and the
removal of that one's entry. -/
theorem table_ok (ioThreads maxConnections : Nat) {s : Server}
    (h : Reached step NoReuse (init ioThreads maxConnections) s) : s.TableOk := by
  have howned : s.Owned :=
    h.invariant (owned_init ioThreads maxConnections) fun _ _ _ hi hc hs => owned_step hi hc hs
  exact howned.tableOk

instance (s : Server) (e : ServerEvent) : Decidable (s.NoReuse e) :=
  inferInstanceAs (Decidable (∀ conn ∈ s.adds e, ∀ c ∈ s.closing, c.fd ≠ conn.fd))

/-- Descriptor 5 is used again on the other loop, after the removal for
connection 0; the removal for connection 2 is still to come. -/
def reuse : List ServerEvent :=
  [.accept 5, .check, .handOff, .setUp 0, .closeSocket ⟨0, 5, some 0⟩, .closeCallback (some 0), .accept 5, .check,
    .handOff, .setUp 1, .accept 6, .check, .handOff, .setUp 0, .closeSocket ⟨2, 6, some 0⟩]

theorem table_ok_one :
    ∃ s s', runIf step NoReuse (init 2 0) reuse = some s ∧ step s (.closeCallback (some 0)) = some s' ∧
      s'.registry[6]? = none ∧ s'.registry[5]? = some ⟨1, 5, some 1⟩ := by
  have hrun : runIf step NoReuse (init 2 0) reuse = some _ := rfl
  have hok := table_ok 2 0 (Reached.of_runIf hrun)
  refine ⟨_, _, hrun, rfl, by decide, ?_⟩
  exact hok.removal (some 0) _ ⟨1, 5, some 1⟩ rfl (by decide) (hok.live ⟨1, 5, some 1⟩ (by decide))

/-- The socket of connection 0 is closed, its descriptor 5 goes to connection
1 on the other loop, and the removal for connection 0 erases connection 1. -/
theorem removal_erases_other :
    ∃ s, Reached step Any (init 2 0) s ∧ ⟨1, 5, some 1⟩ ∈ s.live ∧ s.registry[5]? = none := by
  have hrun : run step (init 2 0)
      [.accept 5, .check, .handOff, .setUp 0, .closeSocket ⟨0, 5, some 0⟩,
        .accept 5, .check, .handOff, .setUp 1, .closeCallback (some 0)] = some _ := rfl
  exact ⟨_, Reached.of_run_any hrun, by decide, by decide⟩

/-! ## One loop -/

structure OneLoop (s : Server) : Prop where
  threads : s.ioThreads ≤ 1
  next : s.next = 0
  loops : ∀ conn ∈ s.queued ++ (s.live ++ s.closing), conn.loop = s.nextLoop
  base : s.ioThreads = 0 → s.main ≠ .idle → s.closing = []

theorem OneLoop.noReuse {s s' : Server} {e : ServerEvent} (h : s.OneLoop)
    (hs : step s e = some s') : s.NoReuse e := by
  intro conn ha c hin
  have hloop := h.loops c (List.mem_append_right _ (List.mem_append_right _ hin))
  cases e with
  | handOff =>
    simp only [adds] at ha
    split at ha
    · rename_i connfd hm
      split at ha
      · rename_i hio
        rw [h.base hio (by rw [hm]; exact fun hx => nomatch hx)] at hin
        cases hin
      · cases ha
    · cases ha
  | setUp loop =>
    simp only [adds] at ha
    simp only [step, ha] at hs
    split at hs
    · cases hs
    · rename_i hbusy
      -- the loop of the set-up is not busy, so no connection of it is closing
      have hconn := List.find?_some ha
      have hmem := List.mem_of_find?_eq_some ha
      have hsame := h.loops conn (List.mem_append_left _ hmem)
      simp only [decide_eq_true_eq] at hconn
      exfalso
      apply hbusy
      simp only [busy, Bool.or_eq_true, List.any_eq_true, decide_eq_true_eq]
      exact Or.inl ⟨c, hin, by rw [hloop, ← hsame, hconn]⟩
  | accept _ => cases ha
  | check => cases ha
  | closeSocket _ => cases ha
  | closeCallback _ => cases ha

theorem oneLoop_init {ioThreads : Nat} (h : ioThreads ≤ 1) (maxConnections : Nat) :
    (init ioThreads maxConnections).OneLoop where
  threads := h
  next := rfl
  loops := by simp [init]
  base := fun _ _ => rfl

theorem oneLoop_step {s s' : Server} {e : ServerEvent} (h : s.OneLoop)
    (hs : step s e = some s') : s'.OneLoop := by
  cases e with
  | accept connfd =>
    simp only [step] at hs
    split at hs
    · cases hs
    · rename_i hfree
      cases hs
      refine ⟨h.threads, h.next, h.loops, ?_⟩
      intro hio _
      rw [not_or] at hfree
      by_contra hne
      obtain ⟨c, hc⟩ := List.exists_mem_of_ne_nil _ hne
      have hloop := h.loops c (List.mem_append_right _ (List.mem_append_right _ hc))
      rw [nextLoop, if_pos hio] at hloop
      apply hfree.1
      simp only [busy, Bool.or_eq_true, List.any_eq_true, decide_eq_true_eq]
      exact Or.inl ⟨c, hc, hloop⟩
  | check =>
    simp only [step] at hs
    split at hs
    · rename_i connfd hm
      have hbase := fun hio => h.base hio (by rw [hm]; exact fun hx => nomatch hx)
      split at hs <;> cases hs <;> exact ⟨h.threads, h.next, h.loops, fun hio _ => hbase hio⟩
    · cases hs
  | handOff =>
    simp only [step] at hs
    split at hs
    · rename_i connfd hm
      have hthreads := h.threads
      split at hs
      · cases hs
        refine ⟨h.threads, h.next, ?_, fun _ hx => absurd rfl hx⟩
        intro c hc
        simp only [setUp, List.mem_append, List.mem_singleton] at hc
        rcases hc with hc | (hc | rfl) | hc
        · exact h.loops c (List.mem_append_left _ hc)
        · exact h.loops c (List.mem_append_right _ (List.mem_append_left _ hc))
        · rfl
        · exact h.loops c (List.mem_append_right _ (List.mem_append_right _ hc))
      · rename_i hio
        cases hs
        have hnext : (s.next + 1) % s.ioThreads = 0 := by
          rw [show s.ioThreads = 1 by omega]
          exact Nat.mod_one _
        have hsame : nextLoop { s with
            main := .idle, created := s.created + 1,
            queued := s.queued ++ [⟨s.created, connfd, s.nextLoop⟩],
            next := (s.next + 1) % s.ioThreads } = s.nextLoop := by
          rw [nextLoop, nextLoop, hnext, h.next]
        refine ⟨h.threads, hnext, ?_, fun _ hx => absurd rfl hx⟩
        intro c hc
        refine Eq.trans ?_ hsame.symm
        simp only [List.mem_append, List.mem_singleton] at hc
        rcases hc with (hc | rfl) | hc | hc
        · exact h.loops c (List.mem_append_left _ hc)
        · rfl
        · exact h.loops c (List.mem_append_right _ (List.mem_append_left _ hc))
        · exact h.loops c (List.mem_append_right _ (List.mem_append_right _ hc))
    · cases hs
  | setUp loop =>
    simp only [step] at hs
    split at hs
    · cases hs
    · rename_i conn hf
      have hin := List.mem_of_find?_eq_some hf
      split at hs
      · cases hs
      · cases hs
        refine ⟨h.threads, h.next, ?_, h.base⟩
        intro c hc
        simp only [setUp, List.mem_append, List.mem_singleton] at hc
        rcases hc with hc | (hc | rfl) | hc
        · exact h.loops c (List.mem_append_left _ (List.mem_of_mem_erase hc))
        · exact h.loops c (List.mem_append_right _ (List.mem_append_left _ hc))
        · exact h.loops c (List.mem_append_left _ hin)
        · exact h.loops c (List.mem_append_right _ (List.mem_append_right _ hc))
  | closeSocket conn =>
    simp only [step] at hs
    split at hs
    · rename_i hcond
      cases hs
      refine ⟨h.threads, h.next, ?_, ?_⟩
      · intro c hc
        simp only [List.mem_append, List.mem_singleton] at hc
        rcases hc with hc | hc | hc | rfl
        · exact h.loops c (List.mem_append_left _ hc)
        · exact h.loops c (List.mem_append_right _ (List.mem_append_left _ (List.mem_of_mem_erase hc)))
        · exact h.loops c (List.mem_append_right _ (List.mem_append_right _ hc))
        · exact h.loops c (List.mem_append_right _ (List.mem_append_left _ hcond.1))
      · intro hio hmain
        -- the main thread is inside the callback, so its loop closes nothing
        have hloop := h.loops conn (List.mem_append_right _ (List.mem_append_left _ hcond.1))
        rw [nextLoop, if_pos hio] at hloop
        have hbusy := hcond.2
        rw [hloop] at hbusy
        simp only [busy, Bool.or_eq_false_iff, Option.isNone_none, Bool.true_and, bne_eq_false_iff_eq]
          at hbusy
        exact absurd hbusy.2 hmain
    · cases hs
  | closeCallback loop =>
    simp only [step] at hs
    split at hs
    · cases hs
    · rename_i conn hf
      cases hs
      refine ⟨h.threads, h.next, ?_, ?_⟩
      · intro c hc
        simp only [List.mem_append] at hc
        rcases hc with hc | hc | hc
        · exact h.loops c (List.mem_append_left _ hc)
        · exact h.loops c (List.mem_append_right _ (List.mem_append_left _ hc))
        · exact h.loops c
            (List.mem_append_right _ (List.mem_append_right _ (List.mem_of_mem_erase hc)))
      · intro hio hmain
        rw [h.base hio hmain]
        rfl

/-- **With one loop for all connections the table is right in every run.** -/
theorem table_ok_one_loop {ioThreads : Nat} (hio : ioThreads ≤ 1) (maxConnections : Nat)
    {s : Server} (h : Reached step Any (init ioThreads maxConnections) s) : s.TableOk := by
  have hboth : s.Owned ∧ s.OneLoop := by
    apply h.invariant ⟨owned_init ioThreads maxConnections, oneLoop_init hio maxConnections⟩
    rintro s e s' ⟨howned, hone⟩ - hs
    exact ⟨owned_step howned (hone.noReuse hs) hs, oneLoop_step hone hs⟩
  exact hboth.1.tableOk

end Server

end Myself
