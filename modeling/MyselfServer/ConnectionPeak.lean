import MyselfServer.MetricsUse

/-!
# The connection peak

`connectionsMax` is raised without a lock: a value above the maximum is on its
way to it in some open that is in progress, whatever the exchange of that open
has seen before.
-/

namespace Myself.Util

open Metrics Machine

/-! ## What a step does to the connections -/

namespace Caller

def apart : Caller → Bool
  | idle | adding _ | finishing _ | loading .. => true
  | _ => false

def opening : Caller → Nat
  | openTotal | openCurrent | openLoad _ | openExchange .. => 1
  | _ => 0

def between : Caller → Nat
  | openCurrent => 1
  | _ => 0

def counted : Caller → Nat
  | closing | openLoad _ | openExchange .. => 1
  | _ => 0

theorem opening_of_apart {a : Caller} (h : a.apart = true) :
    a.opening = 0 ∧ a.between = 0 ∧ a.counted = 0 ∧ a.raised = none := by
  cases a <;> first | exact ⟨rfl, rfl, rfl, rfl⟩ | cases h

theorem opening_of_raised {a : Caller} {v : Int} (h : a.raised = some v) :
    a.opening = 1 ∧ a.between = 0 ∧ a.counted = 1 := by
  cases a <;> first | exact ⟨rfl, rfl, rfl⟩ | cases h

end Caller

namespace Metrics

theorem fetchAdd_other (m : Metrics) {c d : Counter} (n : Nat) (h : c ≠ d) :
    (m.fetchAdd c n).counter d = m.counter d := by
  rw [fetchAdd_counter, if_neg h, Nat.add_zero]

theorem onRequestFinished_counters {statusCode : Int} {latencyMs : ℚ} {add : Counter × Nat}
    (h : add ∈ onRequestFinished statusCode latencyMs) :
    add.1 ≠ .connectionsTotal ∧ add.1 ≠ .connectionsMax := by
  simp only [onRequestFinished] at h
  split_ifs at h <;> simp at h <;> rcases h with rfl | rfl | rfl | rfl | rfl <;> simp

end Metrics

namespace MetricsUse

variable {s s' : MetricsUse} {e : MetricsEvent} {t : Nat} {a : Caller}

structure SameConnections (s s' : MetricsUse) : Prop where
  current : s'.metrics.connectionsCurrent = s.metrics.connectionsCurrent
  total : s'.metrics.counter .connectionsTotal = s.metrics.counter .connectionsTotal
  max : s'.metrics.counter .connectionsMax = s.metrics.counter .connectionsMax
  closes : s'.closeBegun = s.closeBegun ∧ s'.closes = s.closes
  currents : s'.currents = s.currents
  opens : s'.openBegun = s.openBegun ∧ s'.openEnded = s.openEnded

theorem Ok.head {add : Counter × Nat} {adds : List (Counter × Nat)}
    (h : (Caller.adding (add :: adds)).Ok ∨ (Caller.finishing (add :: adds)).Ok) :
    add.1 ≠ .connectionsTotal ∧ add.1 ≠ .connectionsMax := by
  rcases h with h | ⟨-, statusCode, latencyMs, hsuffix⟩
  · obtain ⟨htotal, hmax, -⟩ := h add (List.mem_cons_self ..)
    exact ⟨htotal, hmax⟩
  · exact Metrics.onRequestFinished_counters (hsuffix.subset (List.mem_cons_self ..))

inductive Moves (s : MetricsUse) (e : MetricsEvent) (t : Nat) : Caller → MetricsUse → Prop where
  | apart {a b : Caller} {s' : MetricsUse} (ha : a.apart = true) (hb : b.apart = true) (hok : b.Ok)
      (hcallers : s'.callers = s.callers.set t b) (hsame : SameConnections s s') : Moves s e t a s'
  | opens : Moves s e t .idle { s.setCaller t .openTotal with openBegun := s.openBegun + 1 }
  | closes (he : e = .enter t .onConnectionClosed) :
      Moves s e t .idle { s.setCaller t .closing with closeBegun := s.closeBegun + 1 }
  | lower : Moves s e t .closing { s.setCaller t .idle with
      metrics := { s.metrics with connectionsCurrent := s.metrics.connectionsCurrent - 1 }
      closes := s.closes + 1
      currents := (s.metrics.connectionsCurrent - 1) :: s.currents }
  | count : Moves s e t .openTotal
      { s.setCaller t .openCurrent with metrics := s.metrics.fetchAdd .connectionsTotal 1 }
  | lift : Moves s e t .openCurrent { s.setCaller t (.openLoad (s.metrics.connectionsCurrent + 1)) with
      metrics := { s.metrics with connectionsCurrent := s.metrics.connectionsCurrent + 1 }
      currents := (s.metrics.connectionsCurrent + 1) :: s.currents }
  | compare {a : Caller} {current : Int} (ha : a.raised = some current) :
      Moves s e t a (s.raise t current (s.metrics.counter .connectionsMax))
  | exchange {a : Caller} {current : Int} (ha : a.raised = some current)
      (hless : s.metrics.counter .connectionsMax < toUInt64 current) :
      Moves s e t a { s.setCaller t .idle with
        metrics := { s.metrics with
          counter := fun d => if d = .connectionsMax then toUInt64 current else s.metrics.counter d }
        openEnded := s.openEnded + 1 }

theorem Does.moves (h : Does s e t a s') : Moves s e t a s' := by
  have hquiet : ∀ (b : Caller) (n m : Nat) (taken : List Taken), SameConnections s
      { s.setCaller t b with finishBegun := n, finishEnded := m, taken := taken } :=
    fun _ _ _ _ => ⟨rfl, rfl, rfl, ⟨rfl, rfl⟩, rfl, rfl, rfl⟩
  have hadd : ∀ (b : Caller) {c : Counter} {n : Nat} (m : Nat), c ≠ .connectionsTotal ∧ c ≠ .connectionsMax →
      SameConnections s { s.setCaller t b with metrics := s.metrics.fetchAdd c n, finishEnded := m } :=
    fun _ _ _ _ hc => ⟨rfl, s.metrics.fetchAdd_other _ hc.1, s.metrics.fetchAdd_other _ hc.2, ⟨rfl, rfl⟩, rfl,
      rfl, rfl⟩
  cases h with
  | @enters adds hok =>
    refine .apart rfl ?_ ?_ rfl (hquiet _ s.finishBegun s.finishEnded s.taken)
    · split <;> rfl
    · split
      · trivial
      · exact hok
  | @adds add adds hok =>
    refine .apart rfl ?_ ?_ rfl (hadd _ s.finishEnded (Ok.head (.inl hok)))
    · split <;> rfl
    · split
      · trivial
      · exact fun next hnext => hok next (List.mem_cons_of_mem _ hnext)
  | begins statusCode latencyMs =>
    have hfirst : (Caller.finishing (Metrics.onRequestFinished statusCode latencyMs)).Ok :=
      ⟨by simp [Metrics.onRequestFinished], statusCode, latencyMs, List.suffix_refl _⟩
    exact .apart rfl rfl hfirst rfl (hquiet _ (s.finishBegun + 1) s.finishEnded s.taken)
  | @finishes add adds hok =>
    refine .apart rfl ?_ ?_ rfl (hadd _ _ (Ok.head (.inr hok)))
    · split <;> rfl
    · obtain ⟨-, statusCode, latencyMs, hsuffix⟩ := hok
      split
      · trivial
      · rename_i hne
        exact ⟨hne, statusCode, latencyMs, (List.suffix_cons add adds).trans hsuffix⟩
  | looks => exact .apart (b := .loading ..) rfl rfl trivial rfl (hquiet _ s.finishBegun s.finishEnded s.taken)
  | loads hk => exact .apart (b := .loading ..) rfl rfl trivial rfl (hquiet _ s.finishBegun s.finishEnded s.taken)
  | takes now hk => exact .apart (b := .idle) rfl rfl trivial rfl (hquiet _ s.finishBegun s.finishEnded _)
  | opens => exact .opens
  | closes he => exact .closes he
  | lower => exact .lower
  | count => exact .count
  | lift => exact .lift
  | compare ha => exact .compare ha
  | exchange ha hless => exact .exchange ha hless

theorem toUInt64_of_pos {v : Int} (h : 0 < v) : (toUInt64 v : Int) = v := by
  have hneg : ¬ v < 0 := by omega
  rw [toUInt64, if_neg hneg]
  omega

/-- A value above the maximum that the counter has had, or has passed, is
that of an open in progress. -/
structure Covered (s : MetricsUse) : Prop where
  ok : ∀ a ∈ s.callers, a.Ok
  opens : s.openBegun = s.openEnded + (s.callers.map Caller.opening).sum
  now_mem : s.metrics.connectionsCurrent ∈ s.currents
  covered : ∀ v u : Int, s.metrics.counter .connectionsMax < v → v ≤ u → u ∈ s.currents →
    some v ∈ s.callers.map Caller.raised

theorem ok_set (hok : ∀ a ∈ s.callers, a.Ok) {b : Caller} (hb : b.Ok) : ∀ a ∈ s.callers.set t b, a.Ok := by
  intro a ha
  rcases List.mem_or_eq_of_mem_set ha with hold | rfl
  · exact hok a hold
  · exact hb

theorem raise_cases (s : MetricsUse) (t : Nat) (current : Int) (previousMax : Nat) :
    (previousMax < toUInt64 current ∧
      s.raise t current previousMax = s.setCaller t (.openExchange current previousMax)) ∨
    (toUInt64 current ≤ previousMax ∧
      s.raise t current previousMax = { s.setCaller t .idle with openEnded := s.openEnded + 1 }) := by
  by_cases h : toUInt64 current > previousMax
  · exact Or.inl ⟨h, if_pos h⟩
  · exact Or.inr ⟨not_lt.mp h, if_neg h⟩

theorem covered_moves (h : s.Covered) (ha : s.callers[t]? = some a) (hm : Moves s e t a s') : s'.Covered := by
  obtain ⟨hok, hopens, hnow, hcov⟩ := h
  have hplace : ∀ {v : Int} {b : Caller}, some v ∈ s.callers.map Caller.raised →
      (a.raised = some v → b.raised = some v) → some v ∈ (s.callers.set t b).map Caller.raised :=
    fun hv hab => Places.mem_map_set ha hv hab
  cases hm with
  | @apart _ b _ hapart hb hbok hcallers hsame =>
    obtain ⟨hopen, -, -, hraised⟩ := Caller.opening_of_apart hapart
    obtain ⟨hopen', -, -, -⟩ := Caller.opening_of_apart hb
    refine ⟨?_, ?_, ?_, ?_⟩
    · rw [hcallers]
      exact ok_set hok hbok
    · rw [hcallers, hsame.opens.1, hsame.opens.2]
      exact Places.balance ha hopens (by omega)
    · rw [hsame.current, hsame.currents]
      exact hnow
    · rw [hsame.max, hsame.currents, hcallers]
      intro v u hv hle hu
      refine hplace (hcov v u hv hle hu) fun hr => ?_
      rw [hraised] at hr
      cases hr
  | opens =>
    refine ⟨ok_set hok trivial, ?_, hnow, ?_⟩
    · exact Places.balance ha hopens (by dsimp only [setCaller, Caller.opening]; omega)
    · exact fun v u hv hle hu => hplace (hcov v u hv hle hu) fun hr => by cases hr
  | closes =>
    refine ⟨ok_set hok trivial, ?_, hnow, ?_⟩
    · exact Places.balance ha hopens (by dsimp only [setCaller, Caller.opening])
    · exact fun v u hv hle hu => hplace (hcov v u hv hle hu) fun hr => by cases hr
  | lower =>
    refine ⟨ok_set hok trivial, ?_, List.mem_cons_self .., ?_⟩
    · exact Places.balance ha hopens (by dsimp only [setCaller, Caller.opening])
    · intro v u hv hle hu
      rcases List.mem_cons.mp hu with rfl | hu
      · -- the counter has gone down from a value it has had before
        exact hplace (hcov v _ hv (hle.trans (by omega)) hnow) fun hr => by cases hr
      · exact hplace (hcov v u hv hle hu) fun hr => by cases hr
  | count =>
    refine ⟨ok_set hok trivial, ?_, hnow, ?_⟩
    · exact Places.balance ha hopens (by dsimp only [setCaller, Caller.opening])
    · exact fun v u hv hle hu => hplace (hcov v u hv hle hu) fun hr => by cases hr
  | lift =>
    refine ⟨ok_set hok trivial, ?_, List.mem_cons_self .., ?_⟩
    · exact Places.balance ha hopens (by dsimp only [setCaller, Caller.opening])
    · intro v u hv hle hu
      by_cases hnew : v = s.metrics.connectionsCurrent + 1
      · subst hnew
        obtain ⟨hlt, -⟩ := List.getElem?_eq_some_iff.mp ha
        exact List.mem_map.mpr ⟨_, List.mem_set hlt _, rfl⟩
      · rcases List.mem_cons.mp hu with rfl | hu
        · exact hplace (hcov v _ hv (by omega) hnow) fun hr => by cases hr
        · exact hplace (hcov v u hv hle hu) fun hr => by cases hr
  | @compare _ current hraised =>
    obtain ⟨hopen, -, -⟩ := Caller.opening_of_raised hraised
    rcases raise_cases s t current (s.metrics.counter .connectionsMax) with ⟨hless, heq⟩ | ⟨hle, heq⟩
    · rw [heq]
      refine ⟨ok_set hok hless, ?_, hnow, ?_⟩
      · exact Places.balance ha hopens (by rw [hopen]; dsimp only [setCaller, Caller.opening])
      · intro v u hv hle hu
        exact hplace (hcov v u hv hle hu) fun hr => hraised.symm.trans hr
    · rw [heq]
      refine ⟨ok_set hok trivial, ?_, hnow, ?_⟩
      · exact Places.balance ha hopens (by rw [hopen]; dsimp only [setCaller, Caller.opening]; omega)
      · intro v u hv hle' hu
        have hv' : (s.metrics.counter .connectionsMax : Int) < v := hv
        refine hplace (hcov v u hv hle' hu) fun hr => ?_
        -- this open has seen that the maximum is no smaller than its value
        obtain rfl : current = v := Option.some.inj (hraised.symm.trans hr)
        have hcast := toUInt64_of_pos (v := current) (by omega)
        omega
  | @exchange _ current hraised hless =>
    obtain ⟨hopen, -, -⟩ := Caller.opening_of_raised hraised
    refine ⟨ok_set hok trivial, ?_, hnow, ?_⟩
    · exact Places.balance ha hopens (by rw [hopen]; dsimp only [setCaller, Caller.opening]; omega)
    · intro v u hv hle hu
      have hv' : (toUInt64 current : Int) < v := by simpa using hv
      refine hplace (hcov v u (by omega) hle hu) fun hr => ?_
      obtain rfl : current = v := Option.some.inj (hraised.symm.trans hr)
      have hcast := toUInt64_of_pos (v := current) (by omega)
      omega

structure Flow (s : MetricsUse) : Prop where
  current : s.metrics.connectionsCurrent + s.closeBegun = s.openEnded + ((s.callers.map Caller.counted).sum : Nat)
  total : (s.metrics.counter .connectionsTotal : Int) =
    s.closes + s.metrics.connectionsCurrent + ((s.callers.map Caller.between).sum : Nat)
  follows : s.closeBegun ≤ s.openEnded
  max_mem : (s.metrics.counter .connectionsMax : Int) ∈ s.currents
  raised : ∀ a ∈ s.callers, ∀ v, a.raised = some v → 0 < v ∧ v ∈ s.currents

theorem Flow.nonneg (h : s.Flow) : 0 ≤ s.metrics.connectionsCurrent := by
  have hcurrent := h.current
  have hfollows := h.follows
  omega

theorem raised_set {b : Caller} {currents : List Int}
    (h : ∀ a ∈ s.callers, ∀ v, a.raised = some v → 0 < v ∧ v ∈ currents)
    (hb : ∀ v, b.raised = some v → 0 < v ∧ v ∈ currents) :
    ∀ a ∈ s.callers.set t b, ∀ v, a.raised = some v → 0 < v ∧ v ∈ currents := by
  intro a ha
  rcases List.mem_or_eq_of_mem_set ha with hold | rfl
  · exact h a hold
  · exact hb

theorem flow_moves (h : s.Flow) (hc : s.Follows e) (ha : s.callers[t]? = some a) (hm : Moves s e t a s') : s'.Flow := by
  have hnonneg := h.nonneg
  obtain ⟨hcurrent, htotal, hfollows, hmax, hraised⟩ := h
  have hnone : ∀ {b : Caller} {currents : List Int}, b.raised = none →
      ∀ v, b.raised = some v → 0 < v ∧ v ∈ currents := by
    intro b currents hb v hv
    rw [hb] at hv
    cases hv
  have hlater : ∀ w : Int, ∀ a ∈ s.callers, ∀ v, a.raised = some v → 0 < v ∧ v ∈ w :: s.currents :=
    fun w a ha v hv => ⟨(hraised a ha v hv).1, List.mem_cons_of_mem _ (hraised a ha v hv).2⟩
  cases hm with
  | @apart _ b _ hapart hb hbok hcallers hsame =>
    obtain ⟨-, hbetween₀, hcounted₀, -⟩ := Caller.opening_of_apart hapart
    obtain ⟨-, hbetween₁, hcounted₁, hraised₁⟩ := Caller.opening_of_apart hb
    refine ⟨?_, ?_, ?_, ?_, ?_⟩
    · rw [hsame.current, hsame.closes.1, hsame.opens.2, hcallers]
      exact Places.balance_int ha hcurrent (by omega)
    · rw [hsame.total, hsame.closes.2, hsame.current, hcallers]
      exact Places.balance_int ha htotal (by omega)
    · rw [hsame.closes.1, hsame.opens.2]
      exact hfollows
    · rw [hsame.max, hsame.currents]
      exact hmax
    · rw [hcallers, hsame.currents]
      exact raised_set hraised (hnone hraised₁)
  | opens =>
    refine ⟨?_, ?_, hfollows, hmax, raised_set hraised (hnone rfl)⟩
    · exact Places.balance_int ha hcurrent (by dsimp only [setCaller, Caller.counted])
    · exact Places.balance_int ha htotal (by dsimp only [setCaller, Caller.between])
  | closes he =>
    subst he
    have hless : s.closeBegun < s.openEnded := hc
    refine ⟨?_, ?_, hless, hmax, raised_set hraised (hnone rfl)⟩
    · exact Places.balance_int ha hcurrent (by dsimp only [setCaller, Caller.counted]; omega)
    · exact Places.balance_int ha htotal (by dsimp only [setCaller, Caller.between])
  | lower =>
    refine ⟨?_, ?_, hfollows, List.mem_cons_of_mem _ hmax, raised_set (hlater _) (hnone rfl)⟩
    · exact Places.balance_int ha hcurrent (by dsimp only [setCaller, Caller.counted]; omega)
    · exact Places.balance_int ha htotal (by dsimp only [setCaller, Caller.between]; omega)
  | count =>
    have hone := s.metrics.fetchAdd_counter .connectionsTotal .connectionsTotal 1
    rw [if_pos rfl] at hone
    have hsame := s.metrics.fetchAdd_other (c := .connectionsTotal) (d := .connectionsMax) 1 (by decide)
    refine ⟨?_, ?_, hfollows, ?_, raised_set hraised (hnone rfl)⟩
    · exact Places.balance_int ha hcurrent (by dsimp only [setCaller, fetchAdd, Caller.counted])
    · have hkeep : (s.metrics.fetchAdd .connectionsTotal 1).connectionsCurrent = s.metrics.connectionsCurrent := rfl
      exact Places.balance_int ha htotal (by dsimp only [setCaller, Caller.between]; rw [hone, hkeep]; omega)
    · dsimp only [setCaller]
      rw [hsame]
      exact hmax
  | lift =>
    refine ⟨?_, ?_, hfollows, List.mem_cons_of_mem _ hmax, raised_set (hlater _) ?_⟩
    · exact Places.balance_int ha hcurrent (by dsimp only [setCaller, Caller.counted]; omega)
    · exact Places.balance_int ha htotal (by dsimp only [setCaller, Caller.between]; omega)
    · intro v hv
      cases hv
      exact ⟨by omega, List.mem_cons_self ..⟩
  | @compare _ current hhas =>
    obtain ⟨-, hbetween₀, hcounted₀⟩ := Caller.opening_of_raised hhas
    rcases raise_cases s t current (s.metrics.counter .connectionsMax) with ⟨hless, heq⟩ | ⟨hle, heq⟩
    · rw [heq]
      refine ⟨?_, ?_, hfollows, hmax, raised_set hraised ?_⟩
      · exact Places.balance_int ha hcurrent (by rw [hcounted₀]; dsimp only [setCaller, Caller.counted])
      · exact Places.balance_int ha htotal (by rw [hbetween₀]; dsimp only [setCaller, Caller.between])
      · exact fun v hv => hraised a (List.mem_of_getElem? ha) v (hhas.trans hv)
    · rw [heq]
      refine ⟨?_, ?_, Nat.le_succ_of_le hfollows, hmax, raised_set hraised (hnone rfl)⟩
      · exact Places.balance_int ha hcurrent (by rw [hcounted₀]; dsimp only [setCaller, Caller.counted]; omega)
      · exact Places.balance_int ha htotal (by rw [hbetween₀]; dsimp only [setCaller, Caller.between])
  | @exchange _ current hhas hless =>
    obtain ⟨-, hbetween₀, hcounted₀⟩ := Caller.opening_of_raised hhas
    obtain ⟨hpos, hmem⟩ := hraised a (List.mem_of_getElem? ha) current hhas
    refine ⟨?_, ?_, Nat.le_succ_of_le hfollows, ?_, raised_set hraised (hnone rfl)⟩
    · exact Places.balance_int ha hcurrent (by rw [hcounted₀]; dsimp only [setCaller, Caller.counted]; omega)
    · exact Places.balance_int ha htotal (by
        rw [hbetween₀]
        simp only [setCaller, Caller.between, reduceCtorEq, if_false])
    · -- the value has been counted up to at least one, so the cast keeps it
      have hmem : current ∈ (s.setCaller t .idle).currents := hmem
      simpa [toUInt64_of_pos hpos] using hmem

theorem covered_start (threads : Nat) (now : Int) : (start threads now).Covered := by
  have hidle : ∀ a ∈ (start threads now).callers, a = .idle := fun a ha => List.eq_of_mem_replicate ha
  refine ⟨?_, ?_, List.mem_singleton.mpr rfl, ?_⟩
  · intro a ha
    rw [hidle a ha]
    trivial
  · simp [start, Caller.opening]
  · intro v u hv hle hu
    have hu : u = 0 := List.mem_singleton.mp hu
    have hv : (0 : Int) < v := hv
    omega

theorem flow_start (threads : Nat) (now : Int) : (start threads now).Flow := by
  refine ⟨?_, ?_, Nat.le_refl _, List.mem_singleton.mpr rfl, ?_⟩
  · simp [start, Metrics.reset, Caller.counted]
  · simp [start, Metrics.reset, Caller.between]
  · intro a ha v hv
    rw [List.eq_of_mem_replicate ha] at hv
    cases hv

theorem covered_flow {threads : Nat} {now : Int} (h : Reached step Follows (start threads now) s) :
    s.Covered ∧ s.Flow := by
  refine h.invariant (I := fun s => s.Covered ∧ s.Flow) ⟨covered_start .., flow_start ..⟩ ?_
  intro s e s' hi hc hs
  obtain ⟨t, a, ha, hd⟩ := step_does hi.1.ok hs
  exact ⟨covered_moves hi.1 ha hd.moves, flow_moves hi.2 hc ha hd.moves⟩

/-- The number of connections is never negative, and while no open is in
progress the maximum is the largest number there has been. -/
theorem peak_exact {threads : Nat} {now : Int} (h : Reached step Follows (start threads now) s) :
    0 ≤ s.metrics.connectionsCurrent ∧
      ((∀ a ∈ s.callers, a.opening = 0) →
        (s.metrics.counter .connectionsMax : Int) ∈ s.currents ∧
        (∀ v ∈ s.currents, v ≤ s.metrics.counter .connectionsMax) ∧
        (s.metrics.counter .connectionsTotal : Int) - s.closes = s.metrics.connectionsCurrent) := by
  obtain ⟨hcov, hflow⟩ := covered_flow h
  refine ⟨hflow.nonneg, fun hrest => ⟨hflow.max_mem, ?_, ?_⟩⟩
  · intro v hv
    by_contra hless
    obtain ⟨a, ha, hraised⟩ := List.mem_map.mp (hcov.covered v v (not_le.mp hless) (le_refl v) hv)
    have hopening := (Caller.opening_of_raised hraised).1
    have hzero := hrest a ha
    omega
  · have hbetween : (s.callers.map Caller.between).sum = 0 := by
      refine List.sum_eq_zero fun n hn => ?_
      obtain ⟨a, ha, rfl⟩ := List.mem_map.mp hn
      have hzero := hrest a ha
      cases a <;> first | rfl | cases hzero
    have htotal := hflow.total
    omega

/-- Two opens, one of them with a spurious failure and then with a stale
expected value, and a close. -/
theorem peak_exact_two : ∃ s, run step (start 2 0) [.enter 0 .onConnectionOpened, .access 0 false, .access 0 false,
    .enter 1 .onConnectionOpened, .access 1 false, .access 1 false, .access 1 false, .access 0 false,
    .access 0 true, .access 1 false, .access 0 false, .enter 1 .onConnectionClosed, .access 1 false] = some s ∧
    s.metrics.counter .connectionsMax = 2 ∧ (s.metrics.counter .connectionsTotal : Int) - s.closes = 1 := by
  have hrun : runIf step Follows (start 2 0) [.enter 0 .onConnectionOpened, .access 0 false, .access 0 false,
      .enter 1 .onConnectionOpened, .access 1 false, .access 1 false, .access 1 false, .access 0 false,
      .access 0 true, .access 1 false, .access 0 false, .enter 1 .onConnectionClosed, .access 1 false] =
      some _ := rfl
  refine ⟨_, rfl, rfl, ?_⟩
  have hrest := (peak_exact (.of_runIf hrun)).2 (by decide)
  exact hrest.2.2

end MetricsUse

end Myself.Util
