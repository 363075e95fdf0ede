import Mathlib.Data.Int.Interval
import MyselfServer.ConnectionPeak

/-!
# Snapshots between the updates

What a snapshot says while other threads change the counters it loads. The
values loaded so far and the present ones of the rest are related as the
counters themselves are, whatever happens between two loads.
-/

namespace Myself.Util

open Metrics Machine

namespace Metrics

def bucketSum (m : Metrics) : Nat := ((List.range kBucketCount).map fun i => m.counter (.latencyBuckets i)).sum

theorem sum_single (j n : Nat) :
    ∀ k, ((List.range k).map fun i => if j = i then n else 0).sum = if j < k then n else 0 := by
  intro k
  induction k with
  | zero => simp
  | succ k ih =>
    rw [List.range_succ, List.map_append, List.sum_append, ih]
    simp only [List.map_cons, List.map_nil, List.sum_cons, List.sum_nil]
    split_ifs <;> omega

theorem bucketSum_fetchAdd_bucket (m : Metrics) {j : Nat} (n : Nat) (hj : j < kBucketCount) :
    (m.fetchAdd (.latencyBuckets j) n).bucketSum = m.bucketSum + n := by
  have hcell : ∀ i, (m.fetchAdd (.latencyBuckets j) n).counter (.latencyBuckets i) =
      m.counter (.latencyBuckets i) + if j = i then n else 0 := by
    intro i
    simp [fetchAdd_counter]
  simp only [bucketSum, hcell, List.sum_map_add]
  rw [sum_single, if_pos hj]

theorem bucketSum_congr {m m' : Metrics} (h : ∀ i, m'.counter (.latencyBuckets i) = m.counter (.latencyBuckets i)) :
    m'.bucketSum = m.bucketSum := by
  simp only [bucketSum, h]

theorem bucketSum_mono {m m' : Metrics}
    (h : ∀ i < kBucketCount, m.counter (.latencyBuckets i) ≤ m'.counter (.latencyBuckets i)) :
    m.bucketSum ≤ m'.bucketSum := by
  refine List.sum_le_sum fun i hi => ?_
  exact h i (List.mem_range.mp hi)

end Metrics

namespace Caller

def finishes : Caller → Nat
  | finishing _ => 1
  | _ => 0

def uncounted : Caller → Nat
  | finishing adds => added adds .latencyCount
  | _ => 0

def plain : Caller → Bool
  | finishing _ | loading .. => false
  | _ => true

theorem finishes_of_plain {a : Caller} (h : a.plain = true) : a.finishes = 0 ∧ a.uncounted = 0 := by
  cases a <;> first | exact ⟨rfl, rfl⟩ | cases h

/-- The accesses of `onRequestFinished`: the count before the bucket. -/
theorem finishing_cases {add : Counter × Nat} {adds : List (Counter × Nat)} (h : (finishing (add :: adds)).Ok) :
    (adds = [] ∧ ∃ i < kBucketCount, add = (.latencyBuckets i, 1)) ∨
      adds ≠ [] ∧ (add = (.latencyCount, 1) ∧ added adds .latencyCount = 0 ∨
        add.1 ≠ .latencyCount ∧ ∀ i, add.1 ≠ .latencyBuckets i) := by
  obtain ⟨-, statusCode, latencyMs, hsuffix⟩ := h
  have hbucket := bucketOf_lt (if latencyMs < 0 then 0 else latencyMs)
  simp only [onRequestFinished] at hsuffix
  generalize bucketOf (if latencyMs < 0 then 0 else latencyMs) = j at hsuffix hbucket
  generalize ((if latencyMs < 0 then 0 else latencyMs) * 1000).floor.toNat = micros at hsuffix
  have hlate : ∀ {l : List (Counter × Nat)},
      l = [(.latencyCount, 1), (.latencySumMicros, micros), (.latencyBuckets j, 1)] →
      add :: adds <:+ l → (adds = [] ∧ ∃ i < kBucketCount, add = (.latencyBuckets i, 1)) ∨
        adds ≠ [] ∧ (add = (.latencyCount, 1) ∧ added adds .latencyCount = 0 ∨
          add.1 ≠ .latencyCount ∧ ∀ i, add.1 ≠ .latencyBuckets i) := by
    rintro _ rfl hl
    simp only [List.suffix_cons_iff, List.suffix_nil, List.cons.injEq, reduceCtorEq, or_false] at hl
    rcases hl with ⟨rfl, rfl⟩ | ⟨rfl, rfl⟩ | ⟨rfl, rfl⟩
    · simp [added]
    · simp
    · simp [hbucket]
  split at hsuffix
  all_goals
    simp only [List.cons_append, List.nil_append] at hsuffix
    rcases List.suffix_cons_iff.mp hsuffix with hfirst | hsuffix
    · obtain ⟨rfl, rfl⟩ := List.cons.inj hfirst
      simp
  · rcases List.suffix_cons_iff.mp hsuffix with hfirst | hsuffix
    · obtain ⟨rfl, rfl⟩ := List.cons.inj hfirst
      simp
    · exact hlate rfl hsuffix
  · exact hlate rfl hsuffix

end Caller

namespace MetricsUse

variable {s s' : MetricsUse} {e : MetricsEvent} {t : Nat} {a : Caller}

structure SameLatencies (s s' : MetricsUse) : Prop where
  count : s'.metrics.counter .latencyCount = s.metrics.counter .latencyCount
  buckets : ∀ i, s'.metrics.counter (.latencyBuckets i) = s.metrics.counter (.latencyBuckets i)
  begun : s'.finishBegun = s.finishBegun
  ended : s'.finishEnded = s.finishEnded
  taken : s'.taken = s.taken

inductive Observes (s : MetricsUse) (t : Nat) : Caller → MetricsUse → Prop where
  | other {a b : Caller} {s' : MetricsUse} (ha : a.plain = true) (hb : b.plain = true)
      (hcallers : s'.callers = s.callers.set t b) (hsame : SameLatencies s s') : Observes s t a s'
  | begins (statusCode : Int) (latencyMs : ℚ) : Observes s t .idle
      { s.setCaller t (.finishing (Metrics.onRequestFinished statusCode latencyMs)) with
        finishBegun := s.finishBegun + 1 }
  | finishes {add : Counter × Nat} {adds : List (Counter × Nat)} (hok : (Caller.finishing (add :: adds)).Ok) :
      Observes s t (.finishing (add :: adds)) { s.setCaller t (if adds = [] then .idle else .finishing adds) with
        metrics := s.metrics.fetchAdd add.1 add.2
        finishEnded := if adds = [] then s.finishEnded + 1 else s.finishEnded }
  | looks : Observes s t .idle
      (s.setCaller t (.loading (Metrics.reset s.metrics.startTime) 0 s.finishEnded s.openEnded))
  | loads {loaded : Metrics} {k finished opened : Nat} {place : Place} (hk : snapshotLoads[k]? = some place) :
      Observes s t (.loading loaded k finished opened)
        (s.setCaller t (.loading (loaded.load s.metrics place) (k + 1) finished opened))
  | takes {loaded : Metrics} {k finished opened : Nat} (now : Int) (hk : ¬ k < snapshotLoads.length) :
      Observes s t (.loading loaded k finished opened) { s.setCaller t .idle with
        taken := s.taken ++ [⟨snapshotOf loaded now, s.finishBegun - finished, s.openBegun - opened⟩] }

theorem plain_of_raised {v : Int} (h : a.raised = some v) : a.plain = true := by
  cases a <;> first | rfl | cases h

theorem Does.observes (h : Does s e t a s') : Observes s t a s' := by
  have hadd : ∀ (b : Caller) {c : Counter} {n : Nat}, (c ≠ .latencyCount ∧ ∀ i, c ≠ .latencyBuckets i) →
      SameLatencies s { s.setCaller t b with metrics := s.metrics.fetchAdd c n } :=
    fun _ _ _ hc => ⟨s.metrics.fetchAdd_other _ hc.1, fun i => s.metrics.fetchAdd_other _ (hc.2 i), rfl, rfl, rfl⟩
  cases h with
  | @enters adds hok =>
    refine .other rfl ?_ rfl ⟨rfl, fun _ => rfl, rfl, rfl, rfl⟩
    split <;> rfl
  | @adds add adds hok =>
    obtain ⟨-, -, hcount, hbuckets⟩ := hok add (List.mem_cons_self ..)
    refine .other rfl ?_ rfl (hadd _ ⟨hcount, hbuckets⟩)
    split <;> rfl
  | begins statusCode latencyMs => exact .begins statusCode latencyMs
  | finishes hok => exact .finishes hok
  | looks => exact .looks
  | loads hk => exact .loads hk
  | takes now hk => exact .takes now hk
  | opens => exact .other (b := .openTotal) rfl rfl rfl ⟨rfl, fun _ => rfl, rfl, rfl, rfl⟩
  | closes he => exact .other (b := .closing) rfl rfl rfl ⟨rfl, fun _ => rfl, rfl, rfl, rfl⟩
  | lower => exact .other (b := .idle) rfl rfl rfl ⟨rfl, fun _ => rfl, rfl, rfl, rfl⟩
  | count => exact .other (b := .openCurrent) rfl rfl rfl (hadd _ ⟨by decide, fun i => by simp⟩)
  | lift => exact .other (b := .openLoad _) rfl rfl rfl ⟨rfl, fun _ => rfl, rfl, rfl, rfl⟩
  | @compare _ current hraised =>
    rcases raise_cases s t current (s.metrics.counter .connectionsMax) with ⟨-, heq⟩ | ⟨-, heq⟩
    · rw [heq]
      exact .other (b := .openExchange ..) (plain_of_raised hraised) rfl rfl ⟨rfl, fun _ => rfl, rfl, rfl, rfl⟩
    · rw [heq]
      exact .other (b := .idle) (plain_of_raised hraised) rfl rfl ⟨rfl, fun _ => rfl, rfl, rfl, rfl⟩
  | exchange hraised hless =>
    exact .other (b := .idle) (plain_of_raised hraised) rfl rfl ⟨rfl, fun _ => rfl, rfl, rfl, rfl⟩

/-! ## The counters themselves -/

/-- Every ended call of `onRequestFinished` is in a bucket, every one that is
in a bucket is in the count, and only calls that have begun are. -/
structure Counted (s : MetricsUse) : Prop where
  begun : s.finishBegun = s.finishEnded + (s.callers.map Caller.finishes).sum
  count : s.metrics.counter .latencyCount + (s.callers.map Caller.uncounted).sum = s.finishBegun
  buckets : s.metrics.bucketSum = s.finishEnded

theorem added_cons (add : Counter × Nat) (adds : List (Counter × Nat)) (c : Counter) :
    added (add :: adds) c = (if add.1 = c then add.2 else 0) + added adds c := rfl

/-- A step that leaves the latencies alone, of a thread that owes them the same
before and after it. -/
theorem counted_keeps (h : s.Counted) (ha : s.callers[t]? = some a) {b : Caller} (hf : b.finishes = a.finishes)
    (hu : b.uncounted = a.uncounted) (hcallers : s'.callers = s.callers.set t b)
    (hcount : s'.metrics.counter .latencyCount = s.metrics.counter .latencyCount)
    (hbuckets : ∀ i, s'.metrics.counter (.latencyBuckets i) = s.metrics.counter (.latencyBuckets i))
    (hbegun : s'.finishBegun = s.finishBegun) (hended : s'.finishEnded = s.finishEnded) : s'.Counted := by
  refine ⟨?_, ?_, ?_⟩
  · rw [hbegun, hended, hcallers]
    exact Places.balance ha h.begun (by omega)
  · rw [hcount, hbegun, hcallers]
    exact (Places.balance ha h.count.symm (by omega)).symm
  · rw [hended, bucketSum_congr hbuckets]
    exact h.buckets

theorem counted_observes (h : s.Counted) (ha : s.callers[t]? = some a) (ho : Observes s t a s') : s'.Counted := by
  have hbegun := h.begun
  have hcount := h.count.symm
  have hbuckets := h.buckets
  cases ho with
  | @other _ b _ hplain hb hcallers hsame =>
    obtain ⟨hf, hu⟩ := Caller.finishes_of_plain hplain
    obtain ⟨hf', hu'⟩ := Caller.finishes_of_plain hb
    exact counted_keeps h ha (hf'.trans hf.symm) (hu'.trans hu.symm) hcallers hsame.count hsame.buckets hsame.begun
      hsame.ended
  | begins statusCode latencyMs =>
    have hone := added_count statusCode latencyMs
    refine ⟨?_, ?_, hbuckets⟩
    · exact Places.balance ha hbegun (by dsimp only [setCaller, Caller.finishes]; omega)
    · exact (Places.balance ha hcount (by dsimp only [setCaller, Caller.uncounted]; omega)).symm
  | @finishes add adds hok =>
    rcases Caller.finishing_cases hok with ⟨rfl, j, hj, rfl⟩ | ⟨hne, hadd⟩
    · have hzero : added [(.latencyBuckets j, 1)] .latencyCount = 0 := by simp [added]
      have hsame := s.metrics.fetchAdd_other (c := .latencyBuckets j) (d := .latencyCount) 1 (by simp)
      simp only [if_true]
      refine ⟨?_, ?_, ?_⟩
      · exact Places.balance ha hbegun (by dsimp only [setCaller, Caller.finishes]; omega)
      · exact (Places.balance ha hcount (by
          dsimp only [setCaller, Caller.uncounted]
          rw [hsame, hzero])).symm
      · rw [bucketSum_fetchAdd_bucket _ _ hj, hbuckets]
    · have hcell := s.metrics.fetchAdd_counter add.1 .latencyCount add.2
      have hrest := added_cons add adds .latencyCount
      simp only [if_neg hne]
      refine ⟨?_, ?_, ?_⟩
      · exact Places.balance ha hbegun (by dsimp only [setCaller, Caller.finishes])
      · exact (Places.balance ha hcount (by dsimp only [setCaller, Caller.uncounted]; omega)).symm
      · dsimp only [setCaller]
        rw [bucketSum_congr fun i => s.metrics.fetchAdd_other _ ?_, hbuckets]
        rcases hadd with ⟨rfl, -⟩ | ⟨-, hother⟩
        · simp
        · exact hother i
  | looks =>
    exact counted_keeps (b := .loading (Metrics.reset s.metrics.startTime) 0 s.finishEnded s.openEnded) h ha rfl rfl rfl
      rfl (fun _ => rfl) rfl rfl
  | @loads loaded k finished opened place hk =>
    exact counted_keeps (b := .loading (loaded.load s.metrics place) (k + 1) finished opened) h ha rfl rfl rfl
      rfl (fun _ => rfl) rfl rfl
  | takes now hk => exact counted_keeps (b := .idle) h ha rfl rfl rfl rfl (fun _ => rfl) rfl rfl

theorem counted_start (threads : Nat) (now : Int) : (start threads now).Counted := by
  refine ⟨?_, ?_, ?_⟩
  · simp [start, Caller.finishes]
  · simp [start, Metrics.reset, Caller.uncounted]
  · simp [start, Metrics.reset, bucketSum]

theorem added_suffix_le {adds all : List (Counter × Nat)} (h : adds <:+ all) (c : Counter) :
    added adds c ≤ added all c := by
  obtain ⟨first, rfl⟩ := h
  simp only [added, List.map_append, List.sum_append]
  omega

theorem uncounted_le (hok : ∀ a ∈ s.callers, a.Ok) :
    (s.callers.map Caller.uncounted).sum ≤ (s.callers.map Caller.finishes).sum := by
  refine List.sum_le_sum fun a ha => ?_
  have haok := hok a ha
  cases a with
  | finishing adds =>
    obtain ⟨-, statusCode, latencyMs, hsuffix⟩ := haok
    have hle := added_suffix_le hsuffix .latencyCount
    rwa [added_count] at hle
  | _ => exact Nat.le_refl _

/-! ## What has been loaded and what has not -/

def view (m loaded : Metrics) (k : Nat) : Metrics :=
  { connectionsCurrent :=
      if .connectionsCurrent ∈ snapshotLoads.take k then loaded.connectionsCurrent else m.connectionsCurrent
    counter := fun c => if .counter c ∈ snapshotLoads.take k then loaded.counter c else m.counter c
    startTime := m.startTime }

theorem load_order : ∀ k < 37,
    (.counter .latencyCount ∈ snapshotLoads.take k →
      ∀ i < kBucketCount, .counter (.latencyBuckets i) ∈ snapshotLoads.take k) ∧
    (.counter .connectionsMax ∈ snapshotLoads.take k → .connectionsCurrent ∈ snapshotLoads.take k) := by
  decide +kernel

theorem loads_nodup : snapshotLoads.Nodup := by
  decide +kernel

theorem view_load (m loaded : Metrics) {k : Nat} {place : Place} (hk : snapshotLoads[k]? = some place) :
    view m (loaded.load m place) (k + 1) = view m loaded k := by
  have htake : snapshotLoads.take (k + 1) = snapshotLoads.take k ++ [place] := by
    rw [List.take_add_one, hk]
    rfl
  have hnew : place ∉ snapshotLoads.take k := by
    have hnodup := loads_nodup.sublist (List.take_sublist (k + 1) _)
    rw [htake, List.nodup_append] at hnodup
    exact fun hmem => hnodup.2.2 place hmem place (List.mem_singleton.mpr rfl) rfl
  cases place with
  | connectionsCurrent =>
    simp only [view, Metrics.load, htake, List.mem_append, List.mem_singleton]
    simp [hnew]
  | counter c =>
    simp only [view, Metrics.load, htake, List.mem_append, List.mem_singleton]
    congr 1
    · simp
    · funext d
      by_cases hd : d = c
      · subst hd
        simp [hnew]
      · simp [hd]

/-- How the values of a snapshot are related: `finished` calls of
`onRequestFinished` had ended, and `begun` have begun, and likewise of
`onConnectionOpened`. -/
structure Consistent (v : Metrics) (finished opened begun openBegun : Nat) : Prop where
  finished_le : finished ≤ v.bucketSum
  sum_le : v.bucketSum ≤ v.counter .latencyCount
  count_le : v.counter .latencyCount ≤ begun
  current_le : v.connectionsCurrent ≤ v.counter .connectionsMax + (openBegun - opened : Int)

theorem raised_le_opening (callers : List Caller) :
    (callers.filterMap Caller.raised).length ≤ (callers.map Caller.opening).sum := by
  induction callers with
  | nil => exact Nat.le_refl _
  | cons a callers ih =>
    simp only [List.map_cons, List.sum_cons]
    cases hr : a.raised with
    | none =>
      rw [List.filterMap_cons_none hr]
      omega
    | some v =>
      have hopening := (Caller.opening_of_raised hr).1
      rw [List.filterMap_cons_some hr, List.length_cons]
      omega

/-- Each connection above the maximum is that of an open in progress. -/
theorem current_le (h : s.Covered) : s.metrics.connectionsCurrent ≤
    s.metrics.counter .connectionsMax + (s.openBegun - s.openEnded : Int) := by
  have hsub : Finset.Ioc (s.metrics.counter .connectionsMax : Int) s.metrics.connectionsCurrent ⊆
      (s.callers.filterMap Caller.raised).toFinset := by
    intro v hv
    obtain ⟨hlow, hhigh⟩ := Finset.mem_Ioc.mp hv
    obtain ⟨a, ha, hraised⟩ := List.mem_map.mp (h.covered v _ hlow hhigh h.now_mem)
    exact List.mem_toFinset.mpr (List.mem_filterMap.mpr ⟨a, ha, hraised⟩)
  have hcard := Finset.card_le_card hsub
  have hlen := List.toFinset_card_le (s.callers.filterMap Caller.raised)
  have hle := raised_le_opening s.callers
  have hopens := h.opens
  rw [Int.card_Ioc] at hcard
  omega

structure Grows (s s' : MetricsUse) : Prop where
  buckets : ∀ i, s.metrics.counter (.latencyBuckets i) ≤ s'.metrics.counter (.latencyBuckets i)
  max : s.metrics.counter .connectionsMax ≤ s'.metrics.counter .connectionsMax
  begun : s.finishBegun ≤ s'.finishBegun
  ended : s.finishEnded ≤ s'.finishEnded
  openBegun : s.openBegun ≤ s'.openBegun
  openEnded : s.openEnded ≤ s'.openEnded

theorem Moves.grows (h : Moves s e t a s') : s.metrics.counter .connectionsMax ≤ s'.metrics.counter .connectionsMax ∧
    s.openBegun ≤ s'.openBegun ∧ s.openEnded ≤ s'.openEnded := by
  cases h with
  | apart _ _ _ _ hsame => exact ⟨hsame.max.ge, hsame.opens.1.ge, hsame.opens.2.ge⟩
  | opens => exact ⟨Nat.le_refl _, Nat.le_succ _, Nat.le_refl _⟩
  | count =>
    refine ⟨?_, Nat.le_refl _, Nat.le_refl _⟩
    exact (s.metrics.fetchAdd_other 1 (by decide)).ge
  | @compare _ current hraised =>
    rcases raise_cases s t current (s.metrics.counter .connectionsMax) with ⟨-, heq⟩ | ⟨-, heq⟩
    · rw [heq]
      exact ⟨Nat.le_refl _, Nat.le_refl _, Nat.le_refl _⟩
    · rw [heq]
      exact ⟨Nat.le_refl _, Nat.le_refl _, Nat.le_succ _⟩
  | exchange hraised hless =>
    refine ⟨?_, Nat.le_refl _, Nat.le_succ _⟩
    simpa using hless.le
  | _ => exact ⟨Nat.le_refl _, Nat.le_refl _, Nat.le_refl _⟩

theorem Does.grows (h : Does s e t a s') : Grows s s' := by
  obtain ⟨hmax, hopenBegun, hopenEnded⟩ := h.moves.grows
  have hadd : ∀ (c d : Counter) (n : Nat), s.metrics.counter d ≤ (s.metrics.fetchAdd c n).counter d := by
    intro c d n
    rw [fetchAdd_counter]
    omega
  cases h.observes with
  | other _ _ _ hsame =>
    exact ⟨fun i => (hsame.buckets i).ge, hmax, hsame.begun.ge, hsame.ended.ge, hopenBegun, hopenEnded⟩
  | begins statusCode latencyMs =>
    exact ⟨fun _ => Nat.le_refl _, hmax, Nat.le_succ _, Nat.le_refl _, hopenBegun, hopenEnded⟩
  | finishes hok =>
    refine ⟨fun i => hadd _ _ _, hmax, Nat.le_refl _, ?_, hopenBegun, hopenEnded⟩
    dsimp only
    split
    · exact Nat.le_succ _
    · exact Nat.le_refl _
  | _ => exact ⟨fun _ => Nat.le_refl _, hmax, Nat.le_refl _, Nat.le_refl _, hopenBegun, hopenEnded⟩

theorem consistent_now (hcov : s.Covered) (hcount : s.Counted) :
    Consistent s.metrics s.finishEnded s.openEnded s.finishBegun s.openBegun := by
  have hle := uncounted_le hcov.ok
  obtain ⟨hbegun, hcount, hbuckets⟩ := hcount
  refine ⟨hbuckets.ge, ?_, ?_, current_le hcov⟩
  · omega
  · omega

structure Loading (s : MetricsUse) (loaded : Metrics) (k finished opened : Nat) : Prop where
  places : k ≤ snapshotLoads.length
  finished_le : finished ≤ s.finishEnded
  opened_le : opened ≤ s.openEnded
  below : ∀ i < kBucketCount,
    (view s.metrics loaded k).counter (.latencyBuckets i) ≤ s.metrics.counter (.latencyBuckets i)
  consistent : Consistent (view s.metrics loaded k) finished opened s.finishBegun s.openBegun

theorem view_bucket (m loaded : Metrics) (k i : Nat) : (view m loaded k).counter (.latencyBuckets i) =
    if .counter (.latencyBuckets i) ∈ snapshotLoads.take k then loaded.counter (.latencyBuckets i)
    else m.counter (.latencyBuckets i) := rfl

/-- What other threads change leaves a snapshot consistent: a value that is
loaded stays, and one that is not is as the counters are. -/
theorem loading_keeps {loaded : Metrics} {k finished opened : Nat} (h : s.Loading loaded k finished opened)
    (hg : Grows s s') (hc : Consistent s'.metrics s'.finishEnded s'.openEnded s'.finishBegun s'.openBegun) :
    s'.Loading loaded k finished opened := by
  obtain ⟨hplaces, hfinished, hopened, hbelow, hcons⟩ := h
  have horder := load_order k (Nat.lt_succ_of_le hplaces)
  have hbelow' : ∀ i < kBucketCount,
      (view s'.metrics loaded k).counter (.latencyBuckets i) ≤ s'.metrics.counter (.latencyBuckets i) := by
    intro i hi
    have hi' := hbelow i hi
    rw [view_bucket] at hi' ⊢
    by_cases hmem : Place.counter (.latencyBuckets i) ∈ snapshotLoads.take k
    · rw [if_pos hmem] at hi' ⊢
      exact hi'.trans (hg.buckets i)
    · rw [if_neg hmem]
  refine ⟨hplaces, hfinished.trans hg.ended, hopened.trans hg.openEnded, hbelow', ?_, ?_, ?_, ?_⟩
  · refine hcons.finished_le.trans (bucketSum_mono fun i _ => ?_)
    rw [view_bucket, view_bucket]
    split
    · exact Nat.le_refl _
    · exact hg.buckets i
  · by_cases hmem : Place.counter .latencyCount ∈ snapshotLoads.take k
    · have hsum : (view s'.metrics loaded k).bucketSum ≤ (view s.metrics loaded k).bucketSum := by
        refine bucketSum_mono fun i hi => ?_
        rw [view_bucket, view_bucket, if_pos (horder.1 hmem i hi), if_pos (horder.1 hmem i hi)]
      have hcount := hcons.sum_le
      simp only [view, if_pos hmem] at hcount hsum ⊢
      exact hsum.trans hcount
    · have hcount := (bucketSum_mono hbelow').trans hc.sum_le
      simpa only [view, if_neg hmem] using hcount
  · by_cases hmem : Place.counter .latencyCount ∈ snapshotLoads.take k
    · have hcount := hcons.count_le
      simp only [view, if_pos hmem] at hcount ⊢
      exact hcount.trans hg.begun
    · have hcount := hc.count_le
      simpa only [view, if_neg hmem] using hcount
  · have hold := hcons.current_le
    have hnow := hc.current_le
    have hmax := hg.max
    have hbegun := hg.openBegun
    have hended := hopened.trans hg.openEnded
    simp only [view] at hold ⊢
    by_cases hcurrent : Place.connectionsCurrent ∈ snapshotLoads.take k
    · rw [if_pos hcurrent] at hold ⊢
      by_cases hmem : Place.counter .connectionsMax ∈ snapshotLoads.take k
      · rw [if_pos hmem] at hold ⊢
        omega
      · rw [if_neg hmem] at hold ⊢
        omega
    · have hmem : Place.counter .connectionsMax ∉ snapshotLoads.take k := fun hmem => hcurrent (horder.2 hmem)
      rw [if_neg hcurrent, if_neg hmem] at hold ⊢
      omega

theorem loading_start (hcov : s.Covered) (hcount : s.Counted) (loaded : Metrics) :
    s.Loading loaded 0 s.finishEnded s.openEnded := by
  have hview : view s.metrics loaded 0 = s.metrics := by
    simp [view]
  refine ⟨Nat.zero_le _, Nat.le_refl _, Nat.le_refl _, ?_, ?_⟩
  · rw [hview]
    exact fun i _ => Nat.le_refl _
  · rw [hview]
    exact consistent_now hcov hcount

theorem loading_next {loaded : Metrics} {k finished opened : Nat} {place : Place}
    (h : s.Loading loaded k finished opened) (hk : snapshotLoads[k]? = some place) :
    s.Loading (loaded.load s.metrics place) (k + 1) finished opened := by
  obtain ⟨hplaces, hfinished, hopened, hbelow, hcons⟩ := h
  obtain ⟨hlt, -⟩ := List.getElem?_eq_some_iff.mp hk
  refine ⟨hlt, hfinished, hopened, ?_, ?_⟩
  · rw [view_load _ _ hk]
    exact hbelow
  · rw [view_load _ _ hk]
    exact hcons

/-! ## The snapshots that were taken -/

def Taken.Ok (k : Taken) : Prop :=
  ∃ loaded now, k.snapshot = snapshotOf loaded now ∧ loaded.bucketSum ≤ loaded.counter .latencyCount ∧
    loaded.counter .latencyCount ≤ loaded.bucketSum + k.finishes ∧
    loaded.connectionsCurrent ≤ (loaded.counter .connectionsMax + k.opens : Nat)

theorem taken_ok {loaded : Metrics} {k finished opened : Nat} (h : s.Loading loaded k finished opened)
    (hk : ¬ k < snapshotLoads.length) (now : Int) :
    Taken.Ok ⟨snapshotOf loaded now, s.finishBegun - finished, s.openBegun - opened⟩ := by
  obtain ⟨-, -, -, -, hcons⟩ := h
  have hall : snapshotLoads.take k = snapshotLoads := List.take_of_length_le (not_lt.mp hk)
  have hloaded : ∀ place ∈ snapshotLoads, place ∈ snapshotLoads.take k := fun place hplace => hall.symm ▸ hplace
  have hcount : (view s.metrics loaded k).counter .latencyCount = loaded.counter .latencyCount :=
    if_pos (hloaded _ (by decide))
  have hmax : (view s.metrics loaded k).counter .connectionsMax = loaded.counter .connectionsMax :=
    if_pos (hloaded _ (by decide))
  have hcurrent : (view s.metrics loaded k).connectionsCurrent = loaded.connectionsCurrent :=
    if_pos (hloaded _ (by decide))
  have hsum : (view s.metrics loaded k).bucketSum = loaded.bucketSum := by
    have hbuckets := (load_order 36 (by decide)).1 (by decide)
    have hpart : snapshotLoads.take 36 = snapshotLoads := rfl
    rw [hpart] at hbuckets
    refine le_antisymm (bucketSum_mono fun i hi => ?_) (bucketSum_mono fun i hi => ?_)
    · rw [view_bucket, if_pos (hloaded _ (hbuckets i hi))]
    · rw [view_bucket, if_pos (hloaded _ (hbuckets i hi))]
  obtain ⟨hfinished, hle, hbegun, hopen⟩ := hcons
  rw [hsum] at hfinished hle
  rw [hcount] at hle hbegun
  rw [hcurrent, hmax] at hopen
  refine ⟨loaded, now, rfl, hle, ?_, ?_⟩
  · dsimp only
    omega
  · dsimp only
    omega

structure Observed (s : MetricsUse) : Prop where
  covered : s.Covered
  counted : s.Counted
  loading : ∀ {loaded : Metrics} {k finished opened : Nat}, Caller.loading loaded k finished opened ∈ s.callers →
    s.Loading loaded k finished opened
  taken : ∀ k ∈ s.taken, Taken.Ok k

theorem observed_step (h : s.Observed) (hs : s.step e = some s') : s'.Observed := by
  obtain ⟨hcov, hcount, hloading, htaken⟩ := h
  obtain ⟨t, a, ha, hd⟩ := step_does hcov.ok hs
  have hcov' := covered_moves hcov ha hd.moves
  have hcount' := counted_observes hcount ha hd.observes
  have hkeep : ∀ {b : Caller}, (∀ {loaded k finished opened}, b = .loading loaded k finished opened →
      s'.Loading loaded k finished opened) → s'.callers = s.callers.set t b →
      ∀ {loaded k finished opened}, Caller.loading loaded k finished opened ∈ s'.callers →
        s'.Loading loaded k finished opened := by
    intro b hb hcallers loaded k finished opened hmem
    rw [hcallers] at hmem
    rcases List.mem_or_eq_of_mem_set hmem with hold | rfl
    · exact loading_keeps (hloading hold) hd.grows (consistent_now hcov' hcount')
    · exact hb rfl
  refine ⟨hcov', hcount', ?_, ?_⟩
  · intro loaded k finished opened
    cases hd.observes with
    | other ha' hb hcallers hsame =>
      refine hkeep (fun heq => ?_) hcallers
      subst heq
      cases hb
    | begins statusCode latencyMs => exact hkeep (fun heq => by cases heq) rfl
    | @finishes add adds hok =>
      refine hkeep (fun heq => ?_) rfl
      split at heq <;> cases heq
    | looks =>
      refine hkeep (fun heq => ?_) rfl
      cases heq
      exact loading_start hcov' hcount' _
    | @loads loaded₀ k₀ finished₀ opened₀ place hk =>
      refine hkeep (fun heq => ?_) rfl
      cases heq
      have hold := hloading (List.mem_of_getElem? ha)
      exact loading_next (loading_keeps hold hd.grows (consistent_now hcov' hcount')) hk
    | takes now hk => exact hkeep (fun heq => by cases heq) rfl
  · cases hd.observes with
    | other _ _ _ hsame =>
      rw [hsame.taken]
      exact htaken
    | @takes loaded k finished opened now hk =>
      intro k' hk'
      rcases List.mem_append.mp hk' with hold | hnew
      · exact htaken k' hold
      · obtain rfl := List.mem_singleton.mp hnew
        exact taken_ok (hloading (List.mem_of_getElem? ha)) hk now
    | _ => exact htaken

theorem observed_start (threads : Nat) (now : Int) : (start threads now).Observed := by
  refine ⟨covered_start .., counted_start .., ?_, fun k hk => absurd hk List.not_mem_nil⟩
  intro loaded k finished opened hmem
  cases List.eq_of_mem_replicate hmem

theorem quantile_order {buckets : List Nat} {total : Nat} {q q' : ℚ} (hlen : buckets.length ≤ kBucketCount)
    (h0 : 0 < q) (hle : q ≤ q') (h1 : q' ≤ 1) :
    quantileFromBuckets buckets total q ≤ quantileFromBuckets buckets total q' ∨
      (buckets.sum : Nat) < q' * total ∧ quantileFromBuckets buckets total q' = lastBoundMs := by
  by_cases hreach : q' * total ≤ (buckets.sum : Nat)
  · exact Or.inl (quantile_mono hlen h0 hle h1 hreach)
  · have hbeyond := not_le.mp hreach
    have htotal : total ≠ 0 := by
      rintro rfl
      rw [Nat.cast_zero, mul_zero] at hbeyond
      exact absurd hbeyond (not_lt.mpr (Nat.cast_nonneg _))
    refine Or.inr ⟨hbeyond, ?_⟩
    rw [quantile_eq htotal (h0.trans_le hle) h1]
    exact quantileLoop_beyond (by rwa [Nat.zero_add])

theorem bucketLines_inf {bounds : List ℚ} {counts : List Nat} (h : counts.length = bounds.length + 1) (cumulative : Nat) :
    ∃ before, bucketLines cumulative bounds counts =
      before ++ bucketLine (Text.bytes "+Inf") (cumulative + counts.sum) := by
  induction bounds generalizing counts cumulative with
  | nil =>
    obtain ⟨n, rfl⟩ := List.length_eq_one_iff.mp h
    exact ⟨[], by simp [bucketLines]⟩
  | cons bound bounds ih =>
    cases counts with
    | nil => cases h
    | cons n counts =>
      obtain ⟨before, hrest⟩ := ih (Nat.succ.inj h) (cumulative + n)
      refine ⟨bucketLine (formatDouble bound) (cumulative + n) ++ before, ?_⟩
      rw [bucketLines, hrest, List.sum_cons, Nat.add_assoc, List.append_assoc]

/-- A snapshot differs from one taken at rest by no more than the calls in
progress while it is taken. -/
theorem snapshot_approximates {threads : Nat} {now : Int} (h : Reached step Any (start threads now) s) {k : Taken}
    (hk : k ∈ s.taken) :
    (∀ logLines, ∃ before after, renderSnapshot k.snapshot logLines =
      before ++ bucketLine (Text.bytes "+Inf") k.snapshot.latencyBuckets.sum ++ after) ∧
    k.snapshot.latencyBuckets.sum ≤ k.snapshot.latencyCount ∧
    k.snapshot.latencyCount ≤ k.snapshot.latencyBuckets.sum + k.finishes ∧
    k.snapshot.connectionsCurrent ≤ (k.snapshot.connectionsMax + k.opens : Nat) ∧
    (k.snapshot.latencyP50Ms ≤ k.snapshot.latencyP95Ms ∨
      (k.snapshot.latencyBuckets.sum : Nat) < (95 / 100 : ℚ) * k.snapshot.latencyCount ∧
        k.snapshot.latencyP95Ms = lastBoundMs) ∧
    (k.snapshot.latencyP95Ms ≤ k.snapshot.latencyP99Ms ∨
      (k.snapshot.latencyBuckets.sum : Nat) < (99 / 100 : ℚ) * k.snapshot.latencyCount ∧
        k.snapshot.latencyP99Ms = lastBoundMs) ∧
    (k.finishes = 0 → k.snapshot.latencyBuckets.sum = k.snapshot.latencyCount ∧
      k.snapshot.latencyP50Ms ≤ k.snapshot.latencyP95Ms ∧ k.snapshot.latencyP95Ms ≤ k.snapshot.latencyP99Ms) ∧
    (k.opens = 0 → k.snapshot.connectionsCurrent ≤ k.snapshot.connectionsMax) := by
  have hobserved : s.Observed := h.invariant (I := Observed) (observed_start ..) fun _ _ _ hi _ hs => observed_step hi hs
  obtain ⟨loaded, now', hsnapshot, hsum, hcount, hcurrent⟩ := hobserved.taken k hk
  have hsum : (snapshotOf loaded now').latencyBuckets.sum ≤ (snapshotOf loaded now').latencyCount := hsum
  have hcount : (snapshotOf loaded now').latencyCount ≤
      (snapshotOf loaded now').latencyBuckets.sum + k.finishes := hcount
  have hcurrent : (snapshotOf loaded now').connectionsCurrent ≤
      ((snapshotOf loaded now').connectionsMax + k.opens : Nat) := hcurrent
  rw [hsnapshot]
  have hlen : (snapshotOf loaded now').latencyBuckets.length = kBucketCount := by
    simp [snapshotOf]
  have h50 : (snapshotOf loaded now').latencyP50Ms = quantileFromBuckets (snapshotOf loaded now').latencyBuckets
      (snapshotOf loaded now').latencyCount (1 / 2) := rfl
  have h95 : (snapshotOf loaded now').latencyP95Ms = quantileFromBuckets (snapshotOf loaded now').latencyBuckets
      (snapshotOf loaded now').latencyCount (95 / 100) := rfl
  have h99 : (snapshotOf loaded now').latencyP99Ms = quantileFromBuckets (snapshotOf loaded now').latencyBuckets
      (snapshotOf loaded now').latencyCount (99 / 100) := rfl
  have hreach : k.finishes = 0 → ∀ {q' : ℚ}, q' ≤ 1 →
      q' * (snapshotOf loaded now').latencyCount ≤ ((snapshotOf loaded now').latencyBuckets.sum : Nat) := by
    intro hzero q' hq'
    have hsame : (snapshotOf loaded now').latencyCount = (snapshotOf loaded now').latencyBuckets.sum := by omega
    rw [hsame]
    exact mul_le_of_le_one_left (Nat.cast_nonneg _) hq'
  rw [h50, h95, h99]
  refine ⟨?_, hsum, hcount, hcurrent, ?_, ?_, ?_, ?_⟩
  · intro logLines
    have hcounts : (snapshotOf loaded now').latencyBuckets.length = kBoundsMs.length + 1 := hlen
    obtain ⟨before, hlines⟩ := bucketLines_inf hcounts 0
    rw [Nat.zero_add] at hlines
    rw [renderSnapshot, hlines]
    refine ⟨counterTexts (snapshotOf loaded now') logLines ++
      familyText "myself_request_latency_ms" "请求处理延迟直方图（毫秒）" "histogram" ++ before,
      sampleText "myself_request_latency_ms_sum" (formatDouble (snapshotOf loaded now').latencySumMs) ++
        sampleText "myself_request_latency_ms_count" (toText (snapshotOf loaded now').latencyCount) ++
        quantileTexts (snapshotOf loaded now'), ?_⟩
    simp only [List.append_assoc]
  · exact quantile_order hlen.le (by norm_num) (by norm_num) (by norm_num)
  · exact quantile_order hlen.le (by norm_num) (by norm_num) (by norm_num)
  · intro hzero
    refine ⟨by omega, ?_, ?_⟩
    · exact quantile_mono hlen.le (by norm_num) (by norm_num) (by norm_num) (hreach hzero (by norm_num))
    · exact quantile_mono hlen.le (by norm_num) (by norm_num) (by norm_num) (hreach hzero (by norm_num))
  · intro hzero
    omega

/-- A request of six seconds has ended, a second one is counted and in no
bucket yet, and an open has not yet raised the maximum. -/
def updatesBetween : List MetricsEvent :=
  [MetricsEvent.enter 1 (.onRequestFinished 200 6000)] ++ List.replicate 5 (MetricsEvent.access 1 false) ++
  [MetricsEvent.enter 1 (.onRequestFinished 200 6000)] ++ List.replicate 3 (MetricsEvent.access 1 false) ++
  [MetricsEvent.enter 2 .onConnectionOpened] ++ List.replicate 2 (MetricsEvent.access 2 false) ++
  [MetricsEvent.enter 0 .snapshot] ++ List.replicate 36 (MetricsEvent.access 0 false) ++ [MetricsEvent.clock 0 0]

theorem updatesBetween_run : ∃ s, Reached step Any (start 3 0) s ∧ ∃ k ∈ s.taken,
    k.snapshot.latencyP95Ms < k.snapshot.latencyP50Ms ∧
    k.snapshot.latencyBuckets.sum ≠ k.snapshot.latencyCount ∧
    k.snapshot.connectionsMax < k.snapshot.connectionsCurrent := by
  have hany : (run step (start 3 0) updatesBetween).any (fun s => s.taken.any fun k =>
      decide (k.snapshot.latencyP95Ms < k.snapshot.latencyP50Ms ∧
        k.snapshot.latencyBuckets.sum ≠ k.snapshot.latencyCount ∧
        k.snapshot.connectionsMax < k.snapshot.connectionsCurrent)) = true := by
    decide +kernel
  obtain ⟨s, hrun, hany⟩ := (Option.any_eq_true _ _).mp hany
  obtain ⟨k, hk, htorn⟩ := List.any_eq_true.mp hany
  exact ⟨s, .of_run_any hrun, k, hk, of_decide_eq_true htorn⟩

/-- None of the three holds of every snapshot. -/
theorem snapshot_torn :
    (¬ ∀ s, Reached step Any (start 3 0) s → ∀ k ∈ s.taken,
      k.snapshot.latencyP50Ms ≤ k.snapshot.latencyP95Ms ∧ k.snapshot.latencyP95Ms ≤ k.snapshot.latencyP99Ms) ∧
    (¬ ∀ s, Reached step Any (start 3 0) s → ∀ k ∈ s.taken,
      k.snapshot.latencyBuckets.sum = k.snapshot.latencyCount) ∧
    ¬ ∀ s, Reached step Any (start 3 0) s → ∀ k ∈ s.taken,
      k.snapshot.connectionsCurrent ≤ k.snapshot.connectionsMax := by
  obtain ⟨s, hs, k, hk, hquantile, hsum, hmax⟩ := updatesBetween_run
  refine ⟨fun h => ?_, fun h => hsum (h s hs k hk), fun h => ?_⟩
  · exact absurd hquantile (not_lt.mpr (h s hs k hk).1)
  · exact absurd hmax (not_lt.mpr (h s hs k hk))

theorem snapshot_approximates_between : ∃ s, Reached step Any (start 3 0) s ∧ ∃ k ∈ s.taken,
    k.snapshot.latencyCount ≤ k.snapshot.latencyBuckets.sum + k.finishes := by
  obtain ⟨s, hs, k, hk, -⟩ := updatesBetween_run
  exact ⟨s, hs, k, hk, (snapshot_approximates hs hk).2.2.1⟩

end MetricsUse

end Myself.Util
