import MyselfServer.Metrics

/-!
# The latency histogram

What the buckets, the rendered text and the quantiles say about the latencies
that were put in, while no call is in progress.
-/

namespace Myself.Util

open Text Histogram

namespace Metrics

/-! ## What the calls add -/

def added (adds : List (Counter × Nat)) (c : Counter) : Nat :=
  (adds.map fun add => if add.1 = c then add.2 else 0).sum

theorem fetchAdd_counter (m : Metrics) (c d : Counter) (n : Nat) :
    (m.fetchAdd c n).counter d = m.counter d + if c = d then n else 0 := by
  simp only [fetchAdd]
  by_cases h : d = c
  · subst h
    simp
  · simp [h, Ne.symm h]

theorem addAll_counter (m : Metrics) (adds : List (Counter × Nat)) (c : Counter) :
    (m.addAll adds).counter c = m.counter c + added adds c := by
  induction adds generalizing m with
  | nil => rfl
  | cons add adds ih =>
    have hstep : m.addAll (add :: adds) = (m.fetchAdd add.1 add.2).addAll adds := rfl
    rw [hstep, ih, fetchAdd_counter]
    simp only [added, List.map_cons, List.sum_cons]
    omega

def sampleOf (latencyMs : ℚ) : ℚ := if latencyMs < 0 then 0 else latencyMs

theorem added_bucket (statusCode : Int) (latencyMs : ℚ) (i : Nat) :
    added (onRequestFinished statusCode latencyMs) (.latencyBuckets i) =
      if bucketOf (sampleOf latencyMs) = i then 1 else 0 := by
  have hbucket : (Counter.latencyBuckets (bucketOf (sampleOf latencyMs)) = .latencyBuckets i) ↔
      bucketOf (sampleOf latencyMs) = i := by
    simp
  simp only [onRequestFinished, added, sampleOf] at hbucket ⊢
  split_ifs <;> simp_all

theorem added_count (statusCode : Int) (latencyMs : ℚ) :
    added (onRequestFinished statusCode latencyMs) .latencyCount = 1 := by
  simp only [onRequestFinished, added]
  split_ifs <;> simp

def finishAll (m : Metrics) (calls : List (Int × ℚ)) : Metrics :=
  calls.foldl (fun m call => m.addAll (onRequestFinished call.1 call.2)) m

def samples (calls : List (Int × ℚ)) : List ℚ := calls.map fun call => sampleOf call.2

theorem finishAll_bucket (m : Metrics) (calls : List (Int × ℚ)) (i : Nat) :
    (m.finishAll calls).counter (.latencyBuckets i) =
      m.counter (.latencyBuckets i) + tally bucketOf (samples calls) i := by
  induction calls generalizing m with
  | nil => rfl
  | cons call calls ih =>
    have hstep : m.finishAll (call :: calls) = (m.addAll (onRequestFinished call.1 call.2)).finishAll calls := rfl
    have hsamples : samples (call :: calls) = sampleOf call.2 :: samples calls := rfl
    rw [hstep, ih, addAll_counter, added_bucket, hsamples, tally_cons]
    omega

theorem finishAll_count (m : Metrics) (calls : List (Int × ℚ)) :
    (m.finishAll calls).counter .latencyCount = m.counter .latencyCount + calls.length := by
  induction calls generalizing m with
  | nil => rfl
  | cons call calls ih =>
    have hstep : m.finishAll (call :: calls) = (m.addAll (onRequestFinished call.1 call.2)).finishAll calls := rfl
    rw [hstep, ih, addAll_counter, added_count, List.length_cons]
    omega

/-! ## The bounds -/

theorem bounds_ascending : kBoundsMs.Pairwise (· < ·) := by
  simp only [kBoundsMs]
  norm_num

theorem lowerMs_lt_upperMs {i : Nat} (h : i < kBucketCount) : lowerMs i < upperMs i := by
  have hall : ∀ i < 13, lowerMs i < upperMs i := by
    decide +kernel
  exact hall i h

theorem lowerMs_succ {i : Nat} (h : i + 1 < kBucketCount) : lowerMs (i + 1) = upperMs i := by
  have hall : ∀ i < 12, lowerMs (i + 1) = upperMs i := by
    decide +kernel
  have hi : i + 1 < 13 := h
  exact hall i (by omega)

theorem bucketOf_lt (latencyMs : ℚ) : bucketOf latencyMs < kBucketCount :=
  Nat.lt_succ_of_le slot_le_length

theorem bucketOf_mono {x y : ℚ} (h : x ≤ y) : bucketOf x ≤ bucketOf y := slot_mono h

/-! ## The rendered buckets -/

theorem bucketLines_tally (xs : List ℚ) {bounds : List ℚ} {i : Nat} (h : kBoundsMs.drop i = bounds)
    (hi : i ≤ kFiniteBuckets) :
    bucketLines (xs.countP fun x => bucketOf x < i) bounds
        ((List.range' i (bounds.length + 1)).map (tally bucketOf xs)) =
      (bounds.flatMap fun bound => bucketLine (formatDouble bound) (xs.countP (· ≤ bound))) ++
        bucketLine (bytes "+Inf") xs.length := by
  induction bounds generalizing i with
  | nil =>
    have hlast : i = 12 := by
      have hlen := congrArg List.length h
      have hi : i ≤ 12 := hi
      simp [kBoundsMs] at hlen
      omega
    subst hlast
    have hall : (xs.countP fun x => bucketOf x < 12) + tally bucketOf xs 12 = xs.length := by
      rw [← countP_succ, List.countP_eq_length]
      intro x _
      simpa [kBucketCount, kFiniteBuckets] using bucketOf_lt x
    simp [bucketLines, hall]
  | cons bound bounds ih =>
    have hget : kBoundsMs[i]? = some bound := by
      have := congrArg (fun l => l[0]?) h
      simpa using this
    have hdrop : kBoundsMs.drop (i + 1) = bounds := by
      rw [← List.tail_drop, h, List.tail_cons]
    have hlt : i + 1 ≤ kFiniteBuckets := by
      obtain ⟨hlen, -⟩ := List.getElem?_eq_some_iff.mp hget
      exact hlen
    have hcount : (xs.countP fun x => bucketOf x < i) + tally bucketOf xs i = xs.countP (· ≤ bound) := by
      rw [← countP_succ]
      congr 1
      funext x
      rw [decide_eq_decide, Nat.lt_succ_iff]
      exact slot_le_iff bounds_ascending hget
    rw [List.length_cons, List.range'_succ, List.map_cons, bucketLines, List.flatMap_cons, hcount]
    have hrest := ih hdrop hlt
    rw [countP_succ, hcount] at hrest
    rw [hrest, List.append_assoc]

/-! ## The quantiles -/

section
variable {target : ℚ} {i k before n : Nat} {buckets : List Nat}

/-- The bucket in which the counts reach the target. -/
theorem quantileLoop_at (hk : buckets[k]? = some n) (hlow : ((before + (buckets.take k).sum : Nat) : ℚ) < target)
    (hhigh : target ≤ (before + (buckets.take k).sum + n : Nat)) :
    quantileLoop target i before buckets =
      lowerMs (i + k) + (upperMs (i + k) - lowerMs (i + k)) *
        ((target - (before + (buckets.take k).sum : Nat)) / n) := by
  induction buckets generalizing i k before with
  | nil => cases hk
  | cons m buckets ih =>
    cases k with
    | zero =>
      obtain rfl : m = n := by simpa using hk
      simp only [List.take_zero, List.sum_nil, Nat.add_zero] at hlow hhigh ⊢
      have hpos : (0 : ℚ) < m := by
        push_cast at hhigh
        linarith
      have hratio0 : 0 ≤ (target - before) / m := div_nonneg (by linarith) hpos.le
      have hratio1 : (target - before) / m ≤ 1 := by
        rw [div_le_one hpos]
        push_cast at hhigh
        linarith
      have hne : m ≠ 0 := by
        rintro rfl
        simp at hpos
      rw [quantileLoop, if_pos hhigh, if_neg hne, max_eq_right hratio0, min_eq_right hratio1]
    | succ k =>
      have hk : buckets[k]? = some n := by simpa using hk
      simp only [List.take_succ_cons, List.sum_cons, ← Nat.add_assoc] at hlow hhigh ⊢
      have hbeyond : ¬ target ≤ (before + m : Nat) := by
        have hle : before + m ≤ before + m + (buckets.take k).sum := Nat.le_add_right _ _
        have hle : ((before + m : Nat) : ℚ) ≤ (before + m + (buckets.take k).sum : Nat) := by exact_mod_cast hle
        linarith
      have hindex : i + 1 + k = i + k + 1 := by omega
      rw [quantileLoop, if_neg hbeyond, ih hk hlow hhigh, hindex]

theorem quantileLoop_beyond (h : ((before + buckets.sum : Nat) : ℚ) < target) :
    quantileLoop target i before buckets = lastBoundMs := by
  induction buckets generalizing i before with
  | nil => rfl
  | cons m buckets ih =>
    rw [List.sum_cons, ← Nat.add_assoc] at h
    have hbeyond : ¬ target ≤ (before + m : Nat) := by
      have hle : ((before + m : Nat) : ℚ) ≤ (before + m + buckets.sum : Nat) := by exact_mod_cast Nat.le_add_right _ _
      linarith
    rw [quantileLoop, if_neg hbeyond, ih h]

/-- The value lies in the interval of the bucket that reaches the target. -/
theorem quantileLoop_bounds (hi : i + k < kBucketCount) (hk : buckets[k]? = some n)
    (hlow : ((before + (buckets.take k).sum : Nat) : ℚ) < target)
    (hhigh : target ≤ (before + (buckets.take k).sum + n : Nat)) :
    lowerMs (i + k) < quantileLoop target i before buckets ∧
      quantileLoop target i before buckets ≤ upperMs (i + k) := by
  rw [quantileLoop_at hk hlow hhigh]
  have hwidth := lowerMs_lt_upperMs hi
  have hpos : (0 : ℚ) < n := by
    push_cast at hlow hhigh
    linarith
  have hratio0 : 0 < (target - (before + (buckets.take k).sum : Nat)) / n := div_pos (by linarith) hpos
  have hratio1 : (target - (before + (buckets.take k).sum : Nat)) / n ≤ 1 := by
    rw [div_le_one hpos]
    push_cast at hhigh ⊢
    linarith
  constructor
  · nlinarith
  · nlinarith

/-- The value lies above the first interval's lower end. -/
theorem lowerMs_le_quantileLoop (hlen : i + buckets.length ≤ kBucketCount) (h0 : (before : ℚ) < target)
    (h1 : target ≤ (before + buckets.sum : Nat)) : lowerMs i ≤ quantileLoop target i before buckets := by
  induction buckets generalizing i before with
  | nil =>
    rw [List.sum_nil, Nat.add_zero] at h1
    linarith
  | cons m buckets ih =>
    rw [List.length_cons] at hlen
    by_cases hhere : target ≤ (before + m : Nat)
    · exact (quantileLoop_bounds (k := 0) (by omega) rfl (by simpa using h0) (by simpa using hhere)).1.le
    · rw [quantileLoop, if_neg hhere]
      have hsum : buckets ≠ [] := by
        rintro rfl
        simp only [List.sum_cons, List.sum_nil, Nat.add_zero] at h1
        exact hhere h1
      have hpos : 0 < buckets.length := List.length_pos_iff.mpr hsum
      have hup : lowerMs (i + 1) = upperMs i := lowerMs_succ (by omega)
      have hwidth : lowerMs i < upperMs i := lowerMs_lt_upperMs (by omega)
      rw [List.sum_cons, ← Nat.add_assoc] at h1
      have hrest := ih (i := i + 1) (by omega) (not_le.mp hhere) h1
      linarith

theorem quantileLoop_mono {target' : ℚ} (hlen : i + buckets.length ≤ kBucketCount) (h0 : (before : ℚ) < target)
    (hle : target ≤ target') (h1 : target' ≤ (before + buckets.sum : Nat)) :
    quantileLoop target i before buckets ≤ quantileLoop target' i before buckets := by
  induction buckets generalizing i before with
  | nil => exact le_refl _
  | cons m buckets ih =>
    rw [List.length_cons] at hlen
    by_cases hhere : target ≤ (before + m : Nat)
    · have hlow : ((before + ((m :: buckets).take 0).sum : Nat) : ℚ) < target := by simpa using h0
      have hhigh : target ≤ (before + ((m :: buckets).take 0).sum + m : Nat) := by simpa using hhere
      by_cases hhere' : target' ≤ (before + m : Nat)
      · have hhigh' : target' ≤ (before + ((m :: buckets).take 0).sum + m : Nat) := by simpa using hhere'
        rw [quantileLoop_at (k := 0) rfl hlow hhigh, quantileLoop_at (k := 0) rfl (hlow.trans_le hle) hhigh']
        have hwidth : lowerMs i < upperMs i := lowerMs_lt_upperMs (by omega)
        have hratio : (target - (before + ((m :: buckets).take 0).sum : Nat)) / m ≤
            (target' - (before + ((m :: buckets).take 0).sum : Nat)) / m := by
          gcongr
        have hgap : 0 ≤ upperMs (i + 0) - lowerMs (i + 0) := by
          rw [Nat.add_zero]
          linarith
        have := mul_le_mul_of_nonneg_left hratio hgap
        linarith
      · have hnext : quantileLoop target' i before (m :: buckets) =
            quantileLoop target' (i + 1) (before + m) buckets := by
          rw [quantileLoop, if_neg hhere']
        rw [List.sum_cons, ← Nat.add_assoc] at h1
        have hsum : buckets ≠ [] := by
          rintro rfl
          simp only [List.sum_nil, Nat.add_zero] at h1
          exact hhere' h1
        have hpos : 0 < buckets.length := List.length_pos_iff.mpr hsum
        have hup : lowerMs (i + 1) = upperMs i := lowerMs_succ (by omega)
        have hrest := lowerMs_le_quantileLoop (i := i + 1) (by omega) (not_le.mp hhere') h1
        have hfirst := (quantileLoop_bounds (k := 0) (i := i) (by omega) rfl hlow hhigh).2
        rw [hnext]
        exact hfirst.trans (hup ▸ hrest)
    · have hhere' : ¬ target' ≤ (before + m : Nat) := fun h => hhere (hle.trans h)
      rw [List.sum_cons, ← Nat.add_assoc] at h1
      simp only [quantileLoop, if_neg hhere, if_neg hhere']
      exact ih (by omega) (not_le.mp hhere) h1

end

theorem quantile_eq {buckets : List Nat} {total : Nat} {q : ℚ} (htotal : total ≠ 0) (h0 : 0 < q) (h1 : q ≤ 1) :
    quantileFromBuckets buckets total q = quantileLoop (q * total) 0 0 buckets := by
  have hzero : ¬ (total = 0 ∨ q ≤ 0) := by
    rintro (h | h)
    · exact htotal h
    · linarith
  have hone : ¬ q > 1 := not_lt.mpr h1
  simp only [quantileFromBuckets, if_neg hzero, if_neg hone]

theorem quantile_mono {buckets : List Nat} {total : Nat} {q q' : ℚ} (hlen : buckets.length ≤ kBucketCount)
    (h0 : 0 < q) (hle : q ≤ q') (h1 : q' ≤ 1) (hreach : q' * total ≤ (buckets.sum : Nat)) :
    quantileFromBuckets buckets total q ≤ quantileFromBuckets buckets total q' := by
  by_cases htotal : total = 0
  · simp [quantileFromBuckets, htotal]
  · have hpos : (0 : ℚ) < total := by exact_mod_cast Nat.pos_of_ne_zero htotal
    rw [quantile_eq htotal h0 (hle.trans h1), quantile_eq htotal (h0.trans_le hle) h1]
    refine quantileLoop_mono (by omega) ?_ ?_ ?_
    · rw [Nat.cast_zero]
      exact mul_pos h0 hpos
    · gcongr
    · rw [Nat.zero_add]
      exact hreach

theorem bucketLines_samples (xs : List ℚ) :
    bucketLines 0 kBoundsMs ((List.range kBucketCount).map (tally bucketOf xs)) =
      (kBoundsMs.flatMap fun bound => bucketLine (formatDouble bound) (xs.countP (· ≤ bound))) ++
        bucketLine (bytes "+Inf") xs.length := by
  have hall : kBoundsMs.drop 0 = kBoundsMs := rfl
  have hwidth : kBoundsMs.length + 1 = kBucketCount := rfl
  have h := bucketLines_tally xs hall (Nat.zero_le _)
  rw [hwidth] at h
  rw [List.range_eq_range']
  simpa using h

theorem sum_buckets (xs : List ℚ) : ((List.range kBucketCount).map (tally bucketOf xs)).sum = xs.length := by
  rw [sum_tally, List.countP_eq_length]
  intro x _
  simpa using bucketOf_lt x

theorem quantile_interval {xs : List ℚ} {q x : ℚ} (h0 : 0 < q) (h1 : q ≤ 1) (hx : Ranked xs (q * xs.length) x) :
    lowerMs (bucketOf x) <
        quantileFromBuckets ((List.range kBucketCount).map (tally bucketOf xs)) xs.length q ∧
      quantileFromBuckets ((List.range kBucketCount).map (tally bucketOf xs)) xs.length q ≤
        upperMs (bucketOf x) := by
  have hne : xs.length ≠ 0 := fun h => by
    rw [List.length_eq_zero_iff] at h
    subst h
    exact absurd hx.mem List.not_mem_nil
  have hpos : (0 : ℚ) < q * xs.length := mul_pos h0 (by exact_mod_cast Nat.pos_of_ne_zero hne)
  have hlt := bucketOf_lt x
  obtain ⟨hlow, hhigh⟩ := hx.slot_reaches hpos (f := bucketOf) bucketOf_mono
  have htake : (((List.range kBucketCount).map (tally bucketOf xs)).take (bucketOf x)).sum =
      xs.countP fun y => bucketOf y < bucketOf x := by
    rw [← List.map_take, List.take_range, Nat.min_eq_left hlt.le, sum_tally]
  have hget : ((List.range kBucketCount).map (tally bucketOf xs))[bucketOf x]? =
      some (tally bucketOf xs (bucketOf x)) := by
    simp [hlt]
  rw [countP_succ] at hhigh
  rw [← htake, ← Nat.zero_add (List.sum _)] at hlow hhigh
  rw [quantile_eq hne h0 h1]
  have h := quantileLoop_bounds (i := 0) (by omega) hget hlow hhigh
  rwa [Nat.zero_add] at h

/-- The rendered histogram counts the samples, and the quantiles made of it
are in order and lie where the exact ones lie. -/
theorem histogram_refines (calls : List (Int × ℚ)) (start now : Int) (logLines : Nat) :
    (∃ before after, ((reset start).finishAll calls).renderPrometheus now logLines = before ++
      ((kBoundsMs.flatMap fun bound => bucketLine (formatDouble bound) ((samples calls).countP (· ≤ bound))) ++
        bucketLine (bytes "+Inf") calls.length ++
        sampleText "myself_request_latency_ms_sum"
          (formatDouble (((reset start).finishAll calls).snapshot now).latencySumMs) ++
        sampleText "myself_request_latency_ms_count" (toText calls.length)) ++ after) ∧
      (∀ q q', 0 < q → q ≤ q' → q' ≤ 1 →
        quantileFromBuckets (((reset start).finishAll calls).snapshot now).latencyBuckets
            (((reset start).finishAll calls).snapshot now).latencyCount q ≤
          quantileFromBuckets (((reset start).finishAll calls).snapshot now).latencyBuckets
            (((reset start).finishAll calls).snapshot now).latencyCount q') ∧
      ∀ q, 0 < q → q ≤ 1 → calls ≠ [] → ∃ x, Ranked (samples calls) (q * calls.length) x ∧
        lowerMs (bucketOf x) < quantileFromBuckets (((reset start).finishAll calls).snapshot now).latencyBuckets
            (((reset start).finishAll calls).snapshot now).latencyCount q ∧
        quantileFromBuckets (((reset start).finishAll calls).snapshot now).latencyBuckets
            (((reset start).finishAll calls).snapshot now).latencyCount q ≤ upperMs (bucketOf x) := by
  have hcount : (((reset start).finishAll calls).snapshot now).latencyCount = (samples calls).length := by
    simp [snapshot, snapshotOf, finishAll_count, samples, reset]
  have hbuckets : (((reset start).finishAll calls).snapshot now).latencyBuckets =
      (List.range kBucketCount).map (tally bucketOf (samples calls)) := by
    simp [snapshot, snapshotOf, finishAll_bucket, reset]
  have hlen : calls.length = (samples calls).length := by
    simp [samples]
  refine ⟨?_, ?_, ?_⟩
  · refine ⟨counterTexts (((reset start).finishAll calls).snapshot now) logLines ++
      familyText "myself_request_latency_ms" "请求处理延迟直方图（毫秒）" "histogram",
      quantileTexts (((reset start).finishAll calls).snapshot now), ?_⟩
    rw [renderPrometheus, renderSnapshot, hbuckets, hcount, hlen, bucketLines_samples]
    simp only [List.append_assoc]
  · intro q q' h0 hle h1
    rw [hbuckets, hcount]
    refine quantile_mono (by simp) h0 hle h1 ?_
    rw [sum_buckets]
    exact mul_le_of_le_one_left (Nat.cast_nonneg _) h1
  · intro q h0 h1 hne
    have hpos : (0 : ℚ) < (samples calls).length := by
      have := List.length_pos_iff.mpr hne
      rw [← hlen]
      exact_mod_cast this
    obtain ⟨x, hx⟩ := exists_ranked (mul_pos h0 hpos) (mul_le_of_le_one_left hpos.le h1)
    rw [hbuckets, hcount, hlen]
    exact ⟨x, hx, quantile_interval h0 h1 hx⟩

/-- The samples 0.5, 3 and 1500. -/
theorem histogram_refines_three : ∃ x, Ranked (samples [(200, 1 / 2), (200, 3), (404, 1500)]) (1 / 2 * (3 : Nat)) x ∧
    lowerMs (bucketOf x) < quantileFromBuckets [1, 0, 1, 0, 0, 0, 0, 0, 0, 0, 1, 0, 0] 3 (1 / 2) ∧
    quantileFromBuckets [1, 0, 1, 0, 0, 0, 0, 0, 0, 0, 1, 0, 0] 3 (1 / 2) ≤ upperMs (bucketOf x) := by
  have hbuckets : (((reset 0).finishAll [(200, 1 / 2), (200, 3), (404, 1500)]).snapshot 0).latencyBuckets =
      [1, 0, 1, 0, 0, 0, 0, 0, 0, 0, 1, 0, 0] := by
    decide +kernel
  have h := (histogram_refines [(200, 1 / 2), (200, 3), (404, 1500)] 0 0 0).2.2 (1 / 2) (by norm_num) (by norm_num)
    (List.cons_ne_nil _ _)
  rw [hbuckets] at h
  exact h

end Metrics

end Myself.Util
