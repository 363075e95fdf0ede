import Mathlib.Algebra.Order.BigOperators.Group.List
import Mathlib.Algebra.Order.Field.Rat
import Mathlib.Tactic.Linarith
import Mathlib.Tactic.NormNum
import Mathlib.Tactic.Positivity
import Mathlib.Tactic.Ring
import MyselfServer.Machine

/-!
# The rate limiter

`TokenBucket` with exact tokens. A time is a number of nanoseconds of the
steady clock, and what is refilled is counted in whole microseconds. A call of
`tryAcquire` reads the clock before it takes the mutex, so that the calls take
the mutex in an order that is not that of their times.
-/

namespace Myself

open Machine

structure TokenBucket where
  rate : ℚ
  burst : ℚ
  tokens : ℚ
  lastRefillTime : Int

namespace TokenBucket

def configure (rate burst : ℚ) (now : Int) : TokenBucket :=
  let rate := max 0 rate
  let burst := if burst ≤ 0 then rate else burst
  ⟨rate, burst, burst, now⟩

def reset (b : TokenBucket) (now : Int) : TokenBucket :=
  { b with tokens := b.burst, lastRefillTime := now }

def microseconds (d : Int) : Int := d.tdiv 1000

def refillLocked (b : TokenBucket) (now : Int) : TokenBucket :=
  if b.rate ≤ 0 then b
  else
    let elapsed := microseconds (now - b.lastRefillTime)
    if elapsed ≤ 0 then b
    else
      let deltaSeconds : ℚ := elapsed / 1000000
      { b with
        tokens := min b.burst (b.tokens + deltaSeconds * b.rate)
        lastRefillTime := now }

def passes (b : TokenBucket) (tokens : ℚ) : Prop := b.rate ≤ 0 ∨ tokens ≤ 0

instance (b : TokenBucket) (tokens : ℚ) : Decidable (b.passes tokens) :=
  inferInstanceAs (Decidable (_ ∨ _))

def acquireLocked (b : TokenBucket) (now : Int) (tokens : ℚ) : Bool × TokenBucket :=
  let b := b.refillLocked now
  if b.tokens ≥ tokens then (true, { b with tokens := b.tokens - tokens }) else (false, b)

def tryAcquire (b : TokenBucket) (now : Int) (tokens : ℚ) : Bool × TokenBucket :=
  if b.passes tokens then (true, b) else b.acquireLocked now tokens

end TokenBucket

/-! ## Threads -/

structure Attempt where
  thread : Nat
  now : Int
  tokens : ℚ

structure Acquired where
  now : Int
  tokens : ℚ
  granted : Bool

/-- `calls` are those since the bucket was last full, in the order in which
they took the mutex. -/
structure Limiter where
  bucket : TokenBucket
  attempts : List Attempt := []
  calls : List Acquired := []

inductive LimiterEvent where
  | enter (thread : Nat) (now : Int) (tokens : ℚ)
  | lock (thread : Nat)
  | reset (now : Int)

namespace Limiter

def step (s : Limiter) : LimiterEvent → Option Limiter
  | .enter thread now tokens =>
    if s.attempts.any fun a => a.thread = thread then none
    else if s.bucket.passes tokens then some s
    else some { s with attempts := s.attempts ++ [⟨thread, now, tokens⟩] }
  | .lock thread =>
    match s.attempts.find? fun a => a.thread = thread with
    | none => none
    | some a =>
      let r := s.bucket.acquireLocked a.now a.tokens
      some {
        bucket := r.2
        attempts := s.attempts.filter fun a => a.thread ≠ thread
        calls := s.calls ++ [⟨a.now, a.tokens, r.1⟩] }
  | .reset now => some { s with bucket := s.bucket.reset now, calls := [] }

end Limiter

def granted (calls : List Acquired) : ℚ :=
  (calls.map fun c => if c.granted then c.tokens else 0).sum

@[simp]
theorem granted_cons (c : Acquired) (calls : List Acquired) :
    granted (c :: calls) = (if c.granted then c.tokens else 0) + granted calls := by
  simp [granted]

def seconds (d : Int) : ℚ := d / 1000000000

/-! ## One call -/

namespace TokenBucket

structure Ok (b : TokenBucket) : Prop where
  rate : 0 ≤ b.rate
  tokens : 0 ≤ b.tokens
  burst : b.tokens ≤ b.burst

def refillable (b : TokenBucket) (until_ : Int) : ℚ := b.rate * seconds (max 0 (until_ - b.lastRefillTime))

section
variable {b : TokenBucket} {now last : Int} {tokens : ℚ}

theorem microseconds_pos {d : Int} (h : 0 < microseconds d) :
    1000 ≤ d ∧ (microseconds d : ℚ) / 1000000 ≤ seconds d := by
  have hd : 0 ≤ d := by
    by_contra hneg
    have hflip : (- -d).tdiv 1000 = -(-d).tdiv 1000 := Int.neg_tdiv _ _
    have hnonneg : 0 ≤ (-d).tdiv 1000 := Int.tdiv_nonneg (by omega) (by omega)
    rw [neg_neg] at hflip
    rw [microseconds] at h
    omega
  have hdiv : microseconds d = d / 1000 := Int.tdiv_eq_ediv_of_nonneg hd
  have hle : microseconds d * 1000 ≤ d := by omega
  refine ⟨by omega, ?_⟩
  have hcast : (microseconds d : ℚ) * 1000 ≤ d := by exact_mod_cast hle
  rw [seconds]
  linarith

theorem microseconds_nonpos {d : Int} (h : microseconds d ≤ 0) : d < 1000 := by
  by_contra hge
  have hdiv : microseconds d = d / 1000 := Int.tdiv_eq_ediv_of_nonneg (by omega)
  omega

theorem seconds_mono {d e : Int} (h : d ≤ e) : seconds d ≤ seconds e := by
  have hcast : (d : ℚ) ≤ e := by exact_mod_cast h
  rw [seconds, seconds]
  linarith

theorem seconds_nonneg {d : Int} (h : 0 ≤ d) : 0 ≤ seconds d := by
  have h0 : seconds 0 = 0 := by simp [seconds]
  rw [← h0]
  exact seconds_mono h

theorem seconds_add (d e : Int) : seconds (d + e) = seconds d + seconds e := by
  simp only [seconds, Int.cast_add]
  ring

/-- Less than a microsecond after the last refill there is none; else there is
one, of no more than what the time since then is worth. -/
theorem refillLocked_cases (b : TokenBucket) (now : Int) :
    (b.refillLocked now = b ∧ (0 < b.rate → now < b.lastRefillTime + 1000)) ∨
      b.lastRefillTime ≤ now ∧ 0 < b.rate ∧ ∃ added, 0 ≤ added ∧
        added ≤ b.rate * seconds (now - b.lastRefillTime) ∧
        b.refillLocked now =
          { b with tokens := min b.burst (b.tokens + added), lastRefillTime := now } := by
  by_cases hrate : b.rate ≤ 0
  · exact .inl ⟨by simp [refillLocked, hrate], fun h => absurd h (not_lt.mpr hrate)⟩
  · by_cases hd : microseconds (now - b.lastRefillTime) ≤ 0
    · refine .inl ⟨by simp [refillLocked, hd], fun _ => ?_⟩
      have := microseconds_nonpos hd
      omega
    · obtain ⟨hlate, hle⟩ := microseconds_pos (not_le.mp hd)
      have hpos : 0 < b.rate := not_le.mp hrate
      have hmicro : (0 : ℚ) ≤ microseconds (now - b.lastRefillTime) := by
        exact_mod_cast le_of_lt (not_le.mp hd)
      refine .inr ⟨by omega, hpos, microseconds (now - b.lastRefillTime) / 1000000 * b.rate, ?_, ?_, ?_⟩
      · positivity
      · rw [mul_comm]
        exact mul_le_mul_of_nonneg_left hle hpos.le
      · simp [refillLocked, hrate, hd]

theorem Ok.refillLocked (h : b.Ok) (now : Int) : (b.refillLocked now).Ok := by
  rcases b.refillLocked_cases now with ⟨heq, -⟩ | ⟨-, -, added, hadded, -, heq⟩
  · rw [heq]
    exact h
  · rw [heq]
    refine ⟨h.rate, le_min (h.tokens.trans h.burst) ?_, min_le_left _ _⟩
    have := h.tokens
    linarith

/-- A refill only takes from what could be refilled. -/
theorem refillLocked_spends (b : TokenBucket) (hnow : now ≤ last) :
    (b.refillLocked now).tokens + (b.refillLocked now).refillable last ≤ b.tokens + b.refillable last := by
  rcases b.refillLocked_cases now with ⟨heq, -⟩ | ⟨hlate, -, added, -, hadded, heq⟩
  · rw [heq]
  · rw [heq]
    have hsplit : seconds (last - b.lastRefillTime) =
        seconds (last - now) + seconds (now - b.lastRefillTime) := by
      rw [← seconds_add]
      congr 1
      omega
    have hmin := min_le_right b.burst (b.tokens + added)
    simp only [refillable, max_eq_right (show 0 ≤ last - now by omega),
      max_eq_right (show 0 ≤ last - b.lastRefillTime by omega), hsplit, mul_add]
    linarith

/-- What is granted is taken from the tokens. -/
theorem acquireLocked_cases (b : TokenBucket) (now : Int) (tokens : ℚ) :
    tokens ≤ (b.refillLocked now).tokens ∧
        b.acquireLocked now tokens =
          (true, { b.refillLocked now with tokens := (b.refillLocked now).tokens - tokens }) ∨
      b.acquireLocked now tokens = (false, b.refillLocked now) := by
  by_cases henough : (b.refillLocked now).tokens ≥ tokens
  · exact .inl ⟨henough, by simp [acquireLocked, henough]⟩
  · exact .inr (by simp [acquireLocked, henough])

theorem acquireLocked_spends (b : TokenBucket) (now last : Int) (tokens : ℚ) :
    (if (b.acquireLocked now tokens).1 then tokens else 0) +
        ((b.acquireLocked now tokens).2.tokens + (b.acquireLocked now tokens).2.refillable last) =
      (b.refillLocked now).tokens + (b.refillLocked now).refillable last := by
  rcases b.acquireLocked_cases now tokens with ⟨-, heq⟩ | heq
  · rw [heq]
    simp only [if_true, refillable]
    ring
  · rw [heq]
    simp

theorem Ok.acquireLocked (h : b.Ok) (now : Int) (ht : 0 < tokens) : (b.acquireLocked now tokens).2.Ok := by
  have hr := h.refillLocked now
  rcases b.acquireLocked_cases now tokens with ⟨henough, heq⟩ | heq
  · rw [heq]
    have hburst := hr.burst
    exact ⟨hr.rate, sub_nonneg.mpr henough, (sub_le_self _ ht.le).trans hburst⟩
  · rw [heq]
    exact hr

@[simp]
theorem refillLocked_rate : (b.refillLocked now).rate = b.rate := by
  rcases b.refillLocked_cases now with ⟨heq, -⟩ | ⟨-, -, _, -, -, heq⟩ <;> rw [heq]

@[simp]
theorem refillLocked_burst : (b.refillLocked now).burst = b.burst := by
  rcases b.refillLocked_cases now with ⟨heq, -⟩ | ⟨-, -, _, -, -, heq⟩ <;> rw [heq]

@[simp]
theorem acquireLocked_rate : (b.acquireLocked now tokens).2.rate = b.rate := by
  rcases b.acquireLocked_cases now tokens with ⟨-, heq⟩ | heq <;> simp [heq]

@[simp]
theorem acquireLocked_burst : (b.acquireLocked now tokens).2.burst = b.burst := by
  rcases b.acquireLocked_cases now tokens with ⟨-, heq⟩ | heq <;> simp [heq]

/-! ## Consecutive calls -/

/-- The calls took the mutex one after the other, on the first bucket and up to
the second. -/
def Serves : TokenBucket → List Acquired → TokenBucket → Prop
  | b, [], b' => b' = b
  | b, c :: cs, b' =>
    0 < c.tokens ∧ (b.acquireLocked c.now c.tokens).1 = c.granted ∧
      Serves (b.acquireLocked c.now c.tokens).2 cs b'

variable {b' : TokenBucket} {calls later : List Acquired}

theorem serves_append : Serves b (calls ++ later) b' ↔ ∃ b₁, Serves b calls b₁ ∧ Serves b₁ later b' := by
  induction calls generalizing b with
  | nil => simp [Serves]
  | cons c calls ih => simp only [List.cons_append, Serves, ih, exists_and_left, and_assoc]

theorem Serves.ok (hs : Serves b calls b') (h : b.Ok) : b'.Ok ∧ b'.rate = b.rate ∧ b'.burst = b.burst := by
  induction calls generalizing b with
  | nil =>
    cases hs
    exact ⟨h, rfl, rfl⟩
  | cons c calls ih =>
    obtain ⟨ht, -, hrest⟩ := hs
    simpa using ih hrest (h.acquireLocked c.now ht)

/-- Calls grant no more than there is and could be refilled up to the last of
their times. -/
theorem Serves.granted_within (hs : Serves b calls b') (h : b.Ok) (hlast : ∀ c ∈ calls, c.now ≤ last) :
    granted calls ≤ b.tokens + b.refillable last := by
  induction calls generalizing b with
  | nil =>
    have hmore : 0 ≤ b.refillable last := mul_nonneg h.rate (seconds_nonneg (le_max_left _ _))
    simpa [granted] using add_nonneg h.tokens hmore
  | cons c calls ih =>
    obtain ⟨ht, hgranted, hrest⟩ := hs
    have hrefill := b.refillLocked_spends (hlast c (by simp))
    have htake := b.acquireLocked_spends c.now last c.tokens
    have hih := ih hrest (h.acquireLocked c.now ht) fun c hc => hlast c (by simp [hc])
    rw [hgranted] at htake
    rw [granted_cons]
    linarith

/-- In a window of time, calls grant no more than the burst, what the window is
worth and the tokens of less than a microsecond: the last refill before the
window may be that old and still keep the first call from a new one. -/
theorem Serves.granted_window (hs : Serves b calls b') (h : b.Ok) {first : Int} (hle : first ≤ last)
    (hwindow : ∀ c ∈ calls, first ≤ c.now ∧ c.now ≤ last) :
    granted calls ≤ b.burst + b.rate * seconds (last - first + 999) := by
  have hlast : ∀ c ∈ calls, c.now ≤ last := fun c hc => (hwindow c hc).2
  have hwithin : ∀ d ≤ last - first + 999, b.rate * seconds (max 0 d) ≤
      b.rate * seconds (last - first + 999) := by
    intro d hd
    exact mul_le_mul_of_nonneg_left (seconds_mono (max_le (by omega) hd)) h.rate
  cases calls with
  | nil =>
    have hmore := (mul_nonneg h.rate (seconds_nonneg (le_max_left 0 _))).trans (hwithin 0 (by omega))
    simpa [granted] using add_nonneg (h.tokens.trans h.burst) hmore
  | cons c calls =>
    obtain ⟨hfirst, hc⟩ := hwindow c (by simp)
    rcases b.refillLocked_cases c.now with ⟨-, hsoon⟩ | ⟨-, -, added, -, -, heq⟩
    · -- no refill at the first call: the last one is in the window or just before it
      have hall := hs.granted_within h hlast
      have hbound : b.refillable last ≤ b.rate * seconds (last - first + 999) := by
        rcases h.rate.eq_or_lt with hzero | hpos
        · simp [refillable, ← hzero]
        · have := hsoon hpos
          exact hwithin _ (by omega)
      have := h.burst
      linarith
    · -- from the refill at the first call on, there is at most a full bucket
      obtain ⟨ht, hgranted, hrest⟩ := hs
      have htake := b.acquireLocked_spends c.now last c.tokens
      have hafter := hrest.granted_within (h.acquireLocked c.now ht) fun c hc => hlast c (by simp [hc])
      have hfull := min_le_left b.burst (b.tokens + added)
      have hbound := hwithin (last - c.now) (by omega)
      rw [hgranted, heq] at htake
      simp only [refillable] at htake hafter
      rw [granted_cons]
      linarith

theorem configure_ok (rate burst : ℚ) (now : Int) : (configure rate burst now).Ok := by
  have hburst : 0 ≤ (configure rate burst now).burst := by
    simp only [configure]
    split
    · exact le_max_left _ _
    · rename_i hpos
      exact (not_le.mp hpos).le
  exact ⟨le_max_left _ _, hburst, le_refl _⟩

end

end TokenBucket

/-! ## Runs -/

namespace Limiter

open TokenBucket

structure Metered (rate burst : ℚ) (s : Limiter) : Prop where
  positive : ∀ a ∈ s.attempts, 0 < a.tokens
  served : ∃ b : TokenBucket, b.Ok ∧ Serves b s.calls s.bucket
  sameRate : s.bucket.rate = rate
  sameBurst : s.bucket.burst = burst

theorem Metered.ok {rate burst : ℚ} {s : Limiter} (h : s.Metered rate burst) : s.bucket.Ok := by
  obtain ⟨b, hb, hs⟩ := h.served
  exact (hs.ok hb).1

theorem metered_step {rate burst : ℚ} {s s' : Limiter} {e : LimiterEvent} (h : s.Metered rate burst)
    (hs : s.step e = some s') : s'.Metered rate burst := by
  cases e with
  | enter thread now tokens =>
    simp only [step] at hs
    split at hs
    · cases hs
    · split at hs
      · cases hs
        exact h
      · rename_i hlimited
        cases hs
        refine { h with positive := ?_ }
        intro a ha
        rcases List.mem_append.mp ha with ha | ha
        · exact h.positive a ha
        · rw [List.mem_singleton.mp ha]
          exact not_le.mp fun hle => hlimited (.inr hle)
  | lock thread =>
    simp only [step] at hs
    split at hs
    · cases hs
    · rename_i a hfind
      cases hs
      have hpos := h.positive a (List.mem_of_find?_eq_some hfind)
      obtain ⟨b, hb, hserved⟩ := h.served
      refine ⟨?_, ⟨b, hb, serves_append.mpr ⟨s.bucket, hserved, hpos, rfl, rfl⟩⟩, ?_, ?_⟩
      · intro c hc
        exact h.positive c (List.mem_of_mem_filter hc)
      · rw [acquireLocked_rate]
        exact h.sameRate
      · rw [acquireLocked_burst]
        exact h.sameBurst
  | reset now =>
    cases hs
    have hok := h.ok
    have hfull : (s.bucket.reset now).Ok := ⟨hok.rate, hok.tokens.trans hok.burst, le_refl _⟩
    exact ⟨h.positive, ⟨_, hfull, rfl⟩, h.sameRate, h.sameBurst⟩

/-- Whatever the order in which the calls take the mutex: in a window of time
they are granted no more than the burst and what the window and less than a
microsecond are worth. -/
theorem granted_le (rate burst : ℚ) (start : Int) {s : Limiter}
    (h : Reached step Any ⟨configure rate burst start, [], []⟩ s) :
    (0 ≤ s.bucket.tokens ∧ s.bucket.tokens ≤ s.bucket.burst) ∧
      (s.bucket.rate = max 0 rate ∧ s.bucket.burst = if burst ≤ 0 then max 0 rate else burst) ∧
      ∀ before calls after first last, s.calls = before ++ calls ++ after → first ≤ last →
        (∀ c ∈ calls, first ≤ c.now ∧ c.now ≤ last) →
        granted calls ≤ s.bucket.burst + s.bucket.rate * seconds (last - first + 999) := by
  have hm : s.Metered (max 0 rate) (if burst ≤ 0 then max 0 rate else burst) := by
    refine h.invariant (I := Metered _ _) ?_ fun _ _ _ hi _ => metered_step hi
    exact ⟨fun _ ha => absurd ha List.not_mem_nil, ⟨_, configure_ok rate burst start, rfl⟩, rfl, rfl⟩
  refine ⟨⟨hm.ok.tokens, hm.ok.burst⟩, ⟨hm.sameRate, hm.sameBurst⟩, ?_⟩
  intro before calls after first last hcalls hle hwindow
  obtain ⟨b, hb, hserved⟩ := hm.served
  rw [hcalls, serves_append] at hserved
  obtain ⟨b₂, hfront, hback⟩ := hserved
  obtain ⟨b₁, hbefore, hrun⟩ := serves_append.mp hfront
  obtain ⟨hok₁, hrate₁, hburst₁⟩ := hbefore.ok hb
  obtain ⟨hok₂, hrate₂, hburst₂⟩ := hrun.ok hok₁
  obtain ⟨-, hrate₃, hburst₃⟩ := hback.ok hok₂
  rw [hrate₃, hburst₃, hrate₂, hburst₂]
  exact hrun.granted_window hok₁ hle hwindow

def straddling : List LimiterEvent := [.enter 0 999 1, .lock 0, .enter 1 1000 1, .lock 1]

theorem granted_le_straddling :
    ∃ s, run step ⟨configure 1000000 1 0, [], []⟩ straddling = some s ∧
      granted s.calls ≤ s.bucket.burst + s.bucket.rate * seconds (1000 - 999 + 999) := by
  have hrun : run step ⟨configure 1000000 1 0, [], []⟩ straddling = some _ := rfl
  refine ⟨_, hrun, (granted_le 1000000 1 0 (.of_run_any hrun)).2.2 [] _ [] 999 1000 ?_ (by decide) ?_⟩
  · rfl
  · decide +kernel

/-- Both are granted, and the nanosecond between them is not worth a token. -/
theorem straddling_exceeds :
    ∃ s, run step ⟨configure 1000000 1 0, [], []⟩ straddling = some s ∧
      (∀ c ∈ s.calls, 999 ≤ c.now ∧ c.now ≤ 1000) ∧
      s.bucket.burst + s.bucket.rate * seconds (1000 - 999) < granted s.calls := by
  refine ⟨_, rfl, ?_, ?_⟩
  · decide +kernel
  · decide +kernel

end Limiter

end Myself
