import Mathlib.Algebra.Order.Floor.Ring
import Mathlib.Data.Rat.Floor
import Mathlib.Tactic.FieldSimp
import MyselfServer.TokenBucket

/-!
# Refilling

A refill counts whole microseconds and moves the time of the last refill to
the full time of the call, so that what is left of a microsecond is lost at
each call that refills. And a bucket of less than one token never has one.
-/

namespace Myself

open Machine

namespace TokenBucket

/-! ## Polling -/

def nextRefillTime (lastRefillTime now : Int) : Int :=
  if now - lastRefillTime < 1000 then lastRefillTime else now

def cutOff (lastRefillTime now : Int) : Int :=
  if now - lastRefillTime < 1000 then 0 else (now - lastRefillTime) % 1000

/-- By how much the tokens are behind the clock after calls at these times: all
that was cut off, and what is not refilled yet. -/
def behind : Int → Int → List Int → Int
  | lastRefillTime, now, [] => now - lastRefillTime
  | lastRefillTime, _, now :: later =>
    cutOff lastRefillTime now + behind (nextRefillTime lastRefillTime now) now later

def endOf (now : Int) (later : List Int) : Int := later.getLast?.getD now

/-- The tokens are below the burst before and after each of the calls. -/
def StaysBelow : TokenBucket → List Acquired → Prop
  | b, [] => b.tokens < b.burst
  | b, c :: calls => b.tokens < b.burst ∧ StaysBelow (b.acquireLocked c.now c.tokens).2 calls

instance decidableStaysBelow : ∀ (b : TokenBucket) (calls : List Acquired), Decidable (StaysBelow b calls)
  | b, [] => inferInstanceAs (Decidable (b.tokens < b.burst))
  | b, _ :: calls =>
    @instDecidableAnd _ _ (inferInstanceAs (Decidable (b.tokens < b.burst))) (decidableStaysBelow _ calls)

section
variable {b b₀ b' : TokenBucket} {now last : Int} {tokens : ℚ} {calls : List Acquired}

theorem StaysBelow.first (h : StaysBelow b calls) : b.tokens < b.burst := by
  cases calls with
  | nil => exact h
  | cons c calls => exact h.1

theorem seconds_microseconds {d : Int} (h : 1000 ≤ d) :
    (microseconds d : ℚ) / 1000000 = seconds (d - d % 1000) := by
  have hdiv : microseconds d = d / 1000 := Int.tdiv_eq_ediv_of_nonneg (by omega)
  have hwhole : d - d % 1000 = microseconds d * 1000 := by omega
  rw [hwhole, seconds, Int.cast_mul]
  norm_num
  ring

theorem refillLocked_eq (hrate : 0 < b.rate) (hbelow : (b.refillLocked now).tokens < b.burst) :
    (b.refillLocked now).lastRefillTime = nextRefillTime b.lastRefillTime now ∧
      (b.refillLocked now).tokens = b.tokens + b.rate *
        seconds (nextRefillTime b.lastRefillTime now - b.lastRefillTime - cutOff b.lastRefillTime now) := by
  by_cases hsoon : now - b.lastRefillTime < 1000
  · have hmicro : microseconds (now - b.lastRefillTime) ≤ 0 := by
      by_contra hpos
      have := (microseconds_pos (not_le.mp hpos)).1
      omega
    have hsame : b.refillLocked now = b := by simp [refillLocked, hmicro]
    simp [hsame, nextRefillTime, cutOff, hsoon, seconds]
  · have hlate : 1000 ≤ now - b.lastRefillTime := by omega
    have hmicro : ¬ microseconds (now - b.lastRefillTime) ≤ 0 := by
      intro hle
      have := microseconds_nonpos hle
      omega
    have heq : b.refillLocked now = { b with
        tokens := min b.burst (b.tokens + b.rate * seconds (now - b.lastRefillTime - (now - b.lastRefillTime) % 1000))
        lastRefillTime := now } := by
      simp [refillLocked, hrate.not_ge, hmicro, seconds_microseconds hlate, mul_comm]
    rw [heq] at hbelow ⊢
    simp only [nextRefillTime, cutOff, if_neg hsoon]
    refine ⟨trivial, ?_⟩
    rcases min_choice b.burst
      (b.tokens + b.rate * seconds (now - b.lastRefillTime - (now - b.lastRefillTime) % 1000)) with hmin | hmin
    · dsimp only at hbelow
      rw [hmin] at hbelow
      exact absurd hbelow (lt_irrefl _)
    · exact hmin

theorem acquireLocked_refused (h : (b.acquireLocked now tokens).1 = false) :
    (b.acquireLocked now tokens).2 = b.refillLocked now := by
  rcases b.acquireLocked_cases now tokens with ⟨-, heq⟩ | heq
  · rw [heq] at h
    cases h
  · rw [heq]

theorem endOf_cons (now next : Int) (later : List Int) : endOf now (next :: later) = endOf next later := by
  cases later with
  | nil => rfl
  | cons t later => rw [endOf, endOf, List.getLast?_cons_cons, List.getLast?_cons, Option.getD_some, Option.getD_some]

/-- The tokens after refused calls, as far as the clock and less what they are behind. -/
theorem Serves.refused_tokens (hs : Serves b calls b') (hrate : 0 < b.rate)
    (hfail : ∀ c ∈ calls, c.granted = false) (hbelow : StaysBelow b calls) (now : Int) :
    b'.tokens = b.tokens + b.rate * seconds (endOf now (calls.map Acquired.now) - b.lastRefillTime -
      behind b.lastRefillTime now (calls.map Acquired.now)) := by
  induction calls generalizing b now with
  | nil =>
    cases hs
    simp [endOf, behind, seconds]
  | cons c calls ih =>
    obtain ⟨-, hgranted, hrest⟩ := hs
    have hrefused := acquireLocked_refused (hgranted.trans (hfail c (by simp)))
    rw [hrefused] at hrest
    have hlater := hbelow.2
    rw [hrefused] at hlater
    have hburst := hlater.first
    rw [refillLocked_burst] at hburst
    obtain ⟨htime, htokens⟩ := refillLocked_eq hrate hburst
    have hih := ih hrest (by rw [refillLocked_rate]; exact hrate) (fun c hc => hfail c (by simp [hc])) hlater c.now
    rw [hih, htokens, htime, refillLocked_rate, List.map_cons, endOf_cons, add_assoc, ← mul_add, ← seconds_add]
    congr 3
    simp only [behind]
    ring

theorem behind_ge {later : List Int} (last : Int) (h : (now :: later).Pairwise (· < ·)) :
    min 0 (now - last) ≤ behind last now later := by
  induction later generalizing now last with
  | nil => exact min_le_right _ _
  | cons t later ih =>
    obtain ⟨hfirst, hrest⟩ := List.pairwise_cons.mp h
    have hlt := hfirst t (by simp)
    have hih := ih (nextRefillTime last t) hrest
    simp only [behind, nextRefillTime, cutOff] at hih ⊢
    split
    · rename_i hsoon
      rw [if_pos hsoon] at hih
      omega
    · rename_i hlate
      rw [if_neg hlate] at hih
      omega

theorem abs_seconds_le {d : Int} : |seconds d| ≤ seconds 1000 ↔ -1000 ≤ d ∧ d ≤ 1000 := by
  have hscale : seconds d = (d : ℚ) * (1 / 1000000000) := by rw [seconds]; ring
  have hmicro : seconds 1000 = 1000 * (1 / 1000000000) := by norm_num [seconds]
  rw [hscale, hmicro, abs_mul, abs_of_pos (by norm_num : (0 : ℚ) < 1 / 1000000000),
    mul_le_mul_iff_of_pos_right (by norm_num), abs_le]
  constructor
  · rintro ⟨hlow, hhigh⟩
    exact ⟨by exact_mod_cast hlow, by exact_mod_cast hhigh⟩
  · rintro ⟨hlow, hhigh⟩
    exact ⟨by exact_mod_cast hlow, by exact_mod_cast hhigh⟩

/-- After a refused call at `t0` and further ones, the tokens have grown as much
as the clock says, up to a microsecond, if and only if what was cut off and is
not refilled yet comes to no more than a microsecond. -/
theorem polled_refill {c₀ : Acquired} (hrate : 0 < b.rate) (h₀ : Serves b [c₀] b₀) (hs : Serves b₀ calls b')
    (hfail : ∀ c ∈ c₀ :: calls, c.granted = false) (hbelow : StaysBelow b₀ calls)
    (hinc : ((c₀ :: calls).map Acquired.now).Pairwise (· < ·)) :
    |b'.tokens - b₀.tokens - b.rate * seconds (endOf c₀.now (calls.map Acquired.now) - c₀.now)| ≤
        b.rate * seconds 1000 ↔
      behind b₀.lastRefillTime c₀.now (calls.map Acquired.now) ≤ c₀.now - b₀.lastRefillTime + 1000 := by
  obtain ⟨-, hgranted, rfl⟩ := h₀
  rw [acquireLocked_refused (hgranted.trans (hfail c₀ (by simp)))] at hs hbelow ⊢
  have hrecent : c₀.now - (b.refillLocked c₀.now).lastRefillTime < 1000 := by
    rcases b.refillLocked_cases c₀.now with ⟨heq, hsoon⟩ | ⟨-, -, added, -, -, heq⟩
    · have := hsoon hrate
      rw [heq]
      omega
    · rw [heq]
      simp
  have hge := behind_ge (b.refillLocked c₀.now).lastRefillTime hinc
  have htokens := hs.refused_tokens (by rw [refillLocked_rate]; exact hrate)
    (fun c hc => hfail c (by simp [hc])) hbelow c₀.now
  rw [refillLocked_rate] at htokens
  generalize (b.refillLocked c₀.now).lastRefillTime = ref at *
  generalize endOf c₀.now (calls.map Acquired.now) = last at *
  generalize behind ref c₀.now (calls.map Acquired.now) = late at *
  have hdiff : b'.tokens - (b.refillLocked c₀.now).tokens - b.rate * seconds (last - c₀.now) =
      b.rate * seconds (c₀.now - ref - late) := by
    have hsplit : seconds (last - ref - late) = seconds (last - c₀.now) + seconds (c₀.now - ref - late) := by
      rw [← seconds_add]
      congr 1
      ring
    rw [htokens, hsplit]
    ring
  rw [hdiff, abs_mul, abs_of_pos hrate, mul_le_mul_iff_of_pos_left hrate, abs_seconds_le]
  omega

end

def drained : TokenBucket := ⟨1000000, 10, 0, 0⟩

theorem polled_refill_whole : ∃ b', Serves drained [⟨1000, 9, false⟩, ⟨2000, 9, false⟩] b' ∧
    |b'.tokens - 0 - 1000000 * seconds (2000 - 0)| ≤ 1000000 * seconds 1000 := by
  have hs : Serves drained [⟨1000, 9, false⟩, ⟨2000, 9, false⟩] _ :=
    ⟨by norm_num, by decide +kernel, by norm_num, by decide +kernel, rfl⟩
  have h₀ : Serves drained [⟨0, 9, false⟩] drained := ⟨by norm_num, by decide +kernel, rfl⟩
  have hbelow : StaysBelow drained [⟨1000, 9, false⟩, ⟨2000, 9, false⟩] := by
    decide +kernel
  exact ⟨_, hs, (polled_refill (by norm_num [drained]) h₀ hs (by decide) hbelow (by decide)).mpr (by decide)⟩

/-- Three refused calls, one every microsecond and a half: three tokens, where
the clock says four and a half. -/
theorem polled_refill_behind : ∃ b', Serves drained [⟨0, 9, false⟩] drained ∧
    Serves drained [⟨1500, 9, false⟩, ⟨3000, 9, false⟩, ⟨4500, 9, false⟩] b' ∧
    StaysBelow drained [⟨1500, 9, false⟩, ⟨3000, 9, false⟩, ⟨4500, 9, false⟩] ∧
    ¬ |b'.tokens - 0 - 1000000 * seconds (4500 - 0)| ≤ 1000000 * seconds 1000 := by
  refine ⟨_, ⟨by norm_num, by decide +kernel, rfl⟩, ⟨by norm_num, by decide +kernel, by norm_num,
    by decide +kernel, by norm_num, by decide +kernel, rfl⟩, ?_, ?_⟩
  · decide +kernel
  · decide +kernel

/-! ## Patience -/

def tokenTime (rate : ℚ) : Int := ⌈1000000 / rate⌉ * 1000

theorem rate_tokenTime {rate : ℚ} (h : 0 < rate) : 1 ≤ rate * seconds (tokenTime rate) := by
  have hceil : 1000000 / rate ≤ ⌈1000000 / rate⌉ := Int.le_ceil _
  rw [div_le_iff₀ h] at hceil
  rw [tokenTime, seconds, Int.cast_mul]
  push_cast
  linarith

theorem tokenTime_whole {rate : ℚ} {d : Int} (hd : tokenTime rate ≤ d) : tokenTime rate ≤ d - d % 1000 := by
  unfold tokenTime at *
  omega

theorem refill_enough {b : TokenBucket} {now : Int} (hrate : 0 < b.rate) (hok : b.Ok)
    (hlong : tokenTime b.rate ≤ now - b.lastRefillTime) (hburst : 1 ≤ b.burst) :
    1 ≤ (b.refillLocked now).tokens := by
  by_cases hfull : (b.refillLocked now).tokens < b.burst
  · have hpositive : 1000 ≤ tokenTime b.rate := by
      have : 0 < ⌈1000000 / b.rate⌉ := Int.ceil_pos.mpr (by positivity)
      unfold tokenTime
      omega
    have hwhole := seconds_mono (tokenTime_whole hlong)
    have htokens := (refillLocked_eq hrate hfull).2
    simp only [nextRefillTime, cutOff, if_neg (show ¬ now - b.lastRefillTime < 1000 by omega)] at htokens
    have htoken := rate_tokenTime hrate
    have hmore := mul_le_mul_of_nonneg_left hwhole hrate.le
    have := hok.tokens
    linarith
  · exact hburst.trans (not_lt.mp hfull)

end TokenBucket

namespace Limiter

open TokenBucket

def NoLater (last : Int) : LimiterEvent → Prop
  | .enter _ now _ => now ≤ last
  | .reset now => now ≤ last
  | .lock _ => True

instance (last : Int) (e : LimiterEvent) : Decidable (NoLater last e) :=
  match e with
  | .enter _ now _ => inferInstanceAs (Decidable (now ≤ last))
  | .reset now => inferInstanceAs (Decidable (now ≤ last))
  | .lock _ => .isTrue trivial

/-- All times that the bucket and the waiting calls know are past. -/
structure Past (last : Int) (s : Limiter) : Prop where
  refill : s.bucket.lastRefillTime ≤ last
  attempts : ∀ a ∈ s.attempts, a.now ≤ last

theorem past_step {last : Int} {s s' : Limiter} {e : LimiterEvent} (h : s.Past last) (he : NoLater last e)
    (hs : s.step e = some s') : s'.Past last := by
  cases e with
  | enter thread now tokens =>
    simp only [step] at hs
    split at hs
    · cases hs
    · split at hs
      · cases hs
        exact h
      · cases hs
        refine ⟨h.refill, fun a ha => ?_⟩
        rcases List.mem_append.mp ha with ha | ha
        · exact h.attempts a ha
        · rw [List.mem_singleton.mp ha]
          exact he
  | lock thread =>
    simp only [step] at hs
    split at hs
    · cases hs
    · rename_i a hfind
      cases hs
      have ha := h.attempts a (List.mem_of_find?_eq_some hfind)
      refine ⟨?_, fun c hc => h.attempts c (List.mem_of_mem_filter hc)⟩
      have hrefill : (s.bucket.refillLocked a.now).lastRefillTime ≤ last := by
        rcases s.bucket.refillLocked_cases a.now with ⟨heq, -⟩ | ⟨-, -, added, -, -, heq⟩
        · rw [heq]
          exact h.refill
        · rw [heq]
          exact ha
      rcases s.bucket.acquireLocked_cases a.now a.tokens with ⟨-, heq⟩ | heq
      · rw [heq]
        exact hrefill
      · rw [heq]
        exact hrefill
  | reset now =>
    cases hs
    exact ⟨he, h.attempts⟩

/-- With the default burst, whoever waits for a token's time gets one, if and
only if the rate is at least one token a second: the burst is the rate. -/
theorem patient_client {rate burst : ℚ} (hrate : 0 < rate) (hburst : burst ≤ 0) {start last : Int}
    (hstart : start ≤ last) {s : Limiter}
    (h : Reached step (fun _ e => NoLater last e) ⟨configure rate burst start, [], []⟩ s) :
    (∀ now, last + tokenTime rate ≤ now → (s.bucket.tryAcquire now 1).1 = true) ↔ 1 ≤ rate := by
  have hm : s.Metered rate rate := by
    refine h.invariant (I := Metered _ _) ?_ fun _ _ _ hi _ => metered_step hi
    have hstarted : configure rate burst start = ⟨rate, rate, rate, start⟩ := by
      simp [configure, hburst, hrate.le]
    refine ⟨fun _ ha => absurd ha List.not_mem_nil, ⟨_, configure_ok rate burst start, rfl⟩, ?_, ?_⟩
    · rw [hstarted]
    · rw [hstarted]
  have hpast : s.Past last :=
    h.invariant (I := Past last) ⟨hstart, fun _ ha => absurd ha List.not_mem_nil⟩
      fun _ _ _ hi he hs => past_step hi he hs
  have hlimited : ¬ s.bucket.passes 1 := by
    rintro (hle | hle)
    · rw [hm.sameRate] at hle
      exact absurd hrate (not_lt.mpr hle)
    · exact absurd hle (by norm_num)
  simp only [tryAcquire, if_neg hlimited]
  constructor
  · intro hall
    have hgranted := hall _ (le_refl _)
    have hfull := (hm.ok.refillLocked (last + tokenTime rate)).burst
    rw [refillLocked_burst, hm.sameBurst] at hfull
    rcases s.bucket.acquireLocked_cases (last + tokenTime rate) 1 with ⟨henough, -⟩ | heq
    · exact henough.trans hfull
    · rw [heq] at hgranted
      cases hgranted
  · intro hone now hnow
    have hlong : tokenTime rate ≤ now - s.bucket.lastRefillTime := by
      have := hpast.refill
      omega
    have henough := refill_enough (hm.sameRate.symm ▸ hrate) hm.ok (hm.sameRate.symm ▸ hlong)
      (by rw [hm.sameBurst]; exact hone)
    simp [acquireLocked, henough]

theorem patient_client_two :
    ∃ s, runIf step (fun _ e => NoLater 7 e) ⟨configure 2 0 0, [], []⟩ [.enter 0 5 1, .enter 1 7 1, .lock 1, .lock 0] =
      some s ∧ (s.bucket.tryAcquire (7 + tokenTime 2) 1).1 = true := by
  have hrun : runIf step (fun _ e => NoLater 7 e) ⟨configure 2 0 0, [], []⟩
      [.enter 0 5 1, .enter 1 7 1, .lock 1, .lock 0] = some _ := rfl
  exact ⟨_, hrun, (patient_client (by norm_num) (le_refl _) (by decide) (.of_runIf hrun)).mpr (by norm_num) _
    (le_refl _)⟩

/-- One token in two seconds, and none after a thousand seconds. -/
theorem patient_client_refused :
    (configure (1 / 2) 0 0).burst = 1 / 2 ∧ tokenTime (1 / 2) ≤ 1000000000000 ∧
      ((configure (1 / 2) 0 0).tryAcquire 1000000000000 1).1 = false := by
  refine ⟨by decide +kernel, ?_, by decide +kernel⟩
  norm_num [tokenTime]

end Limiter

end Myself
