import Mathlib.Algebra.BigOperators.Group.Multiset.Basic
import MyselfServer.MetricsSnapshots
import MyselfServer.RequestLives

/-!
# The request counters

The counters are raised one access at a time, in two calls that are far apart.
What a counter shows and what the calls in progress still owe it is what the
requests have been counted for; where no request is between its two calls,
nothing is owed.
-/

namespace Myself.Util

open Text Myself.Util.Metrics Machine

/-! ## What is owed -/

/-- The counters that `onRequestStarted` and `onRequestFinished` raise, without
the sum of the latencies. -/
def Metrics.Counter.ofRequests : Counter → Bool
  | .methodCounts _ | .requestsTotal | .statusClasses _ | .latencyCount | .latencyBuckets _ => true
  | _ => false

def Call.fetches : Call → List (Counter × Nat)
  | .onRequestFinished statusCode latencyMs => Metrics.onRequestFinished statusCode latencyMs
  | call => call.adds

theorem fetches_other {call : Call} {c : Counter} (hcall : call.counts = false) (hc : c.ofRequests = true) :
    added call.fetches c = 0 := by
  cases call with
  | onRequestStarted kind => cases hcall
  | onRequestFinished statusCode latencyMs => cases hcall
  | _ => cases c <;> first | rfl | cases hc

namespace Caller

def due (c : Counter) : Caller → Nat
  | adding adds | finishing adds => added adds c
  | _ => 0

def counts : Caller → Bool
  | adding adds => adds.any fun add => add.1.ofRequests
  | finishing _ => true
  | _ => false

theorem due_of_counts {a : Caller} {c : Counter} (ha : a.counts = false) (hc : c.ofRequests = true) : a.due c = 0 := by
  cases a with
  | adding adds =>
    simp only [counts, List.any_eq_false] at ha
    simp only [due, added]
    refine List.sum_eq_zero fun n hn => ?_
    obtain ⟨add, hadd, rfl⟩ := List.mem_map.mp hn
    refine if_neg fun heq => ha add hadd ?_
    rw [heq]
    exact hc
  | finishing adds => cases ha
  | _ => rfl

theorem due_next {adds : List (Counter × Nat)} {b : Caller} {c : Counter} (hb : b.due c = added adds c) :
    due c (if adds = [] then .idle else b) = added adds c := by
  split
  · rename_i hnil
    rw [hnil]
    rfl
  · exact hb

end Caller

namespace MetricsUse

variable {s s' : MetricsUse} {t : Nat} {a b : Caller} {c : Counter} {n : Nat}

def ledger (s : MetricsUse) (c : Counter) : Nat := s.metrics.counter c + (s.callers.map (Caller.due c)).sum

theorem ledger_set (ha : s.callers[t]? = some a) (hcallers : s'.callers = s.callers.set t b)
    (hmove : s'.metrics.counter c + b.due c = s.metrics.counter c + a.due c + n) : s'.ledger c = s.ledger c + n := by
  have hsum := Places.sum_set (Caller.due c) ha b
  simp only [ledger, hcallers]
  omega

theorem ledger_raise (ha : s.callers[t]? = some a) (hdue : a.due c = 0) (current : Int) (previousMax : Nat) :
    (s.raise t current previousMax).ledger c = s.ledger c := by
  rcases raise_cases s t current previousMax with ⟨-, heq⟩ | ⟨-, heq⟩
  · rw [heq]
    exact ledger_set (n := 0) ha rfl (by rw [hdue]; rfl)
  · rw [heq]
    exact ledger_set (n := 0) ha rfl (by rw [hdue]; rfl)

theorem ledger_enter {call : Call} (hs : s.step (.enter t call) = some s') :
    s'.ledger c = s.ledger c + added call.fetches c := by
  simp only [step] at hs
  split at hs
  · rename_i ha
    cases call with
    | onConnectionOpened =>
      cases hs
      exact ledger_set ha rfl rfl
    | onConnectionClosed =>
      cases hs
      exact ledger_set ha rfl rfl
    | onRequestFinished statusCode latencyMs =>
      cases hs
      exact ledger_set ha rfl rfl
    | snapshot =>
      cases hs
      exact ledger_set ha rfl rfl
    | _ =>
      simp only [enter, Option.some.injEq] at hs
      subst hs
      exact ledger_set ha rfl (by rw [Caller.due_next rfl]; rfl)
  · cases hs

/-- An access pays what it adds. -/
theorem ledger_access {spurious : Bool} (hc : c.ofRequests = true) (hs : s.step (.access t spurious) = some s') :
    s'.ledger c = s.ledger c := by
  simp only [step] at hs
  split at hs
  · rename_i a ha
    cases a with
    | idle => cases hs
    | adding adds =>
      cases adds with
      | nil => cases hs
      | cons add adds =>
        cases hs
        refine ledger_set (n := 0) ha rfl ?_
        rw [fetchAdd_counter, Caller.due_next (b := .adding adds) rfl]
        simp only [Caller.due, added, List.map_cons, List.sum_cons]
        omega
    | finishing adds =>
      cases adds with
      | nil => cases hs
      | cons add adds =>
        cases hs
        refine ledger_set (n := 0) ha rfl ?_
        rw [fetchAdd_counter, Caller.due_next (b := .finishing adds) rfl]
        simp only [Caller.due, added, List.map_cons, List.sum_cons]
        omega
    | closing =>
      cases hs
      exact ledger_set (n := 0) ha rfl rfl
    | openTotal =>
      cases hs
      have hother : Counter.connectionsTotal ≠ c := fun heq => by rw [← heq] at hc; cases hc
      exact ledger_set (n := 0) ha rfl (by rw [fetchAdd_other _ _ hother]; rfl)
    | openCurrent =>
      cases hs
      exact ledger_set (n := 0) ha rfl rfl
    | openLoad current =>
      cases hs
      exact ledger_raise ha rfl _ _
    | openExchange current previousMax =>
      simp only [access] at hs
      split at hs
      · cases hs
        have hother : c ≠ Counter.connectionsMax := fun heq => by rw [heq] at hc; cases hc
        exact ledger_set (n := 0) ha rfl (by simp [Caller.due, hother])
      · cases hs
        exact ledger_raise ha rfl _ _
    | loading loaded k finished opened =>
      simp only [access] at hs
      split at hs
      · cases hs
      · cases hs
        exact ledger_set (n := 0) ha rfl rfl
  · cases hs

theorem ledger_clock {now : Int} (hs : s.step (.clock t now) = some s') : s'.ledger c = s.ledger c := by
  simp only [step] at hs
  split at hs
  · rename_i a ha
    cases a with
    | loading loaded k finished opened =>
      simp only [clock] at hs
      split at hs
      · cases hs
      · cases hs
        exact ledger_set (n := 0) ha rfl rfl
    | _ => cases hs
  · cases hs

theorem ledger_others {e : MetricsEvent} (hc : c.ofRequests = true) (he : e.others = true) (hs : s.step e = some s') :
    s'.ledger c = s.ledger c := by
  cases e with
  | enter t call =>
    have hcall : call.counts = false := by
      cases call <;> first | rfl | cases he
    rw [ledger_enter hs, fetches_other hcall hc, Nat.add_zero]
  | access t spurious => exact ledger_access hc hs
  | clock t now => exact ledger_clock hs

end MetricsUse

/-! ## What a request is counted for -/

namespace Metrics

def sumOver (m : Metrics) (k : Nat) (c : Nat → Counter) : Nat := ((List.range k).map fun i => m.counter (c i)).sum

def methodSum (m : Metrics) : Nat := m.sumOver MethodKind.kMethodCount.toNat .methodCounts

def statusSum (m : Metrics) : Nat := m.sumOver 5 .statusClasses

theorem class_iff (statusCode : Int) :
    (0 ≤ statusCode.tdiv 100 - 1 ∧ statusCode.tdiv 100 - 1 < 5) ↔ Classed statusCode := by
  unfold Classed
  rcases le_total 0 statusCode with hpos | hneg
  · rw [Int.tdiv_eq_ediv_of_nonneg hpos]
    omega
  · have hflip : statusCode.tdiv 100 = -((-statusCode).tdiv 100) := by rw [Int.neg_tdiv, neg_neg]
    rw [hflip, Int.tdiv_eq_ediv_of_nonneg (by omega)]
    omega

/-! What the two calls add to the sums. -/

variable (kind : Myself.MethodKind) (statusCode : Int) (latencyMs : ℚ) (i : Nat)

theorem countedKind_lt : (countedKind kind).toNat < MethodKind.kMethodCount.toNat := by
  cases kind <;> decide

theorem started_method : added (onRequestStarted (countedKind kind)) (.methodCounts i) =
    if (countedKind kind).toNat = i then 1 else 0 := by
  rw [onRequestStarted, if_pos (countedKind_lt kind)]
  simp [added]

theorem started_other {c : Counter} (hc : ∀ i, c ≠ .methodCounts i) :
    added (onRequestStarted (countedKind kind)) c = 0 := by
  rw [onRequestStarted, if_pos (countedKind_lt kind)]
  simp [added, (hc _).symm]

theorem finished_method : added (onRequestFinished statusCode latencyMs) (.methodCounts i) = 0 := by
  simp only [onRequestFinished]
  split <;> simp [added]

theorem finished_total : added (onRequestFinished statusCode latencyMs) .requestsTotal = 1 := by
  simp only [onRequestFinished]
  split <;> simp [added]

theorem finished_class : added (onRequestFinished statusCode latencyMs) (.statusClasses i) =
    if (statusCode.tdiv 100 - 1).toNat = i then (if Classed statusCode then 1 else 0) else 0 := by
  simp only [onRequestFinished, class_iff]
  split <;> simp [added]

/-! ## The counters of one connection -/

structure Shows (m : Myself.Metrics) (u : Metrics) : Prop where
  bytesRead : m.bytesRead = u.counter .bytesReadTotal
  bytesWritten : m.bytesWritten = u.counter .bytesWrittenTotal
  errors : m.errorsTotal = u.counter .errorsTotal
  methods : ∀ kind, m.methodCounts kind = u.counter (.methodCounts (countedKind kind).toNat)
  requests : m.requestsTotal = u.counter .requestsTotal
  classes : ∀ i < 5, m.statusClasses (i : Nat) = u.counter (.statusClasses i)
  notModified : m.requestsNotModified = u.counter .requestsNotModified
  rateLimited : m.requestsRateLimited = u.counter .requestsRateLimited

variable {m m' : Myself.Metrics} {u : Metrics} {adds : List (Counter × Nat)}

theorem Shows.addAll (h : Shows m u) (hread : m'.bytesRead = m.bytesRead + added adds .bytesReadTotal)
    (hwritten : m'.bytesWritten = m.bytesWritten + added adds .bytesWrittenTotal)
    (herrors : m'.errorsTotal = m.errorsTotal + added adds .errorsTotal)
    (hmethods : ∀ kind, m'.methodCounts kind =
      m.methodCounts kind + added adds (.methodCounts (countedKind kind).toNat))
    (hrequests : m'.requestsTotal = m.requestsTotal + added adds .requestsTotal)
    (hclasses : ∀ i < 5, m'.statusClasses (i : Nat) = m.statusClasses i + added adds (.statusClasses i))
    (hnotModified : m'.requestsNotModified = m.requestsNotModified + added adds .requestsNotModified)
    (hrateLimited : m'.requestsRateLimited = m.requestsRateLimited + added adds .requestsRateLimited) :
    Shows m' (u.addAll adds) where
  bytesRead := by rw [addAll_counter, hread, h.bytesRead]
  bytesWritten := by rw [addAll_counter, hwritten, h.bytesWritten]
  errors := by rw [addAll_counter, herrors, h.errors]
  methods kind := by rw [addAll_counter, hmethods, h.methods]
  requests := by rw [addAll_counter, hrequests, h.requests]
  classes i hi := by rw [addAll_counter, hclasses i hi, h.classes i hi]
  notModified := by rw [addAll_counter, hnotModified, h.notModified]
  rateLimited := by rw [addAll_counter, hrateLimited, h.rateLimited]

theorem countedKind_inj {k k' : Myself.MethodKind} (h : (countedKind k).toNat = (countedKind k').toNat) : k = k' := by
  cases k <;> cases k' <;> first | rfl | cases h

theorem finished_quiet {c : Counter} (hc : c = .bytesReadTotal ∨ c = .bytesWrittenTotal ∨ c = .errorsTotal ∨
    c = .requestsNotModified ∨ c = .requestsRateLimited) : added (onRequestFinished statusCode latencyMs) c = 0 := by
  simp only [onRequestFinished]
  rcases hc with rfl | rfl | rfl | rfl | rfl <;> split <;> simp [added]

section
variable {σ : Type} {w : World σ}

theorem shows_requestStarted (h : Shows w.metrics u) :
    Shows (w.requestStarted kind).metrics (u.addAll (onRequestStarted (countedKind kind))) := by
  refine h.addAll ?_ ?_ ?_ (fun k => ?_) ?_ (fun i _ => ?_) ?_ ?_
  case refine_4 =>
    rw [started_method]
    by_cases hk : k = kind
    · simp [World.requestStarted, hk]
    · have hne : (countedKind kind).toNat ≠ (countedKind k).toNat := fun heq => hk (countedKind_inj heq).symm
      simp [World.requestStarted, hk, hne]
  all_goals
    rw [started_other _ fun j => by simp]
    rfl

theorem shows_requestFinished (h : Shows w.metrics u) :
    Shows (w.requestFinished statusCode).metrics (u.addAll (onRequestFinished statusCode latencyMs)) := by
  refine h.addAll ?_ ?_ ?_ (fun k => ?_) ?_ (fun i hi => ?_) ?_ ?_
  case refine_4 =>
    rw [finished_method]
    rfl
  case refine_5 =>
    rw [finished_total]
    rfl
  case refine_6 =>
    rw [finished_class]
    have hindex := class_iff statusCode
    simp only [World.requestFinished]
    by_cases hclass : Classed statusCode
    · obtain ⟨hlow, hhigh⟩ := hindex.mpr hclass
      have hsame : ((i : Int) = statusCode.tdiv 100 - 1 ∧ 0 ≤ statusCode.tdiv 100 - 1 ∧
          statusCode.tdiv 100 - 1 < 5) ↔ (statusCode.tdiv 100 - 1).toNat = i := by
        omega
      simp only [hsame, if_pos hclass]
      split <;> rfl
    · have hnot : ¬ ((i : Int) = statusCode.tdiv 100 - 1 ∧ 0 ≤ statusCode.tdiv 100 - 1 ∧
          statusCode.tdiv 100 - 1 < 5) := fun hall => hclass (hindex.mp hall.2)
      simp only [if_neg hnot, if_neg hclass]
      split <;> rfl
  all_goals
    rw [finished_quiet _ _ (by simp)]
    rfl

/-- The other calls of a connection. -/
theorem shows_others (h : Shows w.metrics u) (n : Nat) :
    Shows w.requestNotModified.metrics (u.addAll onRequestNotModified) ∧
    Shows w.requestRateLimited.metrics (u.addAll onRequestRateLimited) ∧
    Shows w.addErrors.metrics (u.addAll onError) ∧
    Shows (w.addBytesRead n).metrics (u.addAll (onBytesRead n)) ∧
    Shows (w.addBytesWritten n).metrics (u.addAll (onBytesWritten n)) := by
  refine ⟨?_, ?_, ?_, ?_, ?_⟩
  all_goals exact h.addAll rfl rfl rfl (fun _ => rfl) rfl (fun _ _ => rfl) rfl rfl

end

end Metrics

namespace Life

variable {service : Service} {life life' : Life} {call : Option Call} {c : Counter}

def ending (life : Life) : List (Counter × Nat) :=
  (life.ended.map fun finish => Metrics.onRequestFinished finish.1 finish.2).getD []

def counted (c : Counter) (life : Life) : Nat :=
  added (Metrics.onRequestStarted (kindOf life.request)) c + added life.ending c

theorem Goes.counted (h : Goes service life life' call) (hc : c.ofRequests = true) :
    life'.counted c = life.counted c + added (call.elim [] Call.fetches) c := by
  cases h with
  | on hrequest hopen hnext hcall =>
    have hnothing : added (call.elim [] Call.fetches) c = 0 := by
      cases call with
      | none => rfl
      | some call => exact fetches_other (hcall call rfl) hc
    rw [hnothing]
    simp only [Life.counted, ending, hrequest, hopen, hnext]
    rfl
  | @finishes response latencyMs hstage =>
    have hopen : life.ended = none := ended_of_stage hstage rfl
    simp only [Life.counted, ending, hopen]
    rfl

def finished (life : Life) : Bool := life.ended.isSome

def classed (life : Life) : Bool := life.status.any fun statusCode => decide (Classed statusCode)

theorem counted_finished (h : life.finished = true) : ∃ statusCode latencyMs, life.status = some statusCode ∧
    ∀ c, life.counted c = added (Metrics.onRequestStarted (kindOf life.request)) c +
      added (Metrics.onRequestFinished statusCode latencyMs) c := by
  obtain ⟨loop, request, clientIp, stage⟩ := life
  cases stage with
  | finished statusCode latencyMs => exact ⟨statusCode, latencyMs, rfl, fun c => rfl⟩
  | _ => cases h

theorem counted_once (h : life.finished = true) :
    ((List.range MethodKind.kMethodCount.toNat).map fun i => life.counted (.methodCounts i)).sum = 1 ∧
    life.counted .requestsTotal = 1 ∧ life.counted .latencyCount = 1 ∧
    ((List.range kBucketCount).map fun i => life.counted (.latencyBuckets i)).sum = 1 ∧
    ((List.range 5).map fun i => life.counted (.statusClasses i)).sum = if life.classed = true then 1 else 0 := by
  obtain ⟨statusCode, latencyMs, hstatus, hcounted⟩ := counted_finished h
  simp only [hcounted, kindOf]
  refine ⟨?_, ?_, ?_, ?_, ?_⟩
  · simp only [started_method, finished_method, Nat.add_zero]
    rw [sum_single, if_pos (countedKind_lt _)]
  · rw [started_other _ fun i => by simp, finished_total]
  · rw [started_other _ fun i => by simp, added_count]
  · have hother : ∀ i, added (Metrics.onRequestStarted (countedKind (methodKindOf life.request.method)))
        (.latencyBuckets i) = 0 := fun i => started_other _ fun j heq => by cases heq
    simp only [hother, added_bucket, Nat.zero_add]
    rw [sum_single, if_pos (bucketOf_lt _)]
  · have hother : ∀ i, added (Metrics.onRequestStarted (countedKind (methodKindOf life.request.method)))
        (.statusClasses i) = 0 := fun i => started_other _ fun j heq => by cases heq
    simp only [hother, finished_class, Nat.zero_add]
    rw [sum_single]
    have hindex := class_iff statusCode
    by_cases hclass : Classed statusCode
    · have hlt : (statusCode.tdiv 100 - 1).toNat < 5 := by
        have := hindex.mpr hclass
        omega
      rw [if_pos hlt]
      simp [classed, hstatus, hclass]
    · simp [classed, hstatus, hclass]

end Life

namespace Requests

variable {service : Service} {s s' : Requests} {e : RequestsEvent}

inductive Does (service : Service) (s : Requests) : Requests → Prop where
  | takes {loop : Nat} {request : HttpRequest} {clientIp : Bytes} {metrics : MetricsUse}
      (hm : s.metrics.step (.enter loop (.onRequestStarted (kindOf request))) = some metrics) :
      Does service s ⟨metrics, s.lives ++ [{ loop := loop, request := request, clientIp := clientIp }]⟩
  | goes {i t : Nat} {life life' : Life} {call : Option Call} {metrics : MetricsUse} (hlife : s.lives[i]? = some life)
      (hgoes : Life.Goes service life life' call) (hm : s.metrics.goOn t call = some metrics) :
      Does service s ⟨metrics, s.lives.set i life'⟩
  | others {e : MetricsEvent} {metrics : MetricsUse} (he : e.others = true) (hm : s.metrics.step e = some metrics) :
      Does service s { s with metrics := metrics }

theorem step_does (hs : s.step service e = some s') : Does service s s' := by
  cases e with
  | take loop request clientIp =>
    simp only [step] at hs
    split at hs
    · cases hs
    · split at hs
      · cases hs
      · rename_i hm
        cases hs
        exact .takes hm
  | life i e =>
    simp only [step] at hs
    split at hs
    · cases hs
    · rename_i hlife
      split at hs
      · cases hs
      · rename_i hgoes
        split at hs
        · cases hs
        · split at hs
          · cases hs
          · rename_i hm
            cases hs
            exact .goes hlife (Life.step_goes hgoes) hm
  | metrics e =>
    simp only [step] at hs
    split at hs
    · rename_i he
      split at hs
      · cases hs
      · rename_i hm
        cases hs
        exact .others he hm
    · cases hs

theorem ledger_goOn {m m' : MetricsUse} {t : Nat} {call : Option Call} (hm : m.goOn t call = some m') (c : Counter) :
    m'.ledger c = m.ledger c + added (call.elim [] Call.fetches) c := by
  cases call with
  | none =>
    simp only [MetricsUse.goOn] at hm
    split at hm
    · cases hm
      rfl
    · cases hm
  | some call => exact MetricsUse.ledger_enter hm

/-- The counters and what is owed to them are what the requests are counted for. -/
structure Accounted (service : Service) (s : Requests) : Prop where
  ledger : ∀ c : Counter, c.ofRequests = true → s.metrics.ledger c = (s.lives.map (Life.counted c)).sum
  sourced : ∀ life ∈ s.lives, life.Sourced service

theorem accounted_start (threads : Nat) (now : Int) : (start threads now).Accounted service := by
  refine ⟨fun c _ => ?_, fun life hlife => absurd hlife List.not_mem_nil⟩
  simp [start, MetricsUse.start, MetricsUse.ledger, Metrics.reset, Caller.due]

theorem accounted_step (h : s.Accounted service) (hs : s.step service e = some s') : s'.Accounted service := by
  obtain ⟨hledger, hsourced⟩ := h
  cases step_does hs with
  | @takes loop request clientIp metrics hm =>
    constructor
    · intro c hc
      have hfirst := MetricsUse.ledger_enter (c := c) hm
      rw [List.map_append, List.sum_append, ← hledger c hc]
      exact hfirst
    · intro life hlife
      rcases List.mem_append.mp hlife with hold | hnew
      · exact hsourced life hold
      · obtain rfl := List.mem_singleton.mp hnew
        intro code hcode
        cases hcode
  | @goes i t life life' call metrics hlife hgoes hm =>
    constructor
    · intro c hc
      have hsum := Places.sum_set (Life.counted c) hlife life'
      have hcounted := hgoes.counted hc
      have hgo := ledger_goOn hm c
      have hold := hledger c hc
      dsimp only
      omega
    · intro other hother
      rcases List.mem_or_eq_of_mem_set hother with hold | rfl
      · exact hsourced other hold
      · exact hgoes.sourced (hsourced life (List.mem_of_getElem? hlife))
  | others he hm => exact ⟨fun c hc => (MetricsUse.ledger_others hc he hm).trans (hledger c hc), hsourced⟩

/-! ## At rest -/

def noneBetween (s : Requests) : Bool := s.lives.all Life.finished && s.metrics.callers.all fun a => !a.counts

theorem counter_at_rest (h : s.Accounted service) (hrest : s.noneBetween = true) {c : Counter}
    (hc : c.ofRequests = true) : s.metrics.metrics.counter c = (s.lives.map (Life.counted c)).sum := by
  simp only [noneBetween, Bool.and_eq_true, List.all_eq_true, Bool.not_eq_true'] at hrest
  have hnothing : (s.metrics.callers.map (Caller.due c)).sum = 0 := by
    refine List.sum_eq_zero fun n hn => ?_
    obtain ⟨a, ha, rfl⟩ := List.mem_map.mp hn
    exact Caller.due_of_counts (hrest.2 a ha) hc
  rw [← h.ledger c hc, MetricsUse.ledger, hnothing, Nat.add_zero]

theorem sum_at_rest (h : s.Accounted service) (hrest : s.noneBetween = true) (k : Nat) {c : Nat → Counter}
    (hc : ∀ i, (c i).ofRequests = true) : s.metrics.metrics.sumOver k c =
      (s.lives.map fun life => ((List.range k).map fun i => life.counted (c i)).sum).sum := by
  have hcounter : ∀ i, s.metrics.metrics.counter (c i) = (s.lives.map (Life.counted (c i))).sum :=
    fun i => counter_at_rest h hrest (hc i)
  simp only [sumOver, hcounter]
  have hswap := Multiset.sum_map_sum_map (List.range k : Multiset Nat) (s.lives : Multiset Life)
    (f := fun i life => life.counted (c i))
  simpa using hswap

theorem sum_ones {lives : List Life} {f : Life → Nat} (h : ∀ life ∈ lives, f life = 1) :
    (lives.map f).sum = lives.length := by
  rw [List.map_congr_left h]
  simp

theorem sum_countP {lives : List Life} {f : Life → Nat} {p : Life → Bool}
    (h : ∀ life ∈ lives, f life = if p life = true then 1 else 0) : (lives.map f).sum = lives.countP p := by
  induction lives with
  | nil => rfl
  | cons life lives ih =>
    obtain ⟨hfirst, hrest⟩ := List.forall_mem_cons.mp h
    rw [List.map_cons, List.sum_cons, ih hrest, hfirst, List.countP_cons, Nat.add_comm]

/-- The sums are the number of requests, but for those whose status, which is
then the upstream's, is of no class. -/
theorem counters_add_up {threads : Nat} {now : Int} (h : Reached (step service) Any (start threads now) s)
    (hrest : s.noneBetween = true) :
    s.metrics.metrics.methodSum = s.lives.length ∧
    s.metrics.metrics.counter .requestsTotal = s.lives.length ∧
    s.metrics.metrics.counter .latencyCount = s.lives.length ∧
    s.metrics.metrics.bucketSum = s.lives.length ∧
    s.metrics.metrics.statusSum = s.lives.countP Life.classed ∧
    ∀ life ∈ s.lives, ∃ statusCode, life.status = some statusCode ∧ (life.classed = true ↔ Classed statusCode) ∧
      (Classed statusCode ∨
        ∃ net, life.upstream = some net ∧ FromUpstream service.proxy net life.request life.clientIp statusCode) := by
  have hacc : s.Accounted service :=
    h.invariant (I := Accounted service) (accounted_start ..) fun _ _ _ hi _ hs => accounted_step hi hs
  have hended : ∀ life ∈ s.lives, life.finished = true := by
    simp only [noneBetween, Bool.and_eq_true, List.all_eq_true] at hrest
    exact hrest.1
  have honce : ∀ life ∈ s.lives, _ := fun life hlife => Life.counted_once (hended life hlife)
  refine ⟨?_, ?_, ?_, ?_, ?_, ?_⟩
  · rw [methodSum, sum_at_rest hacc hrest _ fun _ => rfl]
    exact sum_ones fun life hlife => (honce life hlife).1
  · rw [counter_at_rest hacc hrest rfl]
    exact sum_ones fun life hlife => (honce life hlife).2.1
  · rw [counter_at_rest hacc hrest rfl]
    exact sum_ones fun life hlife => (honce life hlife).2.2.1
  · have hbuckets := sum_at_rest hacc hrest kBucketCount (c := .latencyBuckets) fun _ => rfl
    have hsame : s.metrics.metrics.bucketSum = s.metrics.metrics.sumOver kBucketCount .latencyBuckets := rfl
    rw [hsame, hbuckets]
    exact sum_ones fun life hlife => (honce life hlife).2.2.2.1
  · rw [statusSum, sum_at_rest hacc hrest _ fun _ => rfl]
    exact sum_countP fun life hlife => (honce life hlife).2.2.2.2
  · intro life hlife
    obtain ⟨statusCode, -, hstatus, -⟩ := Life.counted_finished (hended life hlife)
    refine ⟨statusCode, hstatus, ?_, hacc.sourced life hlife statusCode hstatus⟩
    simp [Life.classed, hstatus]

def gateway : Service where
  wwwRoot := bytes "www"
  zeroCopyThreshold := 65536
  workerThreads := 1
  proxy := ReverseProxy.localProxy

def upstreamAnswers (raw : Bytes) : Surroundings where
  disk := ⟨fun _ => none, fun _ => none, fun _ => none⟩
  statusJson := bytes "\x7b\x7d"
  prometheus := []
  net := ReverseProxy.answering raw

def accesses (t n : Nat) : List RequestsEvent := List.replicate n (.metrics (.access t false))

def managementRequest (i : Nat) : List RequestsEvent :=
  [.take 0 (ReverseProxy.getPath (bytes "/api/status")) []] ++ accesses 0 1 ++
  [.life i (.acquire false), .life i (.handle (upstreamAnswers [])), .life i .leave, .life i .countNotModified,
    .life i (.finish 3)] ++ accesses 0 5

/-- A proxied request through the worker, the thread `1`; `errors` and `adds`
are the accesses of the calls that depend on the status. -/
def proxiedRequest (raw : Bytes) (i errors adds : Nat) : List RequestsEvent :=
  [.take 0 (ReverseProxy.getPath (bytes "/api/gateway/x")) []] ++ accesses 0 1 ++
  [.life i (.acquire true), .life i (.take 1), .life i (.handle (upstreamAnswers raw))] ++ accesses 1 1 ++
  [.life i (.forward (ReverseProxy.answering raw))] ++ accesses 1 errors ++
  [.life i .leave, .life i .runFunctor, .life i .countNotModified, .life i (.finish 7)] ++ accesses 0 adds

/-- A status of no class is possible. -/
theorem counters_unclassed : ¬ ∀ (service : Service) (threads : Nat) (now : Int) (s : Requests),
    Reached (step service) Any (start threads now) s → s.noneBetween = true →
    s.metrics.metrics.methodSum = s.metrics.metrics.counter .requestsTotal ∧
    s.metrics.metrics.counter .requestsTotal = s.metrics.metrics.counter .latencyCount ∧
    s.metrics.metrics.counter .latencyCount = s.metrics.metrics.bucketSum ∧
    s.metrics.metrics.bucketSum = s.metrics.metrics.statusSum := by
  intro h
  have hany : (run (step gateway) (start 2 0) (proxiedRequest (bytes "HTTP/1.1 999 X\r\n\r\n") 0 1 4)).any
      (fun s => s.noneBetween && decide (s.metrics.metrics.bucketSum ≠ s.metrics.metrics.statusSum)) = true := by
    decide +kernel
  obtain ⟨s, hrun, hs⟩ := (Option.any_eq_true _ _).mp hany
  obtain ⟨hrest, hne⟩ := (Bool.and_eq_true _ _).mp hs
  exact of_decide_eq_true hne (h gateway 2 0 s (.of_run_any hrun) hrest).2.2.2

theorem counters_add_up_two : ∃ s, Reached (step gateway) Any (start 2 0) s ∧ s.lives.length = 2 ∧
    s.metrics.metrics.bucketSum = s.lives.length := by
  have hany : (run (step gateway) (start 2 0) (managementRequest 0 ++
      proxiedRequest (bytes "HTTP/1.1 404 Not Found\r\nX: y\r\n\r\nno") 1 0 5)).any
      (fun s => s.noneBetween && decide (s.lives.length = 2)) = true := by
    decide +kernel
  obtain ⟨s, hrun, hs⟩ := (Option.any_eq_true _ _).mp hany
  obtain ⟨hrest, htwo⟩ := (Bool.and_eq_true _ _).mp hs
  have hreached : Reached (step gateway) Any (start 2 0) s := .of_run_any hrun
  exact ⟨s, hreached, of_decide_eq_true htwo, (counters_add_up hreached hrest).2.2.2.1⟩

end Requests

end Myself.Util
