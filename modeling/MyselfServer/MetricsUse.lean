import MyselfServer.LatencyHistogram
import MyselfServer.Machine
import MyselfServer.Places

/-!
# The metrics in use

`Metrics` as a machine: any number of threads, each in one call at a time, and
every access to an atomic is a step of its own, with the steps of the other
threads between any two. A call ends with its last access.
-/

namespace Myself.Util

open Metrics Machine

inductive Place where
  | connectionsCurrent
  | counter (c : Counter)
  deriving DecidableEq

def snapshotLoads : List Place :=
  [Place.counter .connectionsTotal, Place.counter .connectionsRejected, Place.connectionsCurrent,
    Place.counter .connectionsMax, Place.counter .requestsTotal, Place.counter .requestsRateLimited,
    Place.counter .requestsNotModified, Place.counter .requestsProxy,
    Place.counter .requestsProxyErrors, Place.counter .errorsTotal,
    Place.counter .bytesReadTotal, Place.counter .bytesWrittenTotal] ++
  (List.range 5).map (fun i => Place.counter (.statusClasses i)) ++
  (List.range MethodKind.kMethodCount.toNat).map (fun i => Place.counter (.methodCounts i)) ++
  (List.range kBucketCount).map (fun i => Place.counter (.latencyBuckets i)) ++
  [Place.counter .latencyCount, Place.counter .latencySumMicros]

def Metrics.load (loaded m : Metrics) : Place → Metrics
  | .connectionsCurrent => { loaded with connectionsCurrent := m.connectionsCurrent }
  | .counter c => { loaded with counter := fun d => if d = c then m.counter c else loaded.counter d }

def toUInt64 (n : Int) : Nat := if n < 0 then (n + 2 ^ 64).toNat else n.toNat

inductive Call where
  | onConnectionOpened
  | onConnectionClosed
  | onConnectionRejected
  | onRequestRateLimited
  | onRequestNotModified
  | onRequestProxied
  | onRequestProxyError
  | onRequestStarted (kind : MethodKind)
  | onRequestFinished (statusCode : Int) (latencyMs : ℚ)
  | onError
  | onBytesRead (bytes : Nat)
  | onBytesWritten (bytes : Nat)
  | snapshot

/-- The `fetch_add`s of the calls that are nothing else and that have no state
of their own below. -/
def Call.adds : Call → List (Counter × Nat)
  | .onConnectionRejected => Metrics.onConnectionRejected
  | .onRequestRateLimited => Metrics.onRequestRateLimited
  | .onRequestNotModified => Metrics.onRequestNotModified
  | .onRequestProxied => Metrics.onRequestProxied
  | .onRequestProxyError => Metrics.onRequestProxyError
  | .onRequestStarted kind => Metrics.onRequestStarted kind
  | .onError => Metrics.onError
  | .onBytesRead bytes => Metrics.onBytesRead bytes
  | .onBytesWritten bytes => Metrics.onBytesWritten bytes
  | _ => []

/-- Where a thread is: the access that comes next. `adding` and `finishing`
hold the `fetch_add`s to come, `loading` the values that are loaded and how
many, and how many calls of `onRequestFinished` and `onConnectionOpened` had
ended when the snapshot began. -/
inductive Caller where
  | idle
  | adding (adds : List (Counter × Nat))
  | finishing (adds : List (Counter × Nat))
  | closing
  | openTotal
  | openCurrent
  | openLoad (current : Int)
  | openExchange (current : Int) (previousMax : Nat)
  | loading (loaded : Metrics) (k : Nat) (finished opened : Nat)

/-- A snapshot that was taken, with the calls of `onRequestFinished` and of
`onConnectionOpened` that were in progress at some time while it was. -/
structure Taken where
  snapshot : Snapshot
  finishes : Nat
  opens : Nat

/-- `closes` counts the closes that have changed the counter; `currents` are
all values of `connectionsCurrent` so far. -/
structure MetricsUse where
  metrics : Metrics
  callers : List Caller
  closeBegun : Nat := 0
  closes : Nat := 0
  currents : List Int := [0]
  finishBegun : Nat := 0
  finishEnded : Nat := 0
  openBegun : Nat := 0
  openEnded : Nat := 0
  taken : List Taken := []

inductive MetricsEvent where
  | enter (t : Nat) (call : Call)
  | access (t : Nat) (spurious : Bool)
  | clock (t : Nat) (now : Int)

namespace MetricsUse

def start (threads : Nat) (now : Int) : MetricsUse :=
  { metrics := Metrics.reset now, callers := List.replicate threads .idle }

def setCaller (s : MetricsUse) (t : Nat) (caller : Caller) : MetricsUse :=
  { s with callers := s.callers.set t caller }

def enter (s : MetricsUse) (t : Nat) : Call → Option MetricsUse
  | .onConnectionOpened => some { s.setCaller t .openTotal with openBegun := s.openBegun + 1 }
  | .onConnectionClosed => some { s.setCaller t .closing with closeBegun := s.closeBegun + 1 }
  | .onRequestFinished statusCode latencyMs =>
    some { s.setCaller t (.finishing (Metrics.onRequestFinished statusCode latencyMs)) with
      finishBegun := s.finishBegun + 1 }
  | .snapshot => some (s.setCaller t (.loading (Metrics.reset s.metrics.startTime) 0 s.finishEnded s.openEnded))
  | call => some (s.setCaller t (if call.adds = [] then .idle else .adding call.adds))

def raise (s : MetricsUse) (t : Nat) (current : Int) (previousMax : Nat) : MetricsUse :=
  if toUInt64 current > previousMax then s.setCaller t (.openExchange current previousMax)
  else { s.setCaller t .idle with openEnded := s.openEnded + 1 }

def access (s : MetricsUse) (t : Nat) (spurious : Bool) : Caller → Option MetricsUse
  | .idle => none
  | .adding [] => none
  | .adding (add :: adds) =>
    some { s.setCaller t (if adds = [] then .idle else .adding adds) with
      metrics := s.metrics.fetchAdd add.1 add.2 }
  | .finishing [] => none
  | .finishing (add :: adds) =>
    some { s.setCaller t (if adds = [] then .idle else .finishing adds) with
      metrics := s.metrics.fetchAdd add.1 add.2
      finishEnded := if adds = [] then s.finishEnded + 1 else s.finishEnded }
  | .closing =>
    some { s.setCaller t .idle with
      metrics := { s.metrics with connectionsCurrent := s.metrics.connectionsCurrent - 1 }
      closes := s.closes + 1
      currents := (s.metrics.connectionsCurrent - 1) :: s.currents }
  | .openTotal => some { s.setCaller t .openCurrent with metrics := s.metrics.fetchAdd .connectionsTotal 1 }
  | .openCurrent =>
    some { s.setCaller t (.openLoad (s.metrics.connectionsCurrent + 1)) with
      metrics := { s.metrics with connectionsCurrent := s.metrics.connectionsCurrent + 1 }
      currents := (s.metrics.connectionsCurrent + 1) :: s.currents }
  | .openLoad current => some (s.raise t current (s.metrics.counter .connectionsMax))
  | .openExchange current previousMax =>
    if s.metrics.counter .connectionsMax = previousMax ∧ spurious = false then
      some { s.setCaller t .idle with
        metrics := { s.metrics with
          counter := fun d => if d = .connectionsMax then toUInt64 current else s.metrics.counter d }
        openEnded := s.openEnded + 1 }
    else some (s.raise t current (s.metrics.counter .connectionsMax))
  | .loading loaded k finished opened =>
    match snapshotLoads[k]? with
    | none => none
    | some place => some (s.setCaller t (.loading (loaded.load s.metrics place) (k + 1) finished opened))

def clock (s : MetricsUse) (t : Nat) (now : Int) : Caller → Option MetricsUse
  | .loading loaded k finished opened =>
    if k < snapshotLoads.length then none
    else some { s.setCaller t .idle with
      taken := s.taken ++ [⟨snapshotOf loaded now, s.finishBegun - finished, s.openBegun - opened⟩] }
  | _ => none

def step (s : MetricsUse) : MetricsEvent → Option MetricsUse
  | .enter t call =>
    match s.callers[t]? with
    | some .idle => s.enter t call
    | _ => none
  | .access t spurious =>
    match s.callers[t]? with
    | some caller => s.access t spurious caller
    | none => none
  | .clock t now =>
    match s.callers[t]? with
    | some caller => s.clock t now caller
    | none => none

def Follows (s : MetricsUse) : MetricsEvent → Prop
  | .enter _ .onConnectionClosed => s.closeBegun < s.openEnded
  | _ => True

instance (s : MetricsUse) (e : MetricsEvent) : Decidable (s.Follows e) := by
  unfold Follows
  split <;> infer_instance

end MetricsUse

/-! ## What a step does -/

/-- The value of `connectionsCurrent` that an open has made and still has to
compare with the maximum. -/
def Caller.raised : Caller → Option Int
  | openLoad current => some current
  | openExchange current _ => some current
  | _ => none

/-- A call still has to do the rest of what such calls do. -/
def Caller.Ok : Caller → Prop
  | adding adds => ∀ add ∈ adds, add.1 ≠ .connectionsTotal ∧ add.1 ≠ .connectionsMax ∧ add.1 ≠ .latencyCount ∧
      ∀ i, add.1 ≠ .latencyBuckets i
  | finishing adds => adds ≠ [] ∧ ∃ statusCode latencyMs, adds <:+ Metrics.onRequestFinished statusCode latencyMs
  | openExchange current previousMax => previousMax < toUInt64 current
  | _ => True

namespace MetricsUse

variable {s s' : MetricsUse} {e : MetricsEvent}

theorem adds_ok (call : Call) : (Caller.adding call.adds).Ok := by
  cases call with
  | onRequestStarted kind =>
    intro add hadd
    simp only [Call.adds, Metrics.onRequestStarted] at hadd
    split at hadd
    · simp only [List.mem_singleton] at hadd
      subst hadd
      simp
    · cases hadd
  | _ => simp [Call.adds, Caller.Ok, Metrics.onConnectionRejected, Metrics.onRequestRateLimited,
      Metrics.onRequestNotModified, Metrics.onRequestProxied, Metrics.onRequestProxyError, Metrics.onError,
      Metrics.onBytesRead, Metrics.onBytesWritten]

inductive Does (s : MetricsUse) (e : MetricsEvent) (t : Nat) : Caller → MetricsUse → Prop where
  | enters {adds : List (Counter × Nat)} (hok : (Caller.adding adds).Ok) :
      Does s e t .idle (s.setCaller t (if adds = [] then .idle else .adding adds))
  | adds {add : Counter × Nat} {adds : List (Counter × Nat)} (hok : (Caller.adding (add :: adds)).Ok) :
      Does s e t (.adding (add :: adds)) { s.setCaller t (if adds = [] then .idle else .adding adds) with
        metrics := s.metrics.fetchAdd add.1 add.2 }
  | begins (statusCode : Int) (latencyMs : ℚ) : Does s e t .idle
      { s.setCaller t (.finishing (Metrics.onRequestFinished statusCode latencyMs)) with
        finishBegun := s.finishBegun + 1 }
  | finishes {add : Counter × Nat} {adds : List (Counter × Nat)} (hok : (Caller.finishing (add :: adds)).Ok) :
      Does s e t (.finishing (add :: adds)) { s.setCaller t (if adds = [] then .idle else .finishing adds) with
        metrics := s.metrics.fetchAdd add.1 add.2
        finishEnded := if adds = [] then s.finishEnded + 1 else s.finishEnded }
  | looks : Does s e t .idle
      (s.setCaller t (.loading (Metrics.reset s.metrics.startTime) 0 s.finishEnded s.openEnded))
  | loads {loaded : Metrics} {k finished opened : Nat} {place : Place} (hk : snapshotLoads[k]? = some place) :
      Does s e t (.loading loaded k finished opened)
        (s.setCaller t (.loading (loaded.load s.metrics place) (k + 1) finished opened))
  | takes {loaded : Metrics} {k finished opened : Nat} (now : Int) (hk : ¬ k < snapshotLoads.length) :
      Does s e t (.loading loaded k finished opened) { s.setCaller t .idle with
        taken := s.taken ++ [⟨snapshotOf loaded now, s.finishBegun - finished, s.openBegun - opened⟩] }
  | opens : Does s e t .idle { s.setCaller t .openTotal with openBegun := s.openBegun + 1 }
  | closes (he : e = .enter t .onConnectionClosed) :
      Does s e t .idle { s.setCaller t .closing with closeBegun := s.closeBegun + 1 }
  | lower : Does s e t .closing { s.setCaller t .idle with
      metrics := { s.metrics with connectionsCurrent := s.metrics.connectionsCurrent - 1 }
      closes := s.closes + 1
      currents := (s.metrics.connectionsCurrent - 1) :: s.currents }
  | count : Does s e t .openTotal
      { s.setCaller t .openCurrent with metrics := s.metrics.fetchAdd .connectionsTotal 1 }
  | lift : Does s e t .openCurrent { s.setCaller t (.openLoad (s.metrics.connectionsCurrent + 1)) with
      metrics := { s.metrics with connectionsCurrent := s.metrics.connectionsCurrent + 1 }
      currents := (s.metrics.connectionsCurrent + 1) :: s.currents }
  | compare {a : Caller} {current : Int} (ha : a.raised = some current) :
      Does s e t a (s.raise t current (s.metrics.counter .connectionsMax))
  | exchange {a : Caller} {current : Int} (ha : a.raised = some current)
      (hless : s.metrics.counter .connectionsMax < toUInt64 current) :
      Does s e t a { s.setCaller t .idle with
        metrics := { s.metrics with
          counter := fun d => if d = .connectionsMax then toUInt64 current else s.metrics.counter d }
        openEnded := s.openEnded + 1 }

theorem step_does (hok : ∀ a ∈ s.callers, a.Ok) (h : s.step e = some s') :
    ∃ t a, s.callers[t]? = some a ∧ Does s e t a s' := by
  cases e with
  | enter t call =>
    simp only [step] at h
    split at h
    · rename_i ha
      refine ⟨t, .idle, ha, ?_⟩
      cases call with
      | onConnectionOpened =>
        cases h
        exact .opens
      | onConnectionClosed =>
        cases h
        exact .closes rfl
      | onRequestFinished statusCode latencyMs =>
        cases h
        exact .begins ..
      | snapshot =>
        cases h
        exact .looks
      | _ =>
        simp only [enter, Option.some.injEq] at h
        subst h
        exact .enters (adds_ok _)
    · cases h
  | access t spurious =>
    simp only [step] at h
    split at h
    · rename_i a ha
      have haok := hok a (List.mem_of_getElem? ha)
      refine ⟨t, a, ha, ?_⟩
      cases a with
      | idle => cases h
      | adding adds =>
        cases adds with
        | nil => cases h
        | cons add adds =>
          cases h
          exact .adds haok
      | finishing adds =>
        cases adds with
        | nil => cases h
        | cons add adds =>
          cases h
          exact .finishes haok
      | closing =>
        cases h
        exact .lower
      | openTotal =>
        cases h
        exact .count
      | openCurrent =>
        cases h
        exact .lift
      | openLoad current =>
        cases h
        exact .compare rfl
      | openExchange current previousMax =>
        simp only [access] at h
        split at h
        · rename_i hsame
          cases h
          refine .exchange rfl ?_
          rw [hsame.1]
          exact haok
        · cases h
          exact .compare rfl
      | loading loaded k finished opened =>
        simp only [access] at h
        split at h
        · cases h
        · rename_i hk
          cases h
          exact .loads hk
    · cases h
  | clock t now =>
    simp only [step] at h
    split at h
    · rename_i a ha
      refine ⟨t, a, ha, ?_⟩
      cases a with
      | loading loaded k finished opened =>
        simp only [clock] at h
        split at h
        · cases h
        · rename_i hk
          cases h
          exact .takes now hk
      | _ => cases h
    · cases h

end MetricsUse

end Myself.Util
