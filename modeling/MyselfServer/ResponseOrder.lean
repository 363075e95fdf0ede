import MyselfServer.SessionFlow
import MyselfServer.WriteOrder

/-!
# The order of the responses

An invariant of the flow of requests, read off for a connection at work: the
responses go out in the order of the requests (`responses_in_order`). It holds
in the runs whose notes are as it needs them, and fails in the run given here.
-/

namespace Myself

open Text Prog

namespace Serving

def Started (idleSeconds : Rat) (s : Serving) : Prop :=
  ∃ w, Fresh w ∧ w.app = {} ∧ s = run (setUp idleSeconds) w

def answered (s : Serving) : List Nat := s.world.app.flow.answered

variable {site : Site} {idleSeconds : Rat} {s₀ s : Serving}

theorem setUp_keeps (idleSeconds : Rat) : Keeps World.reading (setUp idleSeconds) := by
  have hstart : Keeps World.reading (TcpConnection.start : Prog (World Session) Unit) :=
    Keeps.update_bind (fun _ => rfl) (Keeps.update fun _ => rfl)
  have hidle : Keeps World.reading
      (TcpConnection.setIdleTimeout idleSeconds : Prog (World Session) Unit) := by
    refine Keeps.update_bind (fun _ => rfl) ?_
    apply Keeps.bind Keeps.world
    intro w
    exact Keeps.ite TcpConnection.refreshIdleTimer_keeps (Keeps.pure _)
  apply Keeps.bind hstart
  exact fun _ => Keeps.ite hidle (Keeps.pure _)

theorem started_flow (h : Started idleSeconds s₀) : s₀.world.app.flow = {} := by
  obtain ⟨w, -, happ, rfl⟩ := h
  have hkeeps := setUp_keeps idleSeconds w
  have hworld : (run (setUp idleSeconds) w).world = (setUp idleSeconds w).world := by
    unfold run
    cases setUp idleSeconds w with
    | returned _ w' => rfl
    | waits w' => rfl
  have h : (run (setUp idleSeconds) w).world.app = w.app := by
    rw [hworld]
    exact congrArg (fun r => r.2.2) hkeeps
  rw [h, happ]
  rfl

theorem reached_of_started (h₀ : Started idleSeconds s₀)
    (h : Machine.Reached (step site) Machine.Any s₀ s) :
    Flow.Reached site.workerThreads s.world.app.flow := by
  have hgoes := reached_flow h
  unfold Goes at hgoes
  rw [started_flow h₀] at hgoes
  exact hgoes

/-- **The responses are sent in the order of the requests**, none left out,
in every run where no request is answered at once while an earlier one is
with the workers or on its way back, and no worker is done before another one
that has an earlier request. -/
theorem responses_in_order (h₀ : Started idleSeconds s₀)
    (h : Machine.Reached (step site) Machine.Any s₀ s)
    (hn : ∀ note ∈ s.world.app.history, note.InOrder) :
    s.answered = List.range s.answered.length :=
  Flow.answered_eq_range (reached_of_started h₀ h) hn

/-- Without workers the order needs no condition. -/
theorem history_inOrder (hw : site.workerThreads = 0) (h₀ : Started idleSeconds s₀)
    (h : Machine.Reached (step site) Machine.Any s₀ s) :
    ∀ note ∈ s.world.app.history, note.InOrder := by
  have hflow := reached_of_started h₀ h
  rw [hw] at hflow
  exact Flow.inOrder_no_workers hflow

/-! ## Runs -/

def plainSite (workerThreads : Nat) : Site where
  workerThreads := workerThreads
  proxyEnabled := false
  proxyPrefix := bytes "/api/gateway"
  acquire := fun _ => true
  handle := fun _ _ => {}
  date := fun _ => []

def accepted : World Session := TcpConnection.accepted 7 [] [] [] (fun _ => []) {}

theorem accepted_started : Started 0 (run (setUp 0) accepted) :=
  ⟨accepted, TcpConnection.accepted_fresh .., rfl, rfl⟩

def get (path : String) : Bytes := bytes "GET " ++ bytes path ++ bytes " HTTP/1.1" ++ CRLF ++ CRLF

def arrives (pieces : List Bytes) : SiteEvent :=
  .ready EPOLLIN { reads := pieces.map ReadAnswer.data ++ [.again] }

def work : List SiteEvent := [.worker .take, .worker (.post 0), .takeFunctors, .runFunctor {}]

instance (note : Flow.Note) : Decidable note.InOrder := by
  cases note <;> unfold Flow.Note.InOrder <;> infer_instance

/-- Two files through one worker. -/
theorem responses_in_order_two : ∃ s,
    Machine.run (step (plainSite 1)) (run (setUp 0) accepted)
      (arrives [get "/a" ++ get "/b"] :: (work ++ work)) = some s ∧
    s.answered.length = 2 ∧ s.answered = List.range s.answered.length := by
  obtain ⟨s, hs⟩ := Option.isSome_iff_exists.mp (show (Machine.run (step (plainSite 1))
    (run (setUp 0) accepted) (arrives [get "/a" ++ get "/b"] :: (work ++ work))).isSome by
      decide +kernel)
  have hall : (Machine.run (step (plainSite 1)) (run (setUp 0) accepted)
      (arrives [get "/a" ++ get "/b"] :: (work ++ work))).all (fun s =>
        decide (s.answered.length = 2 ∧ ∀ note ∈ s.world.app.history, note.InOrder)) := by
    decide +kernel
  rw [hs, Option.all_some, decide_eq_true_eq] at hall
  exact ⟨s, hs, hall.1, responses_in_order accepted_started (.of_run_any hs) hall.2⟩

/-- A file goes to the worker, and the status page behind it is answered at
once. -/
theorem status_before_file : ∃ s,
    Machine.run (step (plainSite 1)) (run (setUp 0) accepted)
      (arrives [get "/a" ++ get "/api/status"] :: work) = some s ∧
    s.answered = [1, 0] ∧ s.answered ≠ List.range s.answered.length := by
  have hend : (Machine.run (step (plainSite 1)) (run (setUp 0) accepted)
      (arrives [get "/a" ++ get "/api/status"] :: work)).map answered = some [1, 0] := by
    decide +kernel
  obtain ⟨s, hs, hend⟩ := Option.map_eq_some_iff.mp hend
  refine ⟨s, hs, hend, ?_⟩
  rw [hend]
  decide

end Serving

end Myself
