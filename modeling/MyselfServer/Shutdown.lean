import Mathlib.Logic.Function.Basic
import MyselfServer.Router
import MyselfServer.Server
import MyselfServer.Session

/-!
# The end of main

When the base loop has returned, `main` asks every connection to close, stops
the worker pool and destroys its locals, the last one first. The IO loops run
on until the destructor of their pool, which comes behind all the others, and
their callbacks refer to these locals. `services_kept` says when nothing is
used after it is gone: when `main` stops the pool or destroys something, no IO
loop has a way left to come to use it.
-/

namespace Myself

open Text Machine

/-- What the callbacks of connections refer to; `workers` is the pool as long
as it takes tasks. -/
inductive Service where
  | reverseProxy
  | router
  | rateLimiter
  | registry
  | workerPool
  | workers
  deriving DecidableEq, Repr

/-- The order in which they are destroyed, behind the acceptor, which only the
base loop refers to. -/
def destructors : List Service := [.reverseProxy, .router, .rateLimiter, .registry, .workerPool]

inductive ServiceNote where
  | used (v : Service)
  | gone (v : Service)
  deriving DecidableEq, Repr

/-- Nothing is used after it is gone. -/
def Orderly (log : List ServiceNote) : Prop :=
  log.Pairwise fun n n' => ∀ v, n = .gone v → n' ≠ .used v

namespace Site

/-- What `Router::handle` and the handlers that `main` registers refer to. -/
def handleUses (site : Site) (request : HttpRequest) : List Service :=
  .router ::
    if Router.isPathSafe request.path = false then []
    else if request.path = bytes "/api/status" then [.workerPool]
    else if request.path = bytes "/metrics" then []
    else if site.isProxyReq request then [.reverseProxy]
    else []

end Site

/-! ## The IO loops -/

inductive Act where
  | use (v : Service)
  | add (conn : Connection)
  | parse (conn : Connection)
  | submit (conn : Connection) (request : HttpRequest)
  | send (conn : Connection)
  | close (conn : Connection)
  | remove (conn : Connection)

inductive LoopTask where
  | setUp (conn : Connection)
  | forceClose (conn : Connection)
  | respond (conn : Connection)

namespace LoopTask

def acts : LoopTask → List Act
  | .setUp conn => [.add conn]
  | .forceClose conn => [.close conn]
  | .respond conn => [.send conn]

def IsSetUp : LoopTask → Prop
  | .setUp _ => True
  | _ => False

instance : (task : LoopTask) → Decidable task.IsSetUp
  | .setUp _ => .isTrue trivial
  | .forceClose _ => .isFalse not_false
  | .respond _ => .isFalse not_false

end LoopTask

structure IoLoop where
  connections : List Connection := []
  pendingFunctors : List LoopTask := []
  acts : List Act := []
  returned : Bool := false

inductive Parsed where
  | badRequest
  | needMore
  | complete (request : HttpRequest) (granted : Bool)

/-- What happens to a loop: it runs its next task, a connection can be read
(`reads` times before `EAGAIN` or the end of the stream), a connection fails
or times out, or the callback goes on. -/
inductive LoopInput where
  | task
  | readable (conn : Connection) (reads : Nat) (peerClosed : Bool)
  | failed (conn : Connection)
  | parsed (result : Parsed)
  | sent (failed : Bool)
  | goOn

inductive Effect where
  | nothing
  | use (v : Service)
  | add (conn : Connection)
  | remove (conn : Connection)
  | submit (conn : Connection) (request : HttpRequest)

def Effect.uses : Effect → List Service
  | .nothing => []
  | .use v => [v]
  | .add _ => [.registry]
  | .remove _ => [.registry]
  | .submit _ _ => [.workers]

def messageActs (site : Site) (conn : Connection) : Parsed → List Act
  | .badRequest => [.send conn]
  | .needMore => []
  | .complete request granted =>
    let again : List Act := if request.keepAlive then [.parse conn] else []
    let limited : List Act := if Site.isManagement request then [] else [.use .rateLimiter]
    if !Site.isManagement request && !granted then limited ++ .send conn :: again
    else
      limited ++ .use .reverseProxy :: .use .workerPool ::
        ((if site.offload request then [.submit conn request]
          else (site.handleUses request).map Act.use ++ [.send conn]) ++ again)

namespace IoLoop

def init : IoLoop := {}

def post (loop : IoLoop) (task : LoopTask) : IoLoop :=
  { loop with pendingFunctors := loop.pendingFunctors ++ [task] }

def begin (loop : IoLoop) (acts : List Act) : Option (IoLoop × Effect) :=
  match loop.acts with
  | [] => some ({ loop with acts := acts }, .nothing)
  | _ => none

def run (site : Site) (loop : IoLoop) : LoopInput → Option (IoLoop × Effect)
  | .task =>
    match loop.pendingFunctors with
    | [] => none
    | task :: tasks => { loop with pendingFunctors := tasks }.begin task.acts
  | .readable conn reads peerClosed =>
    if conn ∈ loop.connections then
      loop.begin (List.replicate reads (.parse conn) ++ if peerClosed then [.close conn] else [])
    else none
  | .failed conn => if conn ∈ loop.connections then loop.begin [.close conn] else none
  | .parsed result =>
    match loop.acts with
    | .parse conn :: acts => some ({ loop with acts := messageActs site conn result ++ acts }, .nothing)
    | _ => none
  | .sent failed =>
    match loop.acts with
    | .send conn :: acts =>
      some ({ loop with acts := if failed then .close conn :: acts else acts }, .nothing)
    | _ => none
  | .goOn =>
    match loop.acts with
    | .use v :: acts => some ({ loop with acts := acts }, .use v)
    | .add conn :: acts =>
      some ({ loop with connections := loop.connections ++ [conn], acts := acts }, .add conn)
    | .submit conn request :: acts => some ({ loop with acts := acts }, .submit conn request)
    | .close conn :: acts =>
      if conn ∈ loop.connections then
        some ({ loop with connections := loop.connections.erase conn, acts := .remove conn :: acts },
          .nothing)
      else some ({ loop with acts := acts }, .nothing)
    | .remove conn :: acts => some ({ loop with acts := acts }, .remove conn)
    | _ => none

end IoLoop

/-! ## The process -/

inductive MainPhase where
  | looping
  /-- `closeAll`: what it has swapped out of the table and not asked to close yet. -/
  | closing (pending : List Connection)
  /-- `workerPool.stop` waits for the workers. -/
  | stopping
  | destroying (left : List Service)
  deriving DecidableEq, Repr

structure Job where
  conn : Connection
  request : HttpRequest

structure Process where
  ioThreads : Nat
  site : Site
  main : MainPhase := .looping
  next : Nat := 0
  created : Nat := 0
  loops : LoopId → IoLoop := fun _ => .init
  registry : ConnectionRegistry := ∅
  running : Bool
  tasks : List Job := []
  working : List Job := []
  terminated : Bool := false
  log : List ServiceNote := []

inductive ProcessEvent where
  | accept (connfd : Nat)
  /-- The base loop returns, and `closeAll` swaps the table out. -/
  | quit
  | closeNext
  | stop
  | joined
  | destroy
  | loop (l : LoopId) (input : LoopInput)
  /-- The destructor of the IO pool has asked the loop to quit. -/
  | leave (i : Nat)
  | take
  | post (k : Nat)

namespace Process

def init (ioThreads : Nat) (site : Site) : Process :=
  { ioThreads := ioThreads, site := site, running := decide (0 < site.workerThreads) }

def setLoop (s : Process) (l : LoopId) (loop : IoLoop) : Process :=
  { s with loops := Function.update s.loops l loop }

def note (s : Process) (notes : List ServiceNote) : Process := { s with log := s.log ++ notes }

def postTo (s : Process) (l : LoopId) (task : LoopTask) : Process :=
  s.setLoop l ((s.loops l).post task)

def nextLoop (s : Process) : LoopId := if s.ioThreads = 0 then none else some s.next

/-- The base loop is run by the main thread; its callbacks and what
`runInLoop` runs at once come to their end before `main` goes on. -/
def mainFree (s : Process) : Prop := (s.loops none).acts = []

instance (s : Process) : Decidable s.mainFree :=
  match h : (s.loops none).acts with
  | [] => .isTrue h
  | a :: acts => .isFalse fun h' => absurd (h.symm.trans h') (List.cons_ne_nil a acts)

def mayRun (s : Process) : LoopId → Prop
  | none => s.main = .looping ∨ ¬ s.mainFree
  | some i => i < s.ioThreads ∧ (s.loops (some i)).returned = false

instance (s : Process) (l : LoopId) : Decidable (s.mayRun l) := by
  cases l
  · exact inferInstanceAs (Decidable (_ ∨ _))
  · exact inferInstanceAs (Decidable (_ ∧ _))

/-- A `submit` to a pool that does not run throws out of the thread. -/
def apply (s : Process) (effect : Effect) : Process :=
  let s := s.note (effect.uses.map .used)
  match effect with
  | .nothing => s
  | .use _ => s
  | .add conn => { s with registry := s.registry.add conn.fd conn }
  | .remove conn => { s with registry := s.registry.remove conn.fd }
  | .submit conn request =>
    if s.running then { s with tasks := s.tasks ++ [⟨conn, request⟩] } else { s with terminated := true }

def move (s : Process) : ProcessEvent → Option Process
  | .accept connfd =>
    if s.main = .looping ∧ s.mainFree then
      let conn : Connection := ⟨s.created, connfd, s.nextLoop⟩
      let s := { s with created := s.created + 1 }
      -- `runInLoop` runs the set-up at once on the base loop
      if s.ioThreads = 0 then
        some (s.setLoop none { s.loops none with acts := LoopTask.acts (.setUp conn) })
      else some { s.postTo s.nextLoop (.setUp conn) with next := (s.next + 1) % s.ioThreads }
    else none
  | .quit =>
    if s.main = .looping ∧ s.mainFree then
      some { s with main := .closing s.registry.values, registry := ∅ }
    else none
  | .closeNext =>
    match s.main with
    | .closing (conn :: pending) =>
      if s.mainFree then
        let s := { s with main := .closing pending }
        match conn.loop with
        | none => some (s.setLoop none { s.loops none with acts := LoopTask.acts (.forceClose conn) })
        | some i => some (s.postTo (some i) (.forceClose conn))
      else none
    | _ => none
  | .stop =>
    match s.main with
    | .closing [] =>
      if s.mainFree then
        if s.running then some ({ s with main := .stopping, running := false }.note [.gone .workers])
        else some { s with main := .destroying destructors }
      else none
    | _ => none
  | .joined =>
    match s.main, s.tasks, s.working with
    | .stopping, [], [] => some { s with main := .destroying destructors }
    | _, _, _ => none
  | .destroy =>
    match s.main with
    | .destroying (v :: left) => some ({ s with main := .destroying left }.note [.gone v])
    | _ => none
  | .loop l input =>
    if s.mayRun l then
      match (s.loops l).run s.site input with
      | none => none
      | some (loop, effect) => some ((s.setLoop l loop).apply effect)
    else none
  | .leave i =>
    if s.main = .destroying [] ∧ (s.loops (some i)).acts = [] then
      some (s.setLoop (some i) { s.loops (some i) with returned := true })
    else none
  | .take =>
    match s.tasks with
    | [] => none
    | task :: tasks =>
      if s.working.length < s.site.workerThreads then
        some { s with tasks := tasks, working := s.working ++ [task] }
      else none
  | .post k =>
    match s.working[k]? with
    | none => none
    | some job =>
      some (({ s with working := s.working.eraseIdx k }.note
        ((s.site.handleUses job.request).map .used)).postTo job.conn.loop (.respond job.conn))

/-- After `std::terminate` nothing happens any more. -/
def step (s : Process) (e : ProcessEvent) : Option Process :=
  if s.terminated then none else s.move e

end Process

/-! ## Letting go -/

/-- The act can come to use the service, on a loop without connections. -/
def Act.MayUse (v : Service) : Act → Prop
  | .use v' => v' = v
  | .add _ => True
  | .parse _ => v ≠ .registry
  | .submit _ _ => v = .workers
  | .send _ => False
  | .close _ => False
  | .remove _ => v = .registry

instance (v : Service) : (a : Act) → Decidable (a.MayUse v)
  | .use v' => inferInstanceAs (Decidable (v' = v))
  | .add _ => .isTrue trivial
  | .parse _ => inferInstanceAs (Decidable (v ≠ .registry))
  | .submit _ _ => inferInstanceAs (Decidable (v = .workers))
  | .send _ => .isFalse not_false
  | .close _ => .isFalse not_false
  | .remove _ => inferInstanceAs (Decidable (v = .registry))

/-- The loop has no way left to come to use the service: no connection is open
and none waits for its set-up, and what is left of the callback that runs does
not use it. -/
structure IoLoop.LetGo (v : Service) (loop : IoLoop) : Prop where
  connections : loop.connections = []
  setUps : ∀ task ∈ loop.pendingFunctors, ¬ task.IsSetUp
  acts : ∀ a ∈ loop.acts, ¬ a.MayUse v

instance (v : Service) (loop : IoLoop) : Decidable (loop.LetGo v) :=
  decidable_of_iff (loop.connections = [] ∧ (∀ task ∈ loop.pendingFunctors, ¬ task.IsSetUp) ∧
    ∀ a ∈ loop.acts, ¬ a.MayUse v) ⟨fun h => ⟨h.1, h.2.1, h.2.2⟩, fun h => ⟨h.1, h.2, h.3⟩⟩

theorem orderly_append {log notes : List ServiceNote} (h : Orderly log) (hnotes : Orderly notes)
    (hgone : ∀ v, .gone v ∈ log → .used v ∉ notes) : Orderly (log ++ notes) := by
  refine List.pairwise_append.mpr ⟨h, hnotes, ?_⟩
  rintro n hn n' hn' v rfl rfl
  exact hgone v hn hn'

theorem orderly_used (uses : List Service) : Orderly (uses.map .used) := by
  refine List.pairwise_map.mpr (List.pairwise_of_forall ?_)
  intro v v' w h
  cases h

theorem orderly_gone (v : Service) : Orderly [.gone v] := List.pairwise_singleton _ _

theorem used_mem {uses : List Service} {v : Service} :
    ServiceNote.used v ∈ uses.map ServiceNote.used ↔ v ∈ uses := by
  simp

namespace IoLoop

variable {site : Site} {loop loop' : IoLoop} {effect : Effect} {v : Service}

theorem LetGo.post (h : loop.LetGo v) {task : LoopTask} (ht : ¬ task.IsSetUp) :
    (loop.post task).LetGo v where
  connections := h.connections
  setUps task' hin := by
    rcases List.mem_append.mp hin with hin | hin
    · exact h.setUps task' hin
    · rw [List.mem_singleton.mp hin]
      exact ht
  acts := h.acts

theorem begin_eq {acts : List Act} (h : loop.begin acts = some (loop', effect)) :
    loop' = { loop with acts := acts } ∧ effect = .nothing := by
  unfold begin at h
  split at h
  · cases h
    exact ⟨rfl, rfl⟩
  · cases h

theorem mem_handleUses {request : HttpRequest} (h : v ∈ site.handleUses request) :
    v = .router ∨ v = .workerPool ∨ v = .reverseProxy := by
  unfold Site.handleUses at h
  split_ifs at h <;> simp at h <;> tauto

/-- The message callback uses no more than `parse` stands for. -/
theorem messageActs_mayUse {conn : Connection} {result : Parsed} {a : Act}
    (ha : a ∈ messageActs site conn result) (hv : a.MayUse v) : v ≠ .registry := by
  cases result with
  | badRequest =>
    rw [messageActs, List.mem_singleton] at ha
    subst ha
    exact hv.elim
  | needMore => exact absurd ha List.not_mem_nil
  | complete request granted =>
    have hagain : ∀ b ∈ (if request.keepAlive then [Act.parse conn] else []), b.MayUse v →
        v ≠ .registry := by
      intro b hb hv
      split at hb
      · rw [List.mem_singleton.mp hb] at hv
        exact hv
      · exact absurd hb List.not_mem_nil
    have hlimited : ∀ b ∈ (if Site.isManagement request then [] else [Act.use .rateLimiter]),
        b.MayUse v → v ≠ .registry := by
      intro b hb hv
      split at hb
      · exact absurd hb List.not_mem_nil
      · rw [List.mem_singleton.mp hb] at hv
        cases hv
        decide
    have huse : ∀ v' : Service, v' ≠ .registry → (Act.use v').MayUse v → v ≠ .registry :=
      fun v' hne heq => heq ▸ hne
    simp only [messageActs] at ha
    split at ha
    · rcases List.mem_append.mp ha with ha | ha
      · exact hlimited a ha hv
      · rcases List.mem_cons.mp ha with rfl | ha
        · exact hv.elim
        · exact hagain a ha hv
    · rcases List.mem_append.mp ha with ha | ha
      · exact hlimited a ha hv
      rcases List.mem_cons.mp ha with rfl | ha
      · exact huse _ (by decide) hv
      rcases List.mem_cons.mp ha with rfl | ha
      · exact huse _ (by decide) hv
      rcases List.mem_append.mp ha with ha | ha
      · split at ha
        · rw [List.mem_singleton.mp ha] at hv
          cases hv
          decide
        · rcases List.mem_append.mp ha with ha | ha
          · obtain ⟨v', hv', rfl⟩ := List.mem_map.mp ha
            refine huse v' ?_ hv
            rcases mem_handleUses hv' with rfl | rfl | rfl <;> decide
          · rw [List.mem_singleton.mp ha] at hv
            exact hv.elim
      · exact hagain a ha hv

/-- A loop that has let go of a service does not use it and does not come back to it. -/
theorem LetGo.run (h : loop.LetGo v) {input : LoopInput}
    (hrun : loop.run site input = some (loop', effect)) : loop'.LetGo v ∧ v ∉ effect.uses := by
  have hrest : ∀ {a : Act} {acts : List Act}, loop.acts = a :: acts →
      ∀ b ∈ acts, ¬ b.MayUse v := fun heq b hb => h.acts b (heq ▸ List.mem_cons_of_mem _ hb)
  have hhead : ∀ {a : Act} {acts : List Act}, loop.acts = a :: acts → ¬ a.MayUse v :=
    fun heq => h.acts _ (heq ▸ List.mem_cons_self ..)
  cases input with
  | task =>
    simp only [IoLoop.run] at hrun
    split at hrun
    · cases hrun
    · rename_i task tasks htasks
      obtain ⟨rfl, rfl⟩ := begin_eq hrun
      have htask : ¬ task.IsSetUp := h.setUps task (htasks ▸ List.mem_cons_self ..)
      refine ⟨⟨h.connections, fun t ht => h.setUps t (htasks ▸ List.mem_cons_of_mem _ ht), ?_⟩,
        List.not_mem_nil⟩
      cases task with
      | setUp conn => exact absurd trivial htask
      | forceClose conn => simp [LoopTask.acts, Act.MayUse]
      | respond conn => simp [LoopTask.acts, Act.MayUse]
  | readable conn reads peerClosed => simp [IoLoop.run, h.connections] at hrun
  | failed conn => simp [IoLoop.run, h.connections] at hrun
  | parsed result =>
    simp only [IoLoop.run] at hrun
    split at hrun
    · rename_i conn acts hacts
      cases hrun
      refine ⟨⟨h.connections, h.setUps, fun a ha hv => ?_⟩, List.not_mem_nil⟩
      rcases List.mem_append.mp ha with ha | ha
      · exact hhead hacts (messageActs_mayUse ha hv)
      · exact hrest hacts a ha hv
    · cases hrun
  | sent failed =>
    simp only [IoLoop.run] at hrun
    split at hrun
    · rename_i conn acts hacts
      cases hrun
      refine ⟨⟨h.connections, h.setUps, ?_⟩, List.not_mem_nil⟩
      intro a ha hv
      cases failed with
      | false => exact hrest hacts a ha hv
      | true =>
        rcases List.mem_cons.mp ha with rfl | ha
        · exact hv
        · exact hrest hacts a ha hv
    · cases hrun
  | goOn =>
    simp only [IoLoop.run] at hrun
    split at hrun
    · rename_i v' acts hacts
      cases hrun
      refine ⟨⟨h.connections, h.setUps, hrest hacts⟩, ?_⟩
      intro hv
      exact hhead hacts (List.mem_singleton.mp hv).symm
    · rename_i conn acts hacts
      exact absurd trivial (hhead hacts)
    · rename_i conn request acts hacts
      cases hrun
      refine ⟨⟨h.connections, h.setUps, hrest hacts⟩, ?_⟩
      intro hv
      exact hhead hacts (List.mem_singleton.mp hv)
    · rename_i conn acts hacts
      rw [h.connections, if_neg List.not_mem_nil] at hrun
      cases hrun
      exact ⟨⟨rfl, h.setUps, hrest hacts⟩, List.not_mem_nil⟩
    · rename_i conn acts hacts
      cases hrun
      refine ⟨⟨h.connections, h.setUps, hrest hacts⟩, ?_⟩
      intro hv
      exact hhead hacts (List.mem_singleton.mp hv)
    · cases hrun

end IoLoop

namespace Process

/-- Every IO loop has let go of what `main` is about to stop or to destroy. -/
def LetGo (s : Process) : ProcessEvent → Prop
  | .stop => s.running = true → ∀ i < s.ioThreads, (s.loops (some i)).LetGo .workers
  | .destroy =>
    match s.main with
    | .destroying (v :: _) => ∀ i < s.ioThreads, (s.loops (some i)).LetGo v
    | _ => True
  | _ => True

instance (s : Process) : (e : ProcessEvent) → Decidable (s.LetGo e)
  | .stop => inferInstanceAs (Decidable (s.running = true → _))
  | .destroy =>
    match h : s.main with
    | .destroying (v :: _) =>
      decidable_of_iff (∀ i < s.ioThreads, (s.loops (some i)).LetGo v) (by simp [LetGo, h])
    | .destroying [] => .isTrue (by simp [LetGo, h])
    | .looping => .isTrue (by simp [LetGo, h])
    | .closing _ => .isTrue (by simp [LetGo, h])
    | .stopping => .isTrue (by simp [LetGo, h])
  | .accept _ => .isTrue trivial
  | .quit => .isTrue trivial
  | .closeNext => .isTrue trivial
  | .joined => .isTrue trivial
  | .loop _ _ => .isTrue trivial
  | .leave _ => .isTrue trivial
  | .take => .isTrue trivial
  | .post _ => .isTrue trivial

def Early (s : Process) : Prop := s.main = .looping ∨ ∃ pending, s.main = .closing pending

structure Kept (s : Process) : Prop where
  orderly : Orderly s.log
  letGo : ∀ v, .gone v ∈ s.log → ∀ i < s.ioThreads, (s.loops (some i)).LetGo v
  early : s.Early → ∀ v, .gone v ∉ s.log
  mainFree : ¬ s.Early → s.mainFree
  stopped : ¬ s.Early → s.running = false
  stopping : s.main = .stopping → ∀ v, .gone v ∈ s.log → v = .workers
  idle : s.running = false → s.main ≠ .stopping → s.tasks = [] ∧ s.working = []

variable {s s' : Process} {site : Site} {ioThreads : Nat}

theorem kept_init : (init ioThreads site).Kept where
  orderly := List.Pairwise.nil
  letGo v hv := absurd hv List.not_mem_nil
  early _ v := List.not_mem_nil
  mainFree h := absurd (Or.inl rfl) h
  stopped h := absurd (Or.inl rfl) h
  stopping h := by cases h
  idle _ _ := ⟨rfl, rfl⟩

/-- A step of `main` before it stops anything. -/
theorem Kept.stayEarly (h : s.Kept) (hearly : s.Early) (hlog : s'.log = s.log) (hearly' : s'.Early)
    (hrunning : s'.running = s.running) (htasks : s'.tasks = s.tasks)
    (hworking : s'.working = s.working) : s'.Kept := by
  have hnone : ∀ v, .gone v ∉ s'.log := by
    rw [hlog]
    exact h.early hearly
  have hmain : ∀ {m : MainPhase}, s'.main = m → m = .looping ∨ ∃ pending, m = .closing pending :=
    fun heq => heq ▸ hearly'
  exact
    { orderly := hlog ▸ h.orderly
      letGo := fun v hv => absurd hv (hnone v)
      early := fun _ => hnone
      mainFree := absurd hearly'
      stopped := absurd hearly'
      stopping := fun heq => by simpa using hmain heq
      idle := fun hstopped _ => by
        rw [htasks, hworking]
        refine h.idle (hrunning.symm.trans hstopped) fun hm => ?_
        simp [Early, hm] at hearly }

theorem not_early_of_stopping (h : s.main = .stopping) : ¬ s.Early := by simp [Early, h]

theorem not_early_of_destroying {left : List Service} (h : s.main = .destroying left) :
    ¬ s.Early := by simp [Early, h]

/-- A step that is not `main`'s: nothing that is gone is used. -/
theorem Kept.beside (h : s.Kept) (uses : List Service) (hlog : s'.log = s.log ++ uses.map .used)
    (hmain : s'.main = s.main) (hthreads : s'.ioThreads = s.ioThreads)
    (huses : ∀ v, .gone v ∈ s.log → v ∉ uses)
    (hloops : ∀ v i, i < s.ioThreads → (s.loops (some i)).LetGo v → .gone v ∈ s.log →
      (s'.loops (some i)).LetGo v)
    (hfree : ¬ s.Early → s'.mainFree) (hrunning : s'.running = s.running)
    (hidle : s.running = false → s.tasks = [] ∧ s.working = [] → s'.tasks = [] ∧ s'.working = []) :
    s'.Kept := by
  have hgone : ∀ v, .gone v ∈ s'.log ↔ .gone v ∈ s.log := by
    intro v
    simp [hlog]
  have hearly : s'.Early ↔ s.Early := by simp only [Early, hmain]
  refine ⟨?_, ?_, ?_, ?_, ?_, ?_, ?_⟩
  · rw [hlog]
    refine orderly_append h.orderly (orderly_used uses) fun v hv => ?_
    rw [used_mem]
    exact huses v hv
  · intro v hv i hi
    rw [hthreads] at hi
    rw [hgone] at hv
    exact hloops v i hi (h.letGo v hv i hi) hv
  · intro he v
    rw [hgone]
    exact h.early (hearly.mp he) v
  · intro he
    exact hfree fun he' => he (hearly.mpr he')
  · intro he
    rw [hrunning]
    exact h.stopped fun he' => he (hearly.mpr he')
  · intro hm v
    rw [hgone]
    exact h.stopping (hmain.symm.trans hm) v
  · intro hstopped hm
    rw [hmain] at hm
    rw [hrunning] at hstopped
    exact hidle hstopped (h.idle hstopped hm)

@[simp] theorem setLoop_self (s : Process) (l : LoopId) (loop : IoLoop) :
    (s.setLoop l loop).loops l = loop := Function.update_self ..

theorem setLoop_other (s : Process) {l l' : LoopId} (h : l' ≠ l) (loop : IoLoop) :
    (s.setLoop l loop).loops l' = s.loops l' := Function.update_of_ne h ..

theorem letGo_setLoop {l : LoopId} {loop : IoLoop} {v : Service} {i : Nat}
    (h : (s.loops (some i)).LetGo v) (hl : l = some i → loop.LetGo v) :
    ((s.setLoop l loop).loops (some i)).LetGo v := by
  by_cases heq : some i = l
  · subst heq
    rw [setLoop_self]
    exact hl rfl
  · rw [setLoop_other s heq]
    exact h

theorem apply_frame (s : Process) (effect : Effect) :
    (s.apply effect).main = s.main ∧ (s.apply effect).ioThreads = s.ioThreads ∧
      (s.apply effect).loops = s.loops ∧ (s.apply effect).running = s.running := by
  cases effect with
  | submit conn request => by_cases h : s.running = true <;> simp [apply, note, h]
  | _ => exact ⟨rfl, rfl, rfl, rfl⟩

theorem apply_log (s : Process) (effect : Effect) :
    (s.apply effect).log = s.log ++ effect.uses.map .used := by
  cases effect with
  | submit conn request => by_cases h : s.running = true <;> simp [apply, note, h]
  | _ => rfl

/-- A pool that does not run takes no task. -/
theorem apply_stopped (s : Process) (effect : Effect) (h : s.running = false) :
    (s.apply effect).tasks = s.tasks ∧ (s.apply effect).working = s.working := by
  cases effect with
  | submit conn request => simp [apply, note, h]
  | _ => exact ⟨rfl, rfl⟩

/-- The base loop runs nothing once the workers are asked to stop. -/
theorem Kept.loop (h : s.Kept) {l : LoopId} {input : LoopInput} {loop : IoLoop} {effect : Effect}
    (hmay : s.mayRun l) (hrun : (s.loops l).run s.site input = some (loop, effect)) :
    ((s.setLoop l loop).apply effect).Kept := by
  obtain ⟨hmain, hthreads, hloops, hrunning⟩ := apply_frame (s.setLoop l loop) effect
  have hidle : s.running = false → s.tasks = [] ∧ s.working = [] →
      ((s.setLoop l loop).apply effect).tasks = [] ∧
        ((s.setLoop l loop).apply effect).working = [] := by
    intro hstopped
    obtain ⟨htasks, hworking⟩ := apply_stopped (s.setLoop l loop) effect hstopped
    rw [htasks, hworking]
    exact id
  by_cases hearly : s.Early
  · have hnone := h.early hearly
    exact h.beside _ (apply_log _ _) hmain hthreads (fun v hv => absurd hv (hnone v))
      (fun v _ _ _ hv => absurd hv (hnone v)) (fun hn => absurd hearly hn) hrunning hidle
  · cases l with
    | none =>
      rcases hmay with hlooping | hbusy
      · exact absurd (Or.inl hlooping) hearly
      · exact absurd (h.mainFree hearly) hbusy
    | some i =>
      refine h.beside _ (apply_log _ _) hmain hthreads ?_ ?_ ?_ hrunning hidle
      · intro v hv
        exact ((h.letGo v hv i hmay.1).run hrun).2
      · intro v j _ hletGo _
        rw [hloops]
        refine letGo_setLoop hletGo fun heq => ?_
        cases heq
        exact (hletGo.run hrun).1
      · intro _
        rw [Process.mainFree, hloops, setLoop_other s (Option.some_ne_none i).symm]
        exact h.mainFree hearly

theorem Kept.postTo (h : s.Kept) {l : LoopId} {task : LoopTask} (ht : ¬ task.IsSetUp) :
    (s.postTo l task).Kept := by
  refine h.beside [] (List.append_nil _).symm rfl rfl (fun _ _ => List.not_mem_nil)
    (fun v i _ hletGo _ => letGo_setLoop hletGo ?_) ?_ rfl (fun _ => id)
  · rintro rfl
    exact hletGo.post ht
  · intro hlate
    have hfree := h.mainFree hlate
    cases l with
    | none =>
      rw [Process.mainFree, Process.postTo, setLoop_self]
      exact hfree
    | some i =>
      rw [Process.mainFree, Process.postTo, setLoop_other s (Option.some_ne_none i).symm]
      exact hfree

theorem Kept.leave (h : s.Kept) (i : Nat) :
    (s.setLoop (some i) { s.loops (some i) with returned := true }).Kept := by
  refine h.beside [] (List.append_nil _).symm rfl rfl (fun _ _ => List.not_mem_nil)
    (fun v j _ hletGo _ => letGo_setLoop hletGo ?_) ?_ rfl (fun _ => id)
  · intro heq
    cases heq
    exact ⟨hletGo.connections, hletGo.setUps, hletGo.acts⟩
  · intro hlate
    rw [Process.mainFree, setLoop_other s (Option.some_ne_none i).symm]
    exact h.mainFree hlate

/-- A worker has its task from before the locals are destroyed. -/
theorem Kept.work (h : s.Kept) {k : Nat} {job : Job} (hk : s.working[k]? = some job) :
    ({ s with working := s.working.eraseIdx k }.note
      ((s.site.handleUses job.request).map .used)).Kept := by
  refine h.beside (s.site.handleUses job.request) rfl rfl rfl ?_ (fun _ _ _ hletGo _ => hletGo)
    h.mainFree rfl ?_
  · intro v hv huse
    have hworkers : v ≠ .workers := by
      rcases IoLoop.mem_handleUses huse with rfl | rfl | rfl <;> decide
    cases hm : s.main with
    | looping => exact h.early (Or.inl hm) v hv
    | closing pending => exact h.early (Or.inr ⟨pending, hm⟩) v hv
    | stopping => exact hworkers (h.stopping hm v hv)
    | destroying left =>
      have hstopped := h.stopped (not_early_of_destroying hm)
      rw [(h.idle hstopped (by simp [hm])).2] at hk
      cases hk
  · rintro - ⟨-, hworking⟩
    rw [hworking] at hk
    cases hk

theorem Kept.stop (h : s.Kept) (hm : s.main = .closing []) (hfree : s.mainFree)
    (hletGo : ∀ i < s.ioThreads, (s.loops (some i)).LetGo .workers) :
    ({ s with main := .stopping, running := false }.note [.gone .workers]).Kept := by
  have hnone := h.early (Or.inr ⟨[], hm⟩)
  have hgone : ∀ v, ServiceNote.gone v ∈ s.log ++ [.gone .workers] → v = .workers := by
    intro v hv
    rcases List.mem_append.mp hv with hv | hv
    · exact absurd hv (hnone v)
    · cases List.mem_singleton.mp hv
      rfl
  have hlate : ¬ ({ s with main := .stopping, running := false }.note [.gone .workers]).Early :=
    not_early_of_stopping rfl
  refine ⟨orderly_append h.orderly (orderly_gone _) fun v hv => absurd hv (hnone v), ?_,
    fun he => absurd he hlate, fun _ => hfree, fun _ => rfl, fun _ => hgone, fun _ hd => absurd rfl hd⟩
  intro v hv
  rw [hgone v hv]
  exact hletGo

theorem Kept.stopped_main (h : s.Kept) (hfree : s.mainFree) (hrunning : s.running = false)
    (htasks : s.tasks = []) (hworking : s.working = []) :
    ({ s with main := .destroying destructors } : Process).Kept where
  orderly := h.orderly
  letGo := h.letGo
  early he := absurd he (not_early_of_destroying rfl)
  mainFree _ := hfree
  stopped _ := hrunning
  stopping hm := by cases hm
  idle _ _ := ⟨htasks, hworking⟩

theorem Kept.destroy (h : s.Kept) {v : Service} {left : List Service}
    (hm : s.main = .destroying (v :: left))
    (hletGo : ∀ i < s.ioThreads, (s.loops (some i)).LetGo v) :
    ({ s with main := .destroying left }.note [.gone v]).Kept := by
  have hlate := not_early_of_destroying hm
  have hstopped := h.stopped hlate
  refine ⟨orderly_append h.orderly (orderly_gone _) ?_, ?_, fun he => ?_, fun _ => h.mainFree hlate,
    fun _ => hstopped, (fun hd => by cases hd), fun _ _ => h.idle hstopped (by simp [hm])⟩
  · intro v' _ hin
    have := List.mem_singleton.mp hin
    cases this
  · intro v' hv'
    rcases List.mem_append.mp hv' with hv' | hv'
    · exact h.letGo v' hv'
    · cases List.mem_singleton.mp hv'
      exact hletGo
  · exact absurd he (not_early_of_destroying rfl)

theorem kept_step (h : s.Kept) {e : ProcessEvent} (hletGo : s.LetGo e) (hs : s.step e = some s') :
    s'.Kept := by
  unfold step at hs
  split at hs
  · cases hs
  cases e with
  | accept connfd =>
    simp only [move] at hs
    split at hs
    · rename_i hmain
      have hearly : s.Early := Or.inl hmain.1
      split at hs
      · cases hs
        exact h.stayEarly hearly rfl hearly rfl rfl rfl
      · cases hs
        exact h.stayEarly hearly rfl hearly rfl rfl rfl
    · cases hs
  | quit =>
    simp only [move] at hs
    split at hs
    · rename_i hmain
      cases hs
      exact h.stayEarly (Or.inl hmain.1) rfl (Or.inr ⟨_, rfl⟩) rfl rfl rfl
    · cases hs
  | closeNext =>
    simp only [move] at hs
    split at hs
    · rename_i conn pending hmain
      have hearly : s.Early := Or.inr ⟨_, hmain⟩
      split at hs
      · split at hs
        · cases hs
          exact h.stayEarly hearly rfl (Or.inr ⟨_, rfl⟩) rfl rfl rfl
        · cases hs
          exact h.stayEarly hearly rfl (Or.inr ⟨_, rfl⟩) rfl rfl rfl
      · cases hs
    · cases hs
  | stop =>
    simp only [move] at hs
    split at hs
    · rename_i hmain
      split at hs
      · rename_i hfree
        split at hs
        · rename_i hrunning
          cases hs
          exact h.stop hmain hfree (hletGo hrunning)
        · rename_i hrunning
          cases hs
          have hstopped := Bool.eq_false_iff.mpr hrunning
          obtain ⟨htasks, hworking⟩ := h.idle hstopped (by simp [hmain])
          exact h.stopped_main hfree hstopped htasks hworking
      · cases hs
    · cases hs
  | joined =>
    simp only [move] at hs
    split at hs
    · rename_i hmain htasks hworking
      cases hs
      have hlate := not_early_of_stopping hmain
      exact h.stopped_main (h.mainFree hlate) (h.stopped hlate) htasks hworking
    · cases hs
  | destroy =>
    simp only [move] at hs
    split at hs
    · rename_i v left hmain
      cases hs
      simp only [Process.LetGo, hmain] at hletGo
      exact h.destroy hmain hletGo
    · cases hs
  | loop l input =>
    simp only [move] at hs
    split at hs
    · rename_i hmay
      split at hs
      · cases hs
      · rename_i loop effect hrun
        cases hs
        exact h.loop hmay hrun
    · cases hs
  | leave i =>
    simp only [move] at hs
    split at hs
    · cases hs
      exact h.leave i
    · cases hs
  | take =>
    simp only [move] at hs
    split at hs
    · cases hs
    · rename_i task tasks htasks
      split at hs
      · cases hs
        refine h.beside [] (List.append_nil _).symm rfl rfl (fun _ _ => List.not_mem_nil)
          (fun _ _ _ hletGo _ => hletGo) h.mainFree rfl ?_
        rintro - ⟨hnone, -⟩
        rw [htasks] at hnone
        cases hnone
      · cases hs
  | post k =>
    simp only [move] at hs
    split at hs
    · cases hs
    · rename_i job hk
      cases hs
      exact (h.work hk).postTo not_false

/-- **Nothing is used after it is gone**, when `main` stops and destroys only
what every IO loop has let go of. -/
theorem services_kept (h : Reached step LetGo (init ioThreads site) s) : Orderly s.log := by
  have hkept : s.Kept := Reached.invariant kept_init
    (fun _ _ _ hkept hletGo hs => kept_step hkept hletGo hs) h
  exact hkept.orderly

def pageRequest : HttpRequest := { method := .kGet, path := bytes "/", keepAlive := true }

def pageSite (workerThreads : Nat) : Site where
  workerThreads := workerThreads
  proxyEnabled := false
  proxyPrefix := []
  acquire _ := true
  handle _ _ := {}
  date _ := []

def client : Connection := ⟨0, 7, some 0⟩

def setUpEvents : List ProcessEvent := [.accept 7, .loop (some 0) .task, .loop (some 0) .goOn]

def requestEvents : List ProcessEvent :=
  [.readable client 1 false, .parsed (.complete pageRequest true), .goOn, .goOn, .goOn, .goOn].map
    (.loop (some 0))

def orderlyEvents : List ProcessEvent :=
  setUpEvents ++ requestEvents ++ [.loop (some 0) (.parsed .needMore), .take, .post 0, .quit, .closeNext,
    .loop (some 0) .task, .loop (some 0) (.sent false), .loop (some 0) .task, .loop (some 0) .goOn,
    .loop (some 0) .goOn, .stop, .joined, .destroy, .destroy, .destroy, .destroy, .destroy, .leave 0]

theorem services_kept_closed : ∃ s, runIf step LetGo (init 1 (pageSite 1)) orderlyEvents = some s ∧
    s.main = .destroying [] ∧ s.log.length = 13 ∧ Orderly s.log := by
  have hend : (runIf step LetGo (init 1 (pageSite 1)) orderlyEvents).map
      (fun s => (s.main, s.log.length)) = some (.destroying [], 13) := by
    decide +kernel
  obtain ⟨s, hrun, hend⟩ := Option.map_eq_some_iff.mp hend
  simp only [Prod.mk.injEq] at hend
  exact ⟨s, hrun, hend.1, hend.2, services_kept (Reached.of_runIf hrun)⟩

theorem not_orderly {log : List ServiceNote} {v : Service}
    (h : [.gone v, .used v].Sublist log) : ¬ Orderly log := by
  intro ho
  have hpair := List.Pairwise.sublist h ho
  exact (List.pairwise_cons.mp hpair).1 (.used v) (List.mem_singleton.mpr rfl) v rfl rfl

/-- `main` does not wait for the tasks that `closeAll` has posted: a request is
submitted to the stopped pool, which ends the process, or, without workers,
meets a limiter that is destroyed. -/
theorem used_after_gone :
    (∃ s, run step (init 1 (pageSite 1))
        (setUpEvents ++ [.quit, .closeNext, .stop] ++ requestEvents) = some s ∧
      s.terminated = true ∧ ¬ Orderly s.log) ∧
    (∃ s, run step (init 1 (pageSite 0))
        (setUpEvents ++ [.quit, .closeNext, .stop, .destroy, .destroy, .destroy] ++
          requestEvents.take 3) = some s ∧ ¬ Orderly s.log) := by
  constructor
  · have hend : (run step (init 1 (pageSite 1))
        (setUpEvents ++ [.quit, .closeNext, .stop] ++ requestEvents)).map (fun s =>
          (s.terminated, s.log)) =
        some (true, [.used .registry, .gone .workers, .used .rateLimiter, .used .reverseProxy,
          .used .workerPool, .used .workers]) := by
      decide +kernel
    obtain ⟨s, hrun, hend⟩ := Option.map_eq_some_iff.mp hend
    simp only [Prod.mk.injEq] at hend
    refine ⟨s, hrun, hend.1, ?_⟩
    rw [hend.2]
    exact not_orderly (v := .workers) (by decide)
  · have hend : (run step (init 1 (pageSite 0))
        (setUpEvents ++ [.quit, .closeNext, .stop, .destroy, .destroy, .destroy] ++
          requestEvents.take 3)).map Process.log =
        some [.used .registry, .gone .reverseProxy, .gone .router, .gone .rateLimiter,
          .used .rateLimiter] := by
      decide +kernel
    obtain ⟨s, hrun, hend⟩ := Option.map_eq_some_iff.mp hend
    refine ⟨s, hrun, ?_⟩
    rw [hend]
    exact not_orderly (v := .rateLimiter) (by decide)

end Process

end Myself
