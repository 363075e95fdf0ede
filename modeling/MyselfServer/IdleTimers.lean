import MyselfServer.Frames
import MyselfServer.IdleTable
import MyselfServer.ShortFiles

/-!
# Idle timers and open connections

The connections of one loop, with the functions of `TcpConnection` that run on
each. The world holds the connection whose functions run; the other ones are
kept beside it and change places with it when its callbacks call them. Each
function does to the table of idle timers what a connection may do to it, so
that between two callbacks every open connection with a timeout has just one
timer, and no closed one has any.
-/

namespace Myself

open Text Prog Machine

/-- A connection, and the time of its last activity: the last data that was
read, or the call of `setIdleTimeout`. -/
structure Watched where
  conn : TcpConnection
  lastActivity : Timestamp

def Watched.idle (c : Watched) : IdleState where
  self := c.conn.channel.self
  closed := c.conn.closed
  idleTimeoutSeconds := c.conn.idleTimeoutSeconds
  idleTimer := c.conn.idleTimer
  lastActivity := c.lastActivity

structure LoopSide (σ : Type) where
  hand : Option Nat := none
  lastActivity : Timestamp := 0
  conns : Nat → Option Watched := fun _ => none
  addresses : List Nat := []
  pendingFunctors : List (TimerTask Nat) := []
  phase : TimerPhase Nat := .idle
  handed : List Nat := []
  app : σ

section
variable {σ : Type}

namespace World

def find (w : World (LoopSide σ)) (n : Nat) : Option Watched :=
  if w.app.hand = some n then some ⟨w.conn, w.app.lastActivity⟩ else w.app.conns n

def putBack (w : World (LoopSide σ)) : World (LoopSide σ) :=
  { w with app := { w.app with conns := w.find, hand := none } }

def take (w : World (LoopSide σ)) (n : Nat) : World (LoopSide σ) :=
  match w.find n with
  | none => w
  | some c =>
    { w with
      conn := c.conn
      app := { w.app with conns := w.find, hand := some n, lastActivity := c.lastActivity } }

def restore (w : World (LoopSide σ)) : Option Nat → World (LoopSide σ)
  | none => w.putBack
  | some n => w.take n

def timerLoop (w : World (LoopSide σ)) : TimerLoop Nat where
  queue := w.timers
  counter := w.sequence
  pendingFunctors := w.app.pendingFunctors
  phase := w.app.phase

def table (w : World (LoopSide σ)) : IdleTable where
  seen n := (w.find n).map Watched.idle
  loop := w.timerLoop
  clock := w.clock
  addresses := w.app.addresses
  handed := w.app.handed

def withTimers (w : World (LoopSide σ)) (s : TimerLoop Nat) (handed : List Nat) : World (LoopSide σ) :=
  { w with
    timers := s.queue
    sequence := s.counter
    app := { w.app with pendingFunctors := s.pendingFunctors, phase := s.phase, handed := handed } }

end World

/-! ## Code on the loop thread -/

def across (n : Nat) (p : Prog (World (LoopSide σ)) Unit) : Prog (World (LoopSide σ)) Unit := fun w =>
  match w.find n with
  | none => .returned () w
  | some _ =>
    match p (w.take n) with
    | .returned _ w' => .returned () (w'.restore w.app.hand)
    | .waits w' => .waits (w'.restore w.app.hand)

def elapse (d : Nat) : Prog (World (LoopSide σ)) Unit := update fun w => { w with clock := w.clock + d }

def noteActivity : Prog (World (LoopSide σ)) Unit :=
  update fun w => { w with app := { w.app with lastActivity := w.clock } }

def TimerEvent.called : TimerEvent Nat → Bool
  | .elsewhere => true
  | .postAddTimer _ _ _ => true
  | .postCancel _ => true
  | .addTimer _ _ _ => true
  | .cancel _ => true
  | .runFunctor => false
  | .handleExpiredTimers _ => false
  | .runNext => false
  | .finish => false

instance (v : IdleTable) : DecidablePred v.Apart
  | .elsewhere => isTrue trivial
  | .postAddTimer callback _ _ => inferInstanceAs (Decidable (v.seen callback = none))
  | .postCancel timerId => inferInstanceAs
      (Decidable (timerId.owner = some v.loop.queue.self → timerId.sequence ∈ v.handed))
  | .runFunctor => isTrue trivial
  | .addTimer callback _ _ => inferInstanceAs (Decidable (v.seen callback = none))
  | .cancel timerId => inferInstanceAs
      (Decidable (timerId.owner = some v.loop.queue.self → timerId.sequence ∈ v.handed))
  | .handleExpiredTimers _ => isTrue trivial
  | .runNext => inferInstanceAs (Decidable (∀ t ∈ v.loop.batch.head?, v.seen t.callback = none))
  | .finish => isTrue trivial

def useTimers (e : TimerEvent Nat) : Prog (World (LoopSide σ)) Unit := fun w =>
  if e.called ∧ w.table.Apart e then
    match w.timerLoop.step e with
    | none => .waits w
    | some s => .returned () (w.withTimers s (w.table.handing e))
  else .waits w

/-- Code on the loop thread: it does what has nothing to do with idle timers,
takes its time, has timers of its own, and calls connections. -/
inductive Code : {α : Type} → Prog (World (LoopSide σ)) α → Prop where
  | other {α : Type} {p : Prog (World (LoopSide σ)) α}
      (h : Keeps (fun w => (w.table, w.app.hand)) p) : Code p
  | bind {α β : Type} {p : Prog (World (LoopSide σ)) α} {k : α → Prog (World (LoopSide σ)) β}
      (hp : Code p) (hk : ∀ a, Code (k a)) : Code (p >>= k)
  | loop {α β : Type} {μ : World (LoopSide σ) → Nat} {body : α → Prog (World (LoopSide σ)) (α ⊕ β)}
      (h : ∀ a, Code (body a)) (a : α) : Code (loop μ body a)
  | elapse (d : Nat) : Code (elapse d)
  | useTimers (e : TimerEvent Nat) : Code (useTimers e)
  | call (n : Nat) (m : Move) {closeCallback : Prog (World (LoopSide σ)) Unit}
      (h : Code closeCallback) : Code (across n (m.perform closeCallback))

/-- A callback, with the reason why it can be run. -/
structure Callback (σ : Type) where
  program : Prog (World (LoopSide σ)) Unit
  code : Code program

/-! ## Runs -/

inductive IdleEvent (σ : Type) where
  | elapse (d : Nat)
  /-- What the kernel is going to answer. -/
  | kernel (reads : List ReadAnswer) (writes sendfiles preads : List Answer)
  | newConnection (self connfd : Nat)
  | setIdleTimeout (n : Nat) (seconds : Rat)
  | ready (n : Nat) (revents : Mask) (closeCallback messageCallback : Callback σ)
  /-- A functor, another channel's callback, or the callback of a timer of other code. -/
  | run (code : Callback σ)
  /-- The loop and other threads at the queue, up to a timer of other code. -/
  | timers (e : TimerEvent Nat)
  /-- The next timer of the batch is the one of a connection. -/
  | handleIdleTimeout (closeCallback : Callback σ)

namespace World

def finish (w : World (LoopSide σ)) (p : Prog (World (LoopSide σ)) Unit) : Option (World (LoopSide σ)) :=
  match p w with
  | .returned _ w' => some w'
  | .waits _ => none

def create (w : World (LoopSide σ)) (self connfd : Nat) : World (LoopSide σ) :=
  let c : Watched := ⟨{ socket := ⟨some connfd⟩, channel := { self := self, fd := connfd } }, w.clock⟩
  { w with app := { w.app with
    conns := fun m => if m = self then some c else w.app.conns m
    addresses := self :: w.app.addresses } }

def unset (w : World (LoopSide σ)) (n : Nat) : Bool :=
  (w.find n).any fun c => decide (c.conn.idleTimeoutSeconds = 0)

def idleStep (w : World (LoopSide σ)) : IdleEvent σ → Option (World (LoopSide σ))
  | .elapse d => some { w with clock := w.clock + d }
  | .kernel reads writes sendfiles preads =>
    some { w with reads := reads, writes := writes, sendfiles := sendfiles, preads := preads }
  | .newConnection self connfd =>
    if w.timerLoop.callsAllowed ∧ w.find self = none ∧ w.table.Free self then
      (w.create self connfd).finish (across self TcpConnection.start)
    else none
  | .setIdleTimeout n seconds =>
    if w.timerLoop.callsAllowed ∧ 0 < seconds ∧ w.unset n then
      w.finish (across n do
        noteActivity
        TcpConnection.setIdleTimeout seconds)
    else none
  | .ready n revents closeCallback messageCallback =>
    match w.app.phase with
    | .handleExpired _ _ _ => none
    | .idle =>
      w.finish (across n (TcpConnection.dispatch closeCallback.program
        (do
          noteActivity
          messageCallback.program) revents))
  | .run code => if w.timerLoop.callsAllowed then w.finish code.program else none
  | .timers e =>
    if w.table.Apart e then
      (w.timerLoop.step e).map fun s => w.withTimers s (w.table.handing e)
    else none
  | .handleIdleTimeout closeCallback =>
    match w.app.phase with
    | .handleExpired _ (t :: _) _ =>
      if (w.find t.callback).isSome then
        match w.timerLoop.step .runNext with
        | none => none
        | some s =>
          (w.withTimers s w.app.handed).finish
            (across t.callback (TcpConnection.handleIdleTimeout closeCallback.program))
      else none
    | _ => none

structure Untouched (w : World (LoopSide σ)) : Prop where
  hand : w.app.hand = none
  conns : w.app.conns = fun _ => none
  addresses : w.app.addresses = []
  loop : w.timerLoop = TimerLoop.init w.timers.self
  handed : w.app.handed = []

end World

/-! ## The connection in hand -/

section
variable {ex ex' : Nat → Prop} {x : Option Nat} {as : List Nat} {n : Nat} {w w' : World (LoopSide σ)}

structure Held (ex : Nat → Prop) (x : Option Nat) (as : List Nat) (w : World (LoopSide σ)) : Prop where
  kept : w.table.Kept ex
  hand : w.app.hand = x
  addresses : w.app.addresses = as

theorem Held.same (h : Held ex x as w) (htable : w'.table = w.table) (hhand : w'.app.hand = w.app.hand) :
    Held ex x as w' where
  kept := htable ▸ h.kept
  hand := hhand.trans h.hand
  addresses := (congrArg IdleTable.addresses htable).trans h.addresses

theorem Held.mono (h : Held ex x as w) (hex : ∀ m, ex m → ex' m) : Held ex' x as w :=
  ⟨h.kept.mono hex, h.hand, h.addresses⟩

theorem find_take {c : Watched} (hc : w.find n = some c) : (w.take n).find = w.find := by
  have htake : w.take n = { w with
      conn := c.conn
      app := { w.app with conns := w.find, hand := some n, lastActivity := c.lastActivity } } := by
    rw [World.take, hc]
  funext m
  rw [htake]
  show (if some n = some m then some (⟨c.conn, c.lastActivity⟩ : Watched) else w.find m) = w.find m
  split
  · rename_i hm
    cases hm
    exact hc.symm
  · rfl

theorem take_app {c : Watched} (hc : w.find n = some c) :
    (w.take n).table = w.table ∧ (w.take n).app.hand = some n := by
  have hfind := find_take hc
  have htable : (w.take n).table = { w.table with seen := fun m => ((w.take n).find m).map Watched.idle } := by
    rw [World.take, hc]
    rfl
  refine ⟨?_, ?_⟩
  · rw [htable, hfind]
    rfl
  · rw [World.take, hc]

theorem find_putBack (w : World (LoopSide σ)) : w.putBack.find = w.find := by
  funext m
  exact if_neg nofun

theorem putBack_table (w : World (LoopSide σ)) : w.putBack.table = w.table := by
  have hfind := find_putBack w
  show ({ w.table with seen := fun m => (w.putBack.find m).map Watched.idle } : IdleTable) = w.table
  rw [hfind]
  rfl

theorem Held.known (h : Held ex x as w) : (∃ c, w.find n = some c) ↔ n ∈ as := by
  rw [← h.addresses, ← Option.isSome_iff_exists]
  have := h.kept.known n
  simp only [World.table, Option.isSome_map] at this
  exact this

theorem Held.take (h : Held ex x as w) {c : Watched} (hc : w.find n = some c) :
    Held ex (some n) as (w.take n) := by
  obtain ⟨htable, hhand⟩ := take_app hc
  exact ⟨htable ▸ h.kept, hhand, (congrArg IdleTable.addresses htable).trans h.addresses⟩

theorem Held.restore {y : Option Nat} (h : Held ex y as w) (hx : ∀ m ∈ x, m ∈ as) :
    Held ex x as (w.restore x) := by
  cases x with
  | none => exact ⟨(putBack_table w).symm ▸ h.kept, rfl, h.addresses⟩
  | some m =>
    obtain ⟨c, hc⟩ := h.known.mpr (hx m rfl)
    exact h.take hc

theorem Held.member (h : Held ex x as w) : ∀ m ∈ x, m ∈ as := by
  intro m hm
  rw [← h.hand] at hm
  exact h.known.mp ⟨_, if_pos hm⟩

theorem across_wp {p : Prog (World (LoopSide σ)) Unit} {E : World (LoopSide σ) → Prop}
    (h : Held ex x as w) (hnone : w.find n = none → Held ex' x as w)
    (hp : Held ex (some n) as (w.take n) →
      wp p (fun _ w' => Held ex' (some n) as w') (fun w' => E (w'.restore x)) (w.take n)) :
    wp (across n p) (fun _ w' => Held ex' x as w') E w := by
  unfold wp across
  cases hc : w.find n with
  | none => exact hnone hc
  | some c =>
    have hp := hp (h.take hc)
    unfold wp at hp
    dsimp only
    rw [h.hand]
    cases hret : p (w.take n) with
    | returned u w' =>
      rw [hret] at hp
      exact hp.restore h.member
    | waits w' =>
      rw [hret] at hp
      exact hp

theorem across_maintains {p : Prog (World (LoopSide σ)) Unit}
    (hp : Maintains (Held ex (some n) as) p) : Maintains (Held ex x as) (across n p) := by
  intro w h
  refine across_wp h (fun _ => h) fun h' => wp_mono (hp _ h') (fun _ _ h => h) ?_
  exact fun w' hw => hw.restore h.member

/-! ## The functions of a connection -/

def World.inHand (w : World (LoopSide σ)) : IdleState := Watched.idle ⟨w.conn, w.app.lastActivity⟩

theorem inHand_awaited (w : World (LoopSide σ)) :
    w.inHand.awaited = (!w.conn.closed && decide (0 < w.conn.idleTimeoutSeconds)) := rfl

theorem seen_hand (hn : w.app.hand = some n) : w.table.seen n = some w.inHand := by
  simp only [World.table, World.find, hn, if_true, Option.map_some]
  rfl

theorem Held.unless (h : Held ex (some n) as w) (hex : ∀ m, m ≠ n → ex m → ex' m) (haw : w.inHand.awaited = false) :
    Held ex' (some n) as w :=
  ⟨h.kept.unless hex (seen_hand h.hand) haw, h.hand, h.addresses⟩

theorem table_same (happ : w'.app = w.app) (hidle : w'.inHand = w.inHand)
    (htimers : (w'.timers, w'.sequence, w'.clock) = (w.timers, w.sequence, w.clock)) :
    w'.table = w.table := by
  have hfind : (fun n => (w'.find n).map Watched.idle) = fun n => (w.find n).map Watched.idle := by
    funext n
    simp only [World.find, happ]
    split
    · have hlast : w'.app.lastActivity = w.app.lastActivity := by rw [happ]
      simp only [World.inHand, hlast] at hidle
      simp only [Option.map_some, hidle]
    · rfl
  simp only [Prod.mk.injEq] at htimers
  simp only [World.table, World.timerLoop, hfind, happ, htimers]

theorem Held.unmoved (h : Held ex x as w) (happ : w'.app = w.app) (hidle : w'.inHand = w.inHand)
    (htimers : (w'.timers, w'.sequence, w'.clock) = (w.timers, w.sequence, w.clock)) : Held ex x as w' :=
  h.same (table_same happ hidle htimers) (by rw [happ])

theorem table_set (w' : World (LoopSide σ)) (hn : w.app.hand = some n) (hhand : w'.app.hand = some n)
    (hconns : w'.app.conns = w.app.conns) (hpending : w'.app.pendingFunctors = w.app.pendingFunctors)
    (hphase : w'.app.phase = w.app.phase) (haddresses : w'.app.addresses = w.app.addresses)
    (hhanded : w'.app.handed = w.app.handed) (hclock : w'.clock = w.clock) :
    w'.table = { w.table with
      loop := { w.table.loop with queue := w'.timers, counter := w'.sequence } }.set n w'.inHand := by
  have hseen : (fun m => (w'.find m).map Watched.idle) =
      fun m => if m = n then some w'.inHand else (w.find m).map Watched.idle := by
    funext m
    simp only [World.find, hn, hhand, hconns, Option.some.injEq]
    by_cases hm : n = m
    · simp [hm, World.inHand]
    · simp [hm, Ne.symm hm]
  simp only [World.table, World.timerLoop, IdleTable.set, hseen, hpending, hphase, haddresses, hhanded,
    hclock]

theorem Held.refreshed (h : Held ex (some n) as w) (hex : ∀ m, m ≠ n → ex m → ex' m) :
    Held ex' (some n) as w.refreshIdleTimer := by
  have hseen := seen_hand h.hand
  have hself : w.conn.channel.self = n := (h.kept.sane n _ hseen).self
  unfold World.refreshIdleTimer
  split
  · rename_i hdone
    refine h.unless hex ?_
    rw [inHand_awaited]
    rcases hdone with hseconds | hclosed
    · simp [hseconds]
    · simp [hclosed]
  · rename_i hgo
    rw [not_or, not_le, Bool.not_eq_true] at hgo
    have haw : w.inHand.awaited = true := by
      simp [inHand_awaited, hgo]
    have hkept := h.kept.refreshed hex hseen haw
    unfold World.cancelIdleTimer
    split
    · rename_i hv
      have hv' : w.inHand.idleTimer.valid = true := hv
      have hset := table_set ({ w with
          timers := w.timers.cancelInLoop w.conn.idleTimer
          conn := { w.conn with idleTimer := {} } }.runAfter w.conn.idleTimeoutSeconds)
        h.hand h.hand rfl rfl rfl rfl rfl rfl
      refine ⟨?_, h.hand, h.addresses⟩
      rw [hset]
      rw [IdleTable.armed, IdleTable.unarmed, if_pos hv', ← hself] at hkept
      rw [← hself]
      have hqueue := TimerLoop.cancelInLoop_self w.timers w.conn.idleTimer
      simp only [World.runAfter, hqueue]
      exact hkept
    · rename_i hv
      have hv' : ¬ w.inHand.idleTimer.valid = true := hv
      have hset := table_set (w.runAfter w.conn.idleTimeoutSeconds)
        h.hand h.hand rfl rfl rfl rfl rfl rfl
      refine ⟨?_, h.hand, h.addresses⟩
      rw [hset]
      rw [IdleTable.armed, IdleTable.unarmed, if_neg hv', ← hself] at hkept
      rw [← hself]
      exact hkept

theorem Held.closing (h : Held ex (some n) as w) (hex : ∀ m, m ≠ n → ex m → ex' m)
    (happ : w'.app = w.app) (hclock : w'.clock = w.clock) (hsequence : w'.sequence = w.sequence)
    (htimers : w'.timers = (w.table.unarmed w.inHand).queue)
    (hself : w'.conn.channel.self = w.conn.channel.self) (hclosed : w'.conn.closed = true)
    (hid : w'.conn.idleTimer.valid = false) : Held ex' (some n) as w' := by
  have hseen := seen_hand h.hand
  have hlast : w'.inHand.lastActivity = w.inHand.lastActivity := by
    simp only [World.inHand, Watched.idle, happ]
  have hkept : IdleTable.Kept ex' ({ w.table with loop := w.table.unarmed w.inHand }.set n w'.inHand) :=
    h.kept.closed hex hseen hself hlast hid hclosed
  have hhand : w'.app.hand = some n := by rw [happ, h.hand]
  have hset := table_set w' h.hand hhand (by rw [happ]) (by rw [happ]) (by rw [happ])
    (by rw [happ]) (by rw [happ]) hclock
  refine ⟨?_, hhand, by rw [happ, h.addresses]⟩
  have hloop : w.table.unarmed w.inHand =
      { w.table.loop with queue := w'.timers, counter := w'.sequence } := by
    rw [htimers, hsequence, IdleTable.unarmed]
    split <;> rfl
  rw [hset, ← hloop]
  exact hkept

theorem remove_self (c : Channel) (r : Reactor) : (c.remove r).1.self = c.self := by
  unfold Channel.remove
  split <;> rfl

/-- Behind `handleClose` the connection is no exception any more. -/
theorem handleClose_held {closeCallback : Prog (World (LoopSide σ)) Unit}
    (hcb : Maintains (Held ex' (some n) as) closeCallback) (h : Held ex (some n) as w)
    (hex : ∀ m, m ≠ n → ex m → ex' m) :
    wp (TcpConnection.handleClose closeCallback) (fun _ w' => Held ex' (some n) as w')
      (fun w' => Held ex' (some n) as w') w := by
  simp only [TcpConnection.handleClose, wp_bind, wp_world, wp_ite, wp_update, wp_pure]
  split
  · rename_i hclosed
    refine h.unless hex ?_
    simp [inHand_awaited, hclosed]
  · apply hcb
    unfold World.cancelIdleTimer
    split
    · rename_i hv
      have hv' : w.inHand.idleTimer.valid = true := hv
      exact h.closing hex rfl rfl rfl (by rw [IdleTable.unarmed, if_pos hv']; rfl)
        (remove_self _ _) rfl rfl
    · rename_i hv
      have hv' : ¬ w.inHand.idleTimer.valid = true := hv
      exact h.closing hex rfl rfl rfl (by rw [IdleTable.unarmed, if_neg hv']; rfl)
        (remove_self _ _) rfl (Bool.eq_false_iff.mpr hv')

theorem held_steady (ex : Nat → Prop) (n : Nat) (as : List Nat) :
    Steady (Held (σ := σ) ex (some n) as) where
  same w w' hframe h := by
    simp only [World.frame, World.timing, Prod.mk.injEq] at hframe
    obtain ⟨⟨-, -, happ, hclosed, hchannel, -⟩, htimers, hsequence, hclock, hid, hseconds⟩ := hframe
    refine h.unmoved happ ?_ (by rw [htimers, hsequence, hclock])
    simp only [World.inHand, Watched.idle, happ, hclosed, hchannel, hid, hseconds]
  enableWriting w h := h.unmoved rfl rfl rfl
  disableWriting w h := h.unmoved rfl rfl rfl
  refreshIdleTimer w h := h.refreshed fun _ _ he => he

theorem move_maintains {closeCallback : Prog (World (LoopSide σ)) Unit}
    (hcb : Maintains (Held ex (some n) as) closeCallback) (m : Move) :
    Maintains (Held ex (some n) as) (m.perform closeCallback) := by
  have hsteady := held_steady (σ := σ) ex n as
  have hclose : Maintains (Held ex (some n) as) (TcpConnection.handleClose closeCallback) :=
    fun w h => handleClose_held hcb h fun _ _ he => he
  cases m with
  | close => exact hclose
  | call c =>
    cases c with
    | send data => exact TcpConnection.send_maintains hsteady hclose data
    | sendFile file => exact TcpConnection.sendFile_maintains hsteady hclose file
    | shutdownWrite => exact TcpConnection.shutdownWrite_maintains hsteady
    | writeEvent => exact TcpConnection.handleWrite_maintains hsteady hclose

/-! ## Code keeps the table -/

theorem Held.timers (h : Held ex x as w) {e : TimerEvent Nat} {s : TimerLoop Nat}
    (he : w.table.Apart e) (hs : w.timerLoop.step e = some s) :
    Held ex x as (w.withTimers s (w.table.handing e)) :=
  ⟨h.kept.apart he hs, h.hand, h.addresses⟩

theorem Code.maintains {α : Type} {p : Prog (World (LoopSide σ)) α} (h : Code p) :
    ∀ ex x as, Maintains (Held ex x as) p := by
  induction h with
  | other h =>
    intro ex x as
    refine h.maintains fun w w' hg hw => ?_
    simp only [Prod.mk.injEq] at hg
    exact hw.same hg.1 hg.2
  | bind hp hk ihp ihk => exact fun ex x as => Maintains.bind (ihp ex x as) fun a => ihk a ex x as
  | loop h a ih => exact fun ex x as => Maintains.loop (fun a => ih a ex x as) a
  | elapse d =>
    exact fun ex x as => Maintains.update fun w hw => ⟨hw.kept.elapsed d, hw.hand, hw.addresses⟩
  | useTimers e =>
    intro ex x as w hw
    unfold wp
    by_cases he : e.called ∧ w.table.Apart e
    · cases hs : w.timerLoop.step e with
      | none =>
        have hret : Myself.useTimers e w = .waits w := by simp only [Myself.useTimers, if_pos he, hs]
        rw [hret]
        exact hw
      | some s =>
        have hret : Myself.useTimers e w = .returned () (w.withTimers s (w.table.handing e)) := by
          simp only [Myself.useTimers, if_pos he, hs]
        rw [hret]
        exact hw.timers he.2 hs
    · have hret : Myself.useTimers e w = .waits w := by simp only [Myself.useTimers, if_neg he]
      rw [hret]
      exact hw
  | call n m h ih => exact fun ex x as => across_maintains (move_maintains (ih ex (some n) as) m)

/-! ## Events -/

section
variable {closeCallback messageCallback : Prog (World (LoopSide σ)) Unit}
  (hcb : ∀ ex, Maintains (Held ex (some n) as) closeCallback)
  (hm : ∀ ex, Maintains (Held ex (some n) as) messageCallback)
include hcb

/-- A program that may return with an exception leaves none behind it. -/
def Settles (p : Prog (World (LoopSide σ)) Unit) (n : Nat) (as : List Nat) : Prop :=
  ∀ ex w, Held (fun m => ex m ∨ m = n) (some n) as w →
    wp p (fun _ w' => Held ex (some n) as w') (fun _ => True) w

theorem handleClose_settles : Settles (TcpConnection.handleClose closeCallback) n as := fun ex _ h =>
  wp_mono (handleClose_held (hcb ex) h fun _ hm he => he.resolve_right hm) (fun _ _ h => h) fun _ _ => trivial

theorem handleError_settles : Settles (TcpConnection.handleError closeCallback) n as := fun ex w h =>
  handleClose_settles hcb ex (w.log (.getsockopt w.conn.socket.fd)).addErrors (h.unmoved rfl rfl rfl)

omit hcb in
theorem noteActivity_held (h : Held ex (some n) as w) :
    Held (fun m => ex m ∨ m = n) (some n) as { w with app := { w.app with lastActivity := w.clock } } := by
  have hset := table_set ({ w with app := { w.app with lastActivity := w.clock } }) h.hand h.hand
    rfl rfl rfl rfl rfl rfl
  refine ⟨?_, h.hand, h.addresses⟩
  rw [hset]
  exact h.kept.noted (seen_hand h.hand) rfl rfl (fun haw => haw) (Int.le_refl _)

omit hcb in
theorem readFd_held : Maintains (Held ex x as) (TcpConnection.readFd : Prog (World (LoopSide σ)) Answer) := by
  intro w h
  unfold wp TcpConnection.readFd
  split
  · rename_i heq
    split at heq <;> cases heq <;> exact h.unmoved rfl rfl rfl
  · rename_i heq
    split at heq <;> cases heq
    exact h

omit hcb in
include hm in
/-- From the first data on the connection is an exception. -/
theorem readRound_held (activity : Bool)
    (h : Held (fun m => ex m ∨ activity = true ∧ m = n) (some n) as w) :
    wp (TcpConnection.readRound (do noteActivity; messageCallback) activity)
      (fun r w' => r.elim (fun a => Held (fun m => ex m ∨ a = true ∧ m = n) (some n) as w')
        fun b => Held (fun m => ex m ∨ b.1 = true ∧ m = n) (some n) as w') (fun _ => True) w := by
  simp only [TcpConnection.readRound, wp_bind]
  refine wp_mono (readFd_held w h) ?_ fun _ _ => trivial
  intro a w' h'
  cases a with
  | count k =>
    simp only [wp_ite, wp_bind, wp_update, wp_pure, noteActivity]
    split
    · have hcounted : Held (fun m => ex m ∨ activity = true ∧ m = n) (some n) as (w'.addBytesRead k) :=
        h'.unmoved rfl rfl rfl
      have hnote := noteActivity_held hcounted
      refine wp_mono (hm _ _ hnote) ?_ fun _ _ => trivial
      intro _ w₁ h₁
      refine h₁.mono ?_
      rintro m ((he | ⟨-, he⟩) | he)
      · exact Or.inl he
      · exact Or.inr ⟨rfl, he⟩
      · exact Or.inr ⟨rfl, he⟩
    · exact h'
  | again => exact h'
  | interrupted => exact h'
  | failed errno => exact h'

include hm in
theorem handleRead_held (h : Held ex (some n) as w) :
    wp (TcpConnection.handleRead closeCallback (do noteActivity; messageCallback))
      (fun _ w' => Held ex (some n) as w') (fun _ => True) w := by
  have hstart : Held (fun m => ex m ∨ false = true ∧ m = n) (some n) as w :=
    h.mono fun m => Or.inl
  have hloop := wp_loop_returns (μ := fun w : World (LoopSide σ) => w.reads.length)
    (fun activity w h => readRound_held hm activity h) false w hstart
  have hexcept : ∀ {activity : Bool} {w : World (LoopSide σ)},
      Held (fun m => ex m ∨ activity = true ∧ m = n) (some n) as w →
        Held (fun m => ex m ∨ m = n) (some n) as w := fun h' =>
    h'.mono fun m he => he.imp_right And.right
  have hrefresh : ∀ (activity : Bool) (w : World (LoopSide σ)),
      Held (fun m => ex m ∨ activity = true ∧ m = n) (some n) as w →
        wp (TcpConnection.refreshAfter activity) (fun _ w' => Held ex (some n) as w') (fun _ => True) w := by
    intro activity w h'
    cases activity with
    | true => exact (hexcept h').refreshed fun m hm he => he.resolve_right hm
    | false => exact h'.mono fun m he => he.resolve_right (by simp)
  unfold TcpConnection.handleRead
  rw [wp_bind]
  refine wp_mono hloop ?_ fun _ _ => trivial
  rintro ⟨activity, ending⟩ w' h'
  cases ending with
  | again => exact hrefresh activity w' h'
  | peerClosed =>
    rw [wp_bind]
    refine wp_mono (hrefresh activity w' h') ?_ fun _ _ => trivial
    intro _ w₁ h₁
    exact handleClose_settles hcb ex w₁ (h₁.mono fun m => Or.inl)
  | failed =>
    exact handleError_settles hcb ex w'.addErrors ((hexcept h').unmoved rfl rfl rfl)

include hm in
theorem dispatch_held (revents : Mask) (h : Held ex (some n) as w) :
    wp (TcpConnection.dispatch closeCallback (do noteActivity; messageCallback) revents)
      (fun _ w' => Held ex (some n) as w') (fun _ => True) w := by
  have hweak : ∀ {w : World (LoopSide σ)}, Held ex (some n) as w →
      Held (fun m => ex m ∨ m = n) (some n) as w := fun h =>
    h.mono fun m => Or.inl
  have hcallback : ∀ cb w, Held ex (some n) as w →
      wp (TcpConnection.callback closeCallback (do noteActivity; messageCallback) cb)
        (fun _ w' => Held ex (some n) as w') (fun _ => True) w := by
    intro cb w h
    cases cb with
    | read => exact handleRead_held hcb hm h
    | write => exact wp_mono (move_maintains (hcb ex) (.call .writeEvent) w h) (fun _ _ h => h) fun _ _ => trivial
    | close => exact handleClose_settles hcb ex w (hweak h)
    | error => exact handleError_settles hcb ex w (hweak h)
  have hcallbacks : ∀ cbs w, Held ex (some n) as w →
      wp (TcpConnection.callbacks closeCallback (do noteActivity; messageCallback) cbs)
        (fun _ w' => Held ex (some n) as w') (fun _ => True) w := by
    intro cbs
    induction cbs with
    | nil => exact fun w h => h
    | cons cb cbs ih =>
      intro w h
      simp only [TcpConnection.callbacks, wp_bind]
      exact wp_mono (hcallback cb w h) (fun _ w' h' => ih w' h') fun _ _ => trivial
  simp only [TcpConnection.dispatch, wp_bind, wp_world, wp_ite, wp_pure]
  split
  · exact hcallbacks _ w h
  · exact h

end

/-! ## Every step -/

/-- The last call puts a new timer there, or the connection is closed. -/
theorem setIdleTimeout_held {seconds : Rat} (hseconds : 0 < seconds) (h : Held ex (some n) as w)
    (hunset : w.conn.idleTimeoutSeconds = 0) :
    wp (do
        noteActivity
        TcpConnection.setIdleTimeout seconds) (fun _ w' => Held ex (some n) as w') (fun _ => True) w := by
  have hseen := seen_hand h.hand
  have hset := table_set ({ w with
      conn := { w.conn with idleTimeoutSeconds := seconds }
      app := { w.app with lastActivity := w.clock } }) h.hand h.hand rfl rfl rfl rfl rfl rfl
  have hidle : w.inHand.awaited = false := by
    simp [inHand_awaited, hunset]
  have hnoted : IdleTable.Kept (fun m => ex m ∨ m = n)
      (w.table.set n { w.inHand with idleTimeoutSeconds := seconds, lastActivity := w.clock }) := h.kept.noted
    hseen rfl rfl (fun haw => absurd (hidle.symm.trans haw) Bool.false_ne_true) (Int.le_refl _)
  have hheld : Held (fun m => ex m ∨ m = n) (some n) as { w with
      conn := { w.conn with idleTimeoutSeconds := seconds }
      app := { w.app with lastActivity := w.clock } } := ⟨hset ▸ hnoted, h.hand, h.addresses⟩
  have hex : ∀ m, m ≠ n → ex m ∨ m = n → ex m := fun m hm he => he.resolve_right hm
  simp only [noteActivity, TcpConnection.setIdleTimeout, wp_bind, wp_update, wp_world, wp_ite, wp_pure]
  split
  · exact hheld.refreshed hex
  · rename_i hgo
    rw [not_and, Bool.not_eq_false] at hgo
    refine hheld.unless hex ?_
    simp [inHand_awaited, hgo hseconds]

theorem start_held : Maintains (Held ex (some n) as) (TcpConnection.start : Prog (World (LoopSide σ)) Unit) := by
  refine Maintains.update_bind (fun w h => ?_) (Maintains.update fun w h => ?_)
  · exact h.unmoved rfl rfl rfl
  · exact h.unmoved rfl rfl rfl

theorem handleIdleTimeout_settles {closeCallback : Prog (World (LoopSide σ)) Unit}
    (hcb : ∀ ex, Maintains (Held ex (some n) as) closeCallback) :
    Settles (TcpConnection.handleIdleTimeout closeCallback) n as := by
  intro ex w h
  simp only [TcpConnection.handleIdleTimeout, wp_bind, wp_world, wp_ite, wp_pure]
  split
  · rename_i hclosed
    refine h.unless (fun m hm he => he.resolve_right hm) ?_
    simp [inHand_awaited, hclosed]
  · exact handleClose_settles hcb ex w h

theorem finish_wp {p : Prog (World (LoopSide σ)) Unit} {Q : World (LoopSide σ) → Prop}
    (h : wp p (fun _ w' => Q w') (fun _ => True) w) (hfinish : w.finish p = some w') : Q w' := by
  unfold World.finish at hfinish
  unfold wp at h
  split at hfinish
  · rename_i heq
    cases hfinish
    rw [heq] at h
    exact h
  · cases hfinish

theorem created_held (h : Held ex none as w) {self : Nat} (connfd : Nat) (hnew : w.find self = none)
    (hfree : w.table.Free self) : Held ex none (self :: as) (w.create self connfd) := by
  have hseen : (fun m => ((w.create self connfd).find m).map Watched.idle) =
      fun m => if m = self then some { self := self, lastActivity := w.clock }
        else (w.find m).map Watched.idle := by
    funext m
    simp only [World.find, World.create, h.hand, reduceCtorEq, if_false]
    split <;> rfl
  have htable : (w.create self connfd).table = w.table.add self := by
    show ({ w.table with
      seen := fun m => ((w.create self connfd).find m).map Watched.idle
      addresses := self :: w.app.addresses } : IdleTable) = _
    rw [hseen]
    rfl
  have hnone : w.table.seen self = none := by simp only [World.table, hnew, Option.map_none]
  exact ⟨htable ▸ h.kept.added hnone hfree, h.hand, congrArg (self :: ·) h.addresses⟩

/-- Nothing is in hand between the steps, and no connection is an exception. -/
def Resting (w : World (LoopSide σ)) : Prop := ∃ as, Held (fun _ => False) none as w

theorem resting_step {e : IdleEvent σ} (h : Resting w) (hs : w.idleStep e = some w') : Resting w' := by
  obtain ⟨as, h⟩ := h
  cases e with
  | elapse d =>
    cases hs
    exact ⟨as, h.kept.elapsed d, h.hand, h.addresses⟩
  | kernel reads writes sendfiles preads =>
    cases hs
    exact ⟨as, h.unmoved rfl rfl rfl⟩
  | newConnection self connfd =>
    simp only [World.idleStep] at hs
    split at hs
    · rename_i hnew
      have hcreated := created_held h connfd hnew.2.1 hnew.2.2
      refine ⟨self :: as, finish_wp ?_ hs⟩
      exact wp_mono (across_maintains start_held _ hcreated) (fun _ _ h => h) fun _ _ => trivial
    · cases hs
  | setIdleTimeout n seconds =>
    simp only [World.idleStep] at hs
    split at hs
    · rename_i hset
      refine ⟨as, finish_wp (across_wp h (fun _ => h) fun h' => ?_) hs⟩
      refine setIdleTimeout_held hset.2.1 h' ?_
      have hunset := hset.2.2
      unfold World.unset at hunset
      cases hc : w.find n with
      | none =>
        rw [hc] at hunset
        cases hunset
      | some c =>
        rw [hc] at hunset
        rw [World.take, hc]
        simpa using hunset
    · cases hs
  | ready n revents closeCallback messageCallback =>
    simp only [World.idleStep] at hs
    split at hs
    · cases hs
    · refine ⟨as, finish_wp (across_wp h (fun _ => h) fun h' => ?_) hs⟩
      exact dispatch_held (fun ex => closeCallback.code.maintains ex _ _)
        (fun ex => messageCallback.code.maintains ex _ _) revents h'
  | run code =>
    simp only [World.idleStep] at hs
    split at hs
    · refine ⟨as, finish_wp ?_ hs⟩
      exact wp_mono (code.code.maintains _ _ _ w h) (fun _ _ h => h) fun _ _ => trivial
    · cases hs
  | timers e =>
    simp only [World.idleStep] at hs
    split at hs
    · rename_i he
      obtain ⟨s, hrun, rfl⟩ := Option.map_eq_some_iff.mp hs
      exact ⟨as, h.timers he hrun⟩
    · cases hs
  | handleIdleTimeout closeCallback =>
    simp only [World.idleStep] at hs
    split at hs
    · rename_i currentTime t rest running hphase
      split at hs
      · rename_i hsome
        obtain ⟨c, hc⟩ := Option.isSome_iff_exists.mp hsome
        split at hs
        · cases hs
        · rename_i s hrun
          have hseen : w.table.seen t.callback = some c.idle := by simp only [World.table, hc, Option.map_some]
          have hfiring : Held (fun m => False ∨ m = t.callback) none as (w.withTimers s w.app.handed) :=
            ⟨h.kept.firing hphase hseen hrun, h.hand, h.addresses⟩
          have hfound : (w.withTimers s w.app.handed).find t.callback = some c := hc
          refine ⟨as, finish_wp (across_wp hfiring (fun hnone => ?_) fun h' => ?_) hs⟩
          · rw [hfound] at hnone
            cases hnone
          · exact handleIdleTimeout_settles (fun ex => closeCallback.code.maintains ex _ _) _ _ h'
      · cases hs
    · cases hs

theorem World.Untouched.resting (h : w.Untouched) : Resting w := by
  have hseen : ∀ n, w.table.seen n = none := by
    intro n
    simp only [World.table, World.find, h.hand, h.conns, reduceCtorEq, if_false, Option.map_none]
  have hloop : w.table.loop = TimerLoop.init w.timers.self := h.loop
  have hactive : ∀ (m : Nat) (t : Timer Nat), w.table.loop.queue.activeTimers[m]? ≠ some t := by
    intro m t
    rw [hloop]
    simp [TimerLoop.init]
  refine ⟨[], ⟨?_, ?_, ?_, ?_, ?_, ?_, ?_, ?_, ?_, ?_⟩, h.hand, h.addresses⟩
  · rw [hloop]
    exact TimerLoop.sound_init _
  · rw [hloop]
    exact Nat.zero_lt_one
  · intro m hm
    have : m ∈ w.app.handed := hm
    rw [h.handed] at this
    cases this
  · intro n
    rw [hseen n]
    show _ ↔ n ∈ w.app.addresses
    rw [h.addresses]
    simp
  · show w.app.addresses.Nodup
    rw [h.addresses]
    exact List.nodup_nil
  · intro n st hn
    rw [hseen n] at hn
    cases hn
  · exact fun m t ht => absurd ht (hactive m t)
  · rw [hloop]
    exact fun t ht => absurd ht List.not_mem_nil
  · rw [hloop]
    exact fun task ht => absurd ht List.not_mem_nil
  · intro n st _ hn
    rw [hseen n] at hn
    cases hn

/-- Of these timers every open connection with a timeout has one, and a closed
one has none. It was set between the last activity and now, and does not
expire before the timeout is over, unless that is too late for the clock, and
only then. -/
structure World.IdleTimersMatch (w : World (LoopSide σ)) (ts : List (Timer Nat)) : Prop where
  isOpen : ∀ n c, w.find n = some c → c.conn.closed = false → 0 < c.conn.idleTimeoutSeconds →
    ∃ t, ts.filter (fun t => t.callback = n) = [t] ∧ ∃ armed, c.lastActivity ≤ armed ∧ armed ≤ w.clock ∧
      t.expiration = addTime armed (secondsToDuration c.conn.idleTimeoutSeconds) ∧
      (InClock armed c.conn.idleTimeoutSeconds →
        c.lastActivity + nanoseconds c.conn.idleTimeoutSeconds ≤ t.expiration) ∧
      (0 ≤ c.lastActivity → w.clock < 2 ^ 63 →
        c.lastActivity + nanoseconds c.conn.idleTimeoutSeconds ≤ t.expiration →
        InClock armed c.conn.idleTimeoutSeconds)
  closed : ∀ n c, w.find n = some c → c.conn.closed = true → ts.filter (fun t => t.callback = n) = []
  size : ts.length =
    w.app.addresses.countP (fun n => (w.find n).any fun c =>
      !c.conn.closed && decide (0 < c.conn.idleTimeoutSeconds)) +
    ts.countP fun t => !decide (t.callback ∈ w.app.addresses)

theorem matches_world {ts : List (Timer Nat)} (h : w.table.Matches ts) : w.IdleTimersMatch ts where
  isOpen n c hc hopen hseconds := by
    have hseen : w.table.seen n = some c.idle := by simp only [World.table, hc, Option.map_some]
    have haw : c.idle.awaited = true := by
      simp only [IdleState.awaited, Watched.idle, hopen, hseconds, Bool.not_false, decide_true, Bool.and_self]
    obtain ⟨t, hone, armed, hlast, hnow, hexpiration⟩ := h.awaited n _ hseen haw
    have hexpiration : t.expiration = addTime armed (secondsToDuration c.conn.idleTimeoutSeconds) := hexpiration
    refine ⟨t, hone, armed, hlast, hnow, hexpiration, fun hin => ?_, fun hpos hclock hle => ?_⟩
    · rw [hexpiration, addTime_duration hseconds.le hin]
      exact Int.add_le_add_right hlast _
    · rw [hexpiration] at hle
      exact inClock_of_le hpos hlast (Int.lt_of_le_of_lt hnow hclock) hseconds.le hle
  closed n c hc hclosed := by
    have hseen : w.table.seen n = some c.idle := by simp only [World.table, hc, Option.map_some]
    refine h.other n _ hseen ?_
    simp only [IdleState.awaited, Watched.idle, hclosed, Bool.not_true, Bool.false_and]
  size := by
    have hany : ∀ n, (w.table.seen n).any IdleState.awaited = (w.find n).any fun c =>
        !c.conn.closed && decide (0 < c.conn.idleTimeoutSeconds) := by
      intro n
      simp only [World.table, Option.any_map]
      rfl
    have hsize := h.size
    simp only [hany] at hsize
    exact hsize

/-- **Idle timers match the open connections**: in every state between the
steps in the index of the queue, and between two rounds in its set, too. Only a
timeout that is too long for the clock is over too soon. -/
theorem idleTimers_match {w₀ w : World (LoopSide σ)} (h₀ : w₀.Untouched)
    (h : Reached World.idleStep Any w₀ w) :
    w.IdleTimersMatch (w.timers.activeTimers.toList.map Prod.snd) ∧
    (w.app.phase = .idle → w.IdleTimersMatch (w.timers.entries.map Entry.timer) ∧
      ∀ e ∈ w.timers.entries, e.when = e.timer.expiration) := by
  obtain ⟨as, hheld⟩ := h.invariant h₀.resting fun _ _ _ hi _ hs => resting_step hi hs
  refine ⟨matches_world hheld.kept.matches_active, fun hidle => ⟨?_, fun e he => ?_⟩⟩
  · exact matches_world (hheld.kept.matches_entries hidle)
  · exact (hheld.kept.sound.exact.key e he).2.symm

def Callback.idle : Callback Unit := ⟨pure (), .other (Keeps.pure ())⟩

@[irreducible] def emptyLoop : World (LoopSide Unit) where
  conn := { socket := ⟨none⟩, channel := { self := 0, fd := 0 } }
  timers := { self := 3 }
  files := fun _ => []
  app := { app := () }

def TimerPhase.isIdle : TimerPhase Nat → Bool
  | .idle => true
  | .handleExpired _ _ _ => false

theorem emptyLoop_untouched : emptyLoop.Untouched := by
  rw [emptyLoop]
  exact ⟨rfl, rfl, rfl, rfl, rfl⟩

/-- A timeout of ten thousand million seconds is over before it has begun: the
timer is one of the past, and the next batch closes the connection. -/
theorem idle_timer_in_past : ∃ w w' : World (LoopSide Unit),
    Reached World.idleStep Any emptyLoop w ∧ w.app.phase = .idle ∧
      (w.find 1).map (fun c => (c.conn.closed, c.conn.idleTimeoutSeconds, c.lastActivity)) =
        some (false, 10000000000, 0) ∧
      w.timers.entries.map (fun e => (e.timer.callback, e.when)) = [(1, -2 ^ 63)] ∧
      0 + nanoseconds 10000000000 = 10000000000000000000 ∧
      Reached World.idleStep Any w w' ∧ (w'.find 1).map (fun c => c.conn.closed) = some true ∧ w'.clock = 0 := by
  have hset : (run World.idleStep emptyLoop [.newConnection 1 7, .setIdleTimeout 1 10000000000]).map
      (fun w => (w.app.phase.isIdle, w.timers.entries.map (fun e => (e.timer.callback, e.when)))) =
      some (true, [(1, -2 ^ 63)]) := by
    rw [emptyLoop]
    decide +kernel
  have hopen : (run World.idleStep emptyLoop [.newConnection 1 7, .setIdleTimeout 1 10000000000]).bind
      (fun w => (w.find 1).map (fun c => (c.conn.closed, c.conn.idleTimeoutSeconds, c.lastActivity))) =
      some (false, 10000000000, 0) := by
    rw [emptyLoop]
    decide +kernel
  have hclosed : ((run World.idleStep emptyLoop [.newConnection 1 7, .setIdleTimeout 1 10000000000]).bind
      fun w => run World.idleStep w [.timers (.handleExpiredTimers 0), .handleIdleTimeout .idle]).map
      (fun w => ((w.find 1).map (fun c => c.conn.closed), w.clock)) = some (some true, 0) := by
    rw [emptyLoop]
    decide +kernel
  obtain ⟨w, hw, hset⟩ := Option.map_eq_some_iff.mp hset
  simp only [Prod.mk.injEq] at hset
  obtain ⟨hphase, htimers⟩ := hset
  rw [hw, Option.bind_some] at hopen hclosed
  obtain ⟨w', hw', hclosed⟩ := Option.map_eq_some_iff.mp hclosed
  simp only [Prod.mk.injEq] at hclosed
  refine ⟨w, w', .of_run_any hw, ?_, hopen, htimers, by decide +kernel, .of_run_any hw', hclosed.1, hclosed.2⟩
  unfold TimerPhase.isIdle at hphase
  split at hphase
  · assumption
  · cases hphase

/-- Two connections with a timeout of five seconds, and a timer of other code:
one connection is heard from after three seconds, and two seconds later the
other one is closed by its timer. -/
theorem idleTimers_match_two : ∃ w : World (LoopSide Unit),
    w.timers.entries.map (fun e => (e.timer.callback, e.when)) = [(1, 8000000000), (9, 20000000000)] ∧
      w.IdleTimersMatch (w.timers.entries.map Entry.timer) := by
  have hend : (run World.idleStep emptyLoop
      [.newConnection 1 7, .newConnection 2 8, .setIdleTimeout 1 5, .setIdleTimeout 2 5,
        .timers (.addTimer 9 20000000000 0), .elapse 3000000000, .kernel [.data [65], .again] [] [] [],
        .ready 1 EPOLLIN .idle .idle, .elapse 2000000000, .timers (.handleExpiredTimers 5000000000),
        .handleIdleTimeout .idle, .timers .finish]).map
          (fun w => (w.timers.entries.map (fun e => (e.timer.callback, e.when)), w.app.phase.isIdle)) =
        some ([(1, 8000000000), (9, 20000000000)], true) := by
    rw [emptyLoop]
    decide +kernel
  obtain ⟨w, hw, hend⟩ := Option.map_eq_some_iff.mp hend
  simp only [Prod.mk.injEq] at hend
  have hidle : w.app.phase = .idle := by
    have hphase := hend.2
    unfold TimerPhase.isIdle at hphase
    split at hphase
    · assumption
    · cases hphase
  exact ⟨w, hend.1, ((idleTimers_match emptyLoop_untouched (.of_run_any hw)).2 hidle).1⟩

end

end

end Myself
