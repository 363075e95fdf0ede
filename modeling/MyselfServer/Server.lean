import Std.Data.TreeMap
import MyselfServer.Machine

/-!
# Connections between the threads

The main thread accepts connections and hands them to the IO loops, an IO
loop sets them up, closes their sockets and runs their close callbacks, and
all threads share the connection table. The kernel picks any descriptor
that is not open. A thread that is inside one of these does nothing else.
-/

namespace Myself

abbrev LoopId := Option Nat

structure Connection where
  id : Nat
  fd : Nat
  loop : LoopId
  deriving DecidableEq, Repr

abbrev ConnectionRegistry := Std.TreeMap Nat Connection compare

namespace ConnectionRegistry

def add (r : ConnectionRegistry) (fd : Nat) (conn : Connection) : ConnectionRegistry :=
  r.insert fd conn

def remove (r : ConnectionRegistry) (fd : Nat) : ConnectionRegistry := r.erase fd

end ConnectionRegistry

/-- Where the main thread is in the new-connection callback: it holds a
descriptor it has not decided on, or one that has passed the overload check. -/
inductive MainThread where
  | idle
  | accepted (connfd : Nat)
  | admitted (connfd : Nat)
  deriving DecidableEq, Repr

/-- `queued` are the set-up tasks the loops have not run, oldest first, and
`closing` the connections whose socket is closed and whose close callback
has not run. -/
structure Server where
  ioThreads : Nat
  maxConnections : Nat
  main : MainThread := .idle
  next : Nat := 0
  created : Nat := 0
  queued : List Connection := []
  live : List Connection := []
  closing : List Connection := []
  registry : ConnectionRegistry := ∅

inductive ServerEvent where
  | accept (connfd : Nat)
  | check
  | handOff
  | setUp (loop : Nat)
  | closeSocket (conn : Connection)
  | closeCallback (loop : LoopId)

namespace Server

def init (ioThreads maxConnections : Nat) : Server :=
  { ioThreads := ioThreads, maxConnections := maxConnections }

def mainFds : MainThread → List Nat
  | .idle => []
  | .accepted connfd => [connfd]
  | .admitted connfd => [connfd]

def openFds (s : Server) : List Nat :=
  mainFds s.main ++ (s.queued.map Connection.fd ++ s.live.map Connection.fd)

def busy (s : Server) (loop : LoopId) : Bool :=
  s.closing.any (fun c => c.loop = loop) || (loop.isNone && s.main != .idle)

def nextLoop (s : Server) : LoopId := if s.ioThreads = 0 then none else some s.next

def setUp (s : Server) (conn : Connection) : Server :=
  { s with registry := s.registry.add conn.fd conn, live := s.live ++ [conn] }

def step (s : Server) : ServerEvent → Option Server
  | .accept connfd =>
    if s.busy none ∨ connfd ∈ s.openFds then none else some { s with main := .accepted connfd }
  | .check =>
    match s.main with
    | .accepted connfd =>
      -- the rejected connection is answered with 503 and closed
      if 0 < s.maxConnections ∧ s.maxConnections ≤ s.registry.size then some { s with main := .idle }
      else some { s with main := .admitted connfd }
    | _ => none
  | .handOff =>
    match s.main with
    | .admitted connfd =>
      let conn : Connection := ⟨s.created, connfd, s.nextLoop⟩
      let s := { s with main := .idle, created := s.created + 1 }
      -- `runInLoop` runs the set-up at once on the base loop
      if s.ioThreads = 0 then some (s.setUp conn)
      else some { s with queued := s.queued ++ [conn], next := (s.next + 1) % s.ioThreads }
    | _ => none
  | .setUp loop =>
    match s.queued.find? fun c => c.loop = some loop with
    | none => none
    | some conn =>
      if s.busy (some loop) then none else some ({ s with queued := s.queued.erase conn }.setUp conn)
  | .closeSocket conn =>
    if conn ∈ s.live ∧ s.busy conn.loop = false then
      some { s with live := s.live.erase conn, closing := s.closing ++ [conn] }
    else none
  | .closeCallback loop =>
    match s.closing.find? fun c => c.loop = loop with
    | none => none
    | some conn =>
      some { s with
        registry := s.registry.remove conn.fd
        closing := s.closing.erase conn }

def admitted (s : Server) : Nat :=
  (match s.main with
    | .admitted _ => 1
    | _ => 0) + s.queued.length + s.live.length

def adds (s : Server) : ServerEvent → Option Connection
  | .handOff =>
    match s.main with
    | .admitted connfd =>
      if s.ioThreads = 0 then some ⟨s.created, connfd, s.nextLoop⟩ else none
    | _ => none
  | .setUp loop => s.queued.find? fun c => c.loop = some loop
  | _ => none

/-- No connection is added while another one with its descriptor is between
the closing of its socket and the removal of its entry. -/
def NoReuse (s : Server) (e : ServerEvent) : Prop :=
  ∀ conn, s.adds e = some conn → ∀ c ∈ s.closing, c.fd ≠ conn.fd

/-- When the overload check passes, the table together with the tasks that
will still fill it has room. -/
def CountsQueued (s : Server) : ServerEvent → Prop
  | .check => s.registry.size < s.maxConnections → s.registry.size + s.queued.length < s.maxConnections
  | _ => True

end Server

end Myself
