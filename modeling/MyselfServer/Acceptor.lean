import MyselfServer.Channel
import MyselfServer.Socket

/-!
# The acceptor

`Acceptor` and the base loop that runs `Acceptor::handleRead`. Whether
`accept4` returns on an empty backlog is decided by the listening socket's
own flags; the flags `accept4` is given are for the accepted connection.
-/

namespace Myself

open Text

structure Acceptor where
  listenSocket : Socket
  channel : Channel
  port : Int
  newConnectionCallback : Bool := false

namespace Acceptor

/-- `Acceptor(loop, ip, port)`; `self` is the address of the channel. -/
def create (k : Kernel) (answers : ListenAnswers) (self : Nat) (ip : Bytes) (port : Int) :
    Except SocketError (Acceptor × Kernel) :=
  match Socket.listenOn k answers ip port 128 with
  | .error e => .error e
  | .ok (sock, k) =>
    let listenSocket := sock.move.1
    .ok ({
      listenSocket := listenSocket
      channel := { self := self, fd := listenSocket.fd.getD 0 }
      port := port }, k)

def setNewConnectionCallback (a : Acceptor) : Acceptor := { a with newConnectionCallback := true }

def listen (a : Acceptor) (r : Reactor) : Acceptor × Reactor :=
  let (channel, r) := a.channel.enableReading r
  ({ a with channel := channel }, r)

end Acceptor

/-- What happens to the listening socket, in order: `quiet` is a moment at
which its backlog is empty, the others are what ends a waiting `accept4`. -/
inductive Arrival where
  | connection (connfd : Nat)
  | quiet
  | interrupted
  | failed (errno : Nat)

/-- What the base loop does, in order. `accept4` is noted with the mode of
the listening socket at the call. -/
inductive BaseNote where
  | accept4 (fd : Nat) (nonBlocking : Bool)
  | newConnection (connfd : Nat)
  | closed (connfd : Nat)
  | channel (fd : Nat)
  | timers
  | functors
  deriving DecidableEq

structure Accepting where
  returned : Bool
  notes : List BaseNote
  arrivals : List Arrival

def Accepting.after (notes : List BaseNote) (a : Accepting) : Accepting :=
  { a with notes := notes ++ a.notes }

namespace Acceptor

/-- The loop of `handleRead` from inside its `accept4` call on. On an empty
backlog the call fails with `EAGAIN` when the socket is in non-blocking mode,
and otherwise does not return before something arrives. -/
def accepting (a : Acceptor) (fd : Nat) (nonBlocking : Bool) : List Arrival → Accepting
  | [] => ⟨nonBlocking, [], []⟩
  | .quiet :: rest => if nonBlocking then ⟨true, [], rest⟩ else a.accepting fd nonBlocking rest
  | .connection connfd :: rest =>
    (a.accepting fd nonBlocking rest).after
      [if a.newConnectionCallback then .newConnection connfd else .closed connfd,
        .accept4 fd nonBlocking]
  | .interrupted :: rest => (a.accepting fd nonBlocking rest).after [.accept4 fd nonBlocking]
  | .failed _ :: rest => ⟨true, [], rest⟩

def handleRead (a : Acceptor) (fd : Nat) (nonBlocking : Bool) (arrivals : List Arrival) :
    Accepting :=
  (a.accepting fd nonBlocking arrivals).after [.accept4 fd nonBlocking]

end Acceptor

/-- The base loop with its acceptor. `waiting` is true while the thread is
inside an `accept4` that does not return. -/
structure BaseLoop where
  kernel : Kernel
  acceptor : Acceptor
  reactor : Reactor
  arrivals : List Arrival
  waiting : Bool := false
  trace : List BaseNote := []

namespace BaseLoop

def nonBlocking (s : BaseLoop) (fd : Nat) : Bool :=
  match s.kernel[fd]? with
  | none => false
  | some f => f.nonBlocking

/-- One callback of a channel; of the acceptor's only the read callback is set. -/
def callback (s : BaseLoop) (fd : Nat) (cb : ChannelCallback) : BaseLoop :=
  if s.waiting then s
  else if s.acceptor.channel.fd = fd then
    match cb with
    | .read =>
      let result := s.acceptor.handleRead fd (s.nonBlocking fd) s.arrivals
      { s with
        arrivals := result.arrivals
        waiting := !result.returned
        trace := s.trace ++ result.notes }
    | _ => s
  else { s with trace := s.trace ++ [.channel fd] }

def dispatch (s : BaseLoop) (events : List (Nat × Mask)) : BaseLoop :=
  events.foldl
    (fun s event =>
      if s.reactor.channels.contains event.1 then
        (Channel.handleEvent event.2).foldl (fun s cb => s.callback event.1 cb) s
      else s) s

def round (s : BaseLoop) (events : List (Nat × Mask)) : BaseLoop :=
  let s := s.dispatch events
  if s.waiting then s else { s with trace := s.trace ++ [.timers, .functors] }

def loop (s : BaseLoop) (rounds : List (List (Nat × Mask))) : BaseLoop := rounds.foldl round s

/-- Every `accept4` was on a socket in non-blocking mode, and has returned. -/
structure GivesBack (s : BaseLoop) : Prop where
  mode : ∀ fd nonBlocking, .accept4 fd nonBlocking ∈ s.trace → nonBlocking = true
  returned : s.waiting = false

def Reads (s : BaseLoop) (event : Nat × Mask) : Prop :=
  event.1 = s.acceptor.channel.fd ∧ .read ∈ Channel.handleEvent event.2

end BaseLoop

end Myself
