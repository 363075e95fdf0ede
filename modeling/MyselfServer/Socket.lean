import Std.Data.TreeMap
import MyselfServer.Text

/-!
# Descriptors

`Socket` over the status flags the kernel keeps of open descriptors, and
`FileBody`, the range of an open file that is to be sent.
-/

namespace Myself

open Text

structure FileFlags where
  nonBlocking : Bool
  closeOnExec : Bool
  reuseAddr : Bool := false
  address : Option (BitVec 32 × BitVec 16) := none
  backlog : Option Nat := none

abbrev Kernel := Std.TreeMap Nat FileFlags compare

inductive SocketError where
  | sysError (what : String) (errno : Nat)
  | invalidIp (ip : Bytes)

structure ListenAnswers where
  socket : Except Nat Nat
  inetPton : Option (BitVec 32)
  bind : Option Nat
  listen : Option Nat

/-- No descriptor is `-1` in the source. -/
structure Socket where
  fd : Option Nat := none

namespace Socket

def valid (s : Socket) : Bool := s.fd.isSome

def close (_ : Socket) : Socket := ⟨none⟩

def move (s : Socket) : Socket × Socket := (⟨s.fd⟩, ⟨none⟩)

def setReuseAddr (s : Socket) (k : Kernel) (on : Bool) : Kernel :=
  match s.fd with
  | none => k
  | some fd => k.modify fd fun f => { f with reuseAddr := on }

def setNonBlocking (s : Socket) (k : Kernel) (on : Bool) : Except SocketError Kernel :=
  match s.fd.bind fun fd => k[fd]? with
  | none => .error (.sysError "fcntl(F_GETFL)" 9)
  | some f => .ok (k.insert (s.fd.getD 0) { f with nonBlocking := on })

/-- `::socket(AF_INET, SOCK_STREAM, 0)`: without `SOCK_NONBLOCK` in the type
the new socket is in blocking mode. -/
def listenOn (k : Kernel) (answers : ListenAnswers) (ip : Bytes) (port : Int) (backlog : Nat) :
    Except SocketError (Socket × Kernel) :=
  match answers.socket with
  | .error errno => .error (.sysError "socket" errno)
  | .ok fd =>
    let sock : Socket := ⟨some fd⟩
    let k := k.insert fd { nonBlocking := false, closeOnExec := false }
    let k := sock.setReuseAddr k true
    let addr := if ip.isEmpty ∨ ip = bytes "0.0.0.0" then some 0 else answers.inetPton
    match addr with
    | none => .error (.invalidIp ip)
    | some addr =>
      match answers.bind with
      | some errno => .error (.sysError "bind" errno)
      | none =>
        let k := k.modify fd fun f => { f with address := some (addr, BitVec.ofInt 16 port) }
        match answers.listen with
        | some errno => .error (.sysError "listen" errno)
        | none => .ok (sock, k.modify fd fun f => { f with backlog := some backlog })

end Socket

structure FileBody where
  fd : Nat
  offset : Nat
  length : Nat
  deriving DecidableEq

end Myself
