import MyselfServer.Channel
import MyselfServer.Prog
import MyselfServer.Socket
import MyselfServer.TimerQueue

/-!
# A connection

`TcpConnection` on its loop. The functions are programs over the connection,
the loop's channels and timers, and the kernel. The kernel's answers to the
calls on the socket stand in lists, one for each kind of call; a call whose
list is empty has not been answered yet. Buffers are the bytes they hold.
-/

namespace Myself

open Text Prog

/-- What `write`, `sendfile` and `pread` answer; the kernel never takes or
gives more than it was asked for. -/
inductive Answer where
  | count (n : Nat)
  | again
  | interrupted
  | failed (errno : Nat)
  deriving DecidableEq

/-- What a read answers; no bytes mean the end of the stream. -/
inductive ReadAnswer where
  | data (bytes : Bytes)
  | again
  | interrupted
  | failed (errno : Nat)

/-- The calls on the socket, in order. `armed` says whether `EPOLLOUT` was in
the registered mask, `left` whether `output_` or `pendingFile_` held anything. -/
inductive Syscall where
  | read (fd : Option Nat) (ret : Option Nat) (armed : Bool)
  | write (fd : Option Nat) (asked : Nat) (ret : Option Nat)
  | sendfile (fd : Option Nat) (asked : Nat) (ret : Option Nat)
  | getsockopt (fd : Option Nat)
  | shutdown (fd : Option Nat) (left : Bool)
  | close (fd : Option Nat) (left : Bool)
  deriving DecidableEq

inductive MethodKind where
  | kMethodGet
  | kMethodHead
  | kMethodPost
  | kMethodOther
  deriving DecidableEq

structure Metrics where
  bytesRead : Nat := 0
  bytesWritten : Nat := 0
  errorsTotal : Nat := 0
  connectionsCurrent : Int := 0
  methodCounts : MethodKind → Nat := fun _ => 0
  requestsTotal : Nat := 0
  statusClasses : Int → Nat := fun _ => 0
  requestsNotModified : Nat := 0
  requestsRateLimited : Nat := 0

structure TcpConnection where
  socket : Socket
  channel : Channel
  input : Bytes := []
  output : Bytes := []
  closed : Bool := false
  shutdownAfterWrite : Bool := false
  pendingFile : Option FileBody := none
  fileOffset : Nat := 0
  fileRemaining : Nat := 0
  preFileBytes : Nat := 0
  idleTimeoutSeconds : Rat := 0
  idleTimer : TimerId := {}

/-- The connection, its loop, the kernel, and whatever the callbacks of the
connection work on. A timer's callback is the connection it closes. -/
structure World (σ : Type) where
  conn : TcpConnection
  reactor : Reactor := {}
  timers : TimerQueue Nat
  sequence : Nat := 1
  clock : Timestamp := 0
  reads : List ReadAnswer := []
  writes : List Answer := []
  sendfiles : List Answer := []
  preads : List Answer := []
  files : Nat → Bytes
  wire : Bytes := []
  trace : List Syscall := []
  metrics : Metrics := {}
  app : σ

namespace World

variable {σ : Type}

def armed (w : World σ) : Bool :=
  match w.reactor.interest[w.conn.channel.fd]? with
  | none => false
  | some events => events &&& EPOLLOUT != 0

def left (w : World σ) : Bool := !w.conn.output.isEmpty || w.conn.pendingFile.isSome

def log (w : World σ) (call : Syscall) : World σ := { w with trace := w.trace ++ [call] }

def addErrors (w : World σ) : World σ :=
  { w with metrics := { w.metrics with errorsTotal := w.metrics.errorsTotal + 1 } }

def addBytesRead (w : World σ) (n : Nat) : World σ :=
  { w with metrics := { w.metrics with bytesRead := w.metrics.bytesRead + n } }

def addBytesWritten (w : World σ) (n : Nat) : World σ :=
  { w with metrics := { w.metrics with bytesWritten := w.metrics.bytesWritten + n } }

def withChannel (w : World σ) (f : Channel → Reactor → Channel × Reactor) : World σ :=
  let (channel, reactor) := f w.conn.channel w.reactor
  { w with conn := { w.conn with channel := channel }, reactor := reactor }

def cancelIdleTimer (w : World σ) : World σ :=
  if w.conn.idleTimer.valid then
    { w with
      timers := w.timers.cancelInLoop w.conn.idleTimer
      conn := { w.conn with idleTimer := {} } }
  else w

def runAfter (w : World σ) (delaySeconds : Rat) : World σ :=
  { w with
    timers := w.timers.insertInLoop
      ⟨w.conn.channel.self, addTime w.clock (secondsToDuration delaySeconds), 0, w.sequence⟩
    sequence := w.sequence + 1
    conn := { w.conn with idleTimer := ⟨w.sequence, some w.timers.self⟩ } }

def refreshIdleTimer (w : World σ) : World σ :=
  if w.conn.idleTimeoutSeconds ≤ 0 ∨ w.conn.closed then w
  else w.cancelIdleTimer.runAfter w.conn.idleTimeoutSeconds

end World

def EBADF : Nat := 9

namespace TcpConnection

variable {σ : Type}

/-! ## System calls -/

def readFd : Prog (World σ) Answer := fun w =>
  match w.conn.socket.fd, w.reads with
  | none, _ => .returned (.failed EBADF) (w.log (.read none none w.armed))
  | some _, [] => .waits w
  | some fd, .data bytes :: rest =>
    .returned (.count bytes.length)
      ({ w with reads := rest, conn := { w.conn with input := w.conn.input ++ bytes } }.log
        (.read (some fd) (some bytes.length) w.armed))
  | some fd, .again :: rest =>
    .returned .again ({ w with reads := rest }.log (.read (some fd) none w.armed))
  | some fd, .interrupted :: rest =>
    .returned .interrupted ({ w with reads := rest }.log (.read (some fd) none w.armed))
  | some fd, .failed errno :: rest =>
    .returned (.failed errno) ({ w with reads := rest }.log (.read (some fd) none w.armed))

def write (data : Bytes) : Prog (World σ) Answer := fun w =>
  match w.conn.socket.fd, w.writes with
  | none, _ => .returned (.failed EBADF) (w.log (.write none data.length none))
  | some _, [] => .waits w
  | some fd, .count n :: rest =>
    let k := min n data.length
    .returned (.count k)
      ({ w with writes := rest, wire := w.wire ++ data.take k }.log
        (.write (some fd) data.length (some k)))
  | some fd, answer :: rest =>
    .returned answer ({ w with writes := rest }.log (.write (some fd) data.length none))

def sendfile (file : FileBody) : Prog (World σ) Answer := fun w =>
  match w.conn.socket.fd, w.sendfiles with
  | none, _ => .returned (.failed EBADF) (w.log (.sendfile none w.conn.fileRemaining none))
  | some _, [] => .waits w
  | some fd, .count n :: rest =>
    let bytes := ((w.files file.fd).drop w.conn.fileOffset).take (min n w.conn.fileRemaining)
    .returned (.count bytes.length)
      ({ w with
        sendfiles := rest
        wire := w.wire ++ bytes
        conn := { w.conn with fileOffset := w.conn.fileOffset + bytes.length } }.log
        (.sendfile (some fd) w.conn.fileRemaining (some bytes.length)))
  | some fd, answer :: rest =>
    .returned answer
      ({ w with sendfiles := rest }.log (.sendfile (some fd) w.conn.fileRemaining none))

def pread (file : FileBody) (total : Nat) : Prog (World σ) ReadAnswer := fun w =>
  match w.preads with
  | [] => .waits w
  | .count n :: rest =>
    .returned (.data (((w.files file.fd).drop (file.offset + total)).take
      (min n (file.length - total)))) { w with preads := rest }
  | .again :: rest => .returned .again { w with preads := rest }
  | .interrupted :: rest => .returned .interrupted { w with preads := rest }
  | .failed errno :: rest => .returned (.failed errno) { w with preads := rest }

def shutdownSocket : Prog (World σ) Unit :=
  update fun w => w.log (.shutdown w.conn.socket.fd w.left)

/-! ## Closing -/

section
variable (closeCallback : Prog (World σ) Unit)

def handleClose : Prog (World σ) Unit := do
  let w ← world
  if w.conn.closed then pure ()
  else do
    update fun w => { w with conn := { w.conn with closed := true } }
    update World.cancelIdleTimer
    update fun w => w.withChannel Channel.disableAll
    update fun w => w.withChannel Channel.remove
    update fun w => { w with conn := { w.conn with socket := w.conn.socket.close } }.log
      (.close w.conn.socket.fd w.left)
    update fun w => { w with
      conn := { w.conn with pendingFile := none, fileRemaining := 0, preFileBytes := 0 } }
    closeCallback

def forceClose : Prog (World σ) Unit := handleClose closeCallback

def handleError : Prog (World σ) Unit := do
  update fun w => w.log (.getsockopt w.conn.socket.fd)
  update World.addErrors
  handleClose closeCallback

/-! ## Writing -/

def enableWriting : Prog (World σ) Unit := update fun w => w.withChannel Channel.enableWriting

def queueOutput (data : Bytes) : Prog (World σ) Unit :=
  if data.length > 0 then do
    update fun w => { w with conn := { w.conn with output := w.conn.output ++ data } }
    enableWriting
  else pure ()

def sendInLoop (data : Bytes) : Prog (World σ) Unit := do
  let w ← world
  -- an empty output buffer is written around
  if w.conn.channel.isWriting = false ∧ w.conn.output.isEmpty then
    match ← write data with
    | .count n => do
      update fun w => w.addBytesWritten n
      queueOutput (data.drop n)
    | .again => queueOutput data
    | .interrupted => queueOutput data
    | .failed _ => do
      update World.addErrors
      handleClose closeCallback
  else queueOutput data

def send (data : Bytes) : Prog (World σ) Unit := do
  let w ← world
  if w.conn.closed then pure () else sendInLoop closeCallback data

def flushRound (limit : Nat) : Prog (World σ) (Nat ⊕ Bool) := do
  let w ← world
  if limit > 0 ∧ w.conn.output.length > 0 then
    match ← write (w.conn.output.take (min limit w.conn.output.length)) with
    | .count n =>
      if n > 0 then do
        update fun w => { w with conn := { w.conn with
          output := w.conn.output.drop n
          preFileBytes := w.conn.preFileBytes - min w.conn.preFileBytes n } }.addBytesWritten n
        pure (.inl (limit - n))
      else do
        update World.addErrors
        handleClose closeCallback
        pure (.inr false)
    | .interrupted => pure (.inl limit)
    | .again => pure (.inr false)
    | .failed _ => do
      update World.addErrors
      handleClose closeCallback
      pure (.inr false)
  else pure (.inr true)

def flushOutput (limit : Nat) : Prog (World σ) Bool :=
  loop (fun w => w.writes.length) (flushRound closeCallback) limit

def fileRound (file : FileBody) (_ : Unit) : Prog (World σ) (Unit ⊕ Bool) := do
  let w ← world
  if w.conn.fileRemaining > 0 then
    match ← sendfile file with
    | .count n =>
      if n > 0 then do
        update fun w => { w with conn := { w.conn with
          fileRemaining := w.conn.fileRemaining - n } }.addBytesWritten n
        pure (.inl ())
      else do
        -- the file was cut off while it was sent
        update fun w => { w with conn := { w.conn with fileRemaining := 0 } }
        pure (.inr true)
    | .interrupted => pure (.inl ())
    | .again => pure (.inr false)
    | .failed _ => do
      update World.addErrors
      handleClose closeCallback
      pure (.inr false)
  else pure (.inr true)

def sendPendingFile (file : FileBody) : Prog (World σ) Bool := do
  if ← loop (fun w => w.sendfiles.length) (fileRound closeCallback file) () then
    update fun w => { w with conn := { w.conn with pendingFile := none, fileRemaining := 0 } }
    pure true
  else pure false

/-! `handleWrite` has three phases: the bytes before the file, the file, and
the bytes behind it. -/

def writeBeforeFile : Prog (World σ) Bool := do
  let w ← world
  if w.conn.preFileBytes > 0 then
    if ← flushOutput closeCallback w.conn.preFileBytes then
      update fun w => { w with conn := { w.conn with preFileBytes := 0 } }
      pure true
    else pure false
  else pure true

def writeFile : Prog (World σ) Bool := do
  let w ← world
  match w.conn.pendingFile with
  | none => pure true
  | some file => sendPendingFile closeCallback file

def writeBehindFile : Prog (World σ) Bool := do
  let w ← world
  if w.conn.output.length > 0 then flushOutput closeCallback w.conn.output.length else pure true

def writeDone : Prog (World σ) Unit := do
  update fun w => w.withChannel Channel.disableWriting
  let w ← world
  if w.conn.shutdownAfterWrite then shutdownSocket else pure ()

def handleWrite : Prog (World σ) Unit := do
  let w ← world
  if w.conn.closed then pure ()
  else
    if ← writeBeforeFile closeCallback then
      if ← writeFile closeCallback then
        if ← writeBehindFile closeCallback then writeDone else pure ()
      else pure ()
    else pure ()

def copyRound (file : FileBody) (data : Bytes) : Prog (World σ) (Bytes ⊕ Bytes) :=
  if data.length < file.length then do
    match ← pread file data.length with
    | .data bytes => if bytes.length > 0 then pure (.inl (data ++ bytes)) else pure (.inr data)
    | .interrupted => pure (.inl data)
    | .again => pure (.inr data)
    | .failed _ => pure (.inr data)
  else pure (.inr data)

def copyFile (file : FileBody) : Prog (World σ) Bytes :=
  loop (fun w => w.preads.length) (copyRound file) []

/-- A file behind another one is copied; else it is sent behind what is buffered. -/
def sendFile (file : FileBody) : Prog (World σ) Unit := do
  let w ← world
  if w.conn.closed ∨ file.length = 0 then pure ()
  else if w.conn.pendingFile.isSome then do
    let data ← copyFile file
    sendInLoop closeCallback data
  else do
    update fun w => { w with conn := { w.conn with
      preFileBytes := w.conn.output.length
      pendingFile := some file
      fileOffset := file.offset
      fileRemaining := file.length } }
    enableWriting
    handleWrite closeCallback

end

def shutdownWrite : Prog (World σ) Unit := do
  let w ← world
  if w.conn.closed then pure ()
  else if w.conn.channel.isWriting = false ∧ w.conn.output.isEmpty ∧ w.conn.pendingFile.isNone then
    shutdownSocket
  else update fun w => { w with conn := { w.conn with shutdownAfterWrite := true } }

/-! ## Idle timer -/

def setIdleTimeout (seconds : Rat) : Prog (World σ) Unit := do
  update fun w => { w with conn := { w.conn with idleTimeoutSeconds := seconds } }
  let w ← world
  if 0 < seconds ∧ w.conn.closed = false then update World.refreshIdleTimer else pure ()

section
variable (closeCallback messageCallback : Prog (World σ) Unit)

def handleIdleTimeout : Prog (World σ) Unit := do
  let w ← world
  if w.conn.closed then pure () else handleClose closeCallback

/-! ## Reading -/

inductive ReadEnd where
  | again
  | peerClosed
  | failed

def readRound (activity : Bool) : Prog (World σ) (Bool ⊕ (Bool × ReadEnd)) := do
  match ← readFd with
  | .count n =>
    if n > 0 then do
      update fun w => w.addBytesRead n
      messageCallback
      pure (.inl true)
    else pure (.inr (activity, .peerClosed))
  | .again => pure (.inr (activity, .again))
  | .interrupted => pure (.inl activity)
  | .failed _ => pure (.inr (activity, .failed))

def refreshAfter (activity : Bool) : Prog (World σ) Unit :=
  if activity then update World.refreshIdleTimer else pure ()

def handleRead : Prog (World σ) Unit := do
  match ← loop (fun w => w.reads.length) (readRound messageCallback) false with
  | (_, .failed) => do
    update World.addErrors
    handleError closeCallback
  | (activity, .again) => refreshAfter activity
  | (activity, .peerClosed) => do
    refreshAfter activity
    handleClose closeCallback

def callback : ChannelCallback → Prog (World σ) Unit
  | .read => handleRead closeCallback messageCallback
  | .write => handleWrite closeCallback
  | .close => handleClose closeCallback
  | .error => handleError closeCallback

def callbacks : List ChannelCallback → Prog (World σ) Unit
  | [] => pure ()
  | cb :: cbs => do
    callback closeCallback messageCallback cb
    callbacks cbs

def dispatch (revents : Mask) : Prog (World σ) Unit := do
  let w ← world
  if w.reactor.channels.contains w.conn.channel.fd then
    callbacks closeCallback messageCallback (Channel.handleEvent revents)
  else pure ()

end

def start : Prog (World σ) Unit := do
  update fun w => w.withChannel Channel.enableReading
  update fun w => { w with reactor := w.reactor.updateChannel w.conn.channel }

end TcpConnection

end Myself
