import Mathlib.Tactic.Simps.Basic
import IMServer.Lib.Pipe
import IMServer.Net.Buffer

/-!
# `TcpConnection`

One connection with its channel, its output buffer and the functors its loop has pending for it, as
the code of the loop, the code in its callbacks and other threads drive it. The kernel answers each
`write` as it likes. What the outside sees of it all is kept in a log.
-/

namespace IMServer.Net

inductive StateE
  | kDisconnected
  | kConnecting
  | kConnected
  | kDisconnecting
deriving DecidableEq

/-- What `sockets::write` returns for `len` bytes. -/
inductive Wrote
  /-- `min n len` -/
  | bytes (n : Nat)
  | wouldBlock
  /-- `EPIPE` or `ECONNRESET` -/
  | reset
  | failed
deriving DecidableEq

/-- What the loop has to call, of all that is bound to this connection. -/
inductive Functor
  | sendInLoop (message : Bytes)
  | shutdownInLoop
  | forceCloseInLoop
  | startReadInLoop
  | stopReadInLoop
  | connectDestroyed
  | writeCompleteCallback
  | highWaterMarkCallback (len : Nat)
deriving DecidableEq

/-- What is logged beside what goes in and out. -/
inductive Note
  /-- `connectionCallback_`, once connected -/
  | up
  /-- `messageCallback_`, after `data` was read -/
  | message (data : Bytes)
  /-- `send`, in any thread and any state -/
  | called (message : Bytes)
  /-- `send` does nothing on a connection that is not connected -/
  | dropped (message : Bytes)
  | forceClose
  /-- `sendInLoop` drops a message, on a connection that is reset -/
  | lost (message : Bytes)
  /-- or on one that is down -/
  | givenUp (message : Bytes)
  | writeComplete
  | highWaterMark (len : Nat)
deriving DecidableEq

/-- `taken` is a message `sendInLoop` writes or keeps, `wrote` what the kernel took, `fin` is
`shutdownWrite` and `down` the second `connectionCallback_`. -/
abbrev Log := Pipe.Entry UInt8 Note

structure Connection where
  state : StateE := .kConnecting
  reading : Bool := true
  /-- `channel_->isReading()` -/
  isReading : Bool := false
  /-- `channel_->isWriting()` -/
  isWriting : Bool := false
  /-- the poller has the channel -/
  inPoller : Bool := false
  inputBuffer : Buffer := .new kInitialSize
  outputBuffer : Buffer := .new kInitialSize
  highWaterMark : Nat := 64 * 1024 * 1024
  /-- whether the callbacks are set -/
  writeCompleteCallback : Bool := false
  highWaterMarkCallback : Bool := false
  /-- the server's `connections_` has an entry under its name -/
  registered : Bool := true
  pendingFunctors : List Functor := []
  log : List Log := []

namespace Connection

/-- The constructor, and the callbacks that are set. -/
def new (highWaterMark : Nat) (writeCompleteCallback highWaterMarkCallback : Bool) : Connection where
  highWaterMark := highWaterMark
  writeCompleteCallback := writeCompleteCallback
  highWaterMarkCallback := highWaterMarkCallback

@[simps]
def record (c : Connection) (l : Log) : Connection := { c with log := c.log ++ [l] }

@[simps]
def queueInLoop (c : Connection) (f : Functor) : Connection := { c with pendingFunctors := c.pendingFunctors ++ [f] }

@[simps]
def setPendingFunctors (c : Connection) (fs : List Functor) : Connection := { c with pendingFunctors := fs }

@[simps]
def unregister (c : Connection) : Connection := { c with registered := false }

@[simps]
def setState (c : Connection) (s : StateE) : Connection := { c with state := s }

@[simps]
def setInputBuffer (c : Connection) (buf : Buffer) : Connection := { c with inputBuffer := buf }

@[simps]
def setOutputBuffer (c : Connection) (buf : Buffer) : Connection := { c with outputBuffer := buf }

/-! ### The channel -/

@[simps]
def enableReading (c : Connection) : Connection := { c with isReading := true, inPoller := true }

@[simps]
def disableReading (c : Connection) : Connection := { c with isReading := false, inPoller := true }

@[simps]
def enableWriting (c : Connection) : Connection := { c with isWriting := true, inPoller := true }

@[simps]
def disableWriting (c : Connection) : Connection := { c with isWriting := false, inPoller := true }

@[simps]
def disableAll (c : Connection) : Connection := { c with isReading := false, isWriting := false, inPoller := true }

/-- `channel_->remove()` and what `removeChannel` asserts. -/
def removeChannel (c : Connection) : Except Fault Connection :=
  if c.isReading = false ∧ c.isWriting = false ∧ c.inPoller then .ok { c with inPoller := false }
  else .error .assertion

/-! ### Writing -/

/-- The end of `sendInLoop`, for the bytes that are left. -/
def keep (c : Connection) (remaining : Bytes) : Except Fault Connection := do
  let oldLen := c.outputBuffer.readableBytes
  let c :=
    if c.highWaterMark ≤ oldLen + remaining.length ∧ oldLen < c.highWaterMark ∧ c.highWaterMarkCallback then
      c.queueInLoop (.highWaterMarkCallback (oldLen + remaining.length))
    else c
  let buf ← c.outputBuffer.append remaining
  let c := c.setOutputBuffer buf
  return if c.isWriting then c else c.enableWriting

def sendInLoop (c : Connection) (message : Bytes) (w : Wrote) : Except Fault Connection :=
  if c.state = .kDisconnected then .ok (c.record (.note (.givenUp message)))
  else if c.isWriting = false ∧ c.outputBuffer.readableBytes = 0 then
    match w with
    | .bytes n =>
      let c := (c.record (.taken message)).record (.wrote (message.take n))
      if message.length ≤ n then
        .ok (if c.writeCompleteCallback then c.queueInLoop .writeCompleteCallback else c)
      else c.keep (message.drop n)
    | .reset => .ok (c.record (.note (.lost message)))
    | _ => if message = [] then .ok (c.record (.taken message)) else (c.record (.taken message)).keep message
  else if message = [] then .ok (c.record (.taken message))
  else (c.record (.taken message)).keep message

def shutdownInLoop (c : Connection) : Connection := if c.isWriting then c else c.record .fin

/-- The end of `handleWrite`, when there is nothing left. -/
def drained (c : Connection) : Connection :=
  let c := c.disableWriting
  let c := if c.writeCompleteCallback then c.queueInLoop .writeCompleteCallback else c
  if c.state = .kDisconnecting then c.shutdownInLoop else c

def handleWrite (c : Connection) (w : Wrote) : Except Fault Connection :=
  if c.isWriting then
    match w with
    | .bytes n =>
      let n := min n c.outputBuffer.readableBytes
      if 0 < n then do
        let buf ← c.outputBuffer.retrieve n
        let c := (c.record (.wrote (c.outputBuffer.content.take n))).setOutputBuffer buf
        return if c.outputBuffer.readableBytes = 0 then c.drained else c
      else .ok c
    | _ => .ok c
  else .ok c

/-! ### What user code calls, in the thread of the loop -/

def startReadInLoop (c : Connection) : Connection :=
  if c.reading = false ∨ c.isReading = false then { c.enableReading with reading := true } else c

def stopReadInLoop (c : Connection) : Connection :=
  if c.reading ∨ c.isReading then { c.disableReading with reading := false } else c

inductive Act
  | send (message : Bytes) (w : Wrote)
  /-- the overload that empties a buffer, here the input buffer -/
  | sendBuffer (w : Wrote)
  | shutdown
  | forceClose
  /-- The timer it starts calls `forceClose`, if the connection is still there. -/
  | forceCloseWithDelay
  | startRead
  | stopRead
  /-- of the input buffer -/
  | retrieve (len : Nat)
deriving DecidableEq

def act (c : Connection) : Act → Except Fault Connection
  | .send message w =>
    let c := c.record (.note (.called message))
    if c.state = .kConnected then c.sendInLoop message w else .ok (c.record (.note (.dropped message)))
  | .sendBuffer w =>
    let message := c.inputBuffer.content
    let c := c.record (.note (.called message))
    if c.state = .kConnected then do
      let c ← c.sendInLoop message w
      return c.setInputBuffer c.inputBuffer.retrieveAll
    else .ok (c.record (.note (.dropped message)))
  | .shutdown =>
    .ok (if c.state = .kConnected then (c.setState .kDisconnecting).shutdownInLoop else c)
  | .forceClose =>
    .ok (if c.state = .kConnected ∨ c.state = .kDisconnecting then
        ((c.record (.note .forceClose)).setState .kDisconnecting).queueInLoop .forceCloseInLoop
      else c)
  | .forceCloseWithDelay =>
    .ok (if c.state = .kConnected ∨ c.state = .kDisconnecting then
        (c.record (.note .forceClose)).setState .kDisconnecting
      else c)
  | .startRead => .ok c.startReadInLoop
  | .stopRead => .ok c.stopReadInLoop
  | .retrieve len => do return c.setInputBuffer (← c.inputBuffer.retrieve len)

/-- The body of a callback. -/
def acts (c : Connection) (as : List Act) : Except Fault Connection := as.foldlM act c

/-! ### Events -/

/-- The connection as `connectionCallback_` finds it, up. -/
def opened (c : Connection) : Connection := (c.setState .kConnected).enableReading.record (.note .up)

/-- And down. -/
def closed (c : Connection) : Connection := (c.setState .kDisconnected).disableAll.record .down

/-- The connection as `messageCallback_` finds it. -/
def filled (c : Connection) (data : Bytes) (buf : Buffer) : Connection :=
  (c.setInputBuffer buf).record (.note (.message data))

def connectEstablished (c : Connection) (as : List Act) : Except Fault Connection :=
  if c.state = .kConnecting then c.opened.acts as
  else .error .assertion

/-- `closeCallback_`; there is one loop, so `removeConnectionInLoop` is called at once. It asserts that there
was an entry to erase, and the connection is destroyed by a functor of the loop. -/
def removeConnection (c : Connection) : Except Fault Connection :=
  if c.registered then .ok (c.unregister.queueInLoop .connectDestroyed) else .error .assertion

def handleClose (c : Connection) (as : List Act) : Except Fault Connection :=
  if c.state = .kConnected ∨ c.state = .kDisconnecting then do
    let c ← c.closed.acts as
    c.removeConnection
  else .error .assertion

def connectDestroyed (c : Connection) (as : List Act) : Except Fault Connection :=
  if c.state = .kConnected then do
    let c ← c.closed.acts as
    c.removeChannel
  else c.removeChannel

def forceCloseInLoop (c : Connection) (as : List Act) : Except Fault Connection :=
  if c.state = .kConnected ∨ c.state = .kDisconnecting then c.handleClose as else .ok c

/-- `r` is what the socket has: bytes, none at all at the end of the stream, or an error. -/
def handleRead (c : Connection) (r : Option Bytes) (as : List Act) : Except Fault Connection :=
  match r with
  | none => .ok c
  | some [] => c.handleClose as
  | some chunk => do
    let (data, buf) ← c.inputBuffer.readFd chunk
    (c.filled data buf).acts as

structure Revents where
  hup : Bool := false
  input : Bool := false
  pri : Bool := false
  rdhup : Bool := false
  out : Bool := false
deriving DecidableEq

/-- `Channel::handleEventWithGuard`; the error callback only logs. -/
def handleEvent (c : Connection) (revents : Revents) (r : Option Bytes) (w : Wrote) (onClose onRead : List Act) :
    Except Fault Connection :=
  (if revents.hup && !revents.input then c.handleClose onClose else .ok c) >>= fun c =>
  (if revents.input || revents.pri || revents.rdhup then c.handleRead r onRead else .ok c) >>= fun c =>
  if revents.out then c.handleWrite w else .ok c

def runFunctor (c : Connection) (w : Wrote) (as : List Act) : Functor → Except Fault Connection
  | .sendInLoop message => c.sendInLoop message w
  | .shutdownInLoop => .ok c.shutdownInLoop
  | .forceCloseInLoop => c.forceCloseInLoop as
  | .startReadInLoop => .ok c.startReadInLoop
  | .stopReadInLoop => .ok c.stopReadInLoop
  | .connectDestroyed => c.connectDestroyed as
  | .writeCompleteCallback => (c.record (.note .writeComplete)).acts as
  | .highWaterMarkCallback len => (c.record (.note (.highWaterMark len))).acts as

/-! ### Runs -/

inductive Op
  | connectEstablished (as : List Act)
  | handleEvent (revents : Revents) (r : Option Bytes) (w : Wrote) (onClose onRead : List Act)
  /-- the first of the pending functors -/
  | functor (w : Wrote) (as : List Act)
  /-- other code in the thread of the loop -/
  | act (a : Act)
  /-- `~TcpServer` -/
  | connectDestroyed (as : List Act)
  /-- calls in another thread -/
  | sendElsewhere (message : Bytes)
  | shutdownElsewhere
  | startReadElsewhere
  | stopReadElsewhere
  /-- another connection of that name is removed from `connections_` -/
  | nameErased
deriving DecidableEq

def step (c : Connection) : Op → Except Fault Connection
  | .connectEstablished as => c.connectEstablished as
  | .handleEvent revents r w onClose onRead => c.handleEvent revents r w onClose onRead
  | .functor w as =>
    match c.pendingFunctors with
    | [] => .ok c
    | f :: fs => (c.setPendingFunctors fs).runFunctor w as f
  | .act a => c.act a
  | .connectDestroyed as => c.connectDestroyed as
  | .sendElsewhere message =>
    let c := c.record (.note (.called message))
    .ok (if c.state = .kConnected then c.queueInLoop (.sendInLoop message) else c.record (.note (.dropped message)))
  | .shutdownElsewhere =>
    .ok (if c.state = .kConnected then (c.setState .kDisconnecting).queueInLoop .shutdownInLoop else c)
  | .startReadElsewhere => .ok (c.queueInLoop .startReadInLoop)
  | .stopReadElsewhere => .ok (c.queueInLoop .stopReadInLoop)
  | .nameErased => .ok c.unregister

def run (c : Connection) (ops : List Op) : Except Fault Connection := ops.foldlM step c

end Connection

end IMServer.Net
