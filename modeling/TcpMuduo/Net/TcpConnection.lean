import TcpMuduo.Net.BufferQueue
import TcpMuduo.Net.Channel

/-!
`TcpConnection`: the operations that run on the thread of its loop, as
functions on the connection and on what it reaches through its loop: the
poller, the functor queue and the calls it makes on the socket and on the user.
-/

set_option autoImplicit false
set_option relaxedAutoImplicit false

namespace TcpMuduo

/-- The identity of a `TcpConnection` object. -/
abbrev ConnId := Nat

/-- The address of a string's bytes, as `c_str()` returns it. -/
abbrev Address := Nat

/-- The channels a poller can hold pointers to. -/
inductive ChannelRef
  | wakeup
  | acceptor
  | conn (c : ConnId)
  deriving DecidableEq, Repr

/-- What is bound into the functors of a loop. `sendInLoop` keeps the address and the length of
the caller's string, not its bytes; `call` is a history, the number of the `send` call. -/
inductive Functor
  | listen
  | connectEstablished (c : ConnId)
  | connectDestroyed (c : ConnId)
  | removeConnectionInLoop (c : ConnId)
  | sendInLoop (c : ConnId) (data : Address) (len : Nat) (call : Nat)
  | shutdownInLoop (c : ConnId)
  | writeCompleteCallback (c : ConnId)
  | highWaterMarkCallback (c : ConnId) (size : Nat)
  | user
  deriving DecidableEq, Repr

inductive StateE
  | kDisconnected
  | kConnecting
  | kConnected
  | kDisconnecting
  deriving DecidableEq, Repr

/-- `writeCompleteCallback_` and `highWaterMarkCallback_` say whether the callback is set. The
addresses are used in log messages only and left out. -/
structure TcpConnection where
  loop_ : Nat
  name_ : String
  state_ : StateE
  channel_ : Channel
  writeCompleteCallback_ : Bool
  highWaterMarkCallback_ : Bool
  highWaterMark_ : Nat
  inputBuffer_ : ValidBuffer
  outputBuffer_ : ValidBuffer

/-- What a connection does to the outside: invocations of the user's callbacks and calls on its
socket. `connectionCallback` carries what `connected()` returns when it is invoked,
`shutDownWrite` the number of bytes left in `outputBuffer_`. -/
inductive ConnEvent
  | connectionCallback (connected : Bool)
  | messageCallback (readable : List UInt8)
  | closeCallback
  | writeCompleteCallback
  | highWaterMarkCallback (size : Nat)
  | write (offered : List UInt8) (r : WriteResult)
  | shutDownWrite (backlog : Nat)
  deriving DecidableEq, Repr

/-- A connection and its surroundings in its loop. `events` is the history of what it has done to
the outside; `queue` collects the functors that the operation passes to `queueInLoop`. -/
structure ConnEnv where
  conn : TcpConnection
  poller : EpollPoller ChannelRef
  events : List ConnEvent
  queue : List Functor

namespace TcpConnection

/-- The constructor, with the callbacks `newConnection` sets. -/
def new (loop : Nat) (nameArg : String) (sockfd : Nat) (writeCompleteCallback : Bool) :
    TcpConnection where
  loop_ := loop
  name_ := nameArg
  state_ := .kConnecting
  channel_ := Channel.new sockfd
  writeCompleteCallback_ := writeCompleteCallback
  highWaterMarkCallback_ := false
  highWaterMark_ := 64 * 1024 * 1024
  inputBuffer_ := ValidBuffer.new
  outputBuffer_ := ValidBuffer.new

def connected (self : TcpConnection) : Bool := self.state_ == .kConnected

end TcpConnection

namespace ConnEnv

def emit (e : ConnEnv) (event : ConnEvent) : ConnEnv := { e with events := e.events ++ [event] }

def queueInLoop (e : ConnEnv) (f : Functor) : ConnEnv := { e with queue := e.queue ++ [f] }

def queueIf (e : ConnEnv) (test : Bool) (f : Functor) : ConnEnv :=
  if test then e.queueInLoop f else e

def setState (e : ConnEnv) (state : StateE) : ConnEnv :=
  { e with conn := { e.conn with state_ := state } }

def setOutputBuffer (e : ConnEnv) (b : ValidBuffer) : ConnEnv :=
  { e with conn := { e.conn with outputBuffer_ := b } }

/-- `channel_->tie(shared_from_this())`. -/
def tie (e : ConnEnv) : ConnEnv :=
  { e with conn := { e.conn with channel_ := { e.conn.channel_ with tied_ := true } } }

/-- An operation on `channel_`, through the loop's poller. -/
def channel (c : ConnId) (op : ChannelOp) (e : ConnEnv) : ConnEnv :=
  let r := op.apply (.conn c) e.poller e.conn.channel_
  { e with conn := { e.conn with channel_ := r.2 }, poller := r.1 }

def shutDownWrite (e : ConnEnv) : ConnEnv :=
  e.emit (.shutDownWrite e.conn.outputBuffer_.readableBytes)

def connectionCallback (e : ConnEnv) : ConnEnv := e.emit (.connectionCallback e.conn.connected)

end ConnEnv

/-- The local variables of `sendInLoop` after its attempt to write directly. -/
structure SendLocals where
  nwrote : Nat
  remaining : Nat
  faultError : Bool

namespace TcpConnection

/-- The first half of `sendInLoop`: the direct write, when nothing is waiting. A disconnected
state is only logged. -/
def sendDirect (c : ConnId) (data : List UInt8) (r : WriteResult) (e : ConnEnv) :
    ConnEnv × SendLocals :=
  let locals : SendLocals := { nwrote := 0, remaining := 0, faultError := false }
  if !e.conn.channel_.isWriting && e.conn.outputBuffer_.readableBytes == 0 then
    let e := e.emit (.write data r)
    match r with
    | .wrote nwrote =>
      let remaining := data.length - nwrote
      let e := e.queueIf (remaining == 0 && e.conn.writeCompleteCallback_)
        (.writeCompleteCallback c)
      (e, { locals with nwrote := nwrote, remaining := remaining })
    | .failed errno =>
      if errno != .EWOULDBLOCK then
        (e, { locals with faultError := errno == .EPIPE || errno == .ECONNRESET })
      else (e, locals)
  else (e, locals)

/-- The second half of `sendInLoop`: what remains goes to `outputBuffer_`. -/
def sendRemaining (c : ConnId) (data : List UInt8) (locals : SendLocals) (e : ConnEnv) : ConnEnv :=
  if !locals.faultError && locals.remaining > 0 then
    let oldLen := e.conn.outputBuffer_.readableBytes
    let e := e.queueIf (oldLen + locals.remaining ≥ e.conn.highWaterMark_ &&
        oldLen < e.conn.highWaterMark_ && e.conn.highWaterMarkCallback_)
      (.highWaterMarkCallback c (oldLen + locals.remaining))
    let e := e.setOutputBuffer
      (e.conn.outputBuffer_.append ((data.drop locals.nwrote).take locals.remaining))
    if !e.conn.channel_.isWriting then e.channel c .enableWriting else e
  else e

def sendInLoop (c : ConnId) (data : List UInt8) (r : WriteResult) (e : ConnEnv) : ConnEnv :=
  let (e, locals) := sendDirect c data r e
  sendRemaining c data locals e

def shutdownInLoop (e : ConnEnv) : ConnEnv :=
  if !e.conn.channel_.isWriting then e.shutDownWrite else e

def connectEstablished (c : ConnId) (e : ConnEnv) : ConnEnv :=
  let e := e.setState .kConnected
  let e := e.tie
  let e := e.channel c .enableReading
  e.connectionCallback

/-- The branch of `connectDestroyed` taken when it has read `kConnected`. -/
def connectDestroyedClose (c : ConnId) (e : ConnEnv) : ConnEnv :=
  let e := e.setState .kDisconnected
  let e := e.channel c .disbaleAll
  e.connectionCallback

/-- The last statement of `connectDestroyed`. -/
def connectDestroyedRemove (c : ConnId) (e : ConnEnv) : ConnEnv := e.channel c .remove

/-- `handleRead`, but for the `handleClose` or `handleError` it ends with when nothing was read. -/
def handleRead (r : ReadvResult) (e : ConnEnv) (fits : r.Fits e.conn.inputBuffer_.iovLen) :
    ConnEnv :=
  let n := r.ret
  let e := { e with conn := { e.conn with inputBuffer_ := e.conn.inputBuffer_.readFd r fits } }
  if n > 0 then e.emit (.messageCallback e.conn.inputBuffer_.content) else e

/-- `handleWrite` up to its test of `state_`; the flag says whether that test follows. -/
def handleWriteDrain (c : ConnId) (r : WriteResult) (e : ConnEnv) : ConnEnv × Bool :=
  if e.conn.channel_.isWriting then
    let e := e.emit (.write (e.conn.outputBuffer_.writeFd r).1 r)
    let n := r.ret
    if n > 0 then
      let e := e.setOutputBuffer (e.conn.outputBuffer_.retrieve n.toNat)
      if e.conn.outputBuffer_.readableBytes == 0 then
        let e := e.channel c .disableWriting
        (e.queueIf e.conn.writeCompleteCallback_ (.writeCompleteCallback c), true)
      else (e, false)
    else (e, false)
  else (e, false)

/-- The end of `handleWrite` after a drain. -/
def handleWriteEnd (e : ConnEnv) : ConnEnv :=
  if e.conn.state_ = .kDisconnecting then shutdownInLoop e else e

def handleWrite (c : ConnId) (r : WriteResult) (e : ConnEnv) : ConnEnv :=
  let (e, drained) := handleWriteDrain c r e
  if drained then handleWriteEnd e else e

/-- `handleClose` up to its call of `closeCallback_`. -/
def handleClose (c : ConnId) (e : ConnEnv) : ConnEnv :=
  let e := e.setState .kDisconnected
  let e := e.channel c .disbaleAll
  e.connectionCallback

end TcpConnection

/-- A connection right after `connectEstablished`, alone in its loop. -/
def ConnEnv.established (c : ConnId) (sockfd : Nat) : ConnEnv :=
  TcpConnection.connectEstablished c
    { conn := TcpConnection.new 1 "" sockfd true, poller := EpollPoller.new, events := [],
      queue := [] }

/-- The bytes the kernel has taken over in the writes of a history. -/
def accepted (events : List ConnEvent) : List UInt8 :=
  events.flatMap fun
    | .write offered r => r.taken offered
    | _ => []

@[simp] theorem accepted_nil : accepted [] = [] := rfl

@[simp] theorem accepted_append (events more : List ConnEvent) :
    accepted (events ++ more) = accepted events ++ accepted more := by
  simp [accepted]

end TcpMuduo
