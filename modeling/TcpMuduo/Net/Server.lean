import TcpMuduo.Net.EventLoop
import TcpMuduo.Net.InetAddress
import TcpMuduo.Net.TcpConnection

/-!
`TcpServer` at run time: the base loop, the loops of the pool and any number of
user threads, each thread with the calls it has still to make. A step is taken
by one thread and touches the state that threads share at most once. The
connections are kept alive by somebody who holds their pointers.
-/

set_option autoImplicit false
set_option relaxedAutoImplicit false

namespace TcpMuduo

/-- Loop 0 is the base loop, loop `i + 1` is `loops_[i]` of the pool. -/
abbrev LoopId := Nat

/-- A thread: the one a loop runs on, or one of the user's own. -/
inductive Tid
  | loop (l : LoopId)
  | user (n : Nat)
  deriving DecidableEq, Repr

/-- What a thread has to do next. `user` is code of the user, with `some c` inside the
`messageCallback_` of `c`. A function that accesses shared state more than once is cut into
several tasks. -/
inductive Task
  | user (m : Option ConnId)
  | functor (f : Functor)
  | queueInLoop (l : LoopId) (f : Functor)
  | queueWakeup (l : LoopId)
  | quit (l : LoopId)
  | quitWakeup (l : LoopId)
  | join (l : LoopId)
  | startLoop (l : LoopId)
  | accept
  | acceptChannel (op : ChannelOp)
  | callback (c : ConnId) (k : Callback)
  | handleWriteEnd (c : ConnId)
  | closeCallback (c : ConnId)
  | connectDestroyedClose (c : ConnId)
  | connectDestroyedRemove (c : ConnId)
  | shutdownStore (c : ConnId)
  deriving DecidableEq, Repr

/-- What a thread does to a connection in one step. `retrieve` is the user taking bytes out of
`inputBuffer_`. -/
inductive ConnOp
  | connectEstablished
  | connectDestroyedClose
  | connectDestroyedRemove
  | handleRead (r : ReadvResult)
  | handleWriteDrain (r : WriteResult)
  | handleWriteEnd
  | handleClose
  | sendInLoop (data : List UInt8) (r : WriteResult)
  | shutdownInLoop
  | shutdownStore
  | closeCallback
  | writeCompleteCallback
  | highWaterMarkCallback (size : Nat)
  | retrieve (len : Nat)
  deriving DecidableEq, Repr

def ConnOp.apply (c : ConnId) (e : ConnEnv) : ConnOp → ConnEnv
  | .connectEstablished => TcpConnection.connectEstablished c e
  | .connectDestroyedClose => TcpConnection.connectDestroyedClose c e
  | .connectDestroyedRemove => TcpConnection.connectDestroyedRemove c e
  | .handleRead r =>
    if fits : r.Fits e.conn.inputBuffer_.iovLen then TcpConnection.handleRead r e fits else e
  | .handleWriteDrain r => (TcpConnection.handleWriteDrain c r e).1
  | .handleWriteEnd => TcpConnection.handleWriteEnd e
  | .handleClose => TcpConnection.handleClose c e
  | .sendInLoop data r => TcpConnection.sendInLoop c data r e
  | .shutdownInLoop => TcpConnection.shutdownInLoop e
  | .shutdownStore => e.setState .kDisconnecting
  | .closeCallback => e.emit .closeCallback
  | .writeCompleteCallback => e.emit .writeCompleteCallback
  | .highWaterMarkCallback size => e.emit (.highWaterMarkCallback size)
  | .retrieve len =>
    { e with conn := { e.conn with inputBuffer_ := e.conn.inputBuffer_.retrieve len } }

/-- A call of `send`: the thread, the state it has read and the bytes of the string at the call. -/
structure SendCall where
  thread : Tid
  conn : ConnId
  state : StateE
  data : List UInt8
  deriving DecidableEq, Repr

/-- An execution of `sendInLoop` for the `send` call number `call`. -/
structure SendRun where
  call : Nat
  thread : Tid
  data : List UInt8
  deriving DecidableEq, Repr

/-- `writeCompleteCallback_` says whether the callback is set. The descriptors of the listening
socket and of the loops' eventfds are given by the kernel. -/
structure ServerConfig where
  name_ : String
  listenAddr : InetAddress
  numThreads_ : Nat
  listenfd : Nat
  wakeupFd_ : LoopId → Nat
  writeCompleteCallback_ : Bool
  distinct : ∀ l, wakeupFd_ l ≠ listenfd

/-- `conn` and `poller` hold all connections and pollers, `fds` the descriptors in use; a thread
works on the first task of its `stack`, a loop's thread goes on in `loop()` when there is none.
`events`, `sends` and `runs` are histories. -/
structure Server where
  config : ServerConfig
  connections_ : List (String × ConnId)
  nextConnId_ : Nat
  next_ : Nat
  destroyed : Bool
  acceptChannel_ : Channel
  conn : ConnId → TcpConnection
  poller : LoopId → EpollPoller ChannelRef
  fds : List Nat
  mem : Address → UInt8
  sys : LoopId → LoopSystem Tid Functor ChannelRef
  stack : Tid → List Task
  events : ConnId → List ConnEvent
  sends : List SendCall
  runs : List SendRun

/-- A call of the user's code; a `send` that writes directly comes with the kernel's answer. -/
inductive UserCall
  | send (c : ConnId) (data : Address) (len : Nat) (r : WriteResult)
  | shutdown (c : ConnId)
  | queueInLoop (l : LoopId)
  | runInLoop (l : LoopId)
  | quit
  | retrieve (len : Nat)
  | store (p : Address) (byte : UInt8)
  deriving DecidableEq, Repr

/-- What the outside decides about a step. -/
inductive Input
  | run
  | poll (active : List (ChannelRef × EventMask))
  | accept (connfd : Option Nat)
  | read (r : ReadvResult)
  | write (r : WriteResult)
  | call (u : UserCall)
  | destroy (order : List ConnId)
  deriving DecidableEq, Repr

/-- What a step does to the data of the server, its connections and its pollers. -/
inductive Change
  | nothing
  | conn (c : ConnId) (op : ConnOp)
  | acceptor (op : ChannelOp)
  | fillActiveChannels (active : List (ChannelRef × EventMask))
  | newConnection (connfd : Nat)
  | erase (c : ConnId)
  | store (p : Address) (byte : UInt8)
  | destroy

/-- What a step does: the tasks it puts in place of the first one, the change of the data, the
step of a loop, and the entries of the histories. -/
structure Effect where
  push : List Task := []
  change : Change := .nothing
  loop : Option (LoopId × LoopInput Tid Functor ChannelRef) := none
  sent : List SendCall := []
  ran : List SendRun := []

/-- `runInLoop(f)` on the thread `t`: the call, or what is left of it after the test. -/
def runInLoop (t : Tid) (l : LoopId) (f : Functor) : Task :=
  if t = .loop l then .functor f else .queueInLoop l f

def ServerConfig.ipPort_ (config : ServerConfig) : String := config.listenAddr.toIpPort

/-- The name that `newConnection` gives to the connection number `id`. -/
def ServerConfig.connName (config : ServerConfig) (id : Nat) : String :=
  let buf := snprintf 64 ("-" ++ config.ipPort_ ++ "#" ++ Nat.repr id)
  config.name_ ++ buf

def ServerConfig.loops_ (config : ServerConfig) : List LoopId :=
  (List.range config.numThreads_).map (· + 1)

/-- The poller of a constructed `EventLoop`: its constructor enables reading of the eventfd. -/
def newPoller (wakeupFd : Nat) : EpollPoller ChannelRef :=
  (ChannelOp.enableReading.apply .wakeup EpollPoller.new (Channel.new wakeupFd)).1

namespace Server

/-- The server as the base thread enters `start()`. A thread of the pool runs the init callback
first. -/
def new (config : ServerConfig) : Server where
  config := config
  connections_ := []
  nextConnId_ := 1
  next_ := 0
  destroyed := false
  acceptChannel_ := Channel.new config.listenfd
  conn := fun _ => TcpConnection.new 0 "" 0 false
  poller := fun l =>
    if l ≤ config.numThreads_ then newPoller (config.wakeupFd_ l) else EpollPoller.new
  fds := config.listenfd :: (List.range (config.numThreads_ + 1)).map config.wakeupFd_
  mem := fun _ => 0
  sys := fun l => LoopSystem.new (.loop l) .wakeup
  stack
    | .loop 0 =>
      (if config.numThreads_ = 0 then [.user none] else config.loops_.map .startLoop) ++
        [.functor .listen, .user none]
    | .loop _ => [.user none]
    | .user _ => [.user none]
  events := fun _ => []
  sends := []
  runs := []

def env (s : Server) (c : ConnId) : ConnEnv where
  conn := s.conn c
  poller := s.poller (s.conn c).loop_
  events := s.events c
  queue := []

def put (s : Server) (c : ConnId) (e : ConnEnv) : Server :=
  { s with
    conn := Function.update s.conn c e.conn
    poller := Function.update s.poller (s.conn c).loop_ e.poller
    events := Function.update s.events c e.events }

/-- The bytes of a string. -/
def bytes (s : Server) (p : Address) (len : Nat) : List UInt8 :=
  (List.range len).map fun i => s.mem (p + i)

/-- The user has been given the pointer of the connection. -/
def Up (s : Server) (c : ConnId) : Prop := .connectionCallback true ∈ s.events c

instance (s : Server) (c : ConnId) : Decidable (s.Up c) := inferInstanceAs (Decidable (_ ∈ _))

/-- The loop that `getNextLoop` returns, and the new `next_`. -/
def getNextLoop (s : Server) : LoopId × Nat :=
  match s.config.loops_ with
  | [] => (0, s.next_)
  | l :: loops_ =>
    let next := s.next_ + 1
    ((l :: loops_).getD s.next_ 0, if next ≥ (l :: loops_).length then 0 else next)

def connName (s : Server) : String := s.config.connName s.nextConnId_

/-- `newConnection` up to the `runInLoop` of `connectEstablished`. -/
def newConnection (s : Server) (connfd : Nat) : Server :=
  let c := s.nextConnId_
  let ioLoop := s.getNextLoop.1
  { s with
    next_ := s.getNextLoop.2
    nextConnId_ := c + 1
    conn := Function.update s.conn c
      (TcpConnection.new ioLoop s.connName connfd s.config.writeCompleteCallback_)
    connections_ := (s.connName, c) :: s.connections_.filter (·.1 != s.connName)
    fds := connfd :: s.fds }

/-- `set_revents` on every reported channel. -/
def fillActiveChannels (s : Server) (active : List (ChannelRef × EventMask)) : Server :=
  let revents (ref : ChannelRef) (channel : Channel) : Channel :=
    match active.lookup ref with
    | some revents => { channel with revents_ := revents }
    | none => channel
  { s with
    conn := fun c => { s.conn c with channel_ := revents (.conn c) (s.conn c).channel_ }
    acceptChannel_ := revents .acceptor s.acceptChannel_ }

def act (s : Server) : Change → Server
  | .nothing => s
  | .conn c op => s.put c (op.apply c (s.env c))
  | .acceptor op =>
    let r := op.apply .acceptor (s.poller 0) s.acceptChannel_
    { s with acceptChannel_ := r.2, poller := Function.update s.poller 0 r.1 }
  | .fillActiveChannels active => s.fillActiveChannels active
  | .newConnection connfd => s.newConnection connfd
  | .erase c => { s with connections_ := s.connections_.filter (·.1 != (s.conn c).name_) }
  | .store p byte => { s with mem := Function.update s.mem p byte }
  | .destroy => { s with destroyed := true, connections_ := [] }

/-- The kernel knows the channel and may report `revents` for it. -/
def MayReport (interest : Option (EventMask × ChannelRef)) (ref : ChannelRef)
    (revents : EventMask) : Bool :=
  match interest with
  | some (mask, ptr) =>
    ptr == ref && revents != 0 && revents &&& ~~~(mask ||| EPOLLERR ||| EPOLLHUP) == 0
  | none => false

/-- A possible result of `epoll_wait`. The wakeup channel is always registered. -/
def Reports (s : Server) (l : LoopId) (active : List (ChannelRef × EventMask)) : Bool :=
  active.all fun (ref, revents) =>
    match ref with
    | .wakeup => true
    | .acceptor => MayReport ((s.poller l).interest s.acceptChannel_.fd_) .acceptor revents
    | .conn c => MayReport ((s.poller l).interest (s.conn c).channel_.fd_) (.conn c) revents

/-- `handleEvent` on an active channel. The wakeup channel is read by the loop itself. -/
def handleEvent (s : Server) : ChannelRef → List Task
  | .wakeup => []
  | .acceptor => (s.acceptChannel_.handleEvent true).filterMap fun
    | .read => some .accept
    | _ => none
  | .conn c => ((s.conn c).channel_.handleEvent true).map (.callback c)

/-- The calls of `queueInLoop` that an operation of the connection makes. -/
def queued (s : Server) (c : ConnId) (op : ConnOp) : List Task :=
  (op.apply c (s.env c)).queue.map (.queueInLoop (s.conn c).loop_)

/-- The body of `~TcpServer` and the destructors of its members; `order` is the order in which
`connections_` is traversed. -/
def destructor (s : Server) (order : List ConnId) : List Task :=
  order.map (fun c => runInLoop (.loop 0) (s.conn c).loop_ (.connectDestroyed c)) ++
    s.config.loops_.flatMap (fun l => [.quit l, .join l]) ++
    [.acceptChannel .disbaleAll, .acceptChannel .remove]

/-- The loop thread is before or behind `loop()`, or calls a functor. -/
def outsideDispatch : Position Functor ChannelRef → Bool
  | .created | .calling _ _ | .stopped => true
  | _ => false

/-- `~TcpServer` may run on the base thread, once. -/
def MayDestroy (s : Server) (order : List ConnId) : Prop :=
  outsideDispatch (s.sys 0).loop.position = true ∧ s.destroyed = false ∧
    order.Perm (s.connections_.map Prod.snd)

instance (s : Server) (order : List ConnId) : Decidable (s.MayDestroy order) :=
  inferInstanceAs (Decidable (_ ∧ _))

/-- `startLoop` waits until the thread has published its loop. -/
def Published (s : Server) (l : LoopId) : Prop :=
  s.stack (.loop l) = [] ∨ (s.sys l).loop.position ≠ .created

instance (s : Server) (l : LoopId) : Decidable (s.Published l) :=
  inferInstanceAs (Decidable (_ ∨ _))

/-- The loop's thread in `loop()`, with nothing else to do. -/
def loopEffect (s : Server) (l : LoopId) (input : Input) : Option Effect :=
  if l ≤ s.config.numThreads_ then
    match (s.sys l).loop.position, input with
    | .polling, .poll active =>
      if s.Reports l active then
        some { loop := some (l, .advance (active.map Prod.fst)),
               change := .fillActiveChannels active }
      else none
    | .polling, _ => none
    | .dispatching (channel :: _), .run =>
      some { loop := some (l, .advance []), push := s.handleEvent channel }
    | .running (functor :: _), .run =>
      some { loop := some (l, .advance []), push := [.functor functor] }
    | .stopped, .destroy order =>
      if l = 0 ∧ s.MayDestroy order then some { push := s.destructor order, change := .destroy }
      else none
    | _, .run => some { loop := some (l, .advance []) }
    | _, _ => none
  else none

/-- A `send` on the thread `t`. -/
def sendEffect (s : Server) (t : Tid) (c : ConnId) (p : Address) (len : Nat) (r : WriteResult) :
    Option Effect :=
  let data := s.bytes p len
  let call : SendCall := { thread := t, conn := c, state := (s.conn c).state_, data := data }
  if (s.conn c).state_ = .kConnected then
    if t = .loop (s.conn c).loop_ then
      if r.Fits len then
        some { change := .conn c (.sendInLoop data r), push := s.queued c (.sendInLoop data r),
               sent := [call], ran := [⟨s.sends.length, t, data⟩] }
      else none
    else some { sent := [call] }
  else
    some { push := [runInLoop t (s.conn c).loop_ (.sendInLoop c p len s.sends.length)],
           sent := [call] }

/-- A call of the user's code. It knows the connections it has been given. -/
def callEffect (s : Server) (t : Tid) (m : Option ConnId) : UserCall → Option Effect
  | .send c p len r => if s.Up c then s.sendEffect t c p len r else none
  | .shutdown c =>
    if s.Up c then
      if (s.conn c).state_ = .kConnected then some { push := [.shutdownStore c] } else some {}
    else none
  | .queueInLoop l =>
    if l ≤ s.config.numThreads_ then some { push := [.queueInLoop l .user] } else none
  | .runInLoop l =>
    if l ≤ s.config.numThreads_ then some { push := [runInLoop t l .user] } else none
  | .quit => some { push := [.quit 0] }
  | .retrieve len => m.map fun c => { change := .conn c (.retrieve len) }
  | .store p byte => some { change := .store p byte }

/-- The body of a functor. -/
def functorEffect (s : Server) (t : Tid) : Functor → Input → Option Effect
  | .listen, .run => some { change := .acceptor .enableReading }
  | .connectEstablished c, .run =>
    some { change := .conn c .connectEstablished, push := [.user none] }
  | .connectDestroyed c, .run =>
    if (s.conn c).state_ = .kConnected then some { push := [.connectDestroyedClose c] }
    else some { push := [.connectDestroyedRemove c] }
  | .removeConnectionInLoop c, .run =>
    some { change := .erase c, push := [.queueInLoop (s.conn c).loop_ (.connectDestroyed c)] }
  | .sendInLoop c p len call, .write r =>
    if r.Fits len then
      some { change := .conn c (.sendInLoop (s.bytes p len) r),
             push := s.queued c (.sendInLoop (s.bytes p len) r),
             ran := [⟨call, t, s.bytes p len⟩] }
    else none
  | .shutdownInLoop c, .run => some { change := .conn c .shutdownInLoop }
  | .writeCompleteCallback c, .run =>
    some { change := .conn c .writeCompleteCallback, push := [.user none] }
  | .highWaterMarkCallback c size, .run =>
    some { change := .conn c (.highWaterMarkCallback size), push := [.user none] }
  | .user, .run => some { push := [.user none] }
  | _, _ => none

/-- What `handleRead` ends with: the code of `messageCallback_`, `handleClose` or `handleError`. -/
def readTask (c : ConnId) (r : ReadvResult) : Task :=
  if r.ret > 0 then .user (some c)
  else if r.ret = 0 then .callback c .close
  else .callback c .error

/-- The first task of the thread `t`. The user's code makes a call or returns; on the base thread
it may destroy the server, when no function of the library but `loop()` has called it. -/
def taskEffect (s : Server) (t : Tid) : Task → Input → Option Effect
  | .user m, .call u =>
    (s.callEffect t m u).map fun eff => { eff with push := eff.push ++ [.user m] }
  | .user none, .destroy order =>
    if t = .loop 0 ∧ s.stack t = [.user none] ∧ s.MayDestroy order then
      some { push := s.destructor order ++ [.user none], change := .destroy }
    else none
  | .user _, .run => some {}
  | .functor f, input => s.functorEffect t f input
  | .queueInLoop l f, .run => some { loop := some (l, .emplaceBack t f), push := [.queueWakeup l] }
  | .queueWakeup l, .run => some { loop := some (l, .queueWakeup t) }
  | .quit l, .run => some { loop := some (l, .storeQuit t), push := [.quitWakeup l] }
  | .quitWakeup l, .run => some { loop := some (l, .quitWakeup t) }
  | .join l, .run => if (s.sys l).loop.position = .stopped then some {} else none
  | .startLoop l, .run => if s.Published l then some {} else none
  | .accept, .accept (some connfd) =>
    if connfd ∈ s.fds then none
    else
      some { change := .newConnection connfd,
             push := [runInLoop t s.getNextLoop.1 (.connectEstablished s.nextConnId_)] }
  | .accept, .accept none => some {}
  | .acceptChannel op, .run => some { change := .acceptor op }
  | .callback c .close, .run =>
    some { change := .conn c .handleClose, push := [.user none, .closeCallback c] }
  | .callback _ .error, .run => some {}
  | .callback c .read, .read r =>
    if r.Fits (s.conn c).inputBuffer_.iovLen then
      some { change := .conn c (.handleRead r), push := [readTask c r] }
    else none
  | .callback c .write, .write r =>
    if r.Fits (s.env c).conn.outputBuffer_.readableBytes then
      let drained := (TcpConnection.handleWriteDrain c r (s.env c)).2
      some { change := .conn c (.handleWriteDrain r),
             push := s.queued c (.handleWriteDrain r) ++
               if drained then [.handleWriteEnd c] else [] }
    else none
  | .handleWriteEnd c, .run => some { change := .conn c .handleWriteEnd }
  | .closeCallback c, .run =>
    some { change := .conn c .closeCallback, push := [runInLoop t 0 (.removeConnectionInLoop c)] }
  | .connectDestroyedClose c, .run =>
    some { change := .conn c .connectDestroyedClose,
           push := [.user none, .connectDestroyedRemove c] }
  | .connectDestroyedRemove c, .run => some { change := .conn c .connectDestroyedRemove }
  | .shutdownStore c, .run =>
    some { change := .conn c .shutdownStore,
           push := [runInLoop t (s.conn c).loop_ (.shutdownInLoop c)] }
  | _, _ => none

def effect (s : Server) (t : Tid) (input : Input) : Option Effect :=
  match s.stack t, t with
  | task :: _, _ => s.taskEffect t task input
  | [], .loop l => s.loopEffect l input
  | [], .user _ => none

/-- The steps of the loops named by an effect. -/
def loopStep (s : Server) : Option (LoopId × LoopInput Tid Functor ChannelRef) →
    Option (LoopId → LoopSystem Tid Functor ChannelRef)
  | none => some s.sys
  | some (l, i) => ((LoopSystem.machine true).step (s.sys l) i).map (Function.update s.sys l)

/-- The state after an effect. -/
def after (s : Server) (t : Tid) (eff : Effect)
    (sys : LoopId → LoopSystem Tid Functor ChannelRef) : Server :=
  { s.act eff.change with
    sys := sys
    stack := Function.update s.stack t (eff.push ++ (s.stack t).tail)
    sends := s.sends ++ eff.sent
    runs := s.runs ++ eff.ran }

def step (s : Server) (i : Tid × Input) : Option Server :=
  (s.effect i.1 i.2).bind fun eff => (s.loopStep eff.loop).map (s.after i.1 eff)

/-- All interleavings of the loops and the user's threads. -/
def machine : Lib.Machine Server (Tid × Input) where
  step := step

/-- A server with one sub-loop. -/
def oneLoop : ServerConfig where
  name_ := "EchoServer"
  listenAddr := ⟨127, 0, 0, 1, 8002⟩
  numThreads_ := 1
  listenfd := 3
  wakeupFd_ := fun l => l + 4
  writeCompleteCallback_ := false
  distinct := by omega

/-- The thread `t` goes on for `n` steps that leave nothing open. -/
def steps (t : Tid) (n : Nat) : List (Tid × Input) := List.replicate n (t, .run)

/-- It is started and accepts its first connection: the base thread is left behind the dispatch,
the sub-loop behind the functor that has established the connection. -/
def establishing : List (Tid × Input) :=
  steps (.loop 1) 1 ++ steps (.loop 0) 6 ++
    [(.loop 0, .poll [(.acceptor, EPOLLIN)]), (.loop 0, .run), (.loop 0, .accept (some 9))] ++
    steps (.loop 0) 3 ++ steps (.loop 1) 3 ++ [(.loop 1, .poll [(.wakeup, EPOLLIN)])] ++
    steps (.loop 1) 6

end Server

end TcpMuduo
