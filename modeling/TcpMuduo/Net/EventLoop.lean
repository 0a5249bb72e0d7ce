import TcpMuduo.Lib.Machine
import Mathlib.Logic.Function.Basic

/-!
`EventLoop`: the loop thread's way through `loop()` in steps of one access to
shared state each, and the calls other threads make on the loop. The functors,
the channels and the thread identifiers are arbitrary types.
-/

set_option autoImplicit false
set_option relaxedAutoImplicit false

namespace TcpMuduo

/-- Where the loop thread is. `handling` and `calling` are inside a handler and inside a functor,
where code outside the loop runs; `draining` is between the store of `callingPendingFunctors_`
and the swap. -/
inductive Position (F H : Type)
  | created
  | starting
  | testing
  | polling
  | dispatching (rest : List H)
  | handling (channel : H) (rest : List H)
  | draining
  | running (rest : List F)
  | calling (functor : F) (rest : List F)
  | stopped
  deriving DecidableEq, Repr

/-- The largest value an eventfd counter can have. -/
def eventfdMax : Nat := 0xfffffffffffffffe

/-- `wakeupFd_` is the value of the eventfd counter. `queued`, `executed` and `batches` are
histories: the functors in the order of their `emplace_back`, the functors `doPendingFunctors`
has called, and the lists it has swapped out. -/
structure EventLoop (T F H : Type) where
  looping_ : Bool
  quit_ : Bool
  threadId_ : T
  wakeupFd_ : Nat
  wakeupChannel_ : H
  callingPendingFunctors_ : Bool
  pendingFunctors_ : List F
  position : Position F H
  queued : List F
  executed : List F
  batches : List (List F)

namespace EventLoop

variable {T F H : Type}

def new (tid : T) (wakeupChannel : H) : EventLoop T F H where
  looping_ := false
  quit_ := false
  threadId_ := tid
  wakeupFd_ := 0
  wakeupChannel_ := wakeupChannel
  callingPendingFunctors_ := false
  pendingFunctors_ := []
  position := .created
  queued := []
  executed := []
  batches := []

def isInLoopThread [DecidableEq T] (l : EventLoop T F H) (t : T) : Bool := l.threadId_ == t

/-- A write to the eventfd; it is refused when the counter is saturated. -/
def wakeup (l : EventLoop T F H) : EventLoop T F H :=
  if l.wakeupFd_ < eventfdMax then { l with wakeupFd_ := l.wakeupFd_ + 1 } else l

/-- A read of the eventfd resets the counter. -/
def handleRead (l : EventLoop T F H) : EventLoop T F H := { l with wakeupFd_ := 0 }

/-- The critical section of `queueInLoop`. -/
def emplaceBack (l : EventLoop T F H) (f : F) : EventLoop T F H :=
  { l with
    pendingFunctors_ := l.pendingFunctors_ ++ [f]
    queued := l.queued ++ [f] }

/-- The rest of `queueInLoop`, on the thread `t`. -/
def queueWakeup [DecidableEq T] (l : EventLoop T F H) (t : T) : EventLoop T F H :=
  if !l.isInLoopThread t || l.callingPendingFunctors_ then l.wakeup else l

def storeQuit (l : EventLoop T F H) : EventLoop T F H := { l with quit_ := true }

/-- The rest of `quit`, on the thread `t`. -/
def quitWakeup [DecidableEq T] (l : EventLoop T F H) (t : T) : EventLoop T F H :=
  if !l.isInLoopThread t then l.wakeup else l

/-- `epoll_wait` returns no channel twice, and the wakeup channel only when its counter is not
zero; on a timeout or `EINTR` it returns none. -/
def Ready (l : EventLoop T F H) (active : List H) : Prop :=
  active.Nodup ∧ (l.wakeupChannel_ ∈ active → l.wakeupFd_ ≠ 0)

instance [DecidableEq H] (l : EventLoop T F H) (active : List H) : Decidable (l.Ready active) :=
  inferInstanceAs (Decidable (_ ∧ _))

/-- One step of the loop thread through `loop()` and `doPendingFunctors()`; `active` is what
`epoll_wait` reports. From `handling` and `calling` the handler or functor returns. -/
def advance [DecidableEq H] (l : EventLoop T F H) (active : List H) : Option (EventLoop T F H) :=
  match l.position with
  | .created => some { l with looping_ := true, position := .starting }
  | .starting => some { l with quit_ := false, position := .testing }
  | .testing =>
    if l.quit_ then some { l with looping_ := false, position := .stopped }
    else some { l with position := .polling }
  | .polling => if l.Ready active then some { l with position := .dispatching active } else none
  | .dispatching [] => some { l with callingPendingFunctors_ := true, position := .draining }
  | .dispatching (channel :: rest) =>
    if channel = l.wakeupChannel_ then some { l.handleRead with position := .dispatching rest }
    else some { l with position := .handling channel rest }
  | .handling _ rest => some { l with position := .dispatching rest }
  | .draining =>
    some { l with
      position := .running l.pendingFunctors_
      pendingFunctors_ := []
      batches := l.batches ++ [l.pendingFunctors_] }
  | .running (functor :: rest) =>
    some { l with position := .calling functor rest, executed := l.executed ++ [functor] }
  | .running [] => some { l with callingPendingFunctors_ := false, position := .testing }
  | .calling _ rest => some { l with position := .running rest }
  | .stopped => none

end EventLoop

/-- What a thread is doing on a loop: nothing, between the `emplace_back` of the functor number
`index` and the end of `queueInLoop`, or between the store and the end of `quit`. -/
inductive Caller
  | outside
  | queueing (index : Nat)
  | quitting
  deriving DecidableEq, Repr

/-- A loop and the threads that call it. `completed` is a history: the numbers of the functors
whose `queueInLoop` has returned; `promised` are those that had returned when a `quit` stored
its flag. -/
structure LoopSystem (T F H : Type) where
  loop : EventLoop T F H
  caller : T → Caller
  completed : List Nat
  promised : List Nat

/-- `advance` is a step of the loop thread, all other steps belong to the thread they name. -/
inductive LoopInput (T F H : Type)
  | emplaceBack (t : T) (f : F)
  | queueWakeup (t : T)
  | storeQuit (t : T)
  | quitWakeup (t : T)
  | advance (active : List H)

namespace LoopSystem

variable {T F H : Type} [DecidableEq T]

def new (tid : T) (wakeupChannel : H) : LoopSystem T F H where
  loop := EventLoop.new tid wakeupChannel
  caller := fun _ => .outside
  completed := []
  promised := []

/-- The loop thread calls its own loop from a handler or a functor, after `loop()` has returned
and, when `startup` is set, before it is entered. -/
def MayCall (startup : Bool) (s : LoopSystem T F H) (t : T) : Bool :=
  !s.loop.isInLoopThread t ||
    match s.loop.position with
    | .handling _ _ | .calling _ _ | .stopped => true
    | .created => startup
    | _ => false

variable [DecidableEq H]

def step (startup : Bool) (s : LoopSystem T F H) :
    LoopInput T F H → Option (LoopSystem T F H)
  | .emplaceBack t f =>
    if s.caller t = .outside ∧ s.MayCall startup t then
      some { s with
        loop := s.loop.emplaceBack f
        caller := Function.update s.caller t (.queueing s.loop.queued.length) }
    else none
  | .queueWakeup t =>
    match s.caller t with
    | .queueing index =>
      some { s with
        loop := s.loop.queueWakeup t
        caller := Function.update s.caller t .outside
        completed := s.completed ++ [index] }
    | _ => none
  | .storeQuit t =>
    if s.caller t = .outside ∧ s.MayCall startup t then
      some { s with
        loop := s.loop.storeQuit
        caller := Function.update s.caller t .quitting
        promised := s.promised ++ s.completed }
    else none
  | .quitWakeup t =>
    match s.caller t with
    | .quitting =>
      some { s with
        loop := s.loop.quitWakeup t
        caller := Function.update s.caller t .outside }
    | _ => none
  | .advance active =>
    if s.caller s.loop.threadId_ = .outside then
      (s.loop.advance active).map fun loop => { s with loop := loop }
    else none

/-- All interleavings of the loop thread with any number of other threads. -/
def machine (startup : Bool) : Lib.Machine (LoopSystem T F H) (LoopInput T F H) where
  step := step startup

end LoopSystem

end TcpMuduo
