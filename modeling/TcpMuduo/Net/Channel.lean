import Mathlib.Logic.Function.Basic

/-!
`Channel` and `EpollPoller`: the interest a channel keeps in `events_`, the
poller's map of channels, and the kernel's interest set behind `epoll_ctl`. A
channel operation changes `events_` and hands the channel to `updateChannel`.
-/

set_option autoImplicit false
set_option relaxedAutoImplicit false

namespace TcpMuduo

universe u

/-- The `int` in which epoll event bits are kept. -/
abbrev EventMask := BitVec 32

def EPOLLIN : EventMask := 0x001
def EPOLLPRI : EventMask := 0x002
def EPOLLOUT : EventMask := 0x004
def EPOLLERR : EventMask := 0x008
def EPOLLHUP : EventMask := 0x010

/-- The values of `index_`: not in the poller, in the poller and in epoll, in the poller only. -/
def kNew : Int := -1
def kAdded : Int := 1
def kDeleted : Int := 2

/-- The callbacks and the owning loop of a channel are known from its owner. -/
structure Channel where
  fd_ : Nat
  events_ : EventMask
  revents_ : EventMask
  index_ : Int
  tied_ : Bool
  deriving DecidableEq, Repr

namespace Channel

def kNoneEvent : EventMask := 0
def kReadEvent : EventMask := EPOLLIN ||| EPOLLPRI
def kWriteEvent : EventMask := EPOLLOUT

def new (fd : Nat) : Channel where
  fd_ := fd
  events_ := 0
  revents_ := 0
  index_ := -1
  tied_ := false

def isNoneEvent (ch : Channel) : Bool := ch.events_ == kNoneEvent
def isWriting (ch : Channel) : Bool := ch.events_ &&& kWriteEvent != 0

end Channel

/-- The operation argument of `epoll_ctl`. -/
inductive CtlOp
  | EPOLL_CTL_ADD
  | EPOLL_CTL_DEL
  | EPOLL_CTL_MOD
  deriving DecidableEq, Repr

/-- A poller with channel pointers `ι`. `interest` is the kernel's set for `epollfd_`: the mask
and the `data.ptr` of every registered descriptor. `errors` lists the failed `epoll_ctl` calls
that `update` logged. -/
structure EpollPoller (ι : Type u) where
  channels_ : Nat → Option ι
  interest : Nat → Option (EventMask × ι)
  errors : List (CtlOp × Nat)

/-- The kernel side: ADD wants an absent descriptor, MOD and DEL a present one. -/
def epoll_ctl {ι : Type u} (interest : Nat → Option (EventMask × ι)) (operation : CtlOp)
    (fd : Nat) (event : EventMask × ι) : Option (Nat → Option (EventMask × ι)) :=
  match operation with
  | .EPOLL_CTL_ADD =>
    if (interest fd).isNone then some (Function.update interest fd (some event)) else none
  | .EPOLL_CTL_MOD =>
    if (interest fd).isSome then some (Function.update interest fd (some event)) else none
  | .EPOLL_CTL_DEL =>
    if (interest fd).isSome then some (Function.update interest fd none) else none

namespace EpollPoller

variable {ι : Type u}

def new : EpollPoller ι where
  channels_ := fun _ => none
  interest := fun _ => none
  errors := []

/-- A failed `epoll_ctl` is only logged. `refused` is set when the kernel turns the call down
for a reason of its own. -/
def update (p : EpollPoller ι) (operation : CtlOp) (self : ι) (channel : Channel)
    (refused : Bool := false) : EpollPoller ι :=
  match if refused then none
    else epoll_ctl p.interest operation channel.fd_ (channel.events_, self) with
  | some interest => { p with interest := interest }
  | none => { p with errors := p.errors ++ [(operation, channel.fd_)] }

def updateChannel (p : EpollPoller ι) (self : ι) (channel : Channel) (refused : Bool := false) :
    EpollPoller ι × Channel :=
  let index := channel.index_
  if index = kNew ∨ index = kDeleted then
    let p := if index = kNew then
        { p with channels_ := Function.update p.channels_ channel.fd_ (some self) }
      else p
    let channel := { channel with index_ := kAdded }
    (p.update .EPOLL_CTL_ADD self channel refused, channel)
  else if channel.isNoneEvent then
    (p.update .EPOLL_CTL_DEL self channel refused, { channel with index_ := kDeleted })
  else
    (p.update .EPOLL_CTL_MOD self channel refused, channel)

def removeChannel (p : EpollPoller ι) (self : ι) (channel : Channel) (refused : Bool := false) :
    EpollPoller ι × Channel :=
  let p := { p with channels_ := Function.update p.channels_ channel.fd_ none }
  let p := if channel.index_ = kAdded then p.update .EPOLL_CTL_DEL self channel refused else p
  (p, { channel with index_ := kNew })

def hasChannel [DecidableEq ι] (p : EpollPoller ι) (self : ι) (channel : Channel) : Bool :=
  match p.channels_ channel.fd_ with
  | none => false
  | some it => it == self

end EpollPoller

/-- The callbacks a channel dispatches to. -/
inductive Callback
  | close
  | error
  | read
  | write
  deriving DecidableEq, Repr

namespace Channel

/-- The callbacks called for `revents_`, in their order. -/
def handleEventWithGuard (ch : Channel) : List Callback :=
  (if ch.revents_ &&& EPOLLHUP != 0 && ch.revents_ &&& EPOLLIN == 0 then [.close] else []) ++
  (if ch.revents_ &&& EPOLLERR != 0 then [.error] else []) ++
  (if ch.revents_ &&& (EPOLLIN ||| EPOLLPRI) != 0 then [.read] else []) ++
  (if ch.revents_ &&& EPOLLOUT != 0 then [.write] else [])

/-- `guard` says whether the owner of a tied channel is still alive. -/
def handleEvent (ch : Channel) (guard : Bool) : List Callback :=
  if ch.tied_ then
    if guard then ch.handleEventWithGuard else []
  else ch.handleEventWithGuard

end Channel

/-- The operations through which a channel's owner changes its registration. -/
inductive ChannelOp
  | enableReading
  | disableReading
  | enableWriting
  | disableWriting
  | disbaleAll
  | remove
  deriving DecidableEq, Repr

namespace Channel

variable {ι : Type u}

/-- Every interest operation writes `events_` and calls `Channel::update`. -/
def withEvents (self : ι) (events : EventMask) (p : EpollPoller ι) (channel : Channel)
    (refused : Bool := false) : EpollPoller ι × Channel :=
  p.updateChannel self { channel with events_ := events } refused

def enableReading (self : ι) (p : EpollPoller ι) (channel : Channel) (refused : Bool := false) :
    EpollPoller ι × Channel :=
  withEvents self (channel.events_ ||| kReadEvent) p channel refused

def disableReading (self : ι) (p : EpollPoller ι) (channel : Channel) (refused : Bool := false) :
    EpollPoller ι × Channel :=
  withEvents self (channel.events_ &&& ~~~kReadEvent) p channel refused

def enableWriting (self : ι) (p : EpollPoller ι) (channel : Channel) (refused : Bool := false) :
    EpollPoller ι × Channel :=
  withEvents self (channel.events_ ||| kWriteEvent) p channel refused

def disableWriting (self : ι) (p : EpollPoller ι) (channel : Channel) (refused : Bool := false) :
    EpollPoller ι × Channel :=
  withEvents self (channel.events_ &&& ~~~kWriteEvent) p channel refused

/-- The mask is `~kNoneEvent`, all ones: `events_` keeps every bit. -/
def disbaleAll (self : ι) (p : EpollPoller ι) (channel : Channel) (refused : Bool := false) :
    EpollPoller ι × Channel :=
  withEvents self (channel.events_ &&& ~~~kNoneEvent) p channel refused

def remove (self : ι) (p : EpollPoller ι) (channel : Channel) (refused : Bool := false) :
    EpollPoller ι × Channel :=
  p.removeChannel self channel refused

end Channel

def ChannelOp.apply {ι : Type u} (op : ChannelOp) (self : ι) (p : EpollPoller ι)
    (channel : Channel) (refused : Bool := false) : EpollPoller ι × Channel :=
  match op with
  | .enableReading => channel.enableReading self p refused
  | .disableReading => channel.disableReading self p refused
  | .enableWriting => channel.enableWriting self p refused
  | .disableWriting => channel.disableWriting self p refused
  | .disbaleAll => channel.disbaleAll self p refused
  | .remove => channel.remove self p refused

def ChannelOp.mask (op : ChannelOp) (events : EventMask) : EventMask :=
  match op with
  | .enableReading => events ||| Channel.kReadEvent
  | .disableReading => events &&& ~~~Channel.kReadEvent
  | .enableWriting => events ||| Channel.kWriteEvent
  | .disableWriting => events &&& ~~~Channel.kWriteEvent
  | .disbaleAll => events
  | .remove => events

namespace Channel

variable {ι : Type u} {self : ι} {p : EpollPoller ι} {ch : Channel} {refused : Bool}

private theorem and_not_none (events : EventMask) : events &&& ~~~kNoneEvent = events := by
  have all : ~~~kNoneEvent = BitVec.allOnes 32 := by decide
  rw [all, BitVec.and_allOnes]

theorem apply_eq (op : ChannelOp) (stays : op ≠ .remove) :
    op.apply self p ch refused = ch.withEvents self (op.mask ch.events_) p refused := by
  cases op with
  | remove => exact absurd rfl stays
  | disbaleAll => rw [ChannelOp.apply, disbaleAll, and_not_none, ChannelOp.mask]
  | enableReading | disableReading | enableWriting | disableWriting => rfl

@[simp] theorem withEvents_events (events : EventMask) :
    (ch.withEvents self events p refused).2.events_ = events := by
  simp only [withEvents, EpollPoller.updateChannel]
  split
  · rfl
  · split <;> rfl

theorem apply_events (op : ChannelOp) :
    (op.apply self p ch refused).2.events_ = op.mask ch.events_ := by
  by_cases stays : op = .remove
  · rw [stays]
    rfl
  · rw [apply_eq op stays, withEvents_events]

theorem apply_fd (op : ChannelOp) : (op.apply self p ch refused).2.fd_ = ch.fd_ := by
  have update (events : EventMask) : (ch.withEvents self events p refused).2.fd_ = ch.fd_ := by
    simp only [withEvents, EpollPoller.updateChannel]
    split
    · rfl
    · split <;> rfl
  by_cases stays : op = .remove
  · rw [stays]
    rfl
  · rw [apply_eq op stays, update]

theorem apply_interest (op : ChannelOp) {fd : Nat} {event : EventMask × ι}
    (h : (op.apply self p ch refused).1.interest fd = some event) :
    p.interest fd = some event ∨ event.2 = self ∧ op ≠ .remove := by
  have ctl (q : EpollPoller ι) (operation : CtlOp) (ch' : Channel)
      (h : (q.update operation self ch' refused).interest fd = some event) :
      q.interest fd = some event ∨ event.2 = self ∧ operation ≠ .EPOLL_CTL_DEL := by
    have set {x : Option (EventMask × ι)} (h : Function.update q.interest ch'.fd_ x fd = some event)
        (own : ∀ e, x = some e → e.2 = self ∧ operation ≠ .EPOLL_CTL_DEL) :
        q.interest fd = some event ∨ event.2 = self ∧ operation ≠ .EPOLL_CTL_DEL := by
      rw [Function.update_apply] at h
      split at h
      · exact .inr (own _ h)
      · exact .inl h
    unfold EpollPoller.update epoll_ctl at h
    cases refused with
    | true => exact .inl h
    | false =>
      cases operation with
      | EPOLL_CTL_ADD | EPOLL_CTL_MOD =>
        simp only [Bool.false_eq_true, if_false] at h
        split at h
        · rename_i interest changed
          split at changed
          · cases changed
            exact set h (by rintro e ⟨⟩; exact ⟨rfl, by simp⟩)
          · cases changed
        · exact .inl h
      | EPOLL_CTL_DEL =>
        simp only [Bool.false_eq_true, if_false] at h
        split at h
        · rename_i interest changed
          split at changed
          · cases changed
            exact set h (by rintro e ⟨⟩)
          · cases changed
        · exact .inl h
  have update (events : EventMask)
      (h : (ch.withEvents self events p refused).1.interest fd = some event) :
      p.interest fd = some event ∨ event.2 = self := by
    unfold withEvents EpollPoller.updateChannel at h
    dsimp only at h
    split at h
    · have h := (ctl _ _ _ h).imp_right And.left
      split at h <;> exact h
    · split at h <;> exact (ctl _ _ _ h).imp_right And.left
  by_cases stays : op = .remove
  · subst stays
    simp only [ChannelOp.apply, remove, EpollPoller.removeChannel] at h
    split at h
    · exact .inl ((ctl _ _ _ h).resolve_right (by simp))
    · exact .inl h
  · rw [apply_eq op stays] at h
    exact (update _ h).imp_right fun own => ⟨own, stays⟩

private theorem isWriting_congr {ch ch' : Channel} (h : ch'.events_ = ch.events_) :
    ch'.isWriting = ch.isWriting := by
  simp only [isWriting, h]

@[simp] theorem isWriting_enableWriting :
    (ChannelOp.enableWriting.apply self p ch refused).2.isWriting = true := by
  simp only [isWriting, apply_events, ChannelOp.mask, BitVec.and_or_distrib_right, BitVec.and_self]
  rw [show ch.events_ &&& kWriteEvent ||| kWriteEvent = kWriteEvent by ext; simp]
  decide

@[simp] theorem isWriting_disableWriting :
    (ChannelOp.disableWriting.apply self p ch refused).2.isWriting = false := by
  simp only [isWriting, apply_events, ChannelOp.mask, BitVec.and_assoc, BitVec.not_and_self]
  simp

@[simp] theorem isWriting_enableReading :
    (ChannelOp.enableReading.apply self p ch refused).2.isWriting = ch.isWriting := by
  simp only [isWriting, apply_events, ChannelOp.mask, BitVec.and_or_distrib_right]
  rw [show kReadEvent &&& kWriteEvent = 0#32 by decide, BitVec.or_zero]

@[simp] theorem isWriting_disbaleAll :
    (ChannelOp.disbaleAll.apply self p ch refused).2.isWriting = ch.isWriting :=
  isWriting_congr (apply_events .disbaleAll)

end Channel

end TcpMuduo
