import TcpMuduo.Net.OutputStream
import TcpMuduo.Net.Registration
import TcpMuduo.Net.Server

/-!
The operations on a connection by what they do to it: to its state, to its
registration, to its output side and to the callbacks it has invoked.
-/

set_option autoImplicit false
set_option relaxedAutoImplicit false

namespace TcpMuduo

/-- What no operation on a connection changes, and that histories grow. -/
structure ConnEnv.Frame (e e' : ConnEnv) : Prop where
  loop : e'.conn.loop_ = e.conn.loop_
  name : e'.conn.name_ = e.conn.name_
  fd : e'.conn.channel_.fd_ = e.conn.channel_.fd_
  events : e.events <+: e'.events

namespace ConnEnv.Frame

variable {e e' e'' : ConnEnv}

theorem refl (e : ConnEnv) : Frame e e := ⟨rfl, rfl, rfl, List.prefix_refl _⟩

theorem trans (h : Frame e e') (h' : Frame e' e'') : Frame e e'' :=
  ⟨h'.loop.trans h.loop, h'.name.trans h.name, h'.fd.trans h.fd, h.events.trans h'.events⟩

theorem emit (h : Frame e e') (event : ConnEvent) : Frame e (e'.emit event) :=
  h.trans ⟨rfl, rfl, rfl, List.prefix_append _ _⟩

theorem queueIf (h : Frame e e') (test : Bool) (f : Functor) : Frame e (e'.queueIf test f) := by
  cases test
  · exact h
  · exact h.trans ⟨rfl, rfl, rfl, List.prefix_refl _⟩

theorem setOutputBuffer (h : Frame e e') (b : ValidBuffer) : Frame e (e'.setOutputBuffer b) :=
  h.trans ⟨rfl, rfl, rfl, List.prefix_refl _⟩

theorem setState (h : Frame e e') (state : StateE) : Frame e (e'.setState state) :=
  h.trans ⟨rfl, rfl, rfl, List.prefix_refl _⟩

theorem tie (h : Frame e e') : Frame e e'.tie :=
  h.trans ⟨rfl, rfl, rfl, List.prefix_refl _⟩

theorem channel (h : Frame e e') (c : ConnId) (op : ChannelOp) : Frame e (e'.channel c op) :=
  h.trans ⟨rfl, rfl, Channel.apply_fd op, List.prefix_refl _⟩

end ConnEnv.Frame

namespace TcpConnection

theorem shutdownInLoop_cases (e : ConnEnv) :
    e.conn.channel_.isWriting = false ∧
        shutdownInLoop e = e.emit (.shutDownWrite e.backlog.length) ∨
      e.conn.channel_.isWriting = true ∧ shutdownInLoop e = e := by
  unfold shutdownInLoop
  cases writing : e.conn.channel_.isWriting with
  | false =>
    refine .inl ⟨rfl, ?_⟩
    simp only [ConnEnv.shutDownWrite, ValidBuffer.readableBytes_eq]
    rfl
  | true => exact .inr ⟨rfl, rfl⟩

theorem handleWriteEnd_cases (e : ConnEnv) :
    e.conn.state_ = .kDisconnecting ∧ handleWriteEnd e = shutdownInLoop e ∨
      e.conn.state_ ≠ .kDisconnecting ∧ handleWriteEnd e = e := by
  unfold handleWriteEnd
  split
  · rename_i here
    exact .inl ⟨here, rfl⟩
  · rename_i here
    exact .inr ⟨here, rfl⟩

end TcpMuduo.TcpConnection

namespace TcpMuduo

/-- The events the callback protocol of a connection is about. -/
def ConnEvent.isCallback : ConnEvent → Bool
  | .connectionCallback _ | .messageCallback _ | .closeCallback => true
  | _ => false

def callbacks (events : List ConnEvent) : List ConnEvent := events.filter ConnEvent.isCallback

@[simp] theorem callbacks_append (events more : List ConnEvent) :
    callbacks (events ++ more) = callbacks events ++ callbacks more := by
  simp [callbacks]

theorem mem_callbacks {e : ConnEvent} {events : List ConnEvent}
    (h : e.isCallback = true) : e ∈ callbacks events ↔ e ∈ events := by
  simp [callbacks, h]

namespace ConnOp

variable (c : ConnId) (e : ConnEnv)

theorem frame (op : ConnOp) : e.Frame (op.apply c e) := by
  have start := ConnEnv.Frame.refl e
  have shut (e' : ConnEnv) (h : e.Frame e') : e.Frame (TcpConnection.shutdownInLoop e') := by
    rcases TcpConnection.shutdownInLoop_cases e' with ⟨_, same⟩ | ⟨_, same⟩
    · rw [same]
      exact h.emit _
    · rw [same]
      exact h
  cases op with
  | connectEstablished => exact ((start.setState _).tie.channel c _).emit _
  | connectDestroyedClose | handleClose => exact ((start.setState _).channel c _).emit _
  | connectDestroyedRemove => exact start.channel c _
  | handleRead r =>
    simp only [apply]
    split
    · simp only [TcpConnection.handleRead]
      have read (b : ValidBuffer) :
          e.Frame { e with conn := { e.conn with inputBuffer_ := b } } :=
        ⟨rfl, rfl, rfl, List.prefix_refl _⟩
      split
      · exact (read _).emit _
      · exact read _
    · exact start
  | handleWriteDrain r =>
    have outcome := TcpConnection.handleWriteDrain_outcome c r e
    simp only [apply]
    generalize (TcpConnection.handleWriteDrain c r e).1 = e',
      (TcpConnection.handleWriteDrain c r e).2 = flag at outcome ⊢
    cases outcome with
    | idle r off => exact start
    | stuck r on none => exact start.emit _
    | part n on some => exact (start.emit _).setOutputBuffer _
    | drained n test on all =>
      exact (((start.emit _).setOutputBuffer _).channel c _).queueIf _ _
  | handleWriteEnd =>
    rcases TcpConnection.handleWriteEnd_cases e with ⟨_, same⟩ | ⟨_, same⟩
    · simp only [apply, same]
      exact shut e start
    · simp only [apply, same]
      exact start
  | sendInLoop data r =>
    have outcome := TcpConnection.sendInLoop_outcome c data r e
    simp only [apply]
    generalize TcpConnection.sendInLoop c data r e = e' at outcome ⊢
    cases outcome with
    | blocked r busy => exact start
    | failed errno direct => exact start.emit _
    | whole n test direct all => exact (start.emit _).queueIf _ _
    | part n test direct some =>
      exact (((start.emit _).queueIf _ _).setOutputBuffer _).channel c _
  | shutdownInLoop => exact shut e start
  | shutdownStore => exact start.setState _
  | closeCallback | writeCompleteCallback | highWaterMarkCallback size => exact start.emit _
  | retrieve len => exact ⟨rfl, rfl, rfl, List.prefix_refl _⟩

def state (op : ConnOp) (state_ : StateE) : StateE :=
  match op with
  | .connectEstablished => .kConnected
  | .connectDestroyedClose | .handleClose => .kDisconnected
  | .shutdownStore => .kDisconnecting
  | _ => state_

def callbacks (e : ConnEnv) : ConnOp → List ConnEvent
  | .connectEstablished => [.connectionCallback true]
  | .connectDestroyedClose | .handleClose => [.connectionCallback false]
  | .closeCallback => [.closeCallback]
  | .handleRead r =>
    if fits : r.Fits e.conn.inputBuffer_.iovLen then
      if r.ret > 0 then [.messageCallback (e.conn.inputBuffer_.readFd r fits).content] else []
    else []
  | _ => []

def channelOp : ConnOp → Option ChannelOp
  | .connectEstablished => some .enableReading
  | .connectDestroyedClose | .handleClose => some .disbaleAll
  | .connectDestroyedRemove => some .remove
  | .handleWriteDrain _ => some .disableWriting
  | .sendInLoop _ _ => some .enableWriting
  | _ => none

end ConnOp

/-- Between two states of a connection its channel has gone through `op` at most. -/
inductive ConnEnv.Registers (c : ConnId) (op : Option ChannelOp) (e e' : ConnEnv) : Prop
  | same (channel : e'.conn.channel_ = e.conn.channel_) (poller : e'.poller = e.poller)
  | op (chop : ChannelOp) (tied : Bool) (mem : chop ∈ op)
      (channel : e'.conn.channel_ =
        (chop.apply (.conn c) e.poller { e.conn.channel_ with tied_ := tied }).2)
      (poller : e'.poller =
        (chop.apply (.conn c) e.poller { e.conn.channel_ with tied_ := tied }).1)

namespace ConnOp

variable (c : ConnId) (e : ConnEnv)

/-- The effect of an operation on `state_`, on the callbacks and on the registration. -/
structure Spec (op : ConnOp) (e' : ConnEnv) : Prop where
  state : e'.conn.state_ = op.state e.conn.state_
  callbacks : TcpMuduo.callbacks e'.events = TcpMuduo.callbacks e.events ++ op.callbacks e
  registers : e.Registers c op.channelOp e'

variable {c e}

theorem Spec.silent {op : ConnOp} {e' : ConnEnv} (state : op.state e.conn.state_ = e.conn.state_)
    (none : op.callbacks e = []) (same : e'.conn.state_ = e.conn.state_)
    (channel : e'.conn.channel_ = e.conn.channel_) (poller : e'.poller = e.poller)
    (events : TcpMuduo.callbacks e'.events = TcpMuduo.callbacks e.events) : Spec c e op e' :=
  ⟨same.trans state.symm, by rw [events, none, List.append_nil], .same channel poller⟩

variable (c e)

theorem spec (op : ConnOp) : Spec c e op (op.apply c e) := by
  have shut (op : ConnOp) (state : op.state e.conn.state_ = e.conn.state_)
      (none : op.callbacks e = []) : Spec c e op (TcpConnection.shutdownInLoop e) := by
    rcases TcpConnection.shutdownInLoop_cases e with ⟨_, same⟩ | ⟨_, same⟩
    · rw [same]
      exact .silent state none rfl rfl rfl (by simp [TcpMuduo.callbacks, ConnEvent.isCallback])
    · rw [same]
      exact .silent state none rfl rfl rfl rfl
  cases op with
  | connectEstablished => exact ⟨rfl, callbacks_append _ _, .op .enableReading true rfl rfl rfl⟩
  | connectDestroyedClose | handleClose =>
    exact ⟨rfl, callbacks_append _ _, .op .disbaleAll _ rfl rfl rfl⟩
  | connectDestroyedRemove => exact ⟨rfl, (List.append_nil _).symm, .op .remove _ rfl rfl rfl⟩
  | handleRead r =>
    by_cases fits : r.Fits e.conn.inputBuffer_.iovLen
    · simp only [apply, dif_pos fits, TcpConnection.handleRead]
      split
      · rename_i some
        refine ⟨rfl, ?_, .same rfl rfl⟩
        simp only [callbacks, dif_pos fits, if_pos some, ConnEnv.emit_events, callbacks_append]
        rfl
      · rename_i none
        exact .silent rfl (by simp only [callbacks, dif_pos fits, if_neg none]) rfl rfl rfl rfl
    · simp only [apply, dif_neg fits]
      exact .silent rfl (by simp only [callbacks, dif_neg fits]) rfl rfl rfl rfl
  | handleWriteDrain r =>
    have outcome := TcpConnection.handleWriteDrain_outcome c r e
    simp only [apply]
    generalize (TcpConnection.handleWriteDrain c r e).1 = e',
      (TcpConnection.handleWriteDrain c r e).2 = flag at outcome ⊢
    cases outcome with
    | idle r off => exact .silent rfl rfl rfl rfl rfl rfl
    | stuck r on none =>
      exact .silent rfl rfl rfl rfl rfl (by simp [TcpMuduo.callbacks, ConnEvent.isCallback])
    | part n on some =>
      exact .silent rfl rfl rfl rfl rfl (by simp [TcpMuduo.callbacks, ConnEvent.isCallback])
    | drained n test on all =>
      refine ⟨by simp [state], ?_, .op .disableWriting e.conn.channel_.tied_ rfl ?_ ?_⟩
      · simp [TcpMuduo.callbacks, ConnEvent.isCallback, callbacks]
      · simp [ConnEnv.channel]
      · simp [ConnEnv.channel]
  | handleWriteEnd =>
    rcases TcpConnection.handleWriteEnd_cases e with ⟨_, same⟩ | ⟨_, same⟩
    · simp only [apply, same]
      exact shut _ rfl rfl
    · simp only [apply, same]
      exact .silent rfl rfl rfl rfl rfl rfl
  | sendInLoop data r =>
    have outcome := TcpConnection.sendInLoop_outcome c data r e
    simp only [apply]
    generalize TcpConnection.sendInLoop c data r e = e' at outcome ⊢
    cases outcome with
    | blocked r busy => exact .silent rfl rfl rfl rfl rfl rfl
    | failed errno direct =>
      exact .silent rfl rfl rfl rfl rfl (by simp [TcpMuduo.callbacks, ConnEvent.isCallback])
    | whole n test direct all =>
      exact .silent rfl rfl (by simp) (by simp) (by simp)
        (by simp [TcpMuduo.callbacks, ConnEvent.isCallback])
    | part n test direct some =>
      refine ⟨by simp [state], ?_, .op .enableWriting e.conn.channel_.tied_ rfl ?_ ?_⟩
      · simp [TcpMuduo.callbacks, ConnEvent.isCallback, callbacks]
      · simp [ConnEnv.channel]
      · simp [ConnEnv.channel]
  | shutdownInLoop => exact shut _ rfl rfl
  | shutdownStore => exact ⟨rfl, (List.append_nil _).symm, .same rfl rfl⟩
  | closeCallback => exact ⟨rfl, callbacks_append _ _, .same rfl rfl⟩
  | writeCompleteCallback | highWaterMarkCallback size =>
    exact .silent rfl rfl rfl rfl rfl (by simp [apply, TcpMuduo.callbacks, ConnEvent.isCallback])
  | retrieve len => exact .silent rfl rfl rfl rfl rfl rfl

end ConnOp

theorem ConnOp.queue {c : ConnId} {e : ConnEnv} {op : ConnOp} {f : Functor}
    (h : f ∈ (op.apply c e).queue) : f ∈ e.queue ∨ f = .writeCompleteCallback c ∨
      ∃ size, f = .highWaterMarkCallback c size := by
  have queueIf {e' : ConnEnv} {test : Bool} {g : Functor} (h : f ∈ (e'.queueIf test g).queue) :
      f ∈ e'.queue ∨ f = g := by
    cases test with
    | false => exact .inl h
    | true => simpa [ConnEnv.queueIf, ConnEnv.queueInLoop] using h
  have shut (h : f ∈ (TcpConnection.shutdownInLoop e).queue) : f ∈ e.queue := by
    rcases TcpConnection.shutdownInLoop_cases e with ⟨_, same⟩ | ⟨_, same⟩
    · rw [same] at h
      exact h
    · rw [same] at h
      exact h
  cases op with
  | handleWriteDrain r =>
    have outcome := TcpConnection.handleWriteDrain_outcome c r e
    simp only [apply] at h
    generalize (TcpConnection.handleWriteDrain c r e).1 = e',
      (TcpConnection.handleWriteDrain c r e).2 = flag at outcome h
    cases outcome with
    | idle r off => exact .inl h
    | stuck r on none => exact .inl h
    | part n on some => exact .inl h
    | drained n test on all => exact (queueIf h).imp_right .inl
  | sendInLoop data r =>
    have outcome := TcpConnection.sendInLoop_outcome c data r e
    simp only [apply] at h
    generalize TcpConnection.sendInLoop c data r e = e' at outcome h
    cases outcome with
    | blocked r busy => exact .inl h
    | failed errno direct => exact .inl h
    | whole n test direct all => exact (queueIf h).imp_right .inl
    | part n test direct some => exact (queueIf h).imp_right fun high => .inr ⟨_, high⟩
  | handleWriteEnd =>
    rcases TcpConnection.handleWriteEnd_cases e with ⟨_, same⟩ | ⟨_, same⟩
    · simp only [apply, same] at h
      exact .inl (shut h)
    · simp only [apply, same] at h
      exact .inl h
  | shutdownInLoop => exact .inl (shut h)
  | handleRead r =>
    simp only [apply] at h
    split at h
    · simp only [TcpConnection.handleRead] at h
      split at h <;> exact .inl h
    · exact .inl h
  | connectEstablished | connectDestroyedClose | connectDestroyedRemove | handleClose
  | shutdownStore | closeCallback | writeCompleteCallback | highWaterMarkCallback size
  | retrieve len => exact .inl h

theorem agrees_congr {ι : Type} {p : EpollPoller ι} {self : ι} {ch ch' : Channel}
    (h : Agrees p self ch) (fd : ch'.fd_ = ch.fd_) (events : ch'.events_ = ch.events_)
    (index : ch'.index_ = ch.index_) : Agrees p self ch' := by
  cases h with
  | new i listed kernel =>
    exact .new (index.trans i) (by rw [fd]; exact listed) (by rw [fd]; exact kernel)
  | added i listed kernel =>
    exact .added (index.trans i) (by rw [fd]; exact listed) (by rw [fd, events]; exact kernel)
  | deleted i listed kernel =>
    exact .deleted (index.trans i) (by rw [fd]; exact listed) (by rw [fd]; exact kernel)

namespace ConnEnv

def Agrees (c : ConnId) (e : ConnEnv) : Prop := TcpMuduo.Agrees e.poller (.conn c) e.conn.channel_

variable {c : ConnId} {op : Option ChannelOp} {e e' : ConnEnv}

theorem Registers.agrees (h : e.Registers c op e') (agree : e.Agrees c) :
    e'.Agrees c ∧ Clean e.poller e'.poller e.conn.channel_ e'.conn.channel_ := by
  cases h with
  | same channel poller =>
    unfold ConnEnv.Agrees
    rw [channel, poller]
    exact ⟨agree, ⟨⟨fun _ _ => rfl, fun _ _ => rfl⟩, rfl, rfl⟩⟩
  | op chop tied mem channel poller =>
    have tied_agree : TcpMuduo.Agrees e.poller (.conn c) { e.conn.channel_ with tied_ := tied } :=
      agrees_congr (show TcpMuduo.Agrees _ _ e.conn.channel_ from agree) rfl rfl rfl
    obtain ⟨after, clean⟩ := chop.spec tied_agree
    unfold ConnEnv.Agrees
    rw [channel, poller]
    exact ⟨after, ⟨clean.same, clean.fd, clean.errors⟩⟩

/-- Only `remove` takes a registered channel out of the poller. -/
theorem Registers.index (h : e.Registers c op e') (agree : e.Agrees c)
    (here : e.conn.channel_.index_ ≠ kNew) :
    e'.conn.channel_.index_ ≠ kNew ∨ .remove ∈ op := by
  cases h with
  | same channel poller => exact .inl (by rw [channel]; exact here)
  | op chop tied mem channel poller =>
    have tied_agree : TcpMuduo.Agrees e.poller (.conn c) { e.conn.channel_ with tied_ := tied } :=
      agrees_congr (show TcpMuduo.Agrees _ _ e.conn.channel_ from agree) rfl rfl rfl
    cases chop with
    | remove => exact .inr mem
    | enableReading | disableReading | enableWriting | disableWriting | disbaleAll =>
      exact .inl (by rw [channel]; exact (updateChannel_spec _ tied_agree).2.2.2)

end ConnEnv

theorem ConnOp.armed (c : ConnId) {e : ConnEnv} (op : ConnOp) (h : e.Armed) :
    (op.apply c e).Armed := by
  have shut : (TcpConnection.shutdownInLoop e).Armed := by
    rcases TcpConnection.shutdownInLoop_cases e with ⟨_, same⟩ | ⟨_, same⟩
    · rw [same]
      exact h
    · rw [same]
      exact h
  cases op with
  | connectEstablished => exact h.congr rfl Channel.isWriting_enableReading
  | connectDestroyedClose | handleClose => exact h.congr rfl Channel.isWriting_disbaleAll
  | connectDestroyedRemove => exact h.congr rfl rfl
  | handleRead r =>
    simp only [apply]
    split
    · simp only [TcpConnection.handleRead]
      split <;> exact h
    · exact h
  | handleWriteDrain r => exact TcpConnection.handleWriteDrain_armed c r h
  | handleWriteEnd =>
    rcases TcpConnection.handleWriteEnd_cases e with ⟨_, same⟩ | ⟨_, same⟩
    · simp only [apply, same]
      exact shut
    · simp only [apply, same]
      exact h
  | sendInLoop data r => exact TcpConnection.sendInLoop_armed c data r h
  | shutdownInLoop => exact shut
  | shutdownStore | closeCallback | writeCompleteCallback | highWaterMarkCallback size
  | retrieve len => exact h

end TcpMuduo
