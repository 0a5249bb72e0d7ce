import TcpMuduo.Net.TcpConnection

/-!
The output side of a connection: what `sendInLoop` and `handleWrite` do to the
stream of bytes that the kernel has accepted and to the backlog behind it.
-/

set_option autoImplicit false
set_option relaxedAutoImplicit false

namespace TcpMuduo

namespace ConnEnv

def backlog (e : ConnEnv) : List UInt8 := e.conn.outputBuffer_.content

/-- The test of `sendInLoop` for its direct write. -/
def Direct (e : ConnEnv) : Prop := e.conn.channel_.isWriting = false ∧ e.backlog = []

instance (e : ConnEnv) : Decidable e.Direct := inferInstanceAs (Decidable (_ ∧ _))

theorem direct_iff (e : ConnEnv) :
    (!e.conn.channel_.isWriting && e.conn.outputBuffer_.readableBytes == 0) = true ↔ e.Direct := by
  rw [Bool.and_eq_true, Bool.not_eq_true', beq_iff_eq, ValidBuffer.readableBytes_eq_zero]
  rfl

variable (c : ConnId) (op : ChannelOp) (e : ConnEnv)

@[simp] theorem channel_events : (e.channel c op).events = e.events := rfl
@[simp] theorem channel_queue : (e.channel c op).queue = e.queue := rfl
@[simp] theorem channel_backlog : (e.channel c op).backlog = e.backlog := rfl
@[simp] theorem channel_state : (e.channel c op).conn.state_ = e.conn.state_ := rfl

@[simp] theorem emit_conn (event : ConnEvent) : (e.emit event).conn = e.conn := rfl
@[simp] theorem emit_poller (event : ConnEvent) : (e.emit event).poller = e.poller := rfl
@[simp] theorem emit_backlog (event : ConnEvent) : (e.emit event).backlog = e.backlog := rfl
@[simp] theorem emit_events (event : ConnEvent) :
    (e.emit event).events = e.events ++ [event] := rfl
@[simp] theorem setOutputBuffer_backlog (b : ValidBuffer) :
    (e.setOutputBuffer b).backlog = b.content := rfl
@[simp] theorem setOutputBuffer_channel (b : ValidBuffer) :
    (e.setOutputBuffer b).conn.channel_ = e.conn.channel_ := rfl
@[simp] theorem setOutputBuffer_state (b : ValidBuffer) :
    (e.setOutputBuffer b).conn.state_ = e.conn.state_ := rfl
@[simp] theorem setOutputBuffer_poller (b : ValidBuffer) :
    (e.setOutputBuffer b).poller = e.poller := rfl
@[simp] theorem setOutputBuffer_events (b : ValidBuffer) :
    (e.setOutputBuffer b).events = e.events := rfl

@[simp] theorem queueIf_false (f : Functor) : e.queueIf false f = e := rfl

@[simp] theorem queueIf_conn (test : Bool) (f : Functor) : (e.queueIf test f).conn = e.conn := by
  cases test <;> rfl

@[simp] theorem queueIf_events (test : Bool) (f : Functor) :
    (e.queueIf test f).events = e.events := by
  cases test <;> rfl

@[simp] theorem queueIf_poller (test : Bool) (f : Functor) :
    (e.queueIf test f).poller = e.poller := by
  cases test <;> rfl

@[simp] theorem queueIf_backlog (test : Bool) (f : Functor) :
    (e.queueIf test f).backlog = e.backlog := by
  cases test <;> rfl

end ConnEnv

namespace TcpConnection

variable {c : ConnId} {data : List UInt8} {r : WriteResult} {e : ConnEnv}

/-- The four outcomes of `sendInLoop`, up to the functors it queues. Only the last one, a direct
write that took a part of the data, keeps anything for later. -/
inductive SendOutcome (c : ConnId) (data : List UInt8) (e : ConnEnv) : WriteResult → ConnEnv → Prop
  | blocked (r : WriteResult) (busy : ¬ e.Direct) : SendOutcome c data e r e
  | failed (errno : Errno) (direct : e.Direct) :
      SendOutcome c data e (.failed errno) (e.emit (.write data (.failed errno)))
  | whole (n : Nat) (test : Bool) (direct : e.Direct) (all : data.length ≤ n) :
      SendOutcome c data e (.wrote n)
        ((e.emit (.write data (.wrote n))).queueIf test (.writeCompleteCallback c))
  | part (n : Nat) (test : Bool) (direct : e.Direct) (some : n < data.length) :
      SendOutcome c data e (.wrote n)
        ((((e.emit (.write data (.wrote n))).queueIf test
            (.highWaterMarkCallback c (data.length - n))).setOutputBuffer
          (e.conn.outputBuffer_.append (data.drop n))).channel c .enableWriting)

theorem sendDirect_wrote (n : Nat) (direct : e.Direct) :
    sendDirect c data (.wrote n) e =
      ((e.emit (.write data (.wrote n))).queueIf
        (data.length - n == 0 && e.conn.writeCompleteCallback_) (.writeCompleteCallback c),
        ⟨n, data.length - n, false⟩) := by
  simp only [sendDirect, if_pos (e.direct_iff.mpr direct)]
  rfl

theorem sendInLoop_failed (errno : Errno) (direct : e.Direct) :
    sendInLoop c data (.failed errno) e = e.emit (.write data (.failed errno)) := by
  simp only [sendInLoop, sendDirect, if_pos (e.direct_iff.mpr direct)]
  split <;> simp [sendRemaining]

theorem sendInLoop_whole {n : Nat} (direct : e.Direct) (all : data.length ≤ n) :
    sendInLoop c data (.wrote n) e = (e.emit (.write data (.wrote n))).queueIf
      e.conn.writeCompleteCallback_ (.writeCompleteCallback c) := by
  have none_left : data.length - n = 0 := by omega
  simp only [sendInLoop, sendDirect_wrote n direct, none_left, sendRemaining]
  simp

theorem sendInLoop_part {n : Nat} (direct : e.Direct) (some : n < data.length) :
    sendInLoop c data (.wrote n) e =
      (((e.emit (.write data (.wrote n))).queueIf
          (data.length - n ≥ e.conn.highWaterMark_ && 0 < e.conn.highWaterMark_ &&
            e.conn.highWaterMarkCallback_)
          (.highWaterMarkCallback c (data.length - n))).setOutputBuffer
        (e.conn.outputBuffer_.append (data.drop n))).channel c .enableWriting := by
  have left : data.length - n > 0 := by omega
  have rest : (data.drop n).take (data.length - n) = data.drop n :=
    List.take_of_length_le (by simp)
  have empty : e.conn.outputBuffer_.readableBytes = 0 :=
    e.conn.outputBuffer_.readableBytes_eq_zero.mpr direct.2
  have quiet : (data.length - n == 0 && e.conn.writeCompleteCallback_) = false := by
    simp only [beq_eq_false_iff_ne.mpr (Nat.ne_of_gt left), Bool.false_and]
  simp only [sendInLoop, sendDirect_wrote n direct, quiet, sendRemaining, left, rest,
    ConnEnv.queueIf_false, ConnEnv.queueIf_conn, ConnEnv.emit_conn, empty, Nat.zero_add,
    ConnEnv.setOutputBuffer_channel, direct.1]
  rfl

theorem sendInLoop_blocked (busy : ¬ e.Direct) : sendInLoop c data r e = e := by
  have test : ¬ (!e.conn.channel_.isWriting && e.conn.outputBuffer_.readableBytes == 0) = true :=
    fun h => busy (e.direct_iff.mp h)
  simp only [sendInLoop, sendDirect, if_neg test, sendRemaining]
  rfl

theorem sendInLoop_outcome (c : ConnId) (data : List UInt8) (r : WriteResult) (e : ConnEnv) :
    SendOutcome c data e r (sendInLoop c data r e) := by
  by_cases direct : e.Direct
  · cases r with
    | failed errno => exact sendInLoop_failed errno direct ▸ .failed errno direct
    | wrote n =>
      by_cases all : data.length ≤ n
      · exact sendInLoop_whole direct all ▸ .whole n _ direct all
      · have some := Nat.lt_of_not_le all
        exact sendInLoop_part direct some ▸ .part n _ direct some
  · exact (sendInLoop_blocked direct).symm ▸ .blocked r direct

/-- The outcomes of `handleWrite` up to its test of `state_`. -/
inductive DrainOutcome (c : ConnId) (e : ConnEnv) : WriteResult → ConnEnv → Bool → Prop
  | idle (r : WriteResult) (off : e.conn.channel_.isWriting = false) : DrainOutcome c e r e false
  | stuck (r : WriteResult) (on : e.conn.channel_.isWriting = true)
      (none : r.taken e.backlog = []) :
      DrainOutcome c e r (e.emit (.write e.backlog r)) false
  | part (n : Nat) (on : e.conn.channel_.isWriting = true) (some : n < e.backlog.length) :
      DrainOutcome c e (.wrote n) ((e.emit (.write e.backlog (.wrote n))).setOutputBuffer
        (e.conn.outputBuffer_.retrieve n)) false
  | drained (n : Nat) (test : Bool) (on : e.conn.channel_.isWriting = true)
      (all : e.backlog.length ≤ n) :
      DrainOutcome c e (.wrote n) ((((e.emit (.write e.backlog (.wrote n))).setOutputBuffer
        (e.conn.outputBuffer_.retrieve n)).channel c .disableWriting).queueIf test
          (.writeCompleteCallback c)) true

theorem handleWriteDrain_wrote {n : Nat} (on : e.conn.channel_.isWriting = true) (pos : 0 < n) :
    handleWriteDrain c (.wrote n) e =
      if e.backlog.length ≤ n then
        ((((e.emit (.write e.backlog (.wrote n))).setOutputBuffer
          (e.conn.outputBuffer_.retrieve n)).channel c .disableWriting).queueIf
            e.conn.writeCompleteCallback_ (.writeCompleteCallback c), true)
      else
        ((e.emit (.write e.backlog (.wrote n))).setOutputBuffer
          (e.conn.outputBuffer_.retrieve n), false) := by
  have offered : (e.conn.outputBuffer_.writeFd (.wrote n)).1 = e.backlog := by
    simp [ConnEnv.backlog]
  have positive : (WriteResult.wrote n).ret > 0 := Int.natCast_pos.mpr pos
  have left : (((e.conn.outputBuffer_.retrieve n).readableBytes == 0) = true)
      = (e.backlog.length ≤ n) := by
    rw [beq_iff_eq, ValidBuffer.readableBytes_eq_zero, ValidBuffer.content_retrieve,
      List.drop_eq_nil_iff]
    rfl
  simp only [handleWriteDrain, if_pos on, offered, if_pos positive]
  simp only [show (WriteResult.wrote n).ret.toNat = n from rfl, ConnEnv.emit_conn,
    ConnEnv.setOutputBuffer, left]
  rfl

theorem handleWriteDrain_outcome (c : ConnId) (r : WriteResult) (e : ConnEnv) :
    DrainOutcome c e r (handleWriteDrain c r e).1 (handleWriteDrain c r e).2 := by
  by_cases on : e.conn.channel_.isWriting = true
  · by_cases pos : ∃ n, r = .wrote n ∧ 0 < n
    · obtain ⟨n, rfl, pos⟩ := pos
      rw [handleWriteDrain_wrote on pos]
      split
      · rename_i all
        exact .drained n _ on all
      · rename_i some
        exact .part n on (Nat.lt_of_not_le some)
    · have nothing : ¬ r.ret > 0 ∧ r.taken e.backlog = [] := by
        cases r with
        | failed errno => exact ⟨by simp [WriteResult.ret], rfl⟩
        | wrote n =>
          have zero : n = 0 := by
            by_contra h
            exact pos ⟨n, rfl, Nat.pos_of_ne_zero h⟩
          subst zero
          exact ⟨by decide, rfl⟩
      have offered : (e.conn.outputBuffer_.writeFd r).1 = e.backlog := by
        simp [ConnEnv.backlog]
      simp only [handleWriteDrain, if_pos on, offered, if_neg nothing.1]
      exact .stuck r on nothing.2
  · have off : e.conn.channel_.isWriting = false := by simpa using on
    simp only [handleWriteDrain, if_neg on]
    exact .idle r off

theorem handleWriteEnd_stream (e : ConnEnv) :
    (handleWriteEnd e).conn = e.conn ∧ accepted (handleWriteEnd e).events = accepted e.events := by
  unfold handleWriteEnd shutdownInLoop
  split
  · split
    · refine ⟨rfl, ?_⟩
      simp [ConnEnv.shutDownWrite, ConnEnv.emit, accepted]
    · exact ⟨rfl, rfl⟩
  · exact ⟨rfl, rfl⟩

end TcpConnection

namespace ConnEnv

/-- The write interest is on exactly when there is something to write. -/
def Armed (e : ConnEnv) : Prop := e.conn.channel_.isWriting = true ↔ e.backlog ≠ []

theorem Armed.congr {e e' : ConnEnv} (h : e.Armed)
    (buffer : e'.conn.outputBuffer_ = e.conn.outputBuffer_)
    (writing : e'.conn.channel_.isWriting = e.conn.channel_.isWriting) : e'.Armed := by
  unfold Armed backlog at *
  rw [buffer, writing]
  exact h

end ConnEnv

namespace TcpConnection

variable (c : ConnId) {e : ConnEnv}

theorem sendInLoop_armed (data : List UInt8) (r : WriteResult) (h : e.Armed) :
    (sendInLoop c data r e).Armed := by
  have outcome := sendInLoop_outcome c data r e
  generalize sendInLoop c data r e = e' at outcome ⊢
  cases outcome with
  | blocked r busy => exact h
  | failed errno direct => exact h
  | whole n test direct all => exact h.congr (by simp) (by simp)
  | part n test direct some =>
    have left : data.drop n ≠ [] := by
      intro none
      rw [List.drop_eq_nil_iff] at none
      exact absurd none (Nat.not_le_of_lt some)
    refine iff_of_true ?_ ?_
    · simp [ConnEnv.channel]
    · simp [left]

theorem handleWriteDrain_armed (r : WriteResult) (h : e.Armed) :
    (handleWriteDrain c r e).1.Armed := by
  have outcome := handleWriteDrain_outcome c r e
  generalize (handleWriteDrain c r e).1 = e', (handleWriteDrain c r e).2 = flag at outcome ⊢
  cases outcome with
  | idle r off => exact h
  | stuck r on none => exact h
  | part n on some =>
    have left : (e.conn.outputBuffer_.retrieve n).content ≠ [] := by
      rw [ValidBuffer.content_retrieve]
      intro none
      rw [List.drop_eq_nil_iff] at none
      exact absurd none (Nat.not_le_of_lt some)
    exact iff_of_true on left
  | drained n test on all =>
    have none : (e.conn.outputBuffer_.retrieve n).content = [] := by
      rw [ValidBuffer.content_retrieve]
      exact List.drop_eq_nil_of_le all
    refine iff_of_false ?_ ?_
    · simp [ConnEnv.channel]
    · simp [none]

end TcpConnection

/-- One call on the output side, with the kernel's answer to its `::write`. -/
inductive StreamOp
  | sendInLoop (data : List UInt8) (r : WriteResult)
  | handleWrite (r : WriteResult)
  deriving DecidableEq, Repr

def StreamOp.data : StreamOp → List UInt8
  | .sendInLoop data _ => data
  | .handleWrite _ => []

/-- The answers of a socket whose peer is still there. -/
def StreamOp.Possible (e : ConnEnv) : StreamOp → Prop
  | .sendInLoop data r => r.Fits data.length ∧ r ≠ .failed .EPIPE ∧ r ≠ .failed .ECONNRESET
  | .handleWrite r => r.Fits e.backlog.length ∧ r ≠ .failed .EPIPE ∧ r ≠ .failed .ECONNRESET

instance (e : ConnEnv) (op : StreamOp) : Decidable (op.Possible e) :=
  match op with
  | .sendInLoop _ _ => inferInstanceAs (Decidable (_ ∧ _ ∧ _))
  | .handleWrite _ => inferInstanceAs (Decidable (_ ∧ _ ∧ _))

def StreamOp.apply (c : ConnId) (e : ConnEnv) : StreamOp → ConnEnv
  | .sendInLoop data r => TcpConnection.sendInLoop c data r e
  | .handleWrite r => TcpConnection.handleWrite c r e

/-- The output side of the connection `c` under arbitrary calls. -/
def streamMachine (c : ConnId) : Lib.Machine ConnEnv StreamOp where
  step e op := if op.Possible e then some (op.apply c e) else none

/-- The bytes accepted by the kernel and the backlog are the bytes given to `sendInLoop`. -/
def Intact (ops : List StreamOp) (e : ConnEnv) : Prop :=
  accepted e.events ++ e.backlog = ops.flatMap StreamOp.data

/-- A call that has nothing to send, or finds nothing waiting and is not refused. -/
def SendsDirectly (e : ConnEnv) : StreamOp → Prop
  | .sendInLoop data r => data = [] ∨ e.Direct ∧ ∃ n, r = .wrote n
  | .handleWrite _ => True

open TcpConnection in
/-- The stream survives a `sendInLoop` exactly when nothing was waiting and the write was not
refused, or there was nothing to send: otherwise `remaining` is still zero and the data is
dropped. -/
theorem intact_sendInLoop {c : ConnId} {e : ConnEnv} {ops : List StreamOp} {data : List UInt8}
    {r : WriteResult} (before : Intact ops e) :
    Intact (ops ++ [.sendInLoop data r]) (sendInLoop c data r e) ↔
      SendsDirectly e (.sendInLoop data r) := by
  have goal (e' : ConnEnv) : Intact (ops ++ [.sendInLoop data r]) e' ↔
      accepted e'.events ++ e'.backlog = accepted e.events ++ (e.backlog ++ data) := by
    unfold Intact at before ⊢
    simp [StreamOp.data, ← before]
  have lost (same : accepted (sendInLoop c data r e).events = accepted e.events)
      (left : (sendInLoop c data r e).backlog = e.backlog) :
      Intact (ops ++ [.sendInLoop data r]) (sendInLoop c data r e) ↔ data = [] := by
    rw [goal, same, left]
    simp
  have outcome := sendInLoop_outcome c data r e
  generalize sendInLoop c data r e = e' at outcome lost ⊢
  cases outcome with
  | blocked r busy =>
    rw [lost rfl rfl]
    simp [SendsDirectly, busy]
  | failed errno direct =>
    rw [lost (by simp [accepted, WriteResult.taken]) rfl]
    simp [SendsDirectly]
  | whole n test direct all =>
    have sent : (accepted [ConnEvent.write data (.wrote n)]) = data := by
      simp [accepted, WriteResult.taken, List.take_of_length_le all]
    have : SendsDirectly e (.sendInLoop data (.wrote n)) := .inr ⟨direct, n, rfl⟩
    simp [goal, this, sent, direct.2]
  | part n test direct some =>
    have sent : (accepted [ConnEvent.write data (.wrote n)]) = data.take n := by
      simp [accepted, WriteResult.taken]
    have : SendsDirectly e (.sendInLoop data (.wrote n)) := .inr ⟨direct, n, rfl⟩
    have empty : e.conn.outputBuffer_.content = [] := direct.2
    simp [goal, this, sent, direct.2, empty]

open TcpConnection in
private theorem intact_handleWrite {c : ConnId} {e : ConnEnv} {ops : List StreamOp}
    {r : WriteResult}
    (before : Intact ops e) :
    Intact (ops ++ [.handleWrite r]) (handleWrite c r e) := by
  have goal (e' : ConnEnv)
      (moved : accepted e'.events ++ e'.backlog = accepted e.events ++ e.backlog) :
      Intact (ops ++ [.handleWrite r]) e' := by
    unfold Intact at before ⊢
    rw [moved, before]
    simp [StreamOp.data]
  have drain : accepted (handleWriteDrain c r e).1.events ++ (handleWriteDrain c r e).1.backlog
      = accepted e.events ++ e.backlog := by
    have outcome := handleWriteDrain_outcome c r e
    generalize (handleWriteDrain c r e).1 = e', (handleWriteDrain c r e).2 = flag at outcome ⊢
    cases outcome with
    | idle r off => rfl
    | stuck r on none => simp [accepted, none]
    | part n on some => simp [accepted, WriteResult.taken, ← ConnEnv.backlog.eq_1]
    | drained n test on all => simp [accepted, WriteResult.taken, ← ConnEnv.backlog.eq_1]
  refine goal _ ?_
  simp only [handleWrite]
  split
  · have stream := handleWriteEnd_stream (handleWriteDrain c r e).1
    simp only [ConnEnv.backlog, stream.1, stream.2]
    exact drain
  · exact drain

/-- Output stream integrity, exactly: along a run of `sendInLoop` and `handleWrite` calls on a
connected connection with an empty backlog, accepted bytes and backlog are after every step the
bytes given to `sendInLoop` if and only if every `sendInLoop` with data finds the channel not
writing and the backlog empty and gets a count from `::write`. -/
theorem outputStream_intact_iff (c : ConnId) (e₀ e : ConnEnv) (ops : List StreamOp)
    (empty : e₀.backlog = []) (unsent : accepted e₀.events = [])
    (run : (streamMachine c).Run e₀ ops e) :
    (streamMachine c).Throughout Intact e₀ ops ↔
      (streamMachine c).StepsMeet SendsDirectly e₀ ops := by
  refine Lib.Machine.throughout_iff_stepsMeet run (by simp [Intact, empty, unsent]) ?_
  intro ops s op s' _ before hs
  simp only [streamMachine] at hs
  split at hs
  · obtain rfl := Option.some.inj hs
    cases op with
    | sendInLoop data r => exact intact_sendInLoop before
    | handleWrite r => exact iff_of_true (intact_handleWrite before) trivial
  · cases hs

/-- A message written in part, drained, and followed by another one. -/
def drainedCalls : List StreamOp :=
  [.sendInLoop [1, 2, 3] (.wrote 1), .handleWrite (.wrote 2), .sendInLoop [4] (.wrote 1)]

set_option maxRecDepth 8000 in
theorem outputStream_intact_iff_drained :
    ∃ e, (streamMachine 1).Run (.established 1 9) drainedCalls e ∧
      accepted e.events = [1, 2, 3, 4] ∧
      ((streamMachine 1).Throughout Intact (.established 1 9) drainedCalls ↔
        (streamMachine 1).StepsMeet SendsDirectly (.established 1 9) drainedCalls) := by
  have run := Lib.Machine.run_iff_exec.mpr
    (rfl : (streamMachine 1).exec (.established 1 9) drainedCalls = some _)
  exact ⟨_, run, rfl, outputStream_intact_iff 1 _ _ _ rfl rfl run⟩

/-- A direct write refused with `EWOULDBLOCK` loses the message: nothing has been accepted and
nothing is kept. -/
theorem outputStream_dropped :
    (ConnEnv.established 1 9).conn.state_ = .kConnected ∧ (ConnEnv.established 1 9).backlog = [] ∧
      accepted (ConnEnv.established 1 9).events = [] ∧
      ∃ e, (streamMachine 1).Run (.established 1 9)
          [.sendInLoop [104, 105] (.failed .EWOULDBLOCK)] e ∧
        accepted e.events ++ e.backlog = [] ∧
        ¬ Intact [.sendInLoop [104, 105] (.failed .EWOULDBLOCK)] e := by
  have run := Lib.Machine.run_iff_exec.mpr
    (rfl : (streamMachine 1).exec (.established 1 9)
      [.sendInLoop [104, 105] (.failed .EWOULDBLOCK)] = some _)
  refine ⟨rfl, rfl, rfl, _, run, rfl, ?_⟩
  intro (intact : ([] : List UInt8) = [104, 105])
  cases intact

end TcpMuduo
