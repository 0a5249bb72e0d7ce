import TcpMuduo.Net.OutputStream

/-!
Flow control: the functors with which `sendInLoop` and `handleWrite` tell the
user that the backlog has reached the mark or has gone.
-/

set_option autoImplicit false
set_option relaxedAutoImplicit false

namespace TcpMuduo

def StreamOp.Fits (e : ConnEnv) : StreamOp → Prop
  | .sendInLoop data r => r.Fits data.length
  | .handleWrite r => r.Fits e.conn.outputBuffer_.readableBytes

instance (e : ConnEnv) (op : StreamOp) : Decidable (op.Fits e) :=
  match op with
  | .sendInLoop _ r => inferInstanceAs (Decidable (r.Fits _))
  | .handleWrite r => inferInstanceAs (Decidable (r.Fits _))

/-- The output side of the connection `c`, with any answers. -/
def flowMachine (c : ConnId) : Lib.Machine ConnEnv StreamOp where
  step e op := if op.Fits e then some (op.apply c e) else none

namespace StreamOp

/-- A `sendInLoop` that raises the backlog from below the mark to the mark. -/
def Raises (c : ConnId) (e : ConnEnv) : StreamOp → Prop
  | .sendInLoop data r => e.conn.outputBuffer_.readableBytes < e.conn.highWaterMark_ ∧
      e.conn.highWaterMark_ ≤
        (TcpConnection.sendInLoop c data r e).conn.outputBuffer_.readableBytes
  | .handleWrite _ => False

instance (c : ConnId) (e : ConnEnv) (op : StreamOp) : Decidable (op.Raises c e) :=
  match op with
  | .sendInLoop _ _ => inferInstanceAs (Decidable (_ ∧ _))
  | .handleWrite _ => inferInstanceAs (Decidable False)

/-- The connection as the call that queues `writeCompleteCallback_` finds it, if it is made. -/
def completing (c : ConnId) (e : ConnEnv) : StreamOp → Option ConnEnv
  | .sendInLoop data r =>
    if !e.conn.channel_.isWriting && e.conn.outputBuffer_.readableBytes == 0 then
      match r with
      | .wrote nwrote =>
        if data.length - nwrote == 0 && e.conn.writeCompleteCallback_ then
          some (e.emit (.write data r))
        else none
      | .failed _ => none
    else none
  | .handleWrite r =>
    if e.conn.channel_.isWriting && r.ret > 0 then
      let e := e.emit (.write (e.conn.outputBuffer_.writeFd r).1 r)
      let e := e.setOutputBuffer (e.conn.outputBuffer_.retrieve r.ret.toNat)
      if e.conn.outputBuffer_.readableBytes == 0 && e.conn.writeCompleteCallback_ then
        some (e.channel c .disableWriting)
      else none
    else none

/-- What the call still does after it has queued `writeCompleteCallback_`. -/
def finish (c : ConnId) (e e₁ : ConnEnv) : StreamOp → ConnEnv
  | .sendInLoop data r =>
    TcpConnection.sendRemaining c data (TcpConnection.sendDirect c data r e).2 e₁
  | .handleWrite _ => TcpConnection.handleWriteEnd e₁

/-- The functors that a call queues: `highWaterMarkCallback_` with the new size when it raises the
backlog to the mark, and one `writeCompleteCallback_` when it leaves nothing waiting. -/
structure Notifies (c : ConnId) (e : ConnEnv) (op : StreamOp) : Prop where
  queued : (op.apply c e).queue = e.queue ++
    (if op.Raises c e then
      [.highWaterMarkCallback c (op.apply c e).conn.outputBuffer_.readableBytes] else []) ++
    (if (op.completing c e).isSome then [.writeCompleteCallback c] else [])
  drained : e.conn.outputBuffer_.readableBytes ≠ 0 →
    (op.apply c e).conn.outputBuffer_.readableBytes = 0 → (op.completing c e).isSome = true
  idle : ∀ e₁, op.completing c e = some e₁ →
    e₁.conn.outputBuffer_.readableBytes = 0 ∧ e₁.conn.channel_.isWriting = false ∧
      op.apply c e = op.finish c e (e₁.queueInLoop (.writeCompleteCallback c))

end StreamOp

namespace ConnEnv

/-- Both callbacks are set, the mark is `m`, and the write interest follows the backlog. -/
structure Flows (m : Nat) (e : ConnEnv) : Prop where
  mark : e.conn.highWaterMark_ = m
  high : e.conn.highWaterMarkCallback_ = true
  complete : e.conn.writeCompleteCallback_ = true
  armed : e.Armed

/-- The last `highWaterMarkCallback_` queued for `c` is not followed by a
`writeCompleteCallback_`. -/
def Paused (c : ConnId) (queue : List Functor) : Prop :=
  ∃ size earlier later, queue = earlier ++ .highWaterMarkCallback c size :: later ∧
    .writeCompleteCallback c ∉ later

variable {c : ConnId} {m : Nat} {e : ConnEnv}

@[simp] theorem emit_queue (event : ConnEvent) : (e.emit event).queue = e.queue := rfl
@[simp] theorem setOutputBuffer_queue (b : ValidBuffer) : (e.setOutputBuffer b).queue = e.queue :=
  rfl

private theorem queueIf_queue (test : Bool) (f : Functor) :
    (e.queueIf test f).queue = e.queue ++ if test then [f] else [] := by
  cases test with
  | false => exact (List.append_nil _).symm
  | true => rfl

private theorem readableBytes_eq_backlog :
    e.conn.outputBuffer_.readableBytes = e.backlog.length := e.conn.outputBuffer_.readableBytes_eq

end ConnEnv

namespace StreamOp

variable {c : ConnId} {m : Nat} {e : ConnEnv} {op : StreamOp}

theorem Notifies.silent (queue : (op.apply c e).queue = e.queue) (low : ¬ op.Raises c e)
    (none : op.completing c e = none)
    (waiting : (op.apply c e).backlog = [] → e.backlog = []) : op.Notifies c e where
  queued := by simp [queue, low, none]
  drained some empty := by
    rw [ValidBuffer.readableBytes_eq_zero] at empty
    exact absurd (e.conn.outputBuffer_.readableBytes_eq_zero.mpr (waiting empty)) some
  idle := by simp [none]

private theorem Notifies.complete {e₁ : ConnEnv} (found : op.completing c e = some e₁)
    (queue : (op.apply c e).queue = e.queue ++ [.writeCompleteCallback c])
    (low : ¬ op.Raises c e) (empty : e₁.backlog = [])
    (off : e₁.conn.channel_.isWriting = false)
    (after : op.apply c e = op.finish c e (e₁.queueInLoop (.writeCompleteCallback c))) :
    op.Notifies c e where
  queued := by simp [queue, low, found]
  drained _ _ := Option.isSome_of_eq_some found
  idle e' found' := by
    obtain rfl := Option.some.inj (found.symm.trans found')
    exact ⟨e₁.conn.outputBuffer_.readableBytes_eq_zero.mpr empty, off, after⟩

section Send

variable {data : List UInt8} {r : WriteResult} {n : Nat}

private theorem not_raises (same : (TcpConnection.sendInLoop c data r e).backlog = e.backlog) :
    ¬ Raises c e (.sendInLoop data r) := by
  rintro ⟨below, above⟩
  rw [ConnEnv.readableBytes_eq_backlog, same, ← ConnEnv.readableBytes_eq_backlog] at above
  exact Nat.not_le_of_lt below above

private theorem notifies_blocked (busy : ¬ e.Direct) : Notifies c e (.sendInLoop data r) := by
  have sent : TcpConnection.sendInLoop c data r e = e := TcpConnection.sendInLoop_blocked busy
  refine .silent ?_ (not_raises ?_) ?_ ?_
  · rw [apply, sent]
  · rw [sent]
  · simp only [completing, if_neg (fun test => busy (e.direct_iff.mp test))]
  · rw [apply, sent]
    exact id

private theorem notifies_failed (errno : Errno) (direct : e.Direct) :
    Notifies c e (.sendInLoop data (.failed errno)) := by
  have sent : TcpConnection.sendInLoop c data (.failed errno) e =
      e.emit (.write data (.failed errno)) := TcpConnection.sendInLoop_failed errno direct
  refine .silent ?_ (not_raises ?_) ?_ fun _ => direct.2
  · rw [apply, sent]
    rfl
  · rw [sent]
    rfl
  · simp only [completing, if_pos (e.direct_iff.mpr direct)]

private theorem notifies_whole (flows : e.Flows m) (direct : e.Direct) (all : data.length ≤ n) :
    Notifies c e (.sendInLoop data (.wrote n)) := by
  have sent : TcpConnection.sendInLoop c data (.wrote n) e =
      (e.emit (.write data (.wrote n))).queueInLoop (.writeCompleteCallback c) := by
    rw [TcpConnection.sendInLoop_whole direct all, flows.complete]
    rfl
  have none_left : data.length - n = 0 := Nat.sub_eq_zero_of_le all
  have found : completing c e (.sendInLoop data (.wrote n)) =
      some (e.emit (.write data (.wrote n))) := by
    rw [completing, if_pos (e.direct_iff.mpr direct)]
    simp [none_left, flows.complete]
  refine .complete found ?_ (not_raises ?_) direct.2 direct.1 ?_
  · rw [apply, sent]
    rfl
  · rw [sent]
    rfl
  · rw [apply, sent, finish, TcpConnection.sendDirect_wrote n direct]
    simp [TcpConnection.sendRemaining, none_left]

private theorem notifies_part (flows : e.Flows m) (pos : 0 < m) (direct : e.Direct)
    (some : n < data.length) : Notifies c e (.sendInLoop data (.wrote n)) := by
  have sent := TcpConnection.sendInLoop_part (c := c) direct some
  have empty : e.conn.outputBuffer_.readableBytes = 0 :=
    e.conn.outputBuffer_.readableBytes_eq_zero.mpr direct.2
  have left : data.length - n ≠ 0 := Nat.sub_ne_zero_of_lt some
  have none : completing c e (.sendInLoop data (.wrote n)) = none := by
    simp [completing, left]
  have size : (TcpConnection.sendInLoop c data (.wrote n) e).conn.outputBuffer_.readableBytes =
      data.length - n := by
    have before : e.conn.outputBuffer_.content = [] := direct.2
    rw [ConnEnv.readableBytes_eq_backlog, sent]
    simp [before]
  have raises : Raises c e (.sendInLoop data (.wrote n)) ↔ m ≤ data.length - n := by
    simp only [Raises, size, empty, flows.mark]
    exact and_iff_right pos
  have queue : (TcpConnection.sendInLoop c data (.wrote n) e).queue = e.queue ++
      if m ≤ data.length - n then [.highWaterMarkCallback c (data.length - n)] else [] := by
    rw [sent, ConnEnv.channel_queue, ConnEnv.setOutputBuffer_queue, ConnEnv.queueIf_queue,
      flows.high, flows.mark]
    simp [pos]
  refine ⟨?_, fun some => absurd empty some, ?_⟩
  · rw [apply, queue, size, none]
    simp only [raises, Option.isSome_none, Bool.false_eq_true, if_false, List.append_nil]
  · rw [none]
    rintro e₁ ⟨⟩

private theorem notifies_sendInLoop (flows : e.Flows m) (pos : 0 < m) (data : List UInt8)
    (r : WriteResult) : Notifies c e (.sendInLoop data r) := by
  by_cases direct : e.Direct
  · cases r with
    | failed errno => exact notifies_failed errno direct
    | wrote n =>
      by_cases all : data.length ≤ n
      · exact notifies_whole flows direct all
      · exact notifies_part flows pos direct (Nat.lt_of_not_le all)
  · exact notifies_blocked direct

end Send

section Drain

variable {r : WriteResult} {n : Nat}

private theorem handleWriteEnd_queue (e : ConnEnv) :
    (TcpConnection.handleWriteEnd e).queue = e.queue := by
  unfold TcpConnection.handleWriteEnd TcpConnection.shutdownInLoop
  split
  · split
    · rfl
    · rfl
  · rfl

private theorem completing_wrote (flows : e.Flows m) (on : e.conn.channel_.isWriting = true)
    (pos : 0 < n) :
    completing c e (.handleWrite (.wrote n)) =
      if e.backlog.length ≤ n then
        some (((e.emit (.write e.backlog (.wrote n))).setOutputBuffer
          (e.conn.outputBuffer_.retrieve n)).channel c .disableWriting)
      else none := by
  have offered : (e.conn.outputBuffer_.writeFd (.wrote n)).1 = e.backlog := by
    simp [ConnEnv.backlog]
  have positive : (WriteResult.wrote n).ret > 0 := Int.natCast_pos.mpr pos
  have left : ((e.conn.outputBuffer_.retrieve n).readableBytes == 0) =
      decide (e.backlog.length ≤ n) := by
    rw [Bool.eq_iff_iff, beq_iff_eq, ValidBuffer.readableBytes_eq_zero,
      ValidBuffer.content_retrieve, List.drop_eq_nil_iff, decide_eq_true_eq]
    rfl
  simp only [completing, on, positive, offered, flows.complete, ConnEnv.setOutputBuffer,
    ConnEnv.emit_conn, show (WriteResult.wrote n).ret.toNat = n from rfl, left]
  simp

private theorem notifies_drained (flows : e.Flows m) (on : e.conn.channel_.isWriting = true)
    (pos : 0 < n)
    (all : e.backlog.length ≤ n) : Notifies c e (.handleWrite (.wrote n)) := by
  have found := completing_wrote (c := c) flows on pos
  rw [if_pos all] at found
  have drain := TcpConnection.handleWriteDrain_wrote (c := c) on pos
  rw [if_pos all, flows.complete] at drain
  have after : apply c e (.handleWrite (.wrote n)) = TcpConnection.handleWriteEnd
      ((((e.emit (.write e.backlog (.wrote n))).setOutputBuffer
        (e.conn.outputBuffer_.retrieve n)).channel c .disableWriting).queueInLoop
          (.writeCompleteCallback c)) := by
    simp only [apply, TcpConnection.handleWrite, drain]
    rfl
  refine .complete found ?_ id ?_ Channel.isWriting_disableWriting after
  · rw [after, handleWriteEnd_queue]
    rfl
  · rw [ConnEnv.channel_backlog, ConnEnv.setOutputBuffer_backlog, ValidBuffer.content_retrieve]
    exact List.drop_eq_nil_iff.mpr all

private theorem notifies_retrieved (flows : e.Flows m) (on : e.conn.channel_.isWriting = true)
    (pos : 0 < n) (some : n < e.backlog.length) : Notifies c e (.handleWrite (.wrote n)) := by
  have partly := Nat.not_le_of_lt some
  have none := completing_wrote (c := c) flows on pos
  rw [if_neg partly] at none
  have drain := TcpConnection.handleWriteDrain_wrote (c := c) on pos
  rw [if_neg partly] at drain
  have after : apply c e (.handleWrite (.wrote n)) =
      (e.emit (.write e.backlog (.wrote n))).setOutputBuffer
        (e.conn.outputBuffer_.retrieve n) := by
    simp only [apply, TcpConnection.handleWrite, drain]
    rfl
  refine .silent ?_ id none ?_
  · rw [after]
    rfl
  · rw [after, ConnEnv.setOutputBuffer_backlog, ValidBuffer.content_retrieve,
      List.drop_eq_nil_iff]
    exact fun few => absurd few partly

private theorem notifies_stuck (stuck : e.conn.channel_.isWriting = true → ¬ r.ret > 0) :
    Notifies c e (.handleWrite r) := by
  have none : completing c e (.handleWrite r) = none := by
    cases on : e.conn.channel_.isWriting with
    | false => simp [completing, on]
    | true => simp [completing, on, stuck on]
  have same : (apply c e (.handleWrite r)).conn = e.conn ∧
      (apply c e (.handleWrite r)).queue = e.queue := by
    simp only [apply, TcpConnection.handleWrite, TcpConnection.handleWriteDrain]
    cases on : e.conn.channel_.isWriting with
    | false => exact ⟨rfl, rfl⟩
    | true =>
      simp only [if_true, if_neg (stuck on)]
      exact ⟨rfl, rfl⟩
  refine .silent same.2 id none ?_
  simp only [ConnEnv.backlog, same.1]
  exact id

private theorem notifies_handleWrite (flows : e.Flows m) (r : WriteResult) :
    Notifies c e (.handleWrite r) := by
  by_cases wrote : e.conn.channel_.isWriting = true ∧ ∃ n, r = .wrote n ∧ 0 < n
  · obtain ⟨on, n, rfl, pos⟩ := wrote
    by_cases all : e.backlog.length ≤ n
    · exact notifies_drained flows on pos all
    · exact notifies_retrieved flows on pos (Nat.lt_of_not_le all)
  · refine notifies_stuck ?_
    intro on positive
    cases r with
    | failed errno => exact absurd positive (by simp [WriteResult.ret])
    | wrote n => exact wrote ⟨on, n, rfl, Int.natCast_pos.mp positive⟩

end Drain

private theorem notifies (flows : e.Flows m) (pos : 0 < m) (op : StreamOp) : op.Notifies c e := by
  cases op with
  | sendInLoop data r => exact notifies_sendInLoop flows pos data r
  | handleWrite r => exact notifies_handleWrite flows r

end StreamOp

namespace ConnEnv

variable {c : ConnId} {m : Nat} {e e' : ConnEnv} {op : StreamOp}

theorem Flows.congr (flows : e.Flows m) (same : e'.conn = e.conn) : e'.Flows m where
  mark := by rw [same, flows.mark]
  high := by rw [same, flows.high]
  complete := by rw [same, flows.complete]
  armed := flows.armed.congr (by rw [same]) (by rw [same])

theorem Flows.sendInLoop (flows : e.Flows m) (data : List UInt8) (r : WriteResult) :
    (TcpConnection.sendInLoop c data r e).Flows m := by
  have armed := TcpConnection.sendInLoop_armed c data r flows.armed
  have outcome := TcpConnection.sendInLoop_outcome c data r e
  generalize TcpConnection.sendInLoop c data r e = e' at armed outcome ⊢
  cases outcome with
  | blocked r busy => exact flows
  | failed errno direct => exact flows.congr rfl
  | whole n test direct all => exact flows.congr (queueIf_conn ..)
  | part n test direct some =>
    refine ⟨?_, ?_, ?_, armed⟩
    · simp [channel, setOutputBuffer, flows.mark]
    · simp [channel, setOutputBuffer, flows.high]
    · simp [channel, setOutputBuffer, flows.complete]

theorem Flows.handleWriteDrain (flows : e.Flows m) (r : WriteResult) :
    (TcpConnection.handleWriteDrain c r e).1.Flows m := by
  have armed := TcpConnection.handleWriteDrain_armed c r flows.armed
  have outcome := TcpConnection.handleWriteDrain_outcome c r e
  generalize (TcpConnection.handleWriteDrain c r e).1 = e',
    (TcpConnection.handleWriteDrain c r e).2 = flag at armed outcome ⊢
  cases outcome with
  | idle r off => exact flows
  | stuck r on none => exact flows.congr rfl
  | part n on some => exact ⟨flows.mark, flows.high, flows.complete, armed⟩
  | drained n test on all =>
    refine ⟨?_, ?_, ?_, armed⟩
    · simp [channel, setOutputBuffer, flows.mark]
    · simp [channel, setOutputBuffer, flows.high]
    · simp [channel, setOutputBuffer, flows.complete]

theorem Flows.apply (flows : e.Flows m) (op : StreamOp) : (op.apply c e).Flows m := by
  cases op with
  | sendInLoop data r => exact flows.sendInLoop data r
  | handleWrite r =>
    have drained := flows.handleWriteDrain (c := c) r
    simp only [StreamOp.apply, TcpConnection.handleWrite]
    split
    · exact drained.congr (TcpConnection.handleWriteEnd_stream _).1
    · exact drained

/-- A queue that ends in `writeCompleteCallback_` does not leave the user waiting. -/
theorem not_paused_complete (queue : List Functor) :
    ¬ Paused c (queue ++ [.writeCompleteCallback c]) := by
  rintro ⟨size, earlier, later, split, missing⟩
  rcases List.eq_nil_or_concat' later with rfl | ⟨front, last, rfl⟩
  · cases (List.append_inj' split rfl).2
  · rw [← List.cons_append, ← List.append_assoc] at split
    cases (List.append_inj' split rfl).2
    exact missing (by simp)

end ConnEnv

private theorem flowMachine_step {c : ConnId} {e e' : ConnEnv} {op : StreamOp}
    (step : (flowMachine c).step e op = some e') : e' = op.apply c e := by
  simp only [flowMachine] at step
  split at step
  · exact (Option.some.inj step).symm
  · cases step

/-- What holds along a run: a user who has been told to pause and not yet to go on has bytes
waiting. -/
structure ConnEnv.Tracked (c : ConnId) (m : Nat) (e : ConnEnv) : Prop where
  flows : e.Flows m
  waiting : ConnEnv.Paused c e.queue → e.conn.outputBuffer_.readableBytes ≠ 0

theorem ConnEnv.Tracked.apply {c : ConnId} {m : Nat} {e : ConnEnv} (inv : e.Tracked c m)
    (pos : 0 < m) (op : StreamOp) : (op.apply c e).Tracked c m := by
  refine ⟨inv.flows.apply op, ?_⟩
  have notifies := StreamOp.notifies (c := c) inv.flows pos op
  intro paused empty
  rw [notifies.queued] at paused
  by_cases completes : (op.completing c e).isSome = true
  · rw [if_pos completes] at paused
    exact ConnEnv.not_paused_complete _ paused
  · rw [if_neg completes, List.append_nil] at paused
    by_cases raises : op.Raises c e
    · cases op with
      | sendInLoop data r =>
        have above : m ≤ (TcpConnection.sendInLoop c data r e).conn.outputBuffer_.readableBytes :=
          inv.flows.mark ▸ raises.2
        exact absurd empty (Nat.ne_of_gt (Nat.lt_of_lt_of_le pos above))
      | handleWrite r => exact raises
    · rw [if_neg raises, List.append_nil] at paused
      exact completes (notifies.drained (inv.waiting paused) empty)

private theorem flowMachine_run {c : ConnId} {m : Nat} {e₀ e : ConnEnv} {ops : List StreamOp}
    (pos : 0 < m) (start : e₀.Tracked c m) (run : (flowMachine c).Run e₀ ops e) :
    e.Tracked c m := by
  refine run.reachable.invariant start ?_
  intro e op e' _ inv step
  rw [flowMachine_step step]
  exact inv.apply pos op

/-- Along every run of `sendInLoop` and `handleWrite` on a connection that starts with nothing
waiting, whatever `::write` answers, the functors queued for the user follow the backlog: the next
call notifies as it should, the backlog has been below the mark between two
`highWaterMarkCallback_`, and once it is empty each of them has a `writeCompleteCallback_` queued
behind it. -/
theorem notifications_track_backlog (c : ConnId) (m : Nat) (e₀ e : ConnEnv) (ops : List StreamOp)
    (pos : 0 < m) (mark : e₀.conn.highWaterMark_ = m)
    (high : e₀.conn.highWaterMarkCallback_ = true)
    (complete : e₀.conn.writeCompleteCallback_ = true) (fresh : e₀.Direct)
    (calm : ∀ size, .highWaterMarkCallback c size ∉ e₀.queue)
    (run : (flowMachine c).Run e₀ ops e) :
    (∀ op : StreamOp, op.Fits e → op.Notifies c e) ∧
    (∀ before op between op' s s', before ++ [op] ++ between ++ [op'] <+: ops →
      (flowMachine c).Run e₀ before s → (flowMachine c).Run e₀ (before ++ [op] ++ between) s' →
      op.Raises c s → op'.Raises c s' →
      ∃ part t, part <+: between ∧ (flowMachine c).Run e₀ (before ++ [op] ++ part) t ∧
        t.conn.outputBuffer_.readableBytes < m) ∧
    (e.conn.outputBuffer_.readableBytes = 0 → ∀ size earlier later,
      e.queue = earlier ++ .highWaterMarkCallback c size :: later →
      .writeCompleteCallback c ∈ later) := by
  have start : e₀.Tracked c m := by
    refine ⟨⟨mark, high, complete, ?_⟩, ?_⟩
    · exact iff_of_false (Bool.eq_false_iff.mp fresh.1) (not_not.mpr fresh.2)
    · rintro ⟨size, earlier, later, split, -⟩
      exact absurd (split ▸ List.mem_append_right _ (List.mem_cons_self ..)) (calm size)
  have tracked := flowMachine_run pos start run
  refine ⟨fun op _ => StreamOp.notifies tracked.flows pos op, ?_, ?_⟩
  · rintro before op between op' s s' - - run' - raises
    refine ⟨between, s', List.prefix_refl _, run', ?_⟩
    cases op' with
    | sendInLoop data r => exact (flowMachine_run pos start run').flows.mark ▸ raises.1
    | handleWrite r => exact raises.elim
  · intro empty size earlier later split
    by_contra missing
    exact tracked.waiting ⟨size, earlier, later, split, missing⟩ empty

def ConnEnv.setHighWaterMarkCallback (e : ConnEnv) (highWaterMark : Nat) : ConnEnv :=
  { e with
    conn := { e.conn with highWaterMarkCallback_ := true, highWaterMark_ := highWaterMark } }

/-- The rest of a message reaches the mark and is drained in two writes. -/
def pausedCalls : List StreamOp :=
  [.sendInLoop [1, 2, 3] (.wrote 1), .handleWrite (.wrote 1), .handleWrite (.failed .EINTR),
    .handleWrite (.wrote 1)]

set_option maxRecDepth 8000 in
theorem notifications_track_backlog_paused :
    ∃ e, (flowMachine 1).Run ((ConnEnv.established 1 9).setHighWaterMarkCallback 2) pausedCalls e ∧
      e.queue = [.highWaterMarkCallback 1 2, .writeCompleteCallback 1] ∧
      (StreamOp.sendInLoop [4, 5] (.wrote 0)).Notifies 1 e := by
  have run := Lib.Machine.run_iff_exec.mpr
    (rfl : (flowMachine 1).exec ((ConnEnv.established 1 9).setHighWaterMarkCallback 2) pausedCalls =
      some _)
  have calm : ((ConnEnv.established 1 9).setHighWaterMarkCallback 2).queue = [] := rfl
  obtain ⟨next, -, -⟩ := notifications_track_backlog 1 2 _ _ _ (by decide) rfl rfl rfl (by decide)
    (by simp [calm]) run
  exact ⟨_, run, rfl, next _ (by decide)⟩

end TcpMuduo
