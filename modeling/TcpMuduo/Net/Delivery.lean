import TcpMuduo.Net.Disconnect

/-!
The bytes that leave a connection, over all runs of the server. `sendInLoop`
takes a message over or drops it; what it takes over goes to the kernel as a
whole and in its order, and only a rest of the last message can be waiting.
-/

set_option autoImplicit false
set_option relaxedAutoImplicit false

namespace TcpMuduo

namespace ConnOp

/-- The message that the operation offers. -/
def message : ConnOp → List (List UInt8)
  | .sendInLoop data _ => [data]
  | _ => []

/-- The message that the operation takes over: nothing is waiting, and the kernel answers with a
count. -/
def kept (e : ConnEnv) : ConnOp → List (List UInt8)
  | .sendInLoop data (.wrote _) => if e.Direct then [data] else []
  | _ => []

/-- The `handleWrite` calls to which the kernel takes bytes over. -/
def drains : ConnOp → List Nat
  | .handleWriteDrain (.wrote n) => if n = 0 then [] else [n]
  | _ => []

private theorem kept_sublist (e : ConnEnv) (op : ConnOp) : (op.kept e).Sublist op.message := by
  cases op with
  | sendInLoop data r =>
    cases r with
    | wrote n =>
      simp only [kept, message]
      split
      · exact List.Sublist.refl _
      · exact List.nil_sublist _
    | failed errno => exact List.nil_sublist _
  | _ => exact List.Sublist.refl _

/-- What an operation does to the stream: a message taken over is appended, and what waits
afterwards is the end of what waited before or of that message. -/
structure Delivers (e : ConnEnv) (op : ConnOp) (e' : ConnEnv) : Prop where
  stream : accepted e'.events ++ e'.backlog
    = accepted e.events ++ e.backlog ++ (op.kept e).flatten
  rest : op.kept e = [] ∧ e'.backlog <:+ e.backlog ∨
    ∃ data, op.kept e = [data] ∧ e'.backlog <:+ data
  worked : e.backlog ≠ [] → e'.backlog.length + op.drains.length ≤ e.backlog.length

variable {c : ConnId} {e e' : ConnEnv}

theorem Delivers.quiet {op : ConnOp} {more : List ConnEvent} (none : op.kept e = [])
    (idle : op.drains = []) (events : e'.events = e.events ++ more) (silent : accepted more = [])
    (buffer : e'.conn.outputBuffer_ = e.conn.outputBuffer_) : Delivers e op e' := by
  have same : e'.backlog = e.backlog := by rw [ConnEnv.backlog, buffer]; rfl
  refine ⟨?_, .inl ⟨none, ?_⟩, ?_⟩
  · rw [none, events, same, accepted_append, silent]
    simp
  · rw [same]
  · intro _
    rw [same, idle]
    exact Nat.le_refl _

private theorem delivers_shutdownInLoop {op : ConnOp} (none : op.kept e = [])
    (idle : op.drains = []) :
    Delivers e op (TcpConnection.shutdownInLoop e) := by
  rcases TcpConnection.shutdownInLoop_cases e with ⟨_, same⟩ | ⟨_, same⟩
  · rw [same]
    exact .quiet none idle rfl rfl rfl
  · rw [same]
    exact .quiet none idle (List.append_nil _).symm rfl rfl

private theorem delivers_sendInLoop (data : List UInt8) (r : WriteResult) :
    Delivers e (.sendInLoop data r) (TcpConnection.sendInLoop c data r e) := by
  have outcome := TcpConnection.sendInLoop_outcome c data r e
  generalize TcpConnection.sendInLoop c data r e = e' at outcome ⊢
  cases outcome with
  | blocked r busy =>
    have none : (ConnOp.sendInLoop data r).kept e = [] := by
      cases r with
      | wrote n => exact if_neg busy
      | failed errno => rfl
    exact .quiet none rfl (List.append_nil _).symm rfl rfl
  | failed errno direct =>
    exact .quiet rfl rfl rfl (by simp [accepted, WriteResult.taken]) rfl
  | whole n test direct all =>
    have whole : (ConnOp.sendInLoop data (.wrote n)).kept e = [data] := if_pos direct
    have sent : accepted [ConnEvent.write data (.wrote n)] = data := by
      simp [accepted, WriteResult.taken, List.take_of_length_le all]
    refine ⟨?_, .inr ⟨data, whole, ?_⟩, fun some => absurd direct.2 some⟩
    · simp [whole, sent, direct.2]
    · simp [direct.2]
  | part n test direct some =>
    have whole : (ConnOp.sendInLoop data (.wrote n)).kept e = [data] := if_pos direct
    have sent : accepted [ConnEvent.write data (.wrote n)] = data.take n := by
      simp [accepted, WriteResult.taken]
    have empty : e.conn.outputBuffer_.content = [] := direct.2
    refine ⟨?_, .inr ⟨data, whole, ?_⟩, fun some => absurd direct.2 some⟩
    · simp [whole, sent, direct.2, empty]
    · simp only [ConnEnv.channel_backlog, ConnEnv.setOutputBuffer_backlog,
        ValidBuffer.content_append, empty, List.nil_append]
      exact List.drop_suffix n data

private theorem delivers_handleWriteDrain (armed : e.Armed) (r : WriteResult) :
    Delivers e (.handleWriteDrain r) (TcpConnection.handleWriteDrain c r e).1 := by
  have outcome := TcpConnection.handleWriteDrain_outcome c r e
  generalize (TcpConnection.handleWriteDrain c r e).1 = e',
    (TcpConnection.handleWriteDrain c r e).2 = flag at outcome ⊢
  have few (n : Nat) : (ConnOp.handleWriteDrain (.wrote n)).drains.length ≤ n := by
    simp only [drains]
    split
    · exact Nat.zero_le _
    · rename_i some
      exact Nat.pos_of_ne_zero some
  cases outcome with
  | idle r off =>
    refine ⟨by simp [kept], .inl ⟨rfl, List.suffix_refl _⟩, ?_⟩
    intro some
    rw [armed.mpr some] at off
    cases off
  | stuck r on none =>
    refine ⟨by simp [kept, accepted, none], .inl ⟨rfl, List.suffix_refl _⟩, ?_⟩
    intro some
    have idle : (ConnOp.handleWriteDrain r).drains = [] := by
      cases r with
      | failed errno => rfl
      | wrote n =>
        have zero : n = 0 := by simpa [WriteResult.taken, some] using none
        simp [drains, zero]
    rw [idle]
    exact Nat.le_refl _
  | part n on some =>
    refine ⟨by simp [kept, accepted, WriteResult.taken, ← ConnEnv.backlog.eq_1],
      .inl ⟨rfl, ?_⟩, ?_⟩
    · simpa [← ConnEnv.backlog.eq_1] using List.drop_suffix n e.backlog
    · intro _
      have left : (e.conn.outputBuffer_.retrieve n).content.length = e.backlog.length - n := by
        simp [ConnEnv.backlog]
      have few := few n
      simp only [ConnEnv.setOutputBuffer_backlog, left]
      omega
  | drained n test on all =>
    have none : (e.conn.outputBuffer_.retrieve n).content = [] := by
      rw [ValidBuffer.content_retrieve]
      exact List.drop_eq_nil_of_le all
    refine ⟨?_, .inl ⟨rfl, by simp [none]⟩, ?_⟩
    · simp [kept, accepted, WriteResult.taken, none, List.take_of_length_le all]
    · intro some
      have pos := List.length_pos_of_ne_nil some
      have one : (ConnOp.handleWriteDrain (.wrote n)).drains.length ≤ 1 := by
        simp only [drains]
        split <;> simp
      simp only [ConnEnv.queueIf_backlog, ConnEnv.channel_backlog,
        ConnEnv.setOutputBuffer_backlog, none, List.length_nil]
      omega

private theorem delivers (c : ConnId) (armed : e.Armed) (op : ConnOp) : Delivers e op
    (op.apply c e) := by
  cases op with
  | sendInLoop data r => exact delivers_sendInLoop data r
  | handleWriteDrain r => exact delivers_handleWriteDrain armed r
  | shutdownInLoop => exact delivers_shutdownInLoop rfl rfl
  | handleWriteEnd =>
    rcases TcpConnection.handleWriteEnd_cases e with ⟨_, same⟩ | ⟨_, same⟩
    · simp only [apply, same]
      exact delivers_shutdownInLoop rfl rfl
    · simp only [apply, same]
      exact .quiet rfl rfl (List.append_nil _).symm rfl rfl
  | handleRead r =>
    simp only [apply]
    split
    · simp only [TcpConnection.handleRead]
      split
      · exact .quiet rfl rfl rfl rfl rfl
      · exact .quiet rfl rfl (List.append_nil _).symm rfl rfl
    · exact .quiet rfl rfl (List.append_nil _).symm rfl rfl
  | connectEstablished | connectDestroyedClose | handleClose | closeCallback
  | writeCompleteCallback | highWaterMarkCallback size => exact .quiet rfl rfl rfl rfl rfl
  | connectDestroyedRemove | shutdownStore | retrieve len =>
    exact .quiet rfl rfl (List.append_nil _).symm rfl rfl

end ConnOp

namespace Server

variable {s s' : Server} {i : Tid × Input} {c : ConnId} {config : ServerConfig}
variable {inputs : List (Tid × Input)}

/-- The messages that executions of `sendInLoop` on `c` offer. -/
def messages (c : ConnId) (s : Server) (i : Tid × Input) : List (List UInt8) :=
  (s.opOn c i).elim [] ConnOp.message

/-- The messages among them that are taken over. -/
def keptMessages (c : ConnId) (s : Server) (i : Tid × Input) : List (List UInt8) :=
  (s.opOn c i).elim [] (ConnOp.kept (s.env c))

/-- The `handleWrite` calls of `c` to which the kernel takes bytes over. -/
def drainsOn (c : ConnId) (s : Server) (i : Tid × Input) : List Nat :=
  (s.opOn c i).elim [] ConnOp.drains

theorem keptMessages_sublist (c : ConnId) (s : Server) (i : Tid × Input) :
    (s.keptMessages c i).Sublist (s.messages c i) := by
  unfold keptMessages messages
  cases s.opOn c i with
  | none => exact List.Sublist.refl _
  | some op => exact op.kept_sublist _

/-- The stream of the connection `c` after a run that has taken over the messages `kept`. -/
structure Delivered (kept : List (List UInt8)) (c : ConnId) (s : Server) : Prop where
  stream : accepted (s.events c) ++ (s.env c).backlog = kept.flatten
  rest : (s.env c).backlog = [] ∨
    ∃ front last, kept = front ++ [last] ∧ (s.env c).backlog <:+ last
  fresh : ¬ s.Created c → s.events c = [] ∧ (s.env c).backlog = []

theorem Delivered.op {kept : List (List UInt8)} {op : ConnOp} (inv : s.Delivered kept c)
    (created : s'.Created c) (armed : (s.env c).Armed)
    (conn : s'.conn c = (op.apply c (s.env c)).conn)
    (events : s'.events c = (op.apply c (s.env c)).events) :
    s'.Delivered (kept ++ op.kept (s.env c)) c := by
  have delivers := ConnOp.delivers c armed op
  have backlog : (s'.env c).backlog = (op.apply c (s.env c)).backlog := by
    unfold ConnEnv.backlog
    exact congrArg (fun conn => conn.outputBuffer_.content) conn
  refine ⟨?_, ?_, fun new => absurd created new⟩
  · rw [backlog, events, delivers.stream, List.flatten_append, ← inv.stream]
    rfl
  · rw [backlog]
    rcases delivers.rest with ⟨none, rest⟩ | ⟨data, whole, rest⟩
    · rw [none, List.append_nil]
      rcases inv.rest with empty | ⟨front, last, split, before⟩
      · exact .inl (List.suffix_nil.mp (empty ▸ rest))
      · exact .inr ⟨front, last, split, rest.trans before⟩
    · exact .inr ⟨kept, data, by rw [whole], rest⟩

theorem Delivered.step {kept : List (List UInt8)} (reach : machine.Reachable (.new config) s)
    (inv : s.Delivered kept c) (h : machine.step s i = some s') :
    s'.Delivered (kept ++ s.keptMessages c i) c := by
  have confined := confined reach
  have ext : s.Extends s' := by
    obtain ⟨eff, sys, -, -, rfl⟩ := step_does (t := i.1) (a := i.2) h
    exact s.after_extends _ _ _
  cases step_sees confined h c with
  | op op here created conn events =>
    have new : s.keptMessages c i = op.kept (s.env c) := by simp [keptMessages, here]
    rw [new]
    exact inv.op (ext.mono created) ((halfClosing reach).armed c) conn events
  | new connfd here this conn events =>
    have unknown : ¬ s.Created c := fun created => Nat.ne_of_lt created.2 this
    obtain ⟨silent, empty⟩ := inv.fresh unknown
    have backlog : (s'.env c).backlog = [] := by
      simp [env, ConnEnv.backlog, conn, TcpConnection.new]
    have none : s.keptMessages c i = [] := by simp [keptMessages, here]
    refine ⟨?_, .inl backlog, fun _ => ⟨events.trans silent, backlog⟩⟩
    rw [none, List.append_nil, ← inv.stream, events, backlog, empty]
  | idle here revents conn events =>
    have backlog : (s'.env c).backlog = (s.env c).backlog := by simp [env, ConnEnv.backlog, conn]
    have none : s.keptMessages c i = [] := by simp [keptMessages, here]
    rw [none, List.append_nil]
    refine ⟨by rw [events, backlog, inv.stream], by rw [backlog]; exact inv.rest, ?_⟩
    intro unknown
    rw [events, backlog]
    exact inv.fresh fun created => unknown (ext.mono created)

theorem delivered_run (run : machine.Run (Server.new config) inputs s) (c : ConnId) :
    s.Delivered (machine.collect (keptMessages c) (.new config) inputs) c := by
  induction run with
  | nil => exact ⟨rfl, .inl rfl, fun _ => ⟨rfl, rfl⟩⟩
  | snoc run hs ih =>
    rw [run.collect_snoc]
    exact ih.step run.reachable hs

/-- In every run, what the kernel has accepted from a connection and what waits in its
`outputBuffer_` are together the messages that `sendInLoop` has taken over, each one whole, once
and in the order of the executions; the messages taken over are those that found nothing waiting
and were answered with a count. -/
theorem messages_whole (config : ServerConfig) (inputs : List (Tid × Input)) (s : Server)
    (run : machine.Run (Server.new config) inputs s) (c : ConnId) :
    accepted (s.events c) ++ (s.conn c).outputBuffer_.content
        = (machine.collect (keptMessages c) (.new config) inputs).flatten ∧
      (machine.collect (keptMessages c) (.new config) inputs).Sublist
        (machine.collect (messages c) (.new config) inputs) :=
  ⟨(delivered_run run c).stream, Lib.Machine.collect_sublist (keptMessages_sublist c) _ _⟩

/-- The sub-loop's own thread sends three bytes from a callback, and the kernel takes two. -/
def partSend : List (Tid × Input) :=
  establishing.dropLast ++ [(.loop 1, .call (.send 1 100 3 (.wrote 2)))] ++ steps (.loop 1) 4

theorem messages_whole_part : ∃ s, machine.Run (Server.new oneLoop) partSend s ∧
    accepted (s.events 1) = [0, 0] ∧ (s.conn 1).outputBuffer_.content = [0] ∧
    accepted (s.events 1) ++ (s.conn 1).outputBuffer_.content
      = (machine.collect (keptMessages 1) (.new oneLoop) partSend).flatten := by
  obtain ⟨s, run, sent, left⟩ := machine.exists_run (.new oneLoop) partSend
    (fun s => accepted (s.events 1) = [0, 0] ∧ (s.conn 1).outputBuffer_.content = [0])
    (by decide +kernel)
  exact ⟨s, run, sent, left, (messages_whole oneLoop partSend s run 1).1⟩

/-- In every run, what waits in the `outputBuffer_` of a connection belongs to one message: all
messages taken over before the last one are with the kernel, and of the last one the front is.
So the buffer never holds more than the longest message that was offered. -/
theorem one_message_waits (config : ServerConfig) (inputs : List (Tid × Input)) (s : Server)
    (run : machine.Run (Server.new config) inputs s) (c : ConnId) :
    ((s.conn c).outputBuffer_.content = [] ∨ ∃ front written,
        machine.collect (keptMessages c) (.new config) inputs
          = front ++ [written ++ (s.conn c).outputBuffer_.content] ∧
        accepted (s.events c) = front.flatten ++ written) ∧
      ∀ bound, (∀ data ∈ machine.collect (messages c) (.new config) inputs,
          data.length ≤ bound) → (s.conn c).outputBuffer_.content.length ≤ bound := by
  obtain ⟨stream, rest, -⟩ := delivered_run run c
  have stream : accepted (s.events c) ++ (s.conn c).outputBuffer_.content
      = (machine.collect (keptMessages c) (.new config) inputs).flatten := stream
  refine ⟨?_, ?_⟩
  · refine rest.imp_right ?_
    rintro ⟨front, last, split, written, same⟩
    have same : written ++ (s.conn c).outputBuffer_.content = last := same
    refine ⟨front, written, by rw [split, same], ?_⟩
    rw [split, ← same, List.flatten_append, List.flatten_singleton, ← List.append_assoc] at stream
    exact List.append_cancel_right stream
  · intro bound few
    rcases rest with empty | ⟨front, last, split, suffix⟩
    · have empty : (s.conn c).outputBuffer_.content = [] := empty
      rw [empty]
      exact Nat.zero_le _
    · have kept : last ∈ machine.collect (keptMessages c) (.new config) inputs := by
        rw [split]
        exact List.mem_append_right _ (List.mem_singleton_self _)
      have offered := (Lib.Machine.collect_sublist (keptMessages_sublist c) _ _).subset kept
      exact suffix.length_le.trans (few last offered)

theorem one_message_waits_part : ∃ s, machine.Run (Server.new oneLoop) partSend s ∧
    (s.conn 1).outputBuffer_.content = [0] ∧ (s.conn 1).outputBuffer_.content.length ≤ 3 := by
  obtain ⟨s, run, left⟩ := machine.exists_run (.new oneLoop) partSend
    (fun s => (s.conn 1).outputBuffer_.content = [0]) (by decide +kernel)
  exact ⟨s, run, left,
    (one_message_waits oneLoop partSend s run 1).2 3 (by decide +kernel)⟩

/-- Since `s` the buffer has been empty once, or has got shorter with every `handleWrite` to which
the kernel took bytes over. -/
def Works (c : ConnId) (s : Server) (later : List (Tid × Input)) (s' : Server) : Prop :=
  (∃ pre m, pre <+: later ∧ machine.Run s pre m ∧ (m.env c).backlog = []) ∨
    (s'.env c).backlog.length + (machine.collect (drainsOn c) s later).length
      ≤ (s.env c).backlog.length

theorem Works.step {m : Server} {later : List (Tid × Input)}
    (before : machine.Run (Server.new config) inputs s) (run : machine.Run s later m)
    (inv : Works c s later m) (h : machine.step m i = some s') :
    Works c s (later ++ [i]) s' := by
  rcases inv with ⟨pre, m', prior, first, empty⟩ | fewer
  · exact .inl ⟨pre, m', prior.trans (List.prefix_append _ _), first, empty⟩
  by_cases empty : (m.env c).backlog = []
  · exact .inl ⟨later, m, List.prefix_append _ _, run, empty⟩
  refine .inr ?_
  have reach := (before.append run).reachable
  rw [run.collect_snoc, List.length_append]
  cases step_sees (confined reach) h c with
  | op op here created conn events =>
    have worked := (ConnOp.delivers c ((halfClosing reach).armed c) op).worked empty
    have backlog : (s'.env c).backlog = (op.apply c (m.env c)).backlog := by
      unfold ConnEnv.backlog
      exact congrArg (fun conn => conn.outputBuffer_.content) conn
    have drains : m.drainsOn c i = op.drains := by simp [drainsOn, here]
    rw [backlog, drains]
    omega
  | new connfd here this conn events =>
    have unknown : ¬ m.Created c := fun created => Nat.ne_of_lt created.2 this
    exact absurd ((delivered_run (before.append run) c).fresh unknown).2 empty
  | idle here revents conn events =>
    have backlog : (s'.env c).backlog = (m.env c).backlog := by simp [env, ConnEnv.backlog, conn]
    have drains : m.drainsOn c i = [] := by simp [drainsOn, here]
    rw [backlog, drains]
    exact fewer

/-- From every state of every run on, whatever the user sends meanwhile: as many `handleWrite`
calls to which the kernel takes bytes over as there are bytes waiting bring the connection to a
state in which nothing waits and its channel is not writing. -/
theorem backlog_worked_off (config : ServerConfig) (inputs : List (Tid × Input)) (s : Server)
    (run : machine.Run (Server.new config) inputs s) (c : ConnId) (later : List (Tid × Input))
    (s' : Server) (further : machine.Run s later s')
    (enough : (s.conn c).outputBuffer_.content.length
      ≤ (machine.collect (drainsOn c) s later).length) :
    ∃ pre m, pre <+: later ∧ machine.Run s pre m ∧ (m.conn c).outputBuffer_.content = [] ∧
      (m.conn c).channel_.isWriting = false := by
  have works : Works c s later s' := by
    clear enough
    induction further with
    | nil => exact .inr (by simp [Lib.Machine.collect])
    | snoc further hs ih => exact ih.step run further hs
  have emptied : ∃ pre m, pre <+: later ∧ machine.Run s pre m ∧ (m.env c).backlog = [] := by
    rcases works with early | fewer
    · exact early
    · have enough : (s.env c).backlog.length
          ≤ (machine.collect (drainsOn c) s later).length := enough
      have none : (s'.env c).backlog.length = 0 := by omega
      exact ⟨later, s', List.prefix_refl _, further, List.eq_nil_of_length_eq_zero none⟩
  obtain ⟨pre, m, prior, first, empty⟩ := emptied
  refine ⟨pre, m, prior, first, empty, ?_⟩
  have armed := (halfClosing (run.append first).reachable).armed c
  exact Bool.eq_false_iff.mpr fun writing => armed.mp writing empty

/-- The sub-loop finds the socket writable, and the kernel takes `n` bytes. -/
def writing (n : Nat) : List (Tid × Input) :=
  [(.loop 1, .poll [(.conn 1, EPOLLOUT)]), (.loop 1, .run), (.loop 1, .write (.wrote n))]

theorem backlog_worked_off_part : ∃ s s', machine.Run (Server.new oneLoop) partSend s ∧
    machine.Run s (writing 1) s' ∧ (s.conn 1).outputBuffer_.content = [0] ∧
      ∃ pre m, pre <+: writing 1 ∧ machine.Run s pre m ∧
        (m.conn 1).outputBuffer_.content = [] ∧ (m.conn 1).channel_.isWriting = false := by
  obtain ⟨s, run, left, fewer⟩ := machine.exists_run (.new oneLoop) partSend
    (fun s => (s.conn 1).outputBuffer_.content = [0] ∧
      (s.conn 1).outputBuffer_.content.length
        ≤ (machine.collect (drainsOn 1) s (writing 1)).length) (by decide +kernel)
  obtain ⟨s', whole, -⟩ := machine.exists_run (.new oneLoop) (partSend ++ writing 1)
    (fun _ => True) (by decide +kernel)
  have further := whole.rest run
  exact ⟨s, s', run, further, left,
    backlog_worked_off oneLoop partSend s run 1 (writing 1) s' further fewer⟩

end Server

end TcpMuduo
