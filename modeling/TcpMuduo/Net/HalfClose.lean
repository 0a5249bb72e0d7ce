import TcpMuduo.Net.InFlight

/-!
`shutdown`: the writing side is closed by `shutdownInLoop` when nothing waits,
and otherwise by the end of the `handleWrite` that empties the buffer. Neither
closes it early, and between them they do not forget it.
-/

set_option autoImplicit false
set_option relaxedAutoImplicit false

namespace TcpMuduo

namespace ConnOp

variable {c : ConnId} {e : ConnEnv} {op : ConnOp}

private theorem shutDownWrite_new {n : Nat} (h : .shutDownWrite n ∈ (op.apply c e).events) :
    .shutDownWrite n ∈ e.events ∨
      e.conn.channel_.isWriting = false ∧ n = e.backlog.length := by
  have other (event : ConnEvent) (h : .shutDownWrite n ∈ e.events ++ [event])
      (ne : .shutDownWrite n ≠ event) : .shutDownWrite n ∈ e.events ∨
        e.conn.channel_.isWriting = false ∧ n = e.backlog.length :=
    .inl ((List.mem_append.mp h).resolve_right fun new => ne (List.mem_singleton.mp new))
  have shut (h : .shutDownWrite n ∈ (TcpConnection.shutdownInLoop e).events) :
      .shutDownWrite n ∈ e.events ∨
        e.conn.channel_.isWriting = false ∧ n = e.backlog.length := by
    rcases TcpConnection.shutdownInLoop_cases e with ⟨off, same⟩ | ⟨_, same⟩
    · rw [same] at h
      refine (List.mem_append.mp h).imp_right fun new => ⟨off, ?_⟩
      cases List.mem_singleton.mp new
      rfl
    · rw [same] at h
      exact .inl h
  cases op with
  | connectEstablished | connectDestroyedClose | handleClose | closeCallback
  | writeCompleteCallback | highWaterMarkCallback size => exact other _ h (by simp)
  | handleRead r =>
    simp only [apply] at h
    split at h
    · simp only [TcpConnection.handleRead] at h
      split at h
      · exact other _ h (by simp)
      · exact .inl h
    · exact .inl h
  | handleWriteDrain r =>
    have outcome := TcpConnection.handleWriteDrain_outcome c r e
    simp only [apply] at h
    generalize (TcpConnection.handleWriteDrain c r e).1 = e',
      (TcpConnection.handleWriteDrain c r e).2 = drained at outcome h
    cases outcome with
    | idle r off => exact .inl h
    | stuck r on none => exact other _ h (by simp)
    | part n on some => exact other _ h (by simp)
    | drained n test on all =>
      exact other (.write e.backlog (.wrote n)) (by simpa using h) (by simp)
  | handleWriteEnd =>
    rcases TcpConnection.handleWriteEnd_cases e with ⟨_, same⟩ | ⟨_, same⟩
    · simp only [apply, same] at h
      exact shut h
    · simp only [apply, same] at h
      exact .inl h
  | sendInLoop data r =>
    have outcome := TcpConnection.sendInLoop_outcome c data r e
    simp only [apply] at h
    generalize TcpConnection.sendInLoop c data r e = e' at outcome h
    cases outcome with
    | blocked r busy => exact .inl h
    | failed errno direct => exact other _ h (by simp)
    | whole n test direct all =>
      exact other (.write data (.wrote n)) (by simpa using h) (by simp)
    | part n test direct some =>
      exact other (.write data (.wrote n)) (by simpa using h) (by simp)
  | shutdownInLoop => exact shut h
  | connectDestroyedRemove | shutdownStore | retrieve len => exact .inl h

private theorem isWriting_after (on : e.conn.channel_.isWriting = true) :
    (op.apply c e).conn.channel_.isWriting = true ∨
      ∃ r, op = .handleWriteDrain r ∧ (TcpConnection.handleWriteDrain c r e).2 = true := by
  have shut : (TcpConnection.shutdownInLoop e).conn.channel_.isWriting = true := by
    rcases TcpConnection.shutdownInLoop_cases e with ⟨_, same⟩ | ⟨_, same⟩
    · rw [same]
      exact on
    · rw [same]
      exact on
  cases op with
  | connectEstablished => exact .inl (Channel.isWriting_enableReading.trans on)
  | connectDestroyedClose | handleClose => exact .inl (Channel.isWriting_disbaleAll.trans on)
  | handleRead r =>
    simp only [apply]
    split
    · simp only [TcpConnection.handleRead]
      split <;> exact .inl on
    · exact .inl on
  | handleWriteDrain r =>
    have outcome := TcpConnection.handleWriteDrain_outcome c r e
    simp only [apply]
    generalize (TcpConnection.handleWriteDrain c r e).1 = e',
      flag : (TcpConnection.handleWriteDrain c r e).2 = drained at outcome ⊢
    cases outcome with
    | idle r off => exact .inl on
    | stuck r on none => exact .inl on
    | part n on some => exact .inl on
    | drained n test on all => exact .inr ⟨_, rfl, flag⟩
  | handleWriteEnd =>
    rcases TcpConnection.handleWriteEnd_cases e with ⟨_, same⟩ | ⟨_, same⟩
    · simp only [apply, same]
      exact .inl shut
    · simp only [apply, same]
      exact .inl on
  | sendInLoop data r =>
    have outcome := TcpConnection.sendInLoop_outcome c data r e
    simp only [apply]
    generalize TcpConnection.sendInLoop c data r e = e' at outcome ⊢
    cases outcome with
    | blocked r busy => exact .inl on
    | failed errno direct => exact .inl on
    | whole n test direct all => exact .inl (by simpa using on)
    | part n test direct some => exact .inl Channel.isWriting_enableWriting
  | shutdownInLoop => exact .inl shut
  | connectDestroyedRemove | shutdownStore | closeCallback | writeCompleteCallback
  | highWaterMarkCallback size | retrieve len => exact .inl on

end ConnOp

namespace Server

variable {s s' : Server} {t : Tid} {input : Input} {eff : Effect} {config : ServerConfig}
variable {sys : LoopId → LoopSystem Tid Functor ChannelRef} {c : ConnId}

/-- The writing side is closed, or somebody is there to close it. -/
def ShutsDown (s : Server) (c : ConnId) : Prop :=
  (∃ n, .shutDownWrite n ∈ s.events c) ∨ s.InFlight (.shutdownInLoop c) ∨
    (s.conn c).channel_.isWriting = true ∨ ∃ t, .handleWriteEnd c ∈ s.stack t

/-- The invariant of the writing side. -/
structure HalfClosing (s : Server) : Prop where
  armed : ∀ c, (s.env c).Armed
  empty : ∀ c n, .shutDownWrite n ∈ s.events c → n = 0
  owed : ∀ c, (s.conn c).state_ = .kDisconnecting → s.ShutsDown c

private theorem armed_after (inv : ∀ c, (s.env c).Armed) : ∀ c,
    ((s.after t eff sys).env c).Armed := by
  intro c
  have touches := s.act_touches eff.change c
  unfold env
  rw [after_conn]
  cases touches with
  | op op here conn events =>
    rw [conn]
    exact (op.armed c (inv c)).congr rfl rfl
  | new connfd here this conn events =>
    rw [conn]
    exact iff_of_false (by simp [TcpConnection.new, Channel.new, Channel.isWriting])
      (by simp [ConnEnv.backlog, TcpConnection.new])
  | idle other revents conn events =>
    rw [conn]
    exact (inv c).congr rfl rfl

private theorem empty_after (armed : ∀ c, (s.env c).Armed)
    (inv : ∀ c n, .shutDownWrite n ∈ s.events c → n = 0) :
    ∀ c n, .shutDownWrite n ∈ (s.after t eff sys).events c → n = 0 := by
  intro c n mem
  have touches := s.act_touches eff.change c
  rw [after_events] at mem
  cases touches with
  | op op here conn events =>
    rw [events] at mem
    rcases op.shutDownWrite_new mem with old | ⟨off, backlog⟩
    · exact inv c n old
    · have none : (s.env c).backlog = [] := by
        by_contra some
        rw [(armed c).mpr some] at off
        cases off
      rw [backlog, none]
      rfl
  | new connfd here this conn events => exact inv c n (events ▸ mem)
  | idle other revents conn events => exact inv c n (events ▸ mem)

private theorem shutsDown_of_shutdownInLoop
    (conn : s'.conn c = (TcpConnection.shutdownInLoop (s.env c)).conn)
    (events : s'.events c = (TcpConnection.shutdownInLoop (s.env c)).events) :
    s'.ShutsDown c := by
  rcases TcpConnection.shutdownInLoop_cases (s.env c) with ⟨off, same⟩ | ⟨on, same⟩
  · refine .inl ⟨(s.env c).backlog.length, ?_⟩
    rw [events, same]
    exact List.mem_append_right _ (List.mem_singleton_self _)
  · refine .inr (.inr (.inl ?_))
    rw [conn, same]
    exact on

theorem Does.drained {head : Option Task} (does : Does s t head input eff) {r : WriteResult}
    (change : eff.change = .conn c (.handleWriteDrain r))
    (drained : (TcpConnection.handleWriteDrain c r (s.env c)).2 = true) :
    .handleWriteEnd c ∈ eff.push := by
  cases does <;> cases change
  rw [if_pos drained]
  exact List.mem_append_right _ (List.mem_singleton_self _)

/-- What is owed before a step is done or still owed after it. -/
theorem ShutsDown.step (owed : s.ShutsDown c) (state : (s.conn c).state_ = .kDisconnecting)
    (does : Does s t (s.stack t).head? input eff) (loops : s.loopStep eff.loop = some sys)
    (created : s.Created c) : (s.after t eff sys).ShutsDown c := by
  have closed (op : ConnOp) (change : eff.change = .conn c op)
      (shut : op.apply c (s.env c) = TcpConnection.shutdownInLoop (s.env c)) :
      (s.after t eff sys).ShutsDown c := by
    refine shutsDown_of_shutdownInLoop (s := s) ?_ ?_
    · rw [after_conn, change, ← shut]
      exact Function.update_self ..
    · rw [after_events, change, ← shut]
      exact Function.update_self ..
  rcases owed with ⟨n, done⟩ | flight | on | ⟨u, mem⟩
  · exact .inl ⟨n, ((s.after_extends t eff sys).events c).subset done⟩
  · rcases flight.step does loops with still | head
    · exact .inr (.inl still)
    · rw [head] at does
      refine closed .shutdownInLoop ?_ rfl
      cases does
      rfl
  · have touches := s.act_touches eff.change c
    cases touches with
    | op op here conn events =>
      rcases op.isWriting_after (c := c) (e := s.env c) on with still | ⟨r, rfl, drained⟩
      · refine .inr (.inr (.inl ?_))
        rw [after_conn, conn]
        exact still
      · -- the `handleWrite` that empties the buffer goes on to its test of `state_`
        refine .inr (.inr (.inr ⟨t, pushed_mem_stack _ _ _ _ ?_⟩))
        exact does.drained here drained
    | new connfd here this conn events => exact absurd this (Nat.ne_of_lt created.2)
    | idle other revents conn events =>
      refine .inr (.inr (.inl ?_))
      rw [after_conn, conn]
      exact on
  · by_cases own : u = t
    · subst own
      cases hs : s.stack u with
      | nil =>
        rw [hs] at mem
        cases mem
      | cons first rest =>
        rw [hs] at mem
        rcases List.mem_cons.mp mem with rfl | behind
        · rw [hs] at does
          have change : eff.change = .conn c .handleWriteEnd := by
            cases does
            rfl
          refine closed _ change ?_
          rcases TcpConnection.handleWriteEnd_cases (s.env c) with ⟨-, same⟩ | ⟨other, -⟩
          · exact same
          · exact absurd state other
        · refine .inr (.inr (.inr ⟨u, ?_⟩))
          rw [after_stack, Function.update_self, hs]
          exact List.mem_append_right _ behind
    · refine .inr (.inr (.inr ⟨u, ?_⟩))
      rw [after_stack, Function.update_of_ne own]
      exact mem

theorem HalfClosing.step (confined : s.Confined) (inv : s.HalfClosing)
    (h : machine.step s (t, input) = some s') : s'.HalfClosing := by
  obtain ⟨eff, sys, does, loops, rfl⟩ := step_does h
  refine ⟨armed_after inv.armed, empty_after inv.armed inv.empty, ?_⟩
  intro c state
  by_cases before : (s.conn c).state_ = .kDisconnecting
  · have created : s.Created c := by
      by_contra unknown
      have fresh := (confined.fresh c fun up => unknown (confined.created c up)).2.1
      rw [before] at fresh
      cases fresh
    exact (inv.owed c before).step before does loops created
  · have touches := s.act_touches eff.change c
    rw [after_conn] at state
    cases touches with
    | op op here conn events =>
      rw [conn, (op.spec c (s.env c)).state] at state
      have store : op = .shutdownStore := by
        cases op with
        | shutdownStore => rfl
        | connectEstablished | connectDestroyedClose | handleClose => cases state
        | _ => exact absurd state before
      subst store
      refine .inr (.inl (.inl ⟨t, _, pushed_mem_stack _ _ _ _ ?_,
        runInLoop_carries t (s.conn c).loop_ _⟩))
      generalize (s.stack t).head? = head at does
      cases does <;> cases here
      exact List.mem_singleton_self _
    | new connfd here this conn events =>
      rw [conn] at state
      cases state
    | idle other revents conn events =>
      rw [conn] at state
      exact absurd state before

theorem halfClosing (h : machine.Reachable (Server.new config) s) : s.HalfClosing := by
  refine h.invariant (I := HalfClosing) ⟨?_, ?_, ?_⟩ ?_
  · exact fun c => iff_of_false
      (by simp [env, Server.new, TcpConnection.new, Channel.new, Channel.isWriting])
      (by simp [env, Server.new, TcpConnection.new, ConnEnv.backlog])
  · intro c n mem
    cases mem
  · intro c state
    cases state
  · intro _ i _ reach inv hs
    exact inv.step (confined reach) hs

/-- No thread is on its way from the store in `shutdown` to the end of the hand-off, and the
loop's thread is not in the middle of `handleWrite` or `shutdownInLoop`. -/
def Settled (s : Server) (c : ConnId) : Prop :=
  (∀ t task, task ∈ s.stack t → task.carries ≠ some (.shutdownInLoop c)) ∧
    ∀ t, .handleWriteEnd c ∉ s.stack t

/-- The half-close: the channel of a connection is writing exactly when its buffer is not empty,
the writing side is closed only with an empty buffer, and for a connection that is disconnecting
it has been closed, or `shutdownInLoop` waits in its loop, or the channel is writing. -/
theorem halfClose_kept (config : ServerConfig) (inputs : List (Tid × Input)) (s : Server)
    (run : machine.Run (Server.new config) inputs s) (c : ConnId) :
    ((s.conn c).channel_.isWriting = true ↔ (s.conn c).outputBuffer_.content ≠ []) ∧
      (∀ n, .shutDownWrite n ∈ s.events c → n = 0) ∧
      ((s.conn c).state_ = .kDisconnecting → s.Settled c →
        (∃ n, .shutDownWrite n ∈ s.events c) ∨
          .shutdownInLoop c ∈ (s.sys (s.conn c).loop_).work ∨
          (s.conn c).channel_.isWriting = true) := by
  have inv := halfClosing run.reachable
  refine ⟨inv.armed c, inv.empty c, ?_⟩
  intro state settled
  rcases inv.owed c state with done | (⟨t, task, mem, carries⟩ | ⟨l, mem⟩) | on | ⟨t, mem⟩
  · exact .inl done
  · exact absurd carries (settled.1 t task mem)
  · obtain ⟨-, rfl⟩ := (confined run.reachable).work l _ mem
    exact .inr (.inl mem)
  · exact .inr (.inr on)
  · exact absurd mem (settled.2 t)

theorem forall_stack {inputs : List (Tid × Input)} (run : machine.Run (Server.new config) inputs s)
    {P : Task → Prop} (moved : ∀ i ∈ inputs, ∀ task ∈ s.stack i.1, P task)
    (startup : ∀ t task, Startup t task → P task) : ∀ t, ∀ task ∈ s.stack t, P task := by
  have idle : ∀ t, (∀ i ∈ inputs, i.1 ≠ t) → s.stack t = (Server.new config).stack t := by
    clear moved
    induction run with
    | nil => exact fun _ _ => rfl
    | snoc _ hs ih =>
      rename_i is m m' i _
      intro t others
      obtain ⟨eff, sys, -, -, rfl⟩ := step_does (t := i.1) (a := i.2) hs
      have last := others i (List.mem_append_right _ (List.mem_singleton_self i))
      rw [after_stack, Function.update_of_ne (Ne.symm last)]
      exact ih t fun j mem => others j (List.mem_append_left _ mem)
  intro t task mem
  by_cases moves : ∃ i ∈ inputs, i.1 = t
  · obtain ⟨i, listed, rfl⟩ := moves
    exact moved i listed task mem
  · rw [idle t fun i listed same => moves ⟨i, listed, same⟩] at mem
    exact startup t task (new_stack mem)

/-- Another thread calls `shutdown`, and the functor waits in the sub-loop. -/
def shuttingDown : List (Tid × Input) :=
  establishing ++ [(.user 0, .call (.shutdown 1))] ++ steps (.user 0) 3

theorem halfClose_kept_waiting : ∃ s, machine.Run (Server.new oneLoop) shuttingDown s ∧
    (s.conn 1).state_ = .kDisconnecting ∧ s.Settled 1 ∧
      ((∃ n, .shutDownWrite n ∈ s.events 1) ∨
        .shutdownInLoop 1 ∈ (s.sys (s.conn 1).loop_).work ∨
        (s.conn 1).channel_.isWriting = true) := by
  obtain ⟨s, run, state, moved⟩ := machine.exists_run (.new oneLoop) shuttingDown
    (fun s => (s.conn 1).state_ = .kDisconnecting ∧ ∀ i ∈ shuttingDown, ∀ task ∈ s.stack i.1,
      task.carries ≠ some (.shutdownInLoop 1) ∧ task ≠ .handleWriteEnd 1) (by decide +kernel)
  have settled := forall_stack run moved (by rintro t task ⟨⟩ <;> simp [Task.carries])
  have settled : s.Settled 1 := ⟨fun t task mem => (settled t task mem).1,
    fun t mem => (settled t _ mem).2 rfl⟩
  exact ⟨s, run, state, settled,
    (halfClose_kept oneLoop shuttingDown s run 1).2.2 state settled⟩

end Server

end TcpMuduo
