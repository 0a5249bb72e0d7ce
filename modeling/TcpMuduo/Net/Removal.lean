import TcpMuduo.Net.HalfClose
import TcpMuduo.Net.Lifetime
import TcpMuduo.Net.Service

/-!
The end of a connection that has been closed: a round of the base loop takes it
out of `connections_`, and a round of its own loop takes its channel out of the
poller.
-/

set_option autoImplicit false
set_option relaxedAutoImplicit false

namespace TcpMuduo

namespace Server

variable {s s' : Server} {t : Tid} {input : Input} {eff : Effect} {config : ServerConfig}
variable {sys : LoopId → LoopSystem Tid Functor ChannelRef} {c : ConnId}
variable {inputs : List (Tid × Input)}

/-- The step is the last one of `connectDestroyed` of the connection `c`. -/
def EndsDestroy (c : ConnId) (s : Server) (i : Tid × Input) : Prop :=
  (s.stack i.1).head? = some (.connectDestroyedRemove c)

private theorem closeCallback_new (closed : .closeCallback ∈ (s.after t eff sys).events c) :
    .closeCallback ∈ s.events c ∨ eff.change = .conn c .closeCallback := by
  have touches := s.act_touches eff.change c
  rw [after_events] at closed
  cases touches with
  | op op here conn events =>
    rw [events, ← mem_callbacks rfl, (op.spec c (s.env c)).callbacks, List.mem_append] at closed
    rcases closed with old | new
    · exact .inl ((mem_callbacks rfl).mp old)
    · refine .inr (here.trans ?_)
      cases op with
      | closeCallback => rfl
      | handleRead r =>
        simp only [ConnOp.callbacks] at new
        split at new
        · split at new <;> simp at new
        · cases new
      | connectEstablished | connectDestroyedClose | connectDestroyedRemove | handleClose
      | handleWriteDrain r | handleWriteEnd | sendInLoop data r | shutdownInLoop | shutdownStore
      | writeCompleteCallback | highWaterMarkCallback size | retrieve len =>
        simp [ConnOp.callbacks] at new
  | new connfd here this conn events => exact .inl (events ▸ closed)
  | idle other revents conn events => exact .inl (events ▸ closed)

private theorem removing_of_closed (run : machine.Run (Server.new config) inputs s)
    (closed : .closeCallback ∈ s.events c) :
    s.InFlight (.removeConnectionInLoop c) ∨
      machine.Occurred (Removes c) (.new config) inputs := by
  induction run with
  | nil => cases closed
  | @snoc inputs s s' i run hs ih =>
    obtain ⟨t, input⟩ := i
    obtain ⟨eff, sys, does, loops, rfl⟩ := step_does hs
    rw [run.occurred_snoc]
    rcases closeCallback_new closed with old | new
    · rcases ih old with flight | removed
      · exact (flight.step does loops).imp_right .inr
      · exact .inr (.inl removed)
    · have operation := does.operation new
      generalize (s.stack t).head? = head at does operation
      cases operation
      cases does
      exact .inl (.inl ⟨t, _, pushed_mem_stack _ _ _ _ (List.mem_singleton_self _),
        runInLoop_carries _ _ _⟩)

private theorem destroying_of_removed (run : machine.Run (Server.new config) inputs s)
    (removed : machine.Occurred (Removes c) (.new config) inputs) :
    s.Destroying c ∨ machine.Occurred (EndsDestroy c) (.new config) inputs := by
  induction run with
  | nil => exact absurd removed Lib.Machine.not_occurred_nil
  | @snoc inputs s s' i run hs ih =>
    obtain ⟨t, input⟩ := i
    obtain ⟨eff, sys, does, loops, rfl⟩ := step_does hs
    rw [run.occurred_snoc] at removed ⊢
    rcases removed with old | now
    · rcases ih old with destroying | ended
      · refine (destroying.step does loops).imp_right fun removes => .inr ?_
        have operation := does.operation removes
        unfold EndsDestroy
        generalize (s.stack t).head? = head at operation ⊢
        cases operation
        rfl
      · exact .inr (.inl ended)
    · have head : (s.stack t).head? = some (.functor (.removeConnectionInLoop c)) := now
      rw [head] at does
      cases does
      exact .inl (.inl (.inl ⟨t, _, pushed_mem_stack _ _ _ _ (List.mem_singleton_self _), rfl⟩))

/-- What is left of a call of `connectDestroyed` that has begun. -/
def Ending (s : Server) (c : ConnId) : Prop :=
  ∃ t, .connectDestroyedClose c ∈ s.stack t ∨ .connectDestroyedRemove c ∈ s.stack t

private theorem ending_of_begun (run : machine.Run (Server.new config) inputs s)
    (begun : machine.Occurred (BeginsDestroy c) (.new config) inputs) :
    s.Ending c ∨ machine.Occurred (EndsDestroy c) (.new config) inputs := by
  induction run with
  | nil => exact absurd begun Lib.Machine.not_occurred_nil
  | @snoc inputs s s' i run hs ih =>
    obtain ⟨t, input⟩ := i
    obtain ⟨eff, sys, does, loops, rfl⟩ := step_does hs
    rw [run.occurred_snoc] at begun ⊢
    have pushed {task : Task} (mem : task ∈ eff.push) := pushed_mem_stack s t eff sys mem
    rcases begun with old | now
    · rcases ih old with ⟨u, close | remove⟩ | ended
      · rcases mem_stack_after (t := t) close with stays | ⟨rfl, head⟩
        · exact .inl ⟨u, .inl stays⟩
        · rw [head] at does
          cases does
          exact .inl ⟨u, .inr (pushed (by simp))⟩
      · rcases mem_stack_after (t := t) remove with stays | ⟨rfl, head⟩
        · exact .inl ⟨u, .inr stays⟩
        · exact .inr (.inr head)
      · exact .inr (.inl ended)
    · have head : (s.stack t).head? = some (.functor (.connectDestroyed c)) := now
      rw [head] at does
      cases does with
      | connectDestroyed t c connected => exact .inl ⟨t, .inl (pushed (by simp))⟩
      | connectDestroyedLate t c state => exact .inl ⟨t, .inr (pushed (by simp))⟩

private theorem begun_of_ending (run : machine.Run (Server.new config) inputs s)
    (ending : s.Ending c) :
    machine.Occurred (BeginsDestroy c) (.new config) inputs := by
  induction run with
  | nil =>
    obtain ⟨t, mem | mem⟩ := ending <;> cases new_stack mem
  | @snoc inputs s s' i run hs ih =>
    obtain ⟨t, input⟩ := i
    obtain ⟨eff, sys, does, loops, rfl⟩ := step_does hs
    rw [run.occurred_snoc]
    obtain ⟨u, mem | mem⟩ := ending
    · rcases mem_after_stack _ _ _ _ mem with ⟨-, pushed⟩ | old
      · cases does.puts pushed with
        | carrying task f carries => cases carries
        | connectDestroyedClose c head => exact .inr head
      · exact .inl (ih ⟨u, .inl old⟩)
    · rcases mem_after_stack _ _ _ _ mem with ⟨-, pushed⟩ | old
      · cases does.puts pushed with
        | carrying task f carries => cases carries
        | connectDestroyedRemove c heads =>
          rcases heads with head | head
          · exact .inr head
          · exact .inl (ih ⟨t, .inl (List.mem_of_mem_head? head)⟩)
      · exact .inl (ih ⟨u, .inr old⟩)

theorem idle_of_polling (reach : machine.Reachable (Server.new config) s) {l : LoopId}
    (waits : (s.sys l).loop.position = .polling) : s.stack (.loop l) = [] := by
  by_contra busy
  have aside := (attended reach).aside l busy
  rw [waits] at aside
  exact aside

/-- A loop that visits `epoll_wait` has ended the calls of `connectDestroyed` that it has begun. -/
theorem ended_of_polling (run : machine.Run (Server.new config) inputs s) {l : LoopId}
    (own : s.Created c → (s.conn c).loop_ = l) (waits : (s.sys l).loop.position = .polling)
    (begun : machine.Occurred (BeginsDestroy c) (.new config) inputs) :
    machine.Occurred (EndsDestroy c) (.new config) inputs := by
  refine (ending_of_begun run begun).resolve_left ?_
  have idle := idle_of_polling run.reachable waits
  have tasks := (confined run.reachable).tasks
  rintro ⟨t, mem | mem⟩
  · obtain ⟨known, rfl⟩ := tasks t _ mem
    rw [own known.1, idle] at mem
    cases mem
  · obtain ⟨created, rfl⟩ := tasks t _ mem
    rw [own created, idle] at mem
    cases mem

private theorem removing_at (reach : machine.Reachable (Server.new config) s)
    (flight : s.InFlight (.removeConnectionInLoop c))
    (handed : ∀ t, .queueInLoop 0 (.removeConnectionInLoop c) ∉ s.stack t) :
    .functor (.removeConnectionInLoop c) ∈ s.stack (.loop 0) ∨
      .removeConnectionInLoop c ∈ (s.sys 0).work := by
  rcases flight with ⟨t, task, mem, carries⟩ | ⟨l, work⟩
  · have at_thread := (confined reach).tasks t task mem
    cases task with
    | functor f =>
      cases carries
      obtain ⟨l, rfl, -, rfl⟩ := at_thread
      exact .inl mem
    | queueInLoop l f =>
      cases carries
      obtain ⟨⟨-, rfl⟩, -⟩ := at_thread
      exact absurd mem (handed t)
    | _ => cases carries
  · obtain ⟨-, rfl⟩ := (confined reach).work l _ work
    exact .inr work

/-- A closed connection is taken apart: in every run, once its `closeCallback_` has run and
`removeConnectionInLoop` is in the queue of the base loop, a round of the base loop erases the
connection from `connections_`, and a round of the connection's own loop after that brings its
`connectDestroyed` to the end, which removes the channel from the poller. -/
theorem closed_within_two_rounds (config : ServerConfig) (inputs : List (Tid × Input))
    (s : Server) (run : machine.Run (Server.new config) inputs s) (c : ConnId)
    (closed : .closeCallback ∈ s.events c)
    (handed : ∀ t, .queueInLoop 0 (.removeConnectionInLoop c) ∉ s.stack t)
    (first : List (Tid × Input)) (m : Server) (base : machine.Run s first m)
    (polled : machine.Occurred (PollsOn 0) s first) (waits : (m.sys 0).loop.position = .polling)
    (second : List (Tid × Input)) (s' : Server) (own : machine.Run m second s')
    (polled' : machine.Occurred (PollsOn (s.conn c).loop_) m second)
    (waits' : (s'.sys (s.conn c).loop_).loop.position = .polling) :
    (∀ entry ∈ m.connections_, entry.2 ≠ c) ∧
      machine.Occurred (EndsDestroy c) (Server.new config) (inputs ++ first ++ second) := by
  have toBase := run.append base
  have whole := toBase.append own
  have removed : machine.Occurred (Removes c) (.new config) (inputs ++ first) := by
    rcases removing_of_closed run closed with flight | removed
    · have here := removing_at run.reachable flight handed
      exact (run_within_a_round run base polled waits here).imp fun _ _ runs => runs.2
    · exact removed.longer first
  refine ⟨?_, ?_⟩
  · rintro ⟨name, c'⟩ mem rfl
    exact ((roster toBase).entries name _ mem).2.2 removed
  rcases destroying_of_removed toBase removed with destroying | ended
  · have known : s.Created c := by
      by_contra unknown
      have new : ¬ s.Up c := fun up => unknown ((confined run.reachable).created c up)
      have none := ((confined run.reachable).fresh c new).1
      rw [← mem_callbacks rfl, none] at closed
      cases closed
    have loop : (m.conn c).loop_ = (s.conn c).loop_ := (run_extends base).loop c known
    have loop' : (s'.conn c).loop_ = (s.conn c).loop_ :=
      ((run_extends own).loop c ((run_extends base).mono known)).trans loop
    refine ended_of_polling whole (fun _ => loop') waits' ?_
    have begins (here : .functor (.connectDestroyed c) ∈ m.stack (.loop (s.conn c).loop_) ∨
        .connectDestroyed c ∈ (m.sys (s.conn c).loop_).work) :
        machine.Occurred (BeginsDestroy c) (.new config) (inputs ++ first ++ second) :=
      (run_within_a_round toBase own polled' waits' here).imp fun _ _ runs => runs.2
    rcases destroying with (⟨t, task, mem, carries⟩ | ⟨l, work⟩) | close | remove
    · have at_thread := (confined toBase.reachable).tasks t task mem
      cases task with
      | functor f =>
        cases carries
        obtain ⟨l, rfl, -, rfl⟩ := at_thread
        rw [loop] at mem
        exact begins (.inl mem)
      | queueInLoop l f =>
        cases carries
        have base := (routed toBase.reachable).base t l c mem
        rw [base, idle_of_polling toBase.reachable waits] at mem
        cases mem
      | _ => cases carries
    · obtain ⟨-, rfl⟩ := (confined toBase.reachable).work l _ work
      rw [loop] at work
      exact begins (.inr work)
    · obtain ⟨t, mem⟩ := close
      exact (begun_of_ending toBase ⟨t, .inl mem⟩).longer second
    · obtain ⟨t, mem⟩ := remove
      exact (begun_of_ending toBase ⟨t, .inr mem⟩).longer second
  · exact ended.longer second

/-- The peer closes while the base loop waits in `epoll_wait`. -/
def closingWaiting : List (Tid × Input) :=
  waiting ++ steps (.loop 0) 4 ++ reading (.got []) ++ steps (.loop 1) 5

/-- The round of the base loop. -/
def erasingRound : List (Tid × Input) :=
  [(.loop 0, .poll [(.wakeup, EPOLLIN)])] ++ steps (.loop 0) 10

/-- The sub-loop ends its dispatch, and its round. -/
def destroyingRound : List (Tid × Input) :=
  steps (.loop 1) 9 ++ [(.loop 1, .poll [(.wakeup, EPOLLIN)])] ++ steps (.loop 1) 5

theorem closed_within_two_rounds_waiting : ∃ s m s',
    machine.Run (Server.new oneLoop) closingWaiting s ∧ machine.Run s erasingRound m ∧
      machine.Run m destroyingRound s' ∧ (∀ entry ∈ m.connections_, entry.2 ≠ 1) ∧
      machine.Occurred (EndsDestroy 1) (Server.new oneLoop)
        (closingWaiting ++ erasingRound ++ destroyingRound) := by
  obtain ⟨s, run, closed, here, loop, moved⟩ := machine.exists_run (.new oneLoop) closingWaiting
    (fun s => .closeCallback ∈ s.events 1 ∧ (s.sys 0).loop.position = .polling ∧
      (s.conn 1).loop_ = 1 ∧ ∀ i ∈ closingWaiting, ∀ task ∈ s.stack i.1,
        task ≠ .queueInLoop 0 (.removeConnectionInLoop 1)) (by decide +kernel)
  obtain ⟨m, toBase, waits⟩ := machine.exists_run (.new oneLoop) (closingWaiting ++ erasingRound)
    (fun s => (s.sys 0).loop.position = .polling) (by decide +kernel)
  obtain ⟨n, toPoll, here'⟩ := machine.exists_run (.new oneLoop)
    (closingWaiting ++ erasingRound ++ steps (.loop 1) 9)
    (fun s => (s.sys 1).loop.position = .polling) (by decide +kernel)
  obtain ⟨s', whole, waits'⟩ := machine.exists_run (.new oneLoop)
    (closingWaiting ++ erasingRound ++ destroyingRound)
    (fun s => (s.sys 1).loop.position = .polling) (by decide +kernel)
  have handed := forall_stack run moved (by rintro t task ⟨⟩ <;> simp)
  have polled : machine.Occurred (PollsOn 0) s erasingRound :=
    ⟨[], _, s, ⟨_, rfl⟩, .nil, rfl, here, _, rfl⟩
  have polled' : machine.Occurred (PollsOn 1) m destroyingRound :=
    ⟨steps (.loop 1) 9, _, n, ⟨_, rfl⟩, toPoll.rest toBase, rfl, here', _, rfl⟩
  obtain ⟨erased, ended⟩ := closed_within_two_rounds oneLoop closingWaiting s run 1 closed
    (fun t mem => handed t _ mem rfl) erasingRound m (toBase.rest run) polled waits
    destroyingRound s' (whole.rest toBase) (loop.symm ▸ polled') (loop.symm ▸ waits')
  exact ⟨s, m, s', run, toBase.rest run, whole.rest toBase, erased, ended⟩

end Server

end TcpMuduo
