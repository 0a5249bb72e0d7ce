import TcpMuduo.Net.Lifecycle
import TcpMuduo.Net.Pollers

/-!
The dispatch loop holds raw channel pointers. Between the return of `poll` and
the end of the batch the poller of the loop loses no entry: `connectDestroyed`
is queued even when `removeConnectionInLoop` runs inside of a handler.
-/

set_option autoImplicit false
set_option relaxedAutoImplicit false

namespace TcpMuduo

namespace Server

variable {s s' : Server} {t : Tid} {input : Input} {eff : Effect} {config : ServerConfig}
variable {sys : LoopId → LoopSystem Tid Functor ChannelRef} {l : LoopId} {n : Nat}
variable {ref : ChannelRef}

def fd (s : Server) (l : LoopId) : ChannelRef → Nat
  | .wakeup => s.config.wakeupFd_ l
  | .acceptor => s.acceptChannel_.fd_
  | .conn c => (s.conn c).channel_.fd_

/-- What a step does to an entry of `channels_`: only the channel it works on may lose or get
its own. -/
inductive Entry (s : Server) (change : Change) (l : LoopId) (n : Nat) : Prop
  | conn (c : ConnId) (op : ConnOp) (here : change = .conn c op) (own : l = (s.conn c).loop_)
      (same : n = (s.conn c).channel_.fd_)
  | acceptor (op : ChannelOp) (here : change = .acceptor op) (base : l = 0)
      (same : n = s.acceptChannel_.fd_)
  | kept (same : ((s.act change).poller l).channels_ n = (s.poller l).channels_ n)

theorem Registered.entry (inv : s.Registered) (change : Change)
    (created : ∀ c op, change = .conn c op → s.Created c) (l : LoopId) (n : Nat) :
    Entry s change l n := by
  cases change with
  | conn c op =>
    have clean := ((op.spec c (s.env c)).registers.agrees (inv.conns c (created c op rfl))).2
    by_cases own : l = (s.conn c).loop_
    · by_cases same : n = (s.conn c).channel_.fd_
      · exact .conn c op rfl own same
      · refine .kept ?_
        subst own
        simp only [Server.act, put, Function.update_self]
        exact clean.same.listed n same
    · refine .kept ?_
      simp only [Server.act, put, Function.update_of_ne own]
  | acceptor op =>
    have clean := (op.spec inv.acceptor).2
    by_cases base : l = 0
    · by_cases same : n = s.acceptChannel_.fd_
      · exact .acceptor op rfl base same
      · refine .kept ?_
        subst base
        simp only [Server.act, Function.update_self]
        exact clean.same.listed n same
    · refine .kept ?_
      simp only [Server.act, Function.update_of_ne base]
  | nothing | fillActiveChannels active | newConnection connfd | erase c | store p byte
  | destroy =>
    exact .kept rfl

theorem Registered.acceptChannel_fd (inv : s.Registered) (change : Change) :
    (s.act change).acceptChannel_.fd_ = s.acceptChannel_.fd_ := by
  cases change with
  | acceptor op => exact (op.spec inv.acceptor).2.fd
  | fillActiveChannels active =>
    simp only [Server.act, fillActiveChannels]
    split <;> rfl
  | nothing | conn c op | newConnection connfd | erase c | store p byte | destroy => rfl

/-- A descriptor in use that is neither the acceptor's nor a connection's. -/
structure Reserved (s : Server) (n : Nat) : Prop where
  used : n ∈ s.fds
  acceptor : s.acceptChannel_.fd_ ≠ n
  conns : ∀ c, s.Created c → (s.conn c).channel_.fd_ ≠ n

theorem Reserved.after (reach : machine.Reachable (Server.new config) s) (inv : s.Reserved n)
    (does : Does s t (s.stack t).head? input eff) : (s.after t eff sys).Reserved n := by
  have ext := s.after_extends t eff sys
  refine ⟨?_, ?_, ?_⟩
  · change n ∈ (s.act eff.change).fds
    cases eff.change with
    | newConnection connfd => exact List.mem_cons_of_mem _ inv.used
    | nothing | conn c op | acceptor op | fillActiveChannels active | erase c | store p byte
    | destroy => exact inv.used
  · change (s.act eff.change).acceptChannel_.fd_ ≠ n
    rw [(registered reach).acceptChannel_fd]
    exact inv.acceptor
  · intro c created
    rcases created_after created with old | ⟨rfl, connfd, new⟩
    · rw [ext.fd c old]
      exact inv.conns c old
    · have fresh := (does.newConnection new).2.1
      rw [after_conn, new]
      simp only [act, newConnection, Function.update_self]
      intro same
      obtain rfl : connfd = n := same
      exact fresh inv.used

theorem Reserved.kept (reach : machine.Reachable (Server.new config) s) (inv : s.Reserved n)
    (does : Does s t (s.stack t).head? input eff) (l : LoopId) :
    ((s.after t eff sys).poller l).channels_ n = (s.poller l).channels_ n := by
  have created {c : ConnId} {op : ConnOp} (here : eff.change = .conn c op) : s.Created c :=
    ((confined reach).operates does here).1
  rw [after_poller]
  cases (registered reach).entry eff.change (fun c op => created) l n with
  | conn c op here own same => exact absurd same.symm (inv.conns c (created here))
  | acceptor op here base same => exact absurd same.symm inv.acceptor
  | kept same => exact same

theorem wakeup_listed (h : machine.Reachable (Server.new config) s) {l : LoopId}
    (made : l ≤ config.numThreads_) :
    s.Reserved (config.wakeupFd_ l) ∧
      (s.poller l).channels_ (config.wakeupFd_ l) = some .wakeup := by
  refine h.invariant (I := fun s => s.Reserved (config.wakeupFd_ l) ∧
    (s.poller l).channels_ (config.wakeupFd_ l) = some .wakeup) ?_ ?_
  · refine ⟨⟨List.mem_cons_of_mem _ ?_, (config.distinct l).symm, ?_⟩, ?_⟩
    · exact List.mem_map.mpr ⟨l, List.mem_range.mpr (Nat.lt_succ_of_le made), rfl⟩
    · intro c created
      exact absurd created.1 (Nat.not_lt_of_ge (Nat.le_of_lt_succ created.2))
    · simp only [Server.new, if_pos made, newPoller_eq, Function.update_self]
  · intro m i m' reach inv hs
    obtain ⟨eff, sys, does, -, rfl⟩ := step_does (t := i.1) (a := i.2) hs
    exact ⟨inv.1.after reach does, (inv.1.kept reach does l).trans inv.2⟩

theorem Does.accepts {head : Option Task} {op : ChannelOp} (does : Does s t head input eff)
    (h : eff.change = .acceptor op) :
    head = some (.functor .listen) ∧ op = .enableReading ∨ head = some (.acceptChannel op) := by
  cases does <;> cases h
  · exact .inl ⟨rfl, rfl⟩
  · exact .inr rfl

/-- The listening channel is taken out outside of the dispatch of the base loop. -/
structure Listening (s : Server) : Prop where
  closing : ∀ op, .acceptChannel op ∈ s.stack (.loop 0) → (s.sys 0).loop.position.channels = []
  reported : .acceptor ∈ (s.sys 0).loop.position.channels → s.acceptChannel_.index_ ≠ kNew

theorem Listening.index_after (reach : machine.Reachable (Server.new config) s)
    (inv : s.Listening) (does : Does s t (s.stack t).head? input eff)
    (index : s.acceptChannel_.index_ ≠ kNew)
    (idle : (s.sys 0).loop.position.channels = [] → (s.stack t).head? = none) :
    (s.after t eff sys).acceptChannel_.index_ ≠ kNew := by
  change (s.act eff.change).acceptChannel_.index_ ≠ kNew
  cases hc : eff.change with
  | acceptor op =>
    rcases does.accepts hc with ⟨-, rfl⟩ | head
    · exact (updateChannel_spec _ (registered reach).acceptor).2.2.2
    · have mem := List.mem_of_mem_head? head
      obtain rfl : t = .loop 0 := (confined reach).tasks t _ mem
      rw [idle (inv.closing op mem)] at head
      cases head
  | fillActiveChannels active =>
    simp only [act, fillActiveChannels]
    split <;> exact index
  | nothing | conn c op | newConnection connfd | erase c | store p byte | destroy => exact index

private theorem index_of_reports (reach : machine.Reachable (Server.new config) s)
    {active : List (ChannelRef × EventMask)} (reports : s.Reports 0 active = true)
    (mem : .acceptor ∈ active.map Prod.fst) : s.acceptChannel_.index_ ≠ kNew := by
  obtain ⟨⟨ref, revents⟩, listed, same⟩ := List.mem_map.mp mem
  cases same
  obtain ⟨mask, entry⟩ := MayReport.own (List.all_eq_true.mp reports _ listed)
  exact (registered reach).acceptor.index_of_kernel entry

theorem Listening.step (reach : machine.Reachable (Server.new config) s) (inv : s.Listening)
    (h : machine.step s (t, input) = some s') : s'.Listening := by
  obtain ⟨eff, sys, does, loops, rfl⟩ := step_does h
  refine ⟨?_, ?_⟩
  · intro op mem
    rw [after_sys]
    have kept {task : Task} (old : task ∈ s.stack (.loop 0)) :
        (sys 0).loop.position = (s.sys 0).loop.position :=
      position_kept does loops fun own => own ▸ List.ne_nil_of_mem old
    rcases mem_after_stack _ _ _ _ mem with ⟨own, pushed⟩ | old
    · have destroy : eff.change = .destroy := by
        cases does.puts pushed with
        | acceptChannel op destroy => exact destroy
        | carrying task f carries => cases carries
      obtain ⟨outside, -, quiet⟩ := does.destroys destroy
      rw [quiet] at loops
      cases loops
      exact outside
    · rw [kept old]
      exact inv.closing op old
  · intro mem
    rw [after_sys] at mem
    rcases does.mem_channels loops mem with old | ⟨idle, events, reports, listed⟩
    · refine inv.index_after reach does (inv.reported old) ?_
      intro none
      rw [none] at old
      cases old
    · exact inv.index_after reach does (index_of_reports reach reports listed) fun _ => idle

theorem listening (h : machine.Reachable (Server.new config) s) : s.Listening := by
  refine h.invariant (I := Listening) ⟨?_, ?_⟩ fun _ _ _ reach inv hs => inv.step reach hs
  · intro op mem
    rfl
  · intro mem
    cases mem

/-- The server of `oneLoop` without its sub-loop. -/
def noLoops : ServerConfig := { oneLoop with numThreads_ := 0 }

/-- The base loop accepts a connection, finds it closed and takes it out of the server, all inside
of the dispatch. -/
def closingInDispatch : List (Tid × Input) :=
  steps (.loop 0) 6 ++ [(.loop 0, .poll [(.acceptor, EPOLLIN)]), (.loop 0, .run),
    (.loop 0, .accept (some 9))] ++ steps (.loop 0) 7 ++
    [(.loop 0, .poll [(.conn 1, EPOLLIN)]), (.loop 0, .run), (.loop 0, .read (.got []))] ++
    steps (.loop 0) 4

end Server

end TcpMuduo
