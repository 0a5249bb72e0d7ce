import TcpMuduo.Net.InFlight

/-!
The pollers of a server: every channel agrees with the poller of its loop, and
handlers are called only for registered channels, because `connectDestroyed`
runs outside of the dispatch.
-/

set_option autoImplicit false
set_option relaxedAutoImplicit false

namespace TcpMuduo

namespace Server

variable {s s' : Server} {t : Tid} {input : Input} {eff : Effect} {config : ServerConfig}
variable {sys : LoopId → LoopSystem Tid Functor ChannelRef} {c : ConnId}

/-- Every channel agrees with the poller of its loop, the descriptors are distinct, and one that
is not in use is in no poller. -/
structure Registered (s : Server) : Prop where
  conns : ∀ c, s.Created c → (s.env c).Agrees c
  acceptor : Agrees (s.poller 0) .acceptor s.acceptChannel_
  used : ∀ c, s.Created c → (s.conn c).channel_.fd_ ∈ s.fds
  listens : s.acceptChannel_.fd_ ∈ s.fds
  distinct : ∀ c c', s.Created c → s.Created c' → c' ≠ c →
    (s.conn c').channel_.fd_ ≠ (s.conn c).channel_.fd_
  apart : ∀ c, s.Created c → s.acceptChannel_.fd_ ≠ (s.conn c).channel_.fd_
  free : ∀ l fd, fd ∉ s.fds →
    (s.poller l).channels_ fd = none ∧ (s.poller l).interest fd = none

private theorem agrees_update {poller : LoopId → EpollPoller ChannelRef} {l l' : LoopId}
    {p : EpollPoller ChannelRef} {fd : Nat} {ref : ChannelRef} {ch : Channel}
    (same : SameOff (poller l) p fd) (off : ch.fd_ ≠ fd) (h : Agrees (poller l') ref ch) :
    Agrees (Function.update poller l p l') ref ch := by
  rw [Function.update_apply]
  split
  · rename_i here
    subst here
    exact same.agrees off h
  · exact h

private theorem free_update {poller : LoopId → EpollPoller ChannelRef} {l l' : LoopId}
    {p : EpollPoller ChannelRef} {fd fd' : Nat} (same : SameOff (poller l) p fd) (off : fd' ≠ fd)
    (h : (poller l').channels_ fd' = none ∧ (poller l').interest fd' = none) :
    (Function.update poller l p l').channels_ fd' = none ∧
      (Function.update poller l p l').interest fd' = none := by
  rw [Function.update_apply]
  split
  · rename_i here
    subst here
    exact ⟨(same.listed fd' off).trans h.1, (same.kernel fd' off).trans h.2⟩
  · exact h

theorem Registered.conn (inv : s.Registered) (created : s.Created c) (op : ConnOp) :
    (s.act (.conn c op)).Registered := by
  have frame := op.frame c (s.env c)
  obtain ⟨agrees, clean⟩ := (op.spec c (s.env c)).registers.agrees (inv.conns c created)
  have self : (s.act (.conn c op)).conn c = (op.apply c (s.env c)).conn :=
    Function.update_self ..
  have others {c' : ConnId} (other : c' ≠ c) : (s.act (.conn c op)).conn c' = s.conn c' :=
    Function.update_of_ne other _ _
  have fd (c' : ConnId) :
      ((s.act (.conn c op)).conn c').channel_.fd_ = (s.conn c').channel_.fd_ := by
    by_cases other : c' = c
    · subst other
      rw [self]
      exact frame.fd
    · rw [others other]
  refine ⟨?_, ?_, ?_, inv.listens, ?_, ?_, ?_⟩
  · intro c' created'
    by_cases other : c' = c
    · subst other
      unfold ConnEnv.Agrees env
      rw [self]
      simp only [act, put]
      rw [show (op.apply c' (s.env c')).conn.loop_ = (s.conn c').loop_ from frame.loop,
        Function.update_self]
      exact agrees
    · unfold ConnEnv.Agrees env
      rw [others other]
      have apart := inv.distinct c c' created created' other
      exact agrees_update clean.same apart (inv.conns c' created')
  · exact agrees_update clean.same (inv.apart c created) inv.acceptor
  · intro c' created'
    rw [fd]
    exact inv.used c' created'
  · intro c' c'' created' created'' other
    rw [fd, fd]
    exact inv.distinct c' c'' created' created'' other
  · intro c' created'
    rw [fd]
    exact inv.apart c' created'
  · intro l fd' unused
    refine free_update clean.same (fun same => unused ?_) (inv.free l fd' unused)
    rw [same]
    exact inv.used c created

theorem Registered.newConnection (inv : s.Registered) {connfd : Nat} (fresh : connfd ∉ s.fds) :
    (s.newConnection connfd).Registered := by
  have self : (s.newConnection connfd).conn s.nextConnId_ =
      TcpConnection.new s.getNextLoop.1 s.connName connfd s.config.writeCompleteCallback_ :=
    Function.update_self ..
  have old {c : ConnId} (created : s.Created c) : (s.newConnection connfd).conn c = s.conn c :=
    Function.update_of_ne (Nat.ne_of_lt created.2) _ _
  have cases_on {c : ConnId} (created : (s.newConnection connfd).Created c) :
      s.Created c ∨ c = s.nextConnId_ :=
    (Nat.lt_succ_iff_lt_or_eq.mp created.2).imp_left (⟨created.1, ·⟩)
  have unused {fd : Nat} (mem : fd ∈ s.fds) : fd ≠ connfd := fun same => fresh (same ▸ mem)
  refine ⟨?_, inv.acceptor, ?_,
    List.mem_cons_of_mem _ inv.listens, ?_,
    ?_, ?_⟩
  · intro c created
    rcases cases_on created with before | rfl
    · unfold ConnEnv.Agrees env
      rw [old before]
      exact inv.conns c before
    · unfold ConnEnv.Agrees env
      rw [self]
      exact .new rfl (inv.free _ connfd fresh).1 (inv.free _ connfd fresh).2
  · intro c created
    rcases cases_on created with before | rfl
    · rw [old before]
      exact List.mem_cons_of_mem _ (inv.used c before)
    · rw [self]
      exact List.mem_cons_self
  · intro c c' created created' other
    rcases cases_on created with before | rfl
    · rcases cases_on created' with before' | rfl
      · rw [old before, old before']
        exact inv.distinct c c' before before' other
      · rw [old before, self]
        exact (unused (inv.used c before)).symm
    · rcases cases_on created' with before' | rfl
      · rw [old before', self]
        exact unused (inv.used c' before')
      · exact absurd rfl other
  · intro c created
    rcases cases_on created with before | rfl
    · rw [old before]
      exact inv.apart c before
    · rw [self]
      exact unused inv.listens
  · intro l fd away
    exact inv.free l fd fun mem => away (List.mem_cons_of_mem _ mem)

theorem Registered.act (inv : s.Registered) (change : Change)
    (created : ∀ c op, change = .conn c op → s.Created c)
    (fresh : ∀ connfd, change = .newConnection connfd → connfd ∉ s.fds) :
    (s.act change).Registered := by
  cases change with
  | conn c op => exact inv.conn (created c op rfl) op
  | acceptor op =>
    obtain ⟨agrees, clean⟩ := op.spec inv.acceptor
    refine ⟨?_, ?_, inv.used, ?_, inv.distinct, ?_, ?_⟩
    · intro c known
      exact agrees_update clean.same (inv.apart c known).symm (inv.conns c known)
    · simp only [Server.act, Function.update_self]
      exact agrees
    · exact clean.fd ▸ inv.listens
    · intro c known
      exact clean.fd ▸ inv.apart c known
    · intro l fd unused
      refine free_update clean.same (fun same => unused ?_) (inv.free l fd unused)
      exact same ▸ inv.listens
  | newConnection connfd => exact inv.newConnection (fresh connfd rfl)
  | fillActiveChannels active =>
    have channel (c : ConnId) : ∃ revents, (s.fillActiveChannels active).conn c =
        { s.conn c with channel_ := { (s.conn c).channel_ with revents_ := revents } } := by
      cases s.act_touches (.fillActiveChannels active) c with
      | op op here conn events => cases here
      | new connfd here this conn events => cases here
      | idle other revents conn events => exact ⟨revents, conn⟩
    have fd (c : ConnId) : ((s.fillActiveChannels active).conn c).channel_.fd_ =
        (s.conn c).channel_.fd_ := by
      obtain ⟨revents, same⟩ := channel c
      rw [same]
    obtain ⟨revents, acceptor⟩ : ∃ revents, (s.fillActiveChannels active).acceptChannel_ =
        { s.acceptChannel_ with revents_ := revents } := by
      simp only [fillActiveChannels]
      split
      · exact ⟨_, rfl⟩
      · exact ⟨_, rfl⟩
    refine ⟨?_, ?_, ?_, ?_, ?_, ?_, inv.free⟩
    · intro c known
      obtain ⟨revents, same⟩ := channel c
      unfold ConnEnv.Agrees env
      simp only [Server.act]
      rw [same]
      exact agrees_congr (inv.conns c known) rfl rfl rfl
    · simp only [Server.act]
      rw [acceptor]
      exact agrees_congr inv.acceptor rfl rfl rfl
    · intro c known
      simp only [Server.act, fd]
      exact inv.used c known
    · simp only [Server.act, acceptor]
      exact inv.listens
    · intro c c' known known' other
      simp only [Server.act, fd]
      exact inv.distinct c c' known known' other
    · intro c known
      simp only [Server.act, fd, acceptor]
      exact inv.apart c known
  | nothing | erase c | store p byte | destroy =>
    exact ⟨inv.conns, inv.acceptor, inv.used, inv.listens, inv.distinct, inv.apart, inv.free⟩

theorem registered (h : machine.Reachable (Server.new config) s) : s.Registered := by
  refine h.invariant (I := Registered) ?_ ?_
  · have listening := new_poller fun _ : 0 ≤ config.numThreads_ => (config.distinct 0).symm
    refine ⟨fun c created => ?_, .new rfl listening.1 listening.2, fun c created => ?_,
      List.mem_cons_self, fun c c' created => ?_, fun c created => ?_, ?_⟩
    case refine_5 =>
      intro l fd unused
      refine new_poller fun made same => unused (List.mem_cons_of_mem _ ?_)
      exact List.mem_map.mpr ⟨l, List.mem_range.mpr (Nat.lt_succ_of_le made), same.symm⟩
    all_goals exact absurd created.1 (Nat.not_lt_of_ge (Nat.le_of_lt_succ created.2))
  · intro m i m' reach inv hs
    obtain ⟨eff, sys, does, loops, rfl⟩ := step_does (t := i.1) (a := i.2) hs
    have act := inv.act eff.change
      (fun c op change => ((confined reach).operates does change).1)
      (fun connfd change => (does.newConnection change).2.1)
    exact ⟨act.conns, act.acceptor, act.used, act.listens, act.distinct, act.apart, act.free⟩

theorem position_kept (does : Does s t (s.stack t).head? input eff)
    (loops : s.loopStep eff.loop = some sys) {l : LoopId} (busy : t = .loop l → s.stack t ≠ []) :
    (sys l).loop.position = (s.sys l).loop.position := by
  rcases loopStep_at loops l with ⟨same, -⟩ | ⟨i, here, step⟩
  · rw [same]
  · rcases LoopSystem.step_position step with same | ⟨active, rfl⟩
    · exact same
    · obtain ⟨none, own⟩ := does.advances here
      exact absurd (List.head?_eq_none_iff.mp none) (busy own)

end Server

def Task.Destroys : Task → Prop
  | .functor (.connectDestroyed _) | .connectDestroyedClose _ | .connectDestroyedRemove _ => True
  | _ => False

namespace Server

variable {s s' : Server} {t : Tid} {input : Input} {eff : Effect} {config : ServerConfig}
variable {sys : LoopId → LoopSystem Tid Functor ChannelRef} {c : ConnId}

private theorem channels_of_outsideDispatch {p : Position Functor ChannelRef}
    (h : outsideDispatch p = true) : p.channels = [] := by
  cases p <;> first | rfl | cases h

theorem Does.destroys {head : Option Task} (does : Does s t head input eff)
    (destroy : eff.change = .destroy) :
    (s.sys 0).loop.position.channels = [] ∧ t = .loop 0 ∧ eff.loop = none := by
  cases does with
  | destroy order may | userDestroy order alone may =>
    exact ⟨channels_of_outsideDispatch may.1, rfl, rfl⟩
  | _ => cases destroy

theorem Does.pushes_destroy {head : Option Task} {task : Task} (does : Does s t head input eff)
    (mem : task ∈ eff.push) (destroys : task.Destroys) :
    (∃ task', head = some task' ∧ task'.Destroys) ∨
      (∃ l f rest, (s.sys l).loop.position = .running (f :: rest) ∧ t = .loop l ∧
        eff.loop = some (l, .advance [])) ∨ eff.change = .destroy := by
  cases does.puts mem with
  | connectDestroyedClose c destroyed => exact .inl ⟨_, destroyed, trivial⟩
  | connectDestroyedRemove c destroyed =>
    rcases destroyed with destroyed | destroyed
    · exact .inl ⟨_, destroyed, trivial⟩
    · exact .inl ⟨_, destroyed, trivial⟩
  | carrying task f carries =>
    cases task with
    | functor g =>
      cases g with
      | connectDestroyed c =>
        generalize hg : Functor.connectDestroyed c = g at mem
        cases does.setsOut mem rfl with
        | called l f rest here loop push =>
          exact .inr (.inl ⟨l, _, rest, here, (does.advances loop).2, loop⟩)
        | connectDestroyed c why =>
          rcases why with remove | destroy
          · rw [remove] at does
            cases does
            cases List.mem_singleton.mp mem
          · exact .inr (.inr destroy)
        | _ => cases hg
      | _ => exact destroys.elim
    | queueInLoop l g => exact destroys.elim
    | _ => cases carries
  | _ => exact destroys.elim

/-- Handlers run during the dispatch, for registered channels, and `connectDestroyed` does not. -/
structure Handling (s : Server) : Prop where
  callbacks : ∀ l c k, .callback c k ∈ s.stack (.loop l) →
    .conn c ∈ (s.sys l).loop.position.channels
  destroying : ∀ l task, task ∈ s.stack (.loop l) → task.Destroys →
    (s.sys l).loop.position.channels = []
  reported : ∀ l c, .conn c ∈ (s.sys l).loop.position.channels →
    (s.conn c).channel_.index_ ≠ kNew

theorem wakeupChannel_eq (h : machine.Reachable (Server.new config) s) (l : LoopId) :
    (s.sys l).loop.wakeupChannel_ = .wakeup :=
  (loops_reachable h l).invariant (I := fun m => m.loop.wakeupChannel_ = .wakeup) rfl
    fun _ _ _ _ inv hs => (LoopSystem.step_wakeupChannel hs).trans inv

private theorem registered_of_reports (reach : machine.Reachable (Server.new config) s) {l : LoopId}
    {active : List (ChannelRef × EventMask)} (reports : s.Reports l active = true)
    (mem : .conn c ∈ active.map Prod.fst) : (s.conn c).channel_.index_ ≠ kNew := by
  obtain ⟨⟨created, -⟩, rfl⟩ := (confined reach).reported reports mem
  obtain ⟨event, listed, same⟩ := List.mem_map.mp mem
  have may := List.all_eq_true.mp reports event listed
  obtain ⟨ref, revents⟩ := event
  cases same
  obtain ⟨mask, entry⟩ := MayReport.own may
  have agrees := (registered reach).conns c created
  exact agrees.index_of_kernel entry

/-- A registered channel stays registered while it is being handled, or while its loop waits. -/
theorem Handling.index_after (reach : machine.Reachable (Server.new config) s) (inv : s.Handling)
    (does : Does s t (s.stack t).head? input eff) {l : LoopId}
    (here : ChannelRef.At s l (.conn c)) (index : (s.conn c).channel_.index_ ≠ kNew)
    (idle : (s.sys l).loop.position.channels = [] → (s.stack t).head? = none) :
    ((s.after t eff sys).conn c).channel_.index_ ≠ kNew := by
  obtain ⟨⟨created, -⟩, rfl⟩ := here
  have touches := s.act_touches eff.change c
  rw [after_conn]
  cases touches with
  | op op change conn events =>
    rw [conn]
    have agrees := (registered reach).conns c created
    refine ((op.spec c (s.env c)).registers.index agrees index).resolve_right ?_
    intro remove
    have removes : op = .connectDestroyedRemove := by
      cases op with
      | connectDestroyedRemove => rfl
      | _ => simp [ConnOp.channelOp] at remove
    subst removes
    have head : (s.stack t).head? = some (.connectDestroyedRemove c) := by
      have operation := does.operation change
      generalize (s.stack t).head? = first at operation
      cases operation
      rfl
    have own := ((confined reach).operates does change).2.2.resolve_right (by simp)
    have outside := inv.destroying _ (.connectDestroyedRemove c)
      (own ▸ List.mem_of_mem_head? head) trivial
    rw [idle outside] at head
    cases head
  | new connfd change this conn events => exact absurd this (Nat.ne_of_lt created.2)
  | idle other revents conn events =>
    rw [conn]
    exact index

theorem Handling.step (reach : machine.Reachable (Server.new config) s) (inv : s.Handling)
    (h : machine.step s (t, input) = some s') : s'.Handling := by
  obtain ⟨eff, sys, does, loops, rfl⟩ := step_does h
  have confined := confined reach
  have kept {l : LoopId} {task : Task} (mem : task ∈ s.stack (.loop l)) :
      (sys l).loop.position = (s.sys l).loop.position :=
    position_kept does loops fun own => own ▸ List.ne_nil_of_mem mem
  refine ⟨?_, ?_, ?_⟩
  · intro l c k mem
    rw [after_sys]
    rcases stack_cases _ _ _ _ mem with ⟨rfl, pushed⟩ | ⟨rfl, behind⟩ | ⟨other, old⟩
    · cases does.puts pushed with
      | carrying task f carries => cases carries
      | callback l' c k rest here own loop =>
        cases own
        have handling := LoopSystem.step_dispatching (step_of_loopStep loops loop) here
          (by rw [wakeupChannel_eq reach]; simp)
        rw [handling]
        exact List.mem_cons_self
      | handleRead c k read =>
        have mem := List.mem_of_mem_head? read
        rw [kept mem]
        exact inv.callbacks l c .read mem
    · rw [kept (List.mem_of_mem_tail behind)]
      exact inv.callbacks l c k (List.mem_of_mem_tail behind)
    · rw [kept old]
      exact inv.callbacks l c k old
  · intro l task mem destroys
    rw [after_sys]
    rcases stack_cases _ _ _ _ mem with ⟨rfl, pushed⟩ | ⟨rfl, behind⟩ | ⟨other, old⟩
    · rcases does.pushes_destroy pushed destroys with ⟨task', head, destroys'⟩ |
        ⟨l', f, rest, here, own, loop⟩ | destroy
      · have mem := List.mem_of_mem_head? head
        rw [kept mem]
        exact inv.destroying l task' mem destroys'
      · cases own
        refine List.eq_nil_iff_forall_not_mem.mpr ?_
        intro ref mem
        rcases LoopSystem.step_channels (step_of_loopStep loops loop) mem with
          old | ⟨active, -, waits, -⟩
        · rw [here] at old
          cases old
        · rw [here] at waits
          cases waits
      · obtain ⟨here, own, loop⟩ := does.destroys destroy
        cases own
        rw [loop] at loops
        cases loops
        exact here
    · rw [kept (List.mem_of_mem_tail behind)]
      exact inv.destroying l task (List.mem_of_mem_tail behind) destroys
    · rw [kept old]
      exact inv.destroying l task old destroys
  · intro l c mem
    rw [after_sys] at mem
    rcases does.mem_channels loops mem with old | ⟨idle, events, reports, listed⟩
    · refine inv.index_after reach does (confined.channels l _ old) (inv.reported l c old) ?_
      intro none
      rw [none] at old
      cases old
    · exact inv.index_after reach does (confined.reported reports listed)
        (registered_of_reports reach reports listed) fun _ => idle

theorem handling (h : machine.Reachable (Server.new config) s) : s.Handling := by
  refine h.invariant (I := Handling) ⟨?_, ?_, ?_⟩ fun _ _ _ reach inv hs => inv.step reach hs
  · intro l c k mem
    cases new_stack mem
  · intro l task mem destroys
    rfl
  · intro l c mem
    cases mem

theorem index_of_callback (h : machine.Reachable (Server.new config) s) {k : Callback}
    (mem : .callback c k ∈ s.stack t) : (s.conn c).channel_.index_ ≠ kNew := by
  obtain ⟨-, rfl⟩ := (confined h).tasks t _ mem
  exact (handling h).reported _ c ((handling h).callbacks _ c k mem)

end Server

end TcpMuduo
