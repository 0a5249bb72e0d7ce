import TcpMuduo.Net.Dispatch
import TcpMuduo.Net.Establishment

/-!
The pollers keep plain pointers of the channels. Each stands on the loop and at
the descriptor of its channel, and its connection is held by `connections_` or
by a call of `connectDestroyed` that is still to come.
-/

set_option autoImplicit false
set_option relaxedAutoImplicit false

namespace TcpMuduo

/-- The poller or the kernel has the pointer `ref` at the descriptor `n`. -/
def EpollPoller.Names {ι : Type} (p : EpollPoller ι) (n : Nat) (ref : ι) : Prop :=
  p.channels_ n = some ref ∨ ∃ mask, p.interest n = some (mask, ref)

theorem Agrees.watched {ι : Type} {p : EpollPoller ι} {self ref : ι} {ch : Channel}
    {mask : EventMask} (h : Agrees p self ch) (entry : p.interest ch.fd_ = some (mask, ref)) :
    ch.index_ = kAdded ∧ mask = ch.events_ ∧ ref = self := by
  cases h with
  | added index listed own =>
    rw [own] at entry
    cases entry
    exact ⟨index, rfl, rfl⟩
  | new index listed none | deleted index listed none =>
    rw [none] at entry
    cases entry

theorem Agrees.named {ι : Type} {p : EpollPoller ι} {self ref : ι} {ch : Channel}
    (h : Agrees p self ch) (names : p.Names ch.fd_ ref) : ref = self ∧ ch.index_ ≠ kNew := by
  rcases names with listed | ⟨mask, kernel⟩
  · exact (h.index_of_listed listed).symm
  · exact ⟨(h.watched kernel).2.2, h.index_of_kernel kernel⟩

theorem SameOff.named {ι : Type} {p p' : EpollPoller ι} {fd n : Nat} {ref : ι}
    (same : SameOff p p' fd) (off : n ≠ fd) (names : p'.Names n ref) : p.Names n ref := by
  rcases names with listed | ⟨mask, kernel⟩
  · exact .inl ((same.listed n off).symm.trans listed)
  · exact .inr ⟨mask, (same.kernel n off).symm.trans kernel⟩

namespace Server

variable {s s' : Server} {t : Tid} {input : Input} {eff : Effect} {config : ServerConfig}
variable {sys : LoopId → LoopSystem Tid Functor ChannelRef} {c : ConnId}
variable {inputs : List (Tid × Input)}

/-- Every pointer is in the poller of its channel's loop at the channel's descriptor, and no
`epoll_ctl` has failed. -/
structure Placed (s : Server) : Prop where
  named : ∀ l n ref, (s.poller l).Names n ref → ref.At s l ∧ n = s.fd l ref
  errors : ∀ l, (s.poller l).errors = []

/-- The pointers after a change: they were there before, or belong to the channel at work. -/
inductive Named (s : Server) (change : Change) (l : LoopId) (n : Nat) : ChannelRef → Prop
  | kept (ref : ChannelRef) (before : (s.poller l).Names n ref) : Named s change l n ref
  | conn (c : ConnId) (op : ConnOp) (here : change = .conn c op) (own : l = (s.conn c).loop_)
      (same : n = (s.conn c).channel_.fd_)
      (index : (op.apply c (s.env c)).conn.channel_.index_ ≠ kNew) :
      Named s change l n (.conn c)
  | acceptor (op : ChannelOp) (here : change = .acceptor op) (base : l = 0)
      (same : n = s.acceptChannel_.fd_) : Named s change l n .acceptor

theorem Registered.named (inv : s.Registered) (change : Change)
    (created : ∀ c op, change = .conn c op → s.Created c) {l : LoopId} {n : Nat}
    {ref : ChannelRef} (names : ((s.act change).poller l).Names n ref) :
    Named s change l n ref := by
  cases change with
  | conn c op =>
    obtain ⟨agrees, clean⟩ :=
      (op.spec c (s.env c)).registers.agrees (inv.conns c (created c op rfl))
    by_cases own : l = (s.conn c).loop_
    · subst own
      simp only [Server.act, put, Function.update_self] at names
      by_cases same : n = (s.conn c).channel_.fd_
      · have fd : (op.apply c (s.env c)).conn.channel_.fd_ = n := clean.fd.trans same.symm
        obtain ⟨rfl, index⟩ := Agrees.named agrees (fd ▸ names)
        exact .conn c op rfl rfl same index
      · exact .kept ref (clean.same.named same names)
    · simp only [Server.act, put, Function.update_of_ne own] at names
      exact .kept ref names
  | acceptor op =>
    obtain ⟨agrees, clean⟩ := op.spec inv.acceptor
    by_cases base : l = 0
    · subst base
      simp only [Server.act, Function.update_self] at names
      by_cases same : n = s.acceptChannel_.fd_
      · have fd := clean.fd.trans same.symm
        obtain ⟨rfl, -⟩ := Agrees.named agrees (fd ▸ names)
        exact .acceptor op rfl rfl same
      · exact .kept ref (clean.same.named same names)
    · simp only [Server.act, Function.update_of_ne base] at names
      exact .kept ref names
  | nothing | fillActiveChannels active | newConnection connfd | erase c | store p byte
  | destroy =>
    exact .kept ref names

theorem Registered.errors (inv : s.Registered) (change : Change)
    (created : ∀ c op, change = .conn c op → s.Created c) (l : LoopId) :
    ((s.act change).poller l).errors = (s.poller l).errors := by
  cases change with
  | conn c op =>
    have clean := ((op.spec c (s.env c)).registers.agrees (inv.conns c (created c op rfl))).2
    simp only [Server.act, put, Function.update_apply]
    split
    · rename_i own
      exact own ▸ clean.errors
    · rfl
  | acceptor op =>
    have clean := (op.spec inv.acceptor).2
    simp only [Server.act, Function.update_apply]
    split
    · rename_i base
      exact base ▸ clean.errors
    · rfl
  | nothing | fillActiveChannels active | newConnection connfd | erase c | store p byte
  | destroy =>
    rfl

private theorem fd_after (reach : machine.Reachable (Server.new config) s) {l : LoopId}
    {ref : ChannelRef} (here : ref.At s l) : (s.after t eff sys).fd l ref = s.fd l ref := by
  have ext := s.after_extends t eff sys
  cases ref with
  | wakeup => exact congrArg (fun config => config.wakeupFd_ l) ext.config
  | acceptor => exact (registered reach).acceptChannel_fd eff.change
  | conn c => exact ext.fd c here.1.1

theorem Placed.step (reach : machine.Reachable (Server.new config) s) (inv : s.Placed)
    (h : machine.step s (t, input) = some s') : s'.Placed := by
  obtain ⟨eff, sys, does, -, rfl⟩ := step_does h
  have ext := s.after_extends t eff sys
  have known (c : ConnId) (op : ConnOp) (here : eff.change = .conn c op) : s.Created c :=
    ((confined reach).operates does here).1
  refine ⟨?_, ?_⟩
  · intro l n ref names
    rw [after_poller] at names
    cases (registered reach).named eff.change known names with
    | kept ref before =>
      obtain ⟨here, at_fd⟩ := inv.named l n ref before
      exact ⟨ext.channel_at here, at_fd.trans (fd_after reach here).symm⟩
    | conn c op here own same index =>
      obtain ⟨created, up, -⟩ := (confined reach).operates does here
      have up : (s.after t eff sys).Up c := by
        rcases up with old | rfl | rfl
        · exact ext.up old
        · exact up_connectEstablished here
        · refine absurd ?_ index
          exact (removeChannel_spec ((registered reach).conns c created)).2.2.2
      exact ⟨⟨⟨ext.mono created, up⟩, own.trans (ext.loop c created).symm⟩,
        same.trans (ext.fd c created).symm⟩
    | acceptor op here base same =>
      exact ⟨base, same.trans ((registered reach).acceptChannel_fd eff.change).symm⟩
  · intro l
    rw [after_poller, (registered reach).errors eff.change known]
    exact inv.errors l

theorem placed (h : machine.Reachable (Server.new config) s) : s.Placed := by
  refine h.invariant (I := Placed) ⟨?_, ?_⟩ fun _ _ _ reach inv hs => inv.step reach hs
  · intro l n ref names
    by_cases off : l ≤ config.numThreads_ → n ≠ config.wakeupFd_ l
    · obtain ⟨listed, kernel⟩ := new_poller off
      rcases names with entry | ⟨mask, entry⟩
      · rw [listed] at entry
        cases entry
      · rw [kernel] at entry
        cases entry
    · obtain ⟨made, same⟩ := Classical.not_imp.mp off
      obtain rfl := not_not.mp same
      simp only [EpollPoller.Names, Server.new, if_pos made, newPoller_eq,
        Function.update_self] at names
      rcases names with entry | ⟨mask, entry⟩
      · cases entry
        exact ⟨trivial, rfl⟩
      · cases entry
        exact ⟨trivial, rfl⟩
  · intro l
    simp only [Server.new]
    split
    · rw [newPoller_eq]
    · rfl

/-- In every reachable state no `epoll_ctl` has failed; a pointer stands in the poller of its
channel's loop at the channel's descriptor and nowhere else; and `index_` says whether that of a
connection stands there, and whether the kernel watches for the channel's `events_`. -/
theorem pollers_exact (config : ServerConfig) (s : Server)
    (h : machine.Reachable (Server.new config) s) :
    (∀ l, (s.poller l).errors = []) ∧
      (∀ l n ref, (s.poller l).Names n ref → ref.At s l ∧ n = s.fd l ref) ∧
        ∀ c, s.Created c →
          ((s.conn c).channel_.index_ ≠ kNew ↔ ∃ l n, (s.poller l).Names n (.conn c)) ∧
          ((s.conn c).channel_.index_ = kAdded ↔ ∃ l n mask,
            (s.poller l).interest n = some (mask, .conn c)) ∧
          ∀ l n mask, (s.poller l).interest n = some (mask, .conn c) →
            mask = (s.conn c).channel_.events_ := by
  have inv := placed h
  refine ⟨inv.errors, inv.named, ?_⟩
  intro c created
  have agrees := (registered h).conns c created
  have own {l : LoopId} {n : Nat} {mask : EventMask}
      (entry : (s.poller l).interest n = some (mask, .conn c)) :
      (s.conn c).channel_.index_ = kAdded ∧ mask = (s.conn c).channel_.events_ := by
    obtain ⟨⟨-, rfl⟩, rfl⟩ := inv.named l n (.conn c) (.inr ⟨mask, entry⟩)
    obtain ⟨index, same, -⟩ := agrees.watched entry
    exact ⟨index, same⟩
  refine ⟨⟨?_, ?_⟩, ⟨?_, ?_⟩, fun l n mask entry => (own entry).2⟩
  · intro index
    exact ⟨_, _, .inl (agrees.listed_of_index index)⟩
  · rintro ⟨l, n, names⟩
    obtain ⟨⟨-, rfl⟩, rfl⟩ := inv.named l n _ names
    exact (agrees.named names).2
  · intro index
    exact ⟨_, _, _, (agrees.index_iff.2.1.mp index).2⟩
  · rintro ⟨l, n, mask, entry⟩
    exact (own entry).1

theorem pollers_exact_establishing : ∃ s, machine.Run (Server.new oneLoop) establishing s ∧
    (s.conn 1).channel_.index_ = kAdded ∧ (s.poller 1).errors = [] ∧
      ∃ l n mask, (s.poller l).interest n = some (mask, .conn 1) := by
  obtain ⟨s, run, index, created⟩ := machine.exists_run (.new oneLoop) establishing
    (fun s => (s.conn 1).channel_.index_ = kAdded ∧ 0 < 1 ∧ 1 < s.nextConnId_) (by decide +kernel)
  obtain ⟨errors, -, exact_⟩ := pollers_exact oneLoop s run.reachable
  exact ⟨s, run, index, errors 1, (exact_ 1 created).2.1.mp index⟩

/-- The library holds the connection: in `connections_`, or for a `connectDestroyed` that is to
come or under way. -/
def Held (s : Server) (c : ConnId) : Prop :=
  (∃ name, (name, c) ∈ s.connections_) ∨ s.Destroying c

/-- A `sendInLoop` for the connection finds its channel in the poller. -/
def SendsRegistered (c : ConnId) (s : Server) (i : Tid × Input) : Prop :=
  match s.opOn c i with
  | some (.sendInLoop _ _) => (s.conn c).channel_.index_ ≠ kNew
  | _ => True

instance (c : ConnId) (s : Server) (i : Tid × Input) : Decidable (SendsRegistered c s i) :=
  decidable_of_bool (match s.opOn c i with
    | some (.sendInLoop _ _) => decide ((s.conn c).channel_.index_ ≠ kNew)
    | _ => true) (by unfold SendsRegistered; split <;> simp only [decide_eq_true_eq])

theorem Destroying.step (destroying : s.Destroying c)
    (does : Does s t (s.stack t).head? input eff) (loops : s.loopStep eff.loop = some sys) :
    (s.after t eff sys).Destroying c ∨ eff.change = .conn c .connectDestroyedRemove := by
  have pushed {task : Task} (mem : task ∈ eff.push) := pushed_mem_stack s t eff sys mem
  rcases destroying with flight | ⟨u, mem⟩ | ⟨u, mem⟩
  · rcases flight.step does loops with flight | head
    · exact .inl (.inl flight)
    · rw [head] at does
      cases does with
      | connectDestroyed t c connected =>
        exact .inl (.inr (.inl ⟨t, pushed (List.mem_singleton_self _)⟩))
      | connectDestroyedLate t c state =>
        exact .inl (.inr (.inr ⟨t, pushed (List.mem_singleton_self _)⟩))
  · rcases mem_stack_after (t := t) mem with stays | ⟨rfl, head⟩
    · exact .inl (.inr (.inl ⟨u, stays⟩))
    · rw [head] at does
      cases does
      exact .inl (.inr (.inr ⟨u, pushed (by simp)⟩))
  · rcases mem_stack_after (t := t) mem with stays | ⟨rfl, head⟩
    · exact .inl (.inr (.inr ⟨u, stays⟩))
    · rw [head] at does
      cases does
      exact .inr rfl

private theorem Does.destroy_pushes {head : Option Task} (does : Does s t head input eff)
    (destroy : eff.change = .destroy) {name : String} (mem : (name, c) ∈ s.connections_) :
    runInLoop (.loop 0) (s.conn c).loop_ (.connectDestroyed c) ∈ eff.push := by
  have listed {order : List ConnId} (may : s.MayDestroy order) :
      runInLoop (.loop 0) (s.conn c).loop_ (.connectDestroyed c) ∈ s.destructor order := by
    have here : c ∈ order := may.2.2.symm.subset (List.mem_map_of_mem mem)
    rw [destructor, List.append_assoc]
    exact List.mem_append_left _ (List.mem_map_of_mem here)
  cases does with
  | destroy order may => exact listed may
  | userDestroy order alone may => exact List.mem_append_left _ (listed may)
  | _ => cases destroy

private theorem held_of_entry (run : machine.Run (Server.new config) inputs s)
    (does : Does s t (s.stack t).head? input eff)
    (few : (s.after t eff sys).nextConnId_ - 1 ≤ intMax) {name : String}
    (mem : (name, c) ∈ s.connections_) : (s.after t eff sys).Held c := by
  have roster := roster run
  obtain ⟨created, named, -⟩ := roster.entries name c mem
  have flies {task : Task} (mem : task ∈ eff.push)
      (carries : task.carries = some (.connectDestroyed c)) : (s.after t eff sys).Held c :=
    .inr (.inl (.inl ⟨t, task, pushed_mem_stack s t eff sys mem, carries⟩))
  rw [after_nextConnId] at few
  cases hc : eff.change with
  | newConnection connfd =>
    rw [hc] at few
    refine .inl ⟨name, ?_⟩
    rw [after_connections, hc, (roster.newConnection run few).1]
    exact List.mem_cons_of_mem _ mem
  | erase c' =>
    rw [hc] at few
    have erased := created_of_erase run does hc
    by_cases same : c' = c
    · subst same
      have head := does.removes_iff.mpr hc
      unfold Removes at head
      rw [head] at does
      cases does
      exact flies (List.mem_singleton_self _) rfl
    · refine .inl ⟨name, ?_⟩
      rw [after_connections, hc]
      refine mem_erase.mpr ⟨mem, ?_⟩
      intro clash
      rw [named, roster.named c' erased] at clash
      exact same (ServerConfig.connName_injective (small_id created few) (small_id erased few)
        clash).symm
  | destroy => exact flies (does.destroy_pushes hc mem) (runInLoop_carries _ _ _)
  | nothing | conn c' op | acceptor op | fillActiveChannels active | store p byte =>
    refine .inl ⟨name, ?_⟩
    rw [after_connections, hc]
    exact mem

private theorem removed_after (reach : machine.Reachable (Server.new config) s)
    (created : s.Created c)
    (up : s.Up c) (index : (s.conn c).channel_.index_ = kNew)
    (sends : SendsRegistered c s (t, input)) (effect : s.effect t input = some eff) :
    (s.after t eff sys).Held c ∨ ((s.after t eff sys).conn c).channel_.index_ = kNew := by
  have does := effect_does effect
  have touches := s.act_touches eff.change c
  rw [after_conn]
  cases touches with
  | op op here conn events =>
    rw [conn]
    have operation := does.operation here
    cases (op.spec c (s.env c)).registers with
    | same channel poller => exact .inr (by rw [channel]; exact index)
    | op chop tied mem channel poller =>
      generalize hd : (s.stack t).head? = head at operation
      have task {task : Task} (head : (s.stack t).head? = some task) : task ∈ s.stack t :=
        List.mem_of_mem_head? head
      cases operation with
      | connectEstablished => exact absurd up (not_up_of_establish reach (task hd))
      | connectDestroyedRemove =>
        cases mem
        refine .inr ?_
        exact (removeChannel_spec ((registered reach).conns c created)).2.2.2
      | connectDestroyedClose =>
        rw [hd] at does
        cases does
        exact .inl (.inr (.inr (.inr ⟨t, pushed_mem_stack s t _ sys (by simp)⟩)))
      | handleClose | handleWriteDrain r => exact absurd index (index_of_callback reach (task hd))
      | send m p len r up connected own =>
        simp only [SendsRegistered, opOn, effect, Option.map_some, here, if_true] at sends
        exact absurd index sends
      | sendInLoop p len call r =>
        simp only [SendsRegistered, opOn, effect, Option.map_some, here, if_true] at sends
        exact absurd index sends
      | _ => cases mem
  | new connfd here this conn events => exact absurd this (Nat.ne_of_lt created.2)
  | idle other revents conn events =>
    rw [conn]
    exact .inr index

/-- A connection is held from `newConnection` on until `connectDestroyed` has removed its
channel, and then the channel stays out of the poller. -/
theorem held_or_removed (run : machine.Run (Server.new config) inputs s)
    (few : s.nextConnId_ - 1 ≤ intMax)
    (sends : machine.StepsMeet (SendsRegistered c) (.new config) inputs) (created : s.Created c) :
    s.Held c ∨ s.Up c ∧ (s.conn c).channel_.index_ = kNew := by
  induction run with
  | nil => exact absurd created.1 (Nat.not_lt_of_ge (Nat.le_of_lt_succ created.2))
  | @snoc inputs s s' i run hs ih =>
    obtain ⟨t, input⟩ := i
    obtain ⟨eff, effect, h⟩ := Option.bind_eq_some_iff.mp hs
    obtain ⟨sys, loops, rfl⟩ := Option.map_eq_some_iff.mp h
    have does := effect_does effect
    have ext := s.after_extends t eff sys
    have sooner := sends.before (List.prefix_append _ _)
    have before : s.nextConnId_ - 1 ≤ intMax :=
      Nat.le_trans (Nat.sub_le_sub_right ext.created 1) few
    rcases created_after created with old | ⟨rfl, connfd, new⟩
    · rcases ih before sooner old with (⟨name, mem⟩ | destroying) | ⟨up, index⟩
      · exact .inl (held_of_entry run does few mem)
      · rcases destroying.step does loops with goes_on | removes
        · exact .inl (.inr goes_on)
        · have operation := does.operation removes
          generalize hd : (s.stack t).head? = head at operation
          cases operation
          have up := (establishedFirst run.reachable).removing t c (List.mem_of_mem_head? hd)
          refine .inr ⟨ext.up up, ?_⟩
          rw [after_conn, removes]
          simp only [act, put, Function.update_self]
          exact (removeChannel_spec ((registered run.reachable).conns c old)).2.2.2
      · refine (removed_after run.reachable old up index (sends.last run) effect).imp_right ?_
        exact fun removed => ⟨ext.up up, removed⟩
    · refine .inl (.inl ⟨s.connName, ?_⟩)
      rw [after_connections, new]
      exact List.mem_cons_self

/-- With fewer than `2 ^ 31` connections accepted and no `sendInLoop` behind the end of
`connectDestroyed`: as long as a poller or the kernel has the pointer of a connection's channel,
or a batch names it, or a handler of it is called, the library holds the connection. -/
theorem registered_held (config : ServerConfig) (inputs : List (Tid × Input)) (s : Server)
    (run : machine.Run (Server.new config) inputs s) (few : s.nextConnId_ - 1 ≤ intMax)
    (c : ConnId) (sends : machine.StepsMeet (SendsRegistered c) (Server.new config) inputs) :
    (∀ l n, (s.poller l).Names n (.conn c) → s.Held c) ∧
      (∀ l, .conn c ∈ (s.sys l).loop.position.channels → s.Held c) ∧
        ∀ t k, .callback c k ∈ s.stack t → s.Held c := by
  have reach := run.reachable
  have held (created : s.Created c) (index : (s.conn c).channel_.index_ ≠ kNew) : s.Held c :=
    (held_or_removed run few sends created).resolve_right fun removed => index removed.2
  refine ⟨?_, ?_, ?_⟩
  · intro l n names
    obtain ⟨⟨⟨created, -⟩, rfl⟩, rfl⟩ := (placed reach).named l n _ names
    exact held created (Agrees.named ((registered reach).conns c created) names).2
  · intro l mem
    exact held ((confined reach).channels l _ mem).1.1 ((handling reach).reported l c mem)
  · intro t k mem
    exact held ((confined reach).tasks t _ mem).1.1 (index_of_callback reach mem)

/-- At the end of `closingInDispatch` the channel is still in the poller and in the batch, and
`connections_` is empty. -/
theorem registered_held_closing : ∃ s, machine.Run (Server.new noLoops) closingInDispatch s ∧
    s.connections_ = [] ∧ s.Held 1 := by
  obtain ⟨s, run, erased, few, here⟩ := machine.exists_run (.new noLoops) closingInDispatch
    (fun s => s.connections_ = [] ∧ s.nextConnId_ - 1 ≤ intMax ∧
      (s.sys 0).loop.position = .handling (.conn 1) []) (by decide +kernel)
  have sends : machine.StepsMeet (SendsRegistered 1) (Server.new noLoops) closingInDispatch :=
    Lib.Machine.stepsMeet_of_checks (by decide +kernel)
  have batch : .conn 1 ∈ (s.sys 0).loop.position.channels := by
    rw [here]
    exact List.mem_cons_self
  exact ⟨s, run, erased,
    (registered_held noLoops closingInDispatch s run few 1 sends).2.1 0 batch⟩

end Server

end TcpMuduo
