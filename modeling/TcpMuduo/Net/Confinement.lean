import TcpMuduo.Net.ServerSteps

/-!
Where work can be: every task of a connection is on the thread of its loop,
every queued functor in the loop it is for, and no handler or call is about a
connection that the user has not been told of.
-/

set_option autoImplicit false
set_option relaxedAutoImplicit false

namespace TcpMuduo

namespace Server

def Known (s : Server) (c : ConnId) : Prop := s.Created c ∧ s.Up c

variable {s s' : Server} {t : Tid} {input : Input} {eff : Effect}

theorem Extends.known {c : ConnId} (ext : s.Extends s') (h : s.Known c) : s'.Known c :=
  ⟨ext.mono h.1, ext.up h.2⟩

end Server

def Functor.At (s : Server) (l : LoopId) : Functor → Prop
  | .listen => l = 0
  | .connectEstablished c | .connectDestroyed c => s.Created c ∧ l = (s.conn c).loop_
  | .removeConnectionInLoop c => s.Known c ∧ l = 0
  | .sendInLoop c _ _ _ | .shutdownInLoop c | .writeCompleteCallback c
  | .highWaterMarkCallback c _ => s.Known c ∧ l = (s.conn c).loop_
  | .user => True

def ChannelRef.At (s : Server) (l : LoopId) : ChannelRef → Prop
  | .wakeup => True
  | .acceptor => l = 0
  | .conn c => s.Known c ∧ l = (s.conn c).loop_

def Task.At (s : Server) (t : Tid) : Task → Prop
  | .user none => True
  | .functor f => ∃ l, t = .loop l ∧ f.At s l
  | .queueInLoop l f => f.At s l ∧ (∀ c, f = .connectEstablished c → t = .loop 0)
  | .user (some c) | .callback c _ | .handleWriteEnd c | .closeCallback c
  | .connectDestroyedClose c => s.Known c ∧ t = .loop (s.conn c).loop_
  | .connectDestroyedRemove c => s.Created c ∧ t = .loop (s.conn c).loop_
  | .shutdownStore c => s.Known c
  | .accept | .acceptChannel _ | .join _ | .startLoop _ => t = .loop 0
  | .quit l => l = 0 ∨ t = .loop 0
  | .queueWakeup _ | .quitWakeup _ => True

namespace Server

variable {s s' : Server} {t : Tid} {input : Input} {eff : Effect}

private theorem Extends.functor_at {l : LoopId} {f : Functor} (ext : s.Extends s') (h : f.At s l) :
    f.At s' l := by
  cases f with
  | listen | user => exact h
  | connectEstablished c | connectDestroyed c =>
    exact ⟨ext.mono h.1, h.2.trans (ext.loop c h.1).symm⟩
  | removeConnectionInLoop c => exact ⟨ext.known h.1, h.2⟩
  | sendInLoop c p len call | shutdownInLoop c | writeCompleteCallback c
  | highWaterMarkCallback c size =>
    exact ⟨ext.known h.1, h.2.trans (ext.loop c h.1.1).symm⟩

theorem Extends.channel_at {l : LoopId} {ref : ChannelRef} (ext : s.Extends s')
    (h : ref.At s l) : ref.At s' l := by
  cases ref with
  | wakeup => trivial
  | acceptor => exact h
  | conn c => exact ⟨ext.known h.1, h.2.trans (ext.loop c h.1.1).symm⟩

private theorem Extends.task_at {task : Task} (ext : s.Extends s') (h : task.At s t) :
    task.At s' t := by
  have known {c : ConnId} (h : s.Known c ∧ t = .loop (s.conn c).loop_) :
      s'.Known c ∧ t = .loop (s'.conn c).loop_ :=
    ⟨ext.known h.1, by rw [ext.loop c h.1.1]; exact h.2⟩
  cases task with
  | functor f =>
    obtain ⟨l, own, h⟩ := h
    exact ⟨l, own, ext.functor_at h⟩
  | queueInLoop l f => exact ⟨ext.functor_at h.1, h.2⟩
  | user m =>
    cases m with
    | none => trivial
    | some c => exact known h
  | callback c k | handleWriteEnd c | closeCallback c | connectDestroyedClose c => exact known h
  | connectDestroyedRemove c => exact ⟨ext.mono h.1, by rw [ext.loop c h.1]; exact h.2⟩
  | shutdownStore c => exact ext.known h
  | accept | acceptChannel op | join l | startLoop l | quit l => exact h
  | queueWakeup l | quitWakeup l => trivial

/-- Everything is where it belongs, and a connection is untouched until `connectEstablished`. -/
structure Confined (s : Server) : Prop where
  ids : 0 < s.nextConnId_
  created : ∀ c, s.Up c → s.Created c
  fresh : ∀ c, ¬ s.Up c → callbacks (s.events c) = [] ∧ (s.conn c).state_ = .kConnecting ∧
    (s.conn c).channel_.index_ = kNew
  tasks : ∀ t task, task ∈ s.stack t → task.At s t
  work : ∀ l f, f ∈ (s.sys l).work → f.At s l
  channels : ∀ l ref, ref ∈ (s.sys l).loop.position.channels → ref.At s l
  interest : ∀ l fd event, (s.poller l).interest fd = some event → event.2.At s l
  registry : ∀ entry, entry ∈ s.connections_ → s.Created entry.2

theorem Confined.known (inv : s.Confined) {c : ConnId} (up : s.Up c) : s.Known c :=
  ⟨inv.created c up, up⟩

theorem Confined.connected (inv : s.Confined) {c : ConnId}
    (connected : (s.conn c).state_ = .kConnected) : s.Known c := by
  by_contra unknown
  have new := (inv.fresh c fun up => unknown (inv.known up)).2.1
  rw [connected] at new
  cases new

private theorem runInLoop_at {l : LoopId} {f : Functor} (h : f.At s l)
    (establish : ∀ c, f = .connectEstablished c → t = .loop 0) : (runInLoop t l f).At s t := by
  unfold runInLoop
  split
  · rename_i own
    exact ⟨l, own, h⟩
  · exact ⟨h, establish⟩

private theorem queued_at {c : ConnId} {op : ConnOp} {task : Task} (known : s.Known c)
    (h : task ∈ s.queued c op) : task.At s t := by
  obtain ⟨f, mem, rfl⟩ := List.mem_map.mp h
  rcases ConnOp.queue mem with mem | rfl | ⟨size, rfl⟩
  · cases mem
  · exact ⟨⟨known, rfl⟩, by simp⟩
  · exact ⟨⟨known, rfl⟩, by simp⟩

theorem Does.newConnection {head : Option Task} {connfd : Nat} (does : Does s t head input eff)
    (h : eff.change = .newConnection connfd) :
    head = some .accept ∧ connfd ∉ s.fds ∧ eff.loop = none ∧
      eff.push = [runInLoop t s.getNextLoop.1 (.connectEstablished s.nextConnId_)] := by
  cases does <;> cases h
  exact ⟨rfl, ‹_›, rfl, rfl⟩

theorem Confined.destructor (inv : s.Confined) {order : List ConnId} (may : s.MayDestroy order)
    {task : Task} (mem : task ∈ s.destructor order) : task.At s (.loop 0) := by
  obtain ⟨-, -, perm⟩ := may
  rcases mem_destructor mem with ⟨c, listed, rfl⟩ | ⟨l, rfl | rfl⟩ | ⟨op, rfl⟩
  · obtain ⟨entry, registered, rfl⟩ := List.mem_map.mp (perm.subset listed)
    exact runInLoop_at ⟨inv.registry entry registered, rfl⟩ (by simp)
  · exact .inr rfl
  · rfl
  · rfl

/-- The tasks a step pushes belong to its thread, but for those about a new connection. -/
theorem Confined.push (inv : s.Confined) (does : Does s t (s.stack t).head? input eff)
    (old : ∀ connfd, eff.change ≠ .newConnection connfd) : ∀ task ∈ eff.push, task.At s t := by
  have head : ∀ task ∈ (s.stack t).head?, task.At s t := fun task h =>
    inv.tasks t task (List.mem_of_mem_head? h)
  generalize (s.stack t).head? = first at does head
  cases does with
  | accept t connfd fresh => exact absurd rfl (old connfd)
  | dispatch l channel rest here =>
    have at_loop := inv.channels l channel (by rw [here]; exact List.mem_cons_self)
    cases channel with
    | wakeup => simp [handleEvent]
    | acceptor =>
      intro task mem
      obtain ⟨k, _, he⟩ := List.mem_filterMap.mp mem
      have base : Tid.loop l = .loop 0 := by rw [show l = 0 from at_loop]
      cases k with
      | read => cases he; exact base
      | close | error | write => cases he
    | conn c =>
      intro task mem
      obtain ⟨k, _, rfl⟩ := List.mem_map.mp mem
      exact ⟨at_loop.1, by rw [at_loop.2]⟩
  | call l f rest here =>
    have at_loop := inv.work l f (by simp [LoopSystem.work, here, Position.batch])
    simpa [Task.At] using at_loop
  | destroy order may => exact fun task => inv.destructor may
  | userDestroy order alone may =>
    intro task mem
    rcases List.mem_append.mp mem with mem | mem
    · exact inv.destructor may mem
    · exact List.mem_singleton.mp mem ▸ head _ rfl
  | send t m c p len r up connected own fits =>
    intro task mem
    rcases List.mem_append.mp mem with mem | mem
    · exact queued_at (inv.known up) mem
    · exact List.mem_singleton.mp mem ▸ head _ rfl
  | sendLate t m c p len r up state =>
    have user := head _ rfl
    have send := runInLoop_at (t := t) (f := .sendInLoop c p len s.sends.length)
      (l := (s.conn c).loop_) ⟨inv.known up, rfl⟩ (by simp)
    simp [send, user]
  | shutdown t m c up connected =>
    have user := head _ rfl
    have store : (Task.shutdownStore c).At s t := inv.known up
    simp [user, store]
  | userQueue t m l =>
    have user := head _ rfl
    have queue : (Task.queueInLoop l .user).At s t := ⟨trivial, by simp⟩
    simp [user, queue]
  | userRun t m l =>
    have user := head _ rfl
    have run := runInLoop_at (s := s) (t := t) (f := .user) (l := l) trivial (by simp)
    simp [user, run]
  | userQuit t m =>
    have user := head _ rfl
    have quit : (Task.quit 0).At s t := .inl rfl
    simp [user, quit]
  | connectDestroyed t c connected =>
    obtain ⟨l, own, h⟩ := head _ rfl
    simp [Task.At, inv.connected connected, own, h.2]
  | connectDestroyedLate t c state =>
    obtain ⟨l, own, h⟩ := head _ rfl
    simp [Task.At, h.1, own, h.2]
  | removeConnectionInLoop t c =>
    obtain ⟨l, own, h⟩ := head _ rfl
    simp [Task.At, Functor.At, h.1.1]
  | sendInLoop t c p len call r fits =>
    obtain ⟨l, own, h⟩ := head _ rfl
    exact fun task mem => queued_at h.1 mem
  | handleClose t c =>
    have h := head _ rfl
    simpa [Task.At] using h
  | handleRead t c r fits =>
    have h := head _ rfl
    simp only [readTask, List.mem_singleton, forall_eq]
    split
    · exact h
    · split <;> exact h
  | handleWrite t c r fits =>
    have h := head _ rfl
    intro task mem
    rcases List.mem_append.mp mem with mem | mem
    · exact queued_at h.1 mem
    · split at mem
      · exact List.mem_singleton.mp mem ▸ h
      · cases mem
  | closeCallback t c =>
    have h := head _ rfl
    have remove := runInLoop_at (s := s) (t := t) (f := .removeConnectionInLoop c) (l := 0)
      ⟨h.1, rfl⟩ (by simp)
    simpa using remove
  | connectDestroyedClose t c =>
    have h := head _ rfl
    simp [Task.At, h.1.1, h.2]
  | shutdownStore t c =>
    have h := head _ rfl
    have run := runInLoop_at (s := s) (t := t) (f := .shutdownInLoop c) (l := (s.conn c).loop_)
      ⟨h, rfl⟩ (by simp)
    simpa using run
  | poll | turn | listen | shutdownInLoop | queueWakeup | quitWakeup | acceptChannel
  | handleWriteEnd | connectDestroyedRemove | returns | handleError | acceptFails | joined
  | started =>
    simp
  | connectEstablished | writeCompleteCallback | highWaterMarkCallback | userFunctor
  | queueInLoop | quit =>
    simp [Task.At]
  | sendElsewhere | shutdownLate | retrieve | store =>
    have user := head _ rfl
    simpa using user

/-- Who operates on a connection: the thread of its loop, but for the store in `shutdown`, and
only after `connectEstablished`, but for `connectDestroyed`. -/
theorem Confined.operates (inv : s.Confined) (does : Does s t (s.stack t).head? input eff)
    {c : ConnId} {op : ConnOp} (h : eff.change = .conn c op) :
    s.Created c ∧ (s.Up c ∨ op = .connectEstablished ∨ op = .connectDestroyedRemove) ∧
      (t = .loop (s.conn c).loop_ ∨ op = .shutdownStore) := by
  have head : ∀ task ∈ (s.stack t).head?, task.At s t := fun task h =>
    inv.tasks t task (List.mem_of_mem_head? h)
  have operation := does.operation h
  generalize (s.stack t).head? = first at operation head
  have known (at_loop : s.Known c ∧ t = .loop (s.conn c).loop_) :
      s.Created c ∧ (s.Up c ∨ op = .connectEstablished ∨ op = .connectDestroyedRemove) ∧
        (t = .loop (s.conn c).loop_ ∨ op = .shutdownStore) :=
    ⟨at_loop.1.1, .inl at_loop.1.2, .inl at_loop.2⟩
  cases operation with
  | send m p len r up connected own => exact known ⟨inv.known up, own⟩
  | connectEstablished =>
    obtain ⟨l, own, created, rfl⟩ := head _ rfl
    exact ⟨created, .inr (.inl rfl), .inl own⟩
  | connectDestroyedRemove =>
    obtain ⟨created, own⟩ := head _ rfl
    exact ⟨created, .inr (.inr rfl), .inl own⟩
  | shutdownStore =>
    have at_known : s.Known c := head _ rfl
    exact ⟨at_known.1, .inl at_known.2, .inr rfl⟩
  | sendInLoop | shutdownInLoop | writeCompleteCallback | highWaterMarkCallback =>
    obtain ⟨l, own, at_known, rfl⟩ := head _ rfl
    exact known ⟨at_known, own⟩
  | retrieve | handleClose | handleRead | handleWriteDrain | handleWriteEnd | closeCallback
  | connectDestroyedClose =>
    exact known (head _ rfl)

theorem Does.emplaces {head : Option Task} {l : LoopId} {i : LoopInput Tid Functor ChannelRef}
    {f : Functor} (does : Does s t head input eff) (h : eff.loop = some (l, i))
    (queued : i.emplaced = some f) : head = some (.queueInLoop l f) := by
  cases does <;> cases h <;> cases queued
  rfl

theorem Does.mem_work {head : Option Task} (does : Does s t head input eff)
    {sys : LoopId → LoopSystem Tid Functor ChannelRef} (loops : s.loopStep eff.loop = some sys)
    {l : LoopId} {f : Functor} (mem : f ∈ (sys l).work) :
    f ∈ (s.sys l).work ∨ head = some (.queueInLoop l f) := by
  rcases loopStep_at loops l with ⟨same, -⟩ | ⟨i, here, step⟩
  · exact .inl (same ▸ mem)
  · have sum := LoopSystem.step_work step
    have mem : f ∈ (s.sys l).work ++ i.emplaced.toList := sum ▸ List.mem_append_right _ mem
    rcases List.mem_append.mp mem with old | new
    · exact .inl old
    · exact .inr (does.emplaces here (Option.mem_toList.mp new))

theorem Does.reports {head : Option Task} {l : LoopId} {active : List ChannelRef}
    (does : Does s t head input eff) (h : eff.loop = some (l, .advance active))
    (waits : (s.sys l).loop.position = .polling) :
    ∃ events, active = events.map Prod.fst ∧ s.Reports l events = true := by
  cases does with
  | poll l' events here reports =>
    cases h
    exact ⟨events, rfl, reports⟩
  | dispatch l' channel rest here =>
    cases h
    rw [here] at waits
    cases waits
  | call l' f rest here =>
    cases h
    rw [here] at waits
    cases waits
  | turn l' waits' active batch =>
    cases h
    exact absurd waits waits'
  | _ => cases h

theorem Does.advances {head : Option Task} {l : LoopId} {active : List ChannelRef}
    (does : Does s t head input eff) (h : eff.loop = some (l, .advance active)) :
    head = none ∧ t = .loop l := by
  cases does <;> cases h <;> exact ⟨rfl, rfl⟩

theorem Does.mem_channels {head : Option Task} (does : Does s t head input eff)
    {sys : LoopId → LoopSystem Tid Functor ChannelRef} (loops : s.loopStep eff.loop = some sys)
    {l : LoopId} {ref : ChannelRef} (mem : ref ∈ (sys l).loop.position.channels) :
    ref ∈ (s.sys l).loop.position.channels ∨
      head = none ∧ ∃ events, s.Reports l events = true ∧ ref ∈ events.map Prod.fst := by
  rcases loopStep_at loops l with ⟨same, -⟩ | ⟨i, here, step⟩
  · exact .inl (same ▸ mem)
  · rcases LoopSystem.step_channels step mem with old | ⟨active, rfl, waits, listed⟩
    · exact .inl old
    · obtain ⟨events, rfl, reports⟩ := does.reports here waits
      exact .inr ⟨(does.advances here).1, events, reports, listed⟩

theorem MayReport.own {entry : Option (EventMask × ChannelRef)} {ref : ChannelRef}
    {revents : EventMask} (h : MayReport entry ref revents = true) :
    ∃ mask, entry = some (mask, ref) := by
  unfold MayReport at h
  split at h
  · rename_i mask ptr
    simp only [Bool.and_eq_true, beq_iff_eq] at h
    exact ⟨mask, by rw [h.1.1]⟩
  · cases h

theorem Confined.reported (inv : s.Confined) {l : LoopId}
    {active : List (ChannelRef × EventMask)} (h : s.Reports l active = true) {ref : ChannelRef}
    (mem : ref ∈ active.map Prod.fst) : ref.At s l := by
  obtain ⟨event, here, rfl⟩ := List.mem_map.mp mem
  have may := List.all_eq_true.mp h event here
  obtain ⟨ref, revents⟩ := event
  cases ref with
  | wakeup => trivial
  | acceptor =>
    obtain ⟨mask, entry⟩ := MayReport.own may
    exact inv.interest l _ _ entry
  | conn c =>
    obtain ⟨mask, entry⟩ := MayReport.own may
    exact inv.interest l _ _ entry

theorem up_after {c : ConnId} {sys : LoopId → LoopSystem Tid Functor ChannelRef}
    (up : (s.after t eff sys).Up c) : s.Up c ∨ eff.change = .conn c .connectEstablished := by
  have touches := s.act_touches eff.change c
  unfold Up at up ⊢
  rw [after_events] at up
  cases touches with
  | op op here conn events =>
    rw [events] at up
    have up := (mem_callbacks rfl).mpr up
    rw [(op.spec c (s.env c)).callbacks, List.mem_append] at up
    rcases up with old | new
    · exact .inl ((mem_callbacks rfl).mp old)
    · refine .inr (here.trans ?_)
      cases op with
      | connectEstablished => rfl
      | handleRead r =>
        simp only [ConnOp.callbacks] at new
        split at new
        · split at new <;> simp at new
        · cases new
      | connectDestroyedClose | handleClose | closeCallback => simp [ConnOp.callbacks] at new
      | connectDestroyedRemove | handleWriteDrain r | handleWriteEnd | sendInLoop data r
      | shutdownInLoop | shutdownStore | writeCompleteCallback | highWaterMarkCallback size
      | retrieve len => cases new
  | new connfd here this conn events => exact .inl (events ▸ up)
  | idle other revents conn events => exact .inl (events ▸ up)

theorem up_connectEstablished {c : ConnId} {sys : LoopId → LoopSystem Tid Functor ChannelRef}
    (h : eff.change = .conn c .connectEstablished) : (s.after t eff sys).Up c := by
  unfold Up
  rw [after_events, h]
  simp [act, put, ConnOp.apply, TcpConnection.connectEstablished, ConnEnv.connectionCallback,
    ConnEnv.emit, TcpConnection.connected, ConnEnv.channel, ConnEnv.tie, ConnEnv.setState]

private theorem Confined.fresh_after (inv : s.Confined)
    (does : Does s t (s.stack t).head? input eff)
    {sys : LoopId → LoopSystem Tid Functor ChannelRef} {c : ConnId}
    (down : ¬ (s.after t eff sys).Up c) :
    callbacks ((s.after t eff sys).events c) = [] ∧
      ((s.after t eff sys).conn c).state_ = .kConnecting ∧
      ((s.after t eff sys).conn c).channel_.index_ = kNew := by
  have old : ¬ s.Up c := fun up => down ((s.after_extends t eff sys).up up)
  have fresh := inv.fresh c old
  have touches := s.act_touches eff.change c
  rw [after_events, after_conn]
  cases touches with
  | op op here conn events =>
    rw [events, conn]
    obtain ⟨-, up | rfl | rfl, -⟩ := inv.operates does here
    · exact absurd up old
    · exact absurd (up_connectEstablished here) down
    · exact ⟨fresh.1, fresh.2.1, rfl⟩
  | new connfd here this conn events =>
    rw [events, conn]
    exact ⟨fresh.1, rfl, rfl⟩
  | idle other revents conn events =>
    rw [events, conn]
    exact fresh

private theorem Confined.tasks_after (inv : s.Confined)
    (does : Does s t (s.stack t).head? input eff)
    {sys : LoopId → LoopSystem Tid Functor ChannelRef} {u : Tid} {task : Task}
    (mem : task ∈ (s.after t eff sys).stack u) : task.At (s.after t eff sys) u := by
  have ext := s.after_extends t eff sys
  rcases mem_after_stack _ _ _ _ mem with ⟨rfl, pushed⟩ | old
  · by_cases new : ∃ connfd, eff.change = .newConnection connfd
    · obtain ⟨connfd, new⟩ := new
      obtain ⟨accept, fresh, -, push⟩ := does.newConnection new
      have base : u = .loop 0 := inv.tasks u .accept (List.mem_of_mem_head? accept)
      rw [push, List.mem_singleton] at pushed
      subst pushed
      refine runInLoop_at ⟨⟨inv.ids, ?_⟩, ?_⟩ fun _ _ => base
      · rw [after_nextConnId, new]
        exact Nat.lt_succ_self _
      · rw [after_conn, new]
        simp [act, newConnection, TcpConnection.new]
    · exact ext.task_at (inv.push does (fun connfd he => new ⟨connfd, he⟩) task pushed)
  · exact ext.task_at (inv.tasks u task old)

theorem Confined.work_after (inv : s.Confined) (does : Does s t (s.stack t).head? input eff)
    {sys : LoopId → LoopSystem Tid Functor ChannelRef} (loops : s.loopStep eff.loop = some sys)
    {l : LoopId} {f : Functor} (mem : f ∈ (sys l).work) : f.At (s.after t eff sys) l := by
  have ext := s.after_extends t eff sys
  rcases does.mem_work loops mem with old | queued
  · exact ext.functor_at (inv.work l f old)
  · exact ext.functor_at (inv.tasks t _ (List.mem_of_mem_head? queued)).1

private theorem Confined.channels_after (inv : s.Confined)
    (does : Does s t (s.stack t).head? input eff)
    {sys : LoopId → LoopSystem Tid Functor ChannelRef} (loops : s.loopStep eff.loop = some sys)
    {l : LoopId} {ref : ChannelRef} (mem : ref ∈ (sys l).loop.position.channels) :
    ref.At (s.after t eff sys) l := by
  have ext := s.after_extends t eff sys
  rcases does.mem_channels loops mem with old | ⟨-, events, reports, listed⟩
  · exact ext.channel_at (inv.channels l ref old)
  · exact ext.channel_at (inv.reported reports listed)

private theorem Confined.interest_after (inv : s.Confined)
    (does : Does s t (s.stack t).head? input eff)
    {sys : LoopId → LoopSystem Tid Functor ChannelRef} {l : LoopId} {fd : Nat}
    {event : EventMask × ChannelRef}
    (entry : ((s.after t eff sys).poller l).interest fd = some event) :
    event.2.At (s.after t eff sys) l := by
  have ext := s.after_extends t eff sys
  rw [after_poller] at entry
  rcases act_interest entry with old | ⟨op, -, base, own⟩ | ⟨c, op, here, own, ref, other⟩
  · exact ext.channel_at (inv.interest l fd event old)
  · rw [own]
    exact base
  · obtain ⟨created, up, -⟩ := inv.operates does here
    rw [ref, own]
    refine ⟨⟨ext.mono created, ?_⟩, (ext.loop c created).symm⟩
    rcases up with up | rfl | rfl
    · exact ext.up up
    · exact up_connectEstablished here
    · exact absurd rfl other

private theorem Confined.registry_after (inv : s.Confined)
    {sys : LoopId → LoopSystem Tid Functor ChannelRef} {entry : String × ConnId}
    (mem : entry ∈ (s.after t eff sys).connections_) :
    (s.after t eff sys).Created entry.2 := by
  have old (mem : entry ∈ s.connections_) : (s.after t eff sys).Created entry.2 :=
    (s.after_extends t eff sys).mono (inv.registry entry mem)
  rw [after_connections] at mem
  cases hc : eff.change with
  | newConnection connfd =>
    rw [hc] at mem
    rcases List.mem_cons.mp mem with rfl | mem
    · refine ⟨inv.ids, ?_⟩
      rw [after_nextConnId, hc]
      exact Nat.lt_succ_self _
    · exact old (List.mem_filter.mp mem).1
  | erase c =>
    rw [hc] at mem
    exact old (List.mem_filter.mp mem).1
  | destroy =>
    rw [hc] at mem
    cases mem
  | nothing | conn c op | acceptor op | fillActiveChannels active | store p byte =>
    rw [hc] at mem
    exact old mem

theorem Confined.step (inv : s.Confined) (h : machine.step s (t, input) = some s') :
    s'.Confined := by
  obtain ⟨eff, sys, does, loops, rfl⟩ := step_does h
  have ext := s.after_extends t eff sys
  refine ⟨Nat.lt_of_lt_of_le inv.ids ext.created, ?_, ?_, ?_, ?_, ?_, ?_, ?_⟩
  · intro c up
    rcases up_after up with old | new
    · exact ext.mono (inv.created c old)
    · exact ext.mono (inv.operates does new).1
  · exact fun c down => inv.fresh_after does down
  · exact fun u task mem => inv.tasks_after does mem
  · exact fun l f mem => inv.work_after does loops mem
  · exact fun l ref mem => inv.channels_after does loops mem
  · exact fun l fd event entry => inv.interest_after does entry
  · exact fun entry mem => inv.registry_after mem

/-- The tasks that threads begin with. -/
inductive Startup (t : Tid) : Task → Prop
  | user : Startup t (.user none)
  | listen (base : t = .loop 0) : Startup t (.functor .listen)
  | startLoop (l : LoopId) (base : t = .loop 0) : Startup t (.startLoop l)

theorem new_stack {config : ServerConfig} {task : Task}
    (mem : task ∈ (Server.new config).stack t) : Startup t task := by
  simp only [Server.new] at mem
  split at mem
  · rcases List.mem_append.mp mem with mem | mem
    · split at mem
      · rw [List.mem_singleton.mp mem]
        exact .user
      · obtain ⟨l, -, rfl⟩ := List.mem_map.mp mem
        exact .startLoop l rfl
    · rcases List.mem_cons.mp mem with rfl | mem
      · exact .listen rfl
      · rw [List.mem_singleton.mp mem]
        exact .user
  all_goals
    rw [List.mem_singleton.mp mem]
    exact .user

theorem newPoller_eq (wakeupFd : Nat) :
    newPoller wakeupFd = ⟨Function.update (fun _ => none) wakeupFd (some .wakeup),
      Function.update (fun _ => none) wakeupFd (some (Channel.kReadEvent, .wakeup)), []⟩ := by
  simp [newPoller, ChannelOp.apply, Channel.enableReading, Channel.withEvents,
    EpollPoller.updateChannel, EpollPoller.update, epoll_ctl, EpollPoller.new, Channel.new, kNew]

theorem new_poller {config : ServerConfig} {l : LoopId} {fd : Nat}
    (off : l ≤ config.numThreads_ → fd ≠ config.wakeupFd_ l) :
    ((Server.new config).poller l).channels_ fd = none ∧
      ((Server.new config).poller l).interest fd = none := by
  simp only [Server.new]
  split
  · rename_i made
    have away := off made
    simp [newPoller_eq, away]
  · exact ⟨rfl, rfl⟩

theorem new_confined (config : ServerConfig) : (Server.new config).Confined where
  ids := Nat.one_pos
  created c up := by cases up
  fresh c _ := ⟨rfl, rfl, rfl⟩
  tasks t task mem := by
    cases new_stack mem with
    | user => trivial
    | listen base => exact ⟨0, base, rfl⟩
    | startLoop l base => exact base
  work l f mem := by cases mem
  channels l ref mem := by cases mem
  interest l fd event entry := by
    by_cases off : l ≤ config.numThreads_ → fd ≠ config.wakeupFd_ l
    · rw [(new_poller off).2] at entry
      cases entry
    · obtain ⟨made, same⟩ := Classical.not_imp.mp off
      obtain rfl := not_not.mp same
      simp only [Server.new, if_pos made, newPoller_eq, Function.update_self] at entry
      cases entry
      trivial
  registry entry mem := by cases mem

theorem reachable_config {config : ServerConfig} (h : machine.Reachable (Server.new config) s) :
    s.config = config := by
  refine h.invariant (I := fun s => s.config = config) rfl ?_
  intro s i s' _ inv hs
  obtain ⟨eff, sys, -, -, rfl⟩ := step_does (t := i.1) (a := i.2) hs
  exact (s.after_extends i.1 eff sys).config.trans inv

/-- In every reachable state everything is where it belongs. -/
theorem confined {config : ServerConfig} (h : machine.Reachable (Server.new config) s) :
    s.Confined :=
  h.invariant (new_confined config) fun _ _ _ _ inv hs => inv.step hs

def opOn (c : ConnId) (s : Server) (i : Tid × Input) : Option ConnOp :=
  match (s.effect i.1 i.2).map Effect.change with
  | some (.conn c' op) => if c' = c then some op else none
  | _ => none

theorem change_of_opOn {c : ConnId} {op : ConnOp} (effect : s.effect t input = some eff)
    (h : s.opOn c (t, input) = some op) : eff.change = .conn c op := by
  simp only [opOn, effect, Option.map_some] at h
  split at h
  · rename_i c' op' here
    split at h
    · rename_i same
      cases h
      rw [Option.some.inj here, same]
    · cases h
  · cases h

theorem opOn_of_change {c c' : ConnId} {op : ConnOp} (effect : s.effect t input = some eff)
    (h : eff.change = .conn c' op) :
    s.opOn c (t, input) = if c' = c then some op else none := by
  simp only [opOn, effect, Option.map_some, h]

/-- A step as the connection `c` sees it: an operation, its creation, or `set_revents` at most. -/
inductive Sees (c : ConnId) (s : Server) (i : Tid × Input) (s' : Server) : Prop
  | op (op : ConnOp) (here : s.opOn c i = some op) (created : s.Created c)
      (conn : s'.conn c = (op.apply c (s.env c)).conn)
      (events : s'.events c = (op.apply c (s.env c)).events)
  | new (connfd : Nat) (here : s.opOn c i = none) (this : c = s.nextConnId_)
      (conn : s'.conn c =
        TcpConnection.new s.getNextLoop.1 s.connName connfd s.config.writeCompleteCallback_)
      (events : s'.events c = s.events c)
  | idle (here : s.opOn c i = none) (revents : EventMask)
      (conn : s'.conn c =
        { s.conn c with channel_ := { (s.conn c).channel_ with revents_ := revents } })
      (events : s'.events c = s.events c)

theorem step_sees {i : Tid × Input} (confined : s.Confined) (h : machine.step s i = some s')
    (c : ConnId) : s.Sees c i s' := by
  simp only [machine, step] at h
  obtain ⟨eff, effect, h⟩ := Option.bind_eq_some_iff.mp h
  obtain ⟨sys, -, rfl⟩ := Option.map_eq_some_iff.mp h
  have touches := s.act_touches eff.change c
  cases touches with
  | op op here conn events =>
    have created := (confined.operates (effect_does effect) here).1
    exact .op op (by simp [opOn, effect, here]) created conn events
  | new connfd here this conn events =>
    exact .new connfd (by simp [opOn, effect, here]) this conn events
  | idle other revents conn events =>
    refine .idle ?_ revents conn events
    simp only [opOn, effect, Option.map_some]
    split
    · rename_i c' op here
      rw [if_neg]
      rintro rfl
      exact other op (Option.some.inj here)
    · rfl

end Server

end TcpMuduo
