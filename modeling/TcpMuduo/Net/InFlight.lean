import TcpMuduo.Net.Confinement

/-!
Functors on their way: from the call of `queueInLoop` through the queue and the
batch of a loop to their execution. A functor that has set out stays on its way
until it is executed.
-/

set_option autoImplicit false
set_option relaxedAutoImplicit false

namespace TcpMuduo

def Task.carries : Task → Option Functor
  | .functor f => some f
  | .queueInLoop _ f => some f
  | _ => none

namespace Server

variable {s s' : Server} {t : Tid} {input : Input} {eff : Effect}

@[simp] theorem runInLoop_carries (t : Tid) (l : LoopId) (f : Functor) :
    (runInLoop t l f).carries = some f := by
  unfold runInLoop
  split <;> rfl

/-- The functor is in the hands of a thread or in a loop. -/
def InFlight (s : Server) (f : Functor) : Prop :=
  (∃ t task, task ∈ s.stack t ∧ task.carries = some f) ∨ ∃ l, f ∈ (s.sys l).work

theorem Does.takes {head : Option Task} {l : LoopId} {i : LoopInput Tid Functor ChannelRef}
    {f : Functor} (does : Does s t head input eff) (h : eff.loop = some (l, i))
    (mem : f ∈ (s.sys l).takes i) :
    t = .loop l ∧ head = none ∧ eff.push = [.functor f] := by
  unfold LoopSystem.takes at mem
  split at mem
  · rename_i active functor rest here
    rw [List.mem_singleton] at mem
    subst mem
    cases does with
    | poll l' events here' reports =>
      cases h
      rw [here] at here'
      cases here'
    | dispatch l' channel rest here' =>
      cases h
      rw [here] at here'
      cases here'
    | call l' f' rest' here' =>
      cases h
      rw [here] at here'
      cases here'
      exact ⟨rfl, rfl, rfl⟩
    | turn l' waits events batch =>
      cases h
      exact absurd here (batch _ _)
    | _ => cases h
  · cases mem

theorem Does.queueInLoop_eff {l : LoopId} {f : Functor}
    (does : Does s t (some (.queueInLoop l f)) input eff) :
    eff = { loop := some (l, .emplaceBack t f), push := [.queueWakeup l] } := by
  cases does
  rfl

variable {sys : LoopId → LoopSystem Tid Functor ChannelRef}

private theorem work_step {l : LoopId} {f : Functor} (loops : s.loopStep eff.loop = some sys)
    (h : f ∈ (s.sys l).work) :
    f ∈ (sys l).work ∨ ∃ i, eff.loop = some (l, i) ∧ f ∈ (s.sys l).takes i := by
  rcases loopStep_at loops l with ⟨same, -⟩ | ⟨i, here, step⟩
  · exact .inl (same ▸ h)
  · have sum := LoopSystem.step_work step
    have mem : f ∈ (s.sys l).takes i ++ (sys l).work := sum ▸ List.mem_append_left _ h
    rcases List.mem_append.mp mem with taken | left
    · exact .inr ⟨i, here, taken⟩
    · exact .inl left

/-- A functor in flight stays in flight, unless it is executed by this step. -/
theorem InFlight.step {f : Functor} (h : s.InFlight f)
    (does : Does s t (s.stack t).head? input eff) (loops : s.loopStep eff.loop = some sys) :
    (s.after t eff sys).InFlight f ∨ (s.stack t).head? = some (.functor f) := by
  rcases h with ⟨u, task, mem, carries⟩ | ⟨l, mem⟩
  · by_cases own : u = t
    · subst own
      cases hs : s.stack u with
      | nil =>
        rw [hs] at mem
        cases mem
      | cons first rest =>
        rw [hs] at mem does
        rcases List.mem_cons.mp mem with rfl | mem
        · cases task with
          | functor f' =>
            cases carries
            exact .inr rfl
          | queueInLoop l f' =>
            cases carries
            obtain rfl := does.queueInLoop_eff
            refine .inl (.inr ⟨l, ?_⟩)
            have sum := LoopSystem.step_work (step_of_loopStep loops rfl)
            have mem : f ∈ (s.sys l).work ++ [f] := List.mem_append_right _ (by simp)
            exact (sum ▸ mem :)
          | _ => cases carries
        · refine .inl (.inl ⟨u, task, ?_, carries⟩)
          rw [after_stack, Function.update_self, hs]
          exact List.mem_append_right _ mem
    · refine .inl (.inl ⟨u, task, ?_, carries⟩)
      rw [after_stack, Function.update_of_ne own]
      exact mem
  · rcases work_step loops mem with left | ⟨i, here, taken⟩
    · exact .inl (.inr ⟨l, left⟩)
    · obtain ⟨rfl, -, push⟩ := does.takes here taken
      refine .inl (.inl ⟨.loop l, .functor f, ?_, rfl⟩)
      rw [after_stack, Function.update_self, push]
      exact List.mem_cons_self

theorem InFlight.origin {f : Functor} (h : (s.after t eff sys).InFlight f)
    (does : Does s t (s.stack t).head? input eff) (loops : s.loopStep eff.loop = some sys) :
    s.InFlight f ∨ ∃ task ∈ eff.push, task.carries = some f := by
  rcases h with ⟨u, task, mem, carries⟩ | ⟨l, mem⟩
  · rcases mem_after_stack _ _ _ _ mem with ⟨-, pushed⟩ | old
    · exact .inr ⟨task, pushed, carries⟩
    · exact .inl (.inl ⟨u, task, old, carries⟩)
  · rw [after_sys] at mem
    rcases does.mem_work loops mem with old | queued
    · exact .inl (.inr ⟨l, old⟩)
    · exact .inl (.inl ⟨t, _, List.mem_of_mem_head? queued, rfl⟩)

/-- Where a functor comes from that the tasks of a step carry. -/
inductive SetsOut (s : Server) (head : Option Task) (input : Input) (eff : Effect) :
    Functor → Prop
  | called (l : LoopId) (f : Functor) (rest : List Functor)
      (here : (s.sys l).loop.position = .running (f :: rest))
      (loop : eff.loop = some (l, .advance [])) (push : eff.push = [.functor f]) :
      SetsOut s head input eff f
  | connectEstablished (connfd : Nat) (change : eff.change = .newConnection connfd) :
      SetsOut s head input eff (.connectEstablished s.nextConnId_)
  | connectDestroyed (c : ConnId)
      (why : head = some (.functor (.removeConnectionInLoop c)) ∨ eff.change = .destroy) :
      SetsOut s head input eff (.connectDestroyed c)
  | removeConnectionInLoop (c : ConnId) (close : head = some (.closeCallback c)) :
      SetsOut s head input eff (.removeConnectionInLoop c)
  | sendInLoop (m : Option ConnId) (c : ConnId) (p : Address) (len : Nat) (r : WriteResult)
      (user : head = some (.user m)) (call : input = .call (.send c p len r))
      (state : (s.conn c).state_ ≠ .kConnected) :
      SetsOut s head input eff (.sendInLoop c p len s.sends.length)
  | shutdownInLoop (c : ConnId) (store : head = some (.shutdownStore c)) :
      SetsOut s head input eff (.shutdownInLoop c)
  | writeCompleteCallback (c : ConnId) : SetsOut s head input eff (.writeCompleteCallback c)
  | highWaterMarkCallback (c : ConnId) (size : Nat) :
      SetsOut s head input eff (.highWaterMarkCallback c size)
  | user : SetsOut s head input eff .user

theorem inFlight_running {l : LoopId} {f : Functor} {rest : List Functor}
    (here : (s.sys l).loop.position = .running (f :: rest)) : s.InFlight f :=
  .inr ⟨l, by simp [LoopSystem.work, here, Position.batch]⟩

private theorem queued_setsOut {head : Option Task} {c : ConnId} {op : ConnOp} {task : Task}
    {f : Functor}
    (mem : task ∈ s.queued c op) (carries : task.carries = some f) :
    SetsOut s head input eff f := by
  obtain ⟨f', made, rfl⟩ := List.mem_map.mp mem
  cases carries
  rcases ConnOp.queue made with none | rfl | ⟨size, rfl⟩
  · cases none
  · exact .writeCompleteCallback c
  · exact .highWaterMarkCallback c size

theorem Does.setsOut {head : Option Task} {task : Task} {f : Functor}
    (does : Does s t head input eff) (mem : task ∈ eff.push) (carries : task.carries = some f) :
    SetsOut s head input eff f := by
  have one {task' : Task} (mem : task ∈ [task']) (none : task'.carries = none) :
      SetsOut s head input eff f := by
    rw [List.mem_singleton.mp mem, none] at carries
    cases carries
  have run {u : Tid} {l : LoopId} {g : Functor} (out : SetsOut s head input eff g)
      (same : task = runInLoop u l g) : SetsOut s head input eff f := by
    rw [same, runInLoop_carries] at carries
    cases carries
    exact out
  have destructor {order : List ConnId} (change : eff.change = .destroy)
      (mem : task ∈ s.destructor order) : SetsOut s head input eff f := by
    rcases mem_destructor mem with ⟨c, -, same⟩ | ⟨l, rfl | rfl⟩ | ⟨op, rfl⟩
    · exact run (.connectDestroyed c (.inr change)) same
    all_goals cases carries
  cases does with
  | call l f' rest here =>
    rw [List.mem_singleton.mp mem] at carries
    cases carries
    exact .called l _ rest here rfl rfl
  | dispatch l channel rest here =>
    cases channel with
    | wakeup => cases mem
    | acceptor =>
      obtain ⟨k, -, he⟩ := List.mem_filterMap.mp mem
      cases k <;> cases he
      cases carries
    | conn c =>
      obtain ⟨k, -, rfl⟩ := List.mem_map.mp mem
      cases carries
  | destroy order may => exact destructor rfl mem
  | userDestroy order alone may =>
    rcases List.mem_append.mp mem with mem | mem
    · exact destructor rfl mem
    · exact one mem rfl
  | send t m c p len r up connected own fits =>
    rcases List.mem_append.mp mem with mem | mem
    · exact queued_setsOut mem carries
    · exact one mem rfl
  | sendLate t m c p len r up state =>
    rcases List.mem_cons.mp mem with same | mem
    · exact run (.sendInLoop m c p len r rfl rfl state) same
    · exact one mem rfl
  | userQueue t m l =>
    rcases List.mem_cons.mp mem with rfl | mem
    · cases carries
      exact .user
    · exact one mem rfl
  | userRun t m l =>
    rcases List.mem_cons.mp mem with same | mem
    · exact run .user same
    · exact one mem rfl
  | shutdown | userQuit | handleClose | connectDestroyedClose =>
    rcases List.mem_cons.mp mem with rfl | mem
    · cases carries
    · exact one mem rfl
  | removeConnectionInLoop t c =>
    rw [List.mem_singleton.mp mem] at carries
    cases carries
    exact .connectDestroyed c (.inl rfl)
  | sendInLoop t c p len call r fits => exact queued_setsOut mem carries
  | accept t connfd fresh => exact run (.connectEstablished connfd rfl) (List.mem_singleton.mp mem)
  | handleRead t c r fits =>
    rw [List.mem_singleton.mp mem] at carries
    unfold readTask at carries
    split at carries
    · cases carries
    · split at carries <;> cases carries
  | handleWrite t c r fits =>
    rcases List.mem_append.mp mem with mem | mem
    · exact queued_setsOut mem carries
    · split at mem
      · exact one mem rfl
      · cases mem
  | closeCallback t c => exact run (.removeConnectionInLoop c rfl) (List.mem_singleton.mp mem)
  | shutdownStore t c => exact run (.shutdownInLoop c rfl) (List.mem_singleton.mp mem)
  | poll | turn | listen | shutdownInLoop | queueWakeup | quitWakeup | acceptChannel
  | handleWriteEnd | connectDestroyedRemove | returns | handleError | acceptFails | joined
  | started => cases mem
  | connectEstablished | writeCompleteCallback | highWaterMarkCallback | userFunctor
  | queueInLoop | quit | connectDestroyed | connectDestroyedLate | sendElsewhere | shutdownLate
  | retrieve | store => exact one mem rfl

/-- Where the tasks of a step come from that carry no functor. -/
inductive Puts (s : Server) (t : Tid) (head : Option Task) (input : Input) (eff : Effect) :
    Task → Prop
  | carrying (task : Task) (f : Functor) (carries : task.carries = some f) :
      Puts s t head input eff task
  | user (m : Option ConnId) : Puts s t head input eff (.user m)
  | queueWakeup (l : LoopId) : Puts s t head input eff (.queueWakeup l)
  | quit (l : LoopId) (may : l = 0 ∨ eff.change = .destroy) : Puts s t head input eff (.quit l)
  | quitWakeup (l : LoopId) : Puts s t head input eff (.quitWakeup l)
  | join (l : LoopId) : Puts s t head input eff (.join l)
  | accept : Puts s t head input eff .accept
  | acceptChannel (op : ChannelOp) (destroy : eff.change = .destroy) :
      Puts s t head input eff (.acceptChannel op)
  | callback (l : LoopId) (c : ConnId) (k : Callback) (rest : List ChannelRef)
      (here : (s.sys l).loop.position = .dispatching (.conn c :: rest)) (own : t = .loop l)
      (loop : eff.loop = some (l, .advance [])) :
      Puts s t head input eff (.callback c k)
  | handleRead (c : ConnId) (k : Callback) (read : head = some (.callback c .read)) :
      Puts s t head input eff (.callback c k)
  | handleWriteEnd (c : ConnId) (r : WriteResult) (write : head = some (.callback c .write))
      (change : eff.change = .conn c (.handleWriteDrain r))
      (drained : (TcpConnection.handleWriteDrain c r (s.env c)).2 = true) :
      Puts s t head input eff (.handleWriteEnd c)
  | closeCallback (c : ConnId) (close : head = some (.callback c .close))
      (change : eff.change = .conn c .handleClose)
      (push : eff.push = [.user none, .closeCallback c]) :
      Puts s t head input eff (.closeCallback c)
  | connectDestroyedClose (c : ConnId) (destroyed : head = some (.functor (.connectDestroyed c)))
      (connected : (s.conn c).state_ = .kConnected) (change : eff.change = .nothing)
      (push : eff.push = [.connectDestroyedClose c]) :
      Puts s t head input eff (.connectDestroyedClose c)
  | connectDestroyedRemove (c : ConnId)
      (destroyed : head = some (.functor (.connectDestroyed c)) ∨
        head = some (.connectDestroyedClose c)) :
      Puts s t head input eff (.connectDestroyedRemove c)
  | shutdownStore (c : ConnId) (connected : (s.conn c).state_ = .kConnected) :
      Puts s t head input eff (.shutdownStore c)

theorem Does.puts {head : Option Task} {task : Task} (does : Does s t head input eff)
    (mem : task ∈ eff.push) : Puts s t head input eff task := by
  have run {u : Tid} {l : LoopId} {f : Functor} : Puts s t head input eff (runInLoop u l f) :=
    .carrying _ f (runInLoop_carries u l f)
  have last {task' : Task} (mem : task ∈ [task']) (puts : Puts s t head input eff task') :
      Puts s t head input eff task := by
    rw [List.mem_singleton.mp mem]
    exact puts
  have queued {c : ConnId} {op : ConnOp} (mem : task ∈ s.queued c op) :
      Puts s t head input eff task := by
    obtain ⟨f, -, rfl⟩ := List.mem_map.mp mem
    exact .carrying _ f rfl
  have destructor {order : List ConnId} (change : eff.change = .destroy)
      (mem : task ∈ s.destructor order) : Puts s t head input eff task := by
    rcases mem_destructor mem with ⟨c, -, rfl⟩ | ⟨l, rfl | rfl⟩ | ⟨op, rfl⟩
    · exact run
    · exact .quit l (.inr change)
    · exact .join l
    · exact .acceptChannel op change
  cases does with
  | dispatch l channel rest here =>
    cases channel with
    | wakeup => cases mem
    | acceptor =>
      obtain ⟨k, -, he⟩ := List.mem_filterMap.mp mem
      cases k <;> cases he
      exact .accept
    | conn c =>
      obtain ⟨k, -, rfl⟩ := List.mem_map.mp mem
      exact .callback l c k rest here rfl rfl
  | destroy order may => exact destructor rfl mem
  | userDestroy order alone may =>
    rcases List.mem_append.mp mem with mem | mem
    · exact destructor rfl mem
    · exact last mem (.user _)
  | send t m c p len r up connected own fits =>
    rcases List.mem_append.mp mem with mem | mem
    · exact queued mem
    · exact last mem (.user m)
  | sendLate t m c p len r up state =>
    rcases List.mem_cons.mp mem with rfl | mem
    · exact run
    · exact last mem (.user m)
  | shutdown t m c up connected =>
    rcases List.mem_cons.mp mem with rfl | mem
    · exact .shutdownStore c connected
    · exact last mem (.user m)
  | userQueue t m l =>
    rcases List.mem_cons.mp mem with rfl | mem
    · exact .carrying _ .user rfl
    · exact last mem (.user m)
  | userRun t m l =>
    rcases List.mem_cons.mp mem with rfl | mem
    · exact run
    · exact last mem (.user m)
  | userQuit t m =>
    rcases List.mem_cons.mp mem with rfl | mem
    · exact .quit 0 (.inl rfl)
    · exact last mem (.user m)
  | sendInLoop t c p len call r fits => exact queued mem
  | handleRead t c r fits =>
    rw [List.mem_singleton.mp mem, readTask]
    split
    · exact .user _
    · split
      · exact .handleRead c _ rfl
      · exact .handleRead c _ rfl
  | handleWrite t c r fits =>
    rcases List.mem_append.mp mem with mem | mem
    · exact queued mem
    · split at mem
      · rename_i drained
        exact last mem (.handleWriteEnd c r rfl rfl drained)
      · cases mem
  | handleClose t c =>
    rcases List.mem_cons.mp mem with rfl | mem
    · exact .user none
    · exact last mem (.closeCallback c rfl rfl rfl)
  | connectDestroyedClose t c =>
    rcases List.mem_cons.mp mem with rfl | mem
    · exact .user none
    · exact last mem (.connectDestroyedRemove c (.inr rfl))
  | connectDestroyed t c connected =>
    exact last mem (.connectDestroyedClose c rfl connected rfl rfl)
  | connectDestroyedLate t c state =>
    exact last mem (.connectDestroyedRemove c (.inl rfl))
  | poll | turn | listen | shutdownInLoop | queueWakeup | quitWakeup | acceptChannel
  | handleWriteEnd | connectDestroyedRemove | returns | handleError | acceptFails | joined
  | started => cases mem
  | call l f rest here => exact last mem (.carrying _ f rfl)
  | removeConnectionInLoop t c => exact last mem (.carrying _ _ rfl)
  | accept | closeCallback | shutdownStore => exact last mem run
  | queueInLoop t l f => exact last mem (.queueWakeup l)
  | quit t l => exact last mem (.quitWakeup l)
  | sendElsewhere | shutdownLate | retrieve | store | connectEstablished | writeCompleteCallback
  | highWaterMarkCallback | userFunctor => exact last mem (.user _)

end Server

end TcpMuduo
