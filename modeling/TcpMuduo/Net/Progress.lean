import TcpMuduo.Net.Joining

/-!
The threads of a server do not block each other for good: a thread that has
something to do can go on, or it is the base thread waiting for the thread of a
sub-loop, and then that one can go on.
-/

set_option autoImplicit false
set_option relaxedAutoImplicit false

namespace TcpMuduo

def Task.Wakes : Task → Prop
  | .queueWakeup _ | .quitWakeup _ => True
  | _ => False

theorem Task.Wakes.signals {task : Task} (wakes : task.Wakes) : task.Signals := by
  cases task <;> first | exact trivial | exact wakes

private theorem EventLoop.advance_isSome {T F H : Type} [DecidableEq H] {l : EventLoop T F H}
    (goes_on : l.position ≠ .stopped) : ∃ l', l.advance [] = some l' := by
  unfold advance
  split
  case h_4 => exact ⟨_, if_pos ⟨List.nodup_nil, fun mem => by cases mem⟩⟩
  case h_12 here => exact absurd here goes_on
  all_goals first | exact ⟨_, rfl⟩ | (split <;> exact ⟨_, rfl⟩)

namespace Server

variable {s s' : Server} {t : Tid} {input : Input} {eff : Effect} {config : ServerConfig}
variable {sys : LoopId → LoopSystem Tid Functor ChannelRef} {l : LoopId}

/-- The thread can take a step. -/
def CanStep (s : Server) (t : Tid) : Prop := ∃ input s', machine.step s (t, input) = some s'

/-- The thread is inside of a call, or in `loop()`. -/
def Busy (s : Server) (t : Tid) : Prop :=
  s.stack t ≠ [] ∨
    ∃ l, t = .loop l ∧ l ≤ s.config.numThreads_ ∧ (s.sys l).loop.position ≠ .stopped

/-- The thread waits for the one of the loop `l`: in `join` for its end, or in `startLoop` for
its loop. -/
def WaitsFor (s : Server) (t : Tid) (l : LoopId) : Prop :=
  (s.stack t).head? = some (.join l) ∧ (s.sys l).loop.position ≠ .stopped ∨
    (s.stack t).head? = some (.startLoop l) ∧ ¬ s.Published l

/-- What is left of `queueInLoop` and `quit` is the next task of its thread, and the loop expects
it. The threads waited for are those of the pool. -/
structure Expected (s : Server) : Prop where
  next : ∀ t task, task ∈ (s.stack t).tail → ¬ task.Wakes
  queueing : ∀ t l, (s.stack t).head? = some (.queueWakeup l) →
    ∃ n, (s.sys l).caller t = .queueing n
  quitting : ∀ t l, (s.stack t).head? = some (.quitWakeup l) → (s.sys l).caller t = .quitting
  joins : ∀ t l, .join l ∈ s.stack t → l ∈ s.config.loops_
  starts : ∀ t l, .startLoop l ∈ s.stack t → l ∈ s.config.loops_

private theorem caller_other (does : Does s t (s.stack t).head? input eff)
    (loops : s.loopStep eff.loop = some sys) {u : Tid} (other : u ≠ t) (l : LoopId) :
    (sys l).caller u = (s.sys l).caller u := by
  rcases loopStep_at loops l with ⟨same, -⟩ | ⟨input', here, step⟩
  · rw [same]
  · have calls := does.calls here
    generalize sys l = after at step ⊢
    cases LoopSystem.step_steps step with
    | emplaceBack t' f free may | storeQuit t' free may =>
      obtain ⟨rfl, -, -⟩ := calls
      exact Function.update_of_ne other _ _
    | queueWakeup t' index busy | quitWakeup t' busy =>
      obtain ⟨rfl, -⟩ := calls
      exact Function.update_of_ne other _ _
    | advance active loop free moves => rfl

private theorem Expected.first_after (inv : s.Expected) {u : Tid} {task : Task} (wakes : task.Wakes)
    (first : ((s.after t eff sys).stack u).head? = some task) :
    u ≠ t ∧ (s.stack u).head? = some task ∨ u = t ∧ task ∈ eff.push := by
  rw [after_stack_at] at first
  split at first
  · rename_i own
    refine .inr ⟨own, ?_⟩
    rcases List.mem_append.mp (List.mem_of_mem_head? first) with pushed | behind
    · exact pushed
    · exact absurd wakes (inv.next t task behind)
  · rename_i other
    exact .inl ⟨other, first⟩

theorem Expected.step (inv : s.Expected) (h : machine.step s (t, input) = some s') :
    s'.Expected := by
  obtain ⟨eff, sys, does, loops, rfl⟩ := step_does h
  have config : (s.after t eff sys).config = s.config := (s.after_extends t eff sys).config
  refine ⟨?_, ?_, ?_, ?_, ?_⟩
  · intro u task mem wakes
    rcases mem_tail_after _ _ _ _ mem with ⟨rfl, pushed⟩ | old
    · rcases does.pushes_signal (List.mem_of_mem_tail pushed) wakes.signals with
        ⟨l, -, rfl, -⟩ | ⟨l, f, rfl, head⟩ | ⟨l, rfl, head⟩
      · exact wakes
      · rw [head] at does
        cases does
        cases pushed
      · rw [head] at does
        cases does
        cases pushed
    · exact inv.next u task old wakes
  · intro u l first
    have wakes : (Task.queueWakeup l).Wakes := trivial
    rcases inv.first_after wakes first with ⟨other, old⟩ | ⟨rfl, pushed⟩
    · rw [after_sys, caller_other does loops other]
      exact inv.queueing u l old
    · rcases does.pushes_signal pushed trivial with
        ⟨_, -, same, -⟩ | ⟨_, f, same, head⟩ | ⟨_, same, -⟩
      · cases same
      · cases same
        rw [head] at does
        have loop : eff.loop = some (l, .emplaceBack u f) := by rw [does.queueInLoop_eff]
        have step := step_of_loopStep loops loop
        rw [after_sys]
        generalize sys l = after at step ⊢
        cases LoopSystem.step_steps step with
        | emplaceBack t' f free may => exact ⟨_, Function.update_self ..⟩
      · cases same
  · intro u l first
    have wakes : (Task.quitWakeup l).Wakes := trivial
    rcases inv.first_after wakes first with ⟨other, old⟩ | ⟨rfl, pushed⟩
    · rw [after_sys, caller_other does loops other]
      exact inv.quitting u l old
    · rcases does.pushes_signal pushed trivial with
        ⟨_, -, same, -⟩ | ⟨_, f, same, -⟩ | ⟨_, same, head⟩
      · cases same
      · cases same
      · cases same
        rw [head] at does
        have step := step_of_loopStep loops does.quit_loop
        rw [after_sys]
        generalize sys l = after at step ⊢
        cases LoopSystem.step_steps step with
        | storeQuit t' free may => exact Function.update_self ..
  · intro u l mem
    rw [config]
    rcases mem_after_stack _ _ _ _ mem with ⟨-, pushed⟩ | old
    · rcases does.pushes_signal pushed trivial with
        ⟨_, pool, same, -⟩ | ⟨_, f, same, -⟩ | ⟨_, same, -⟩
      · cases same
        exact pool
      · cases same
      · cases same
    · exact inv.joins u l old
  · intro u l mem
    rw [config]
    rcases mem_after_stack _ _ _ _ mem with ⟨-, pushed⟩ | old
    · rcases does.pushes_signal pushed trivial with
        ⟨_, -, same, -⟩ | ⟨_, f, same, -⟩ | ⟨_, same, -⟩ <;> cases same
    · exact inv.starts u l old

private theorem expected (h : machine.Reachable (Server.new config) s) : s.Expected := by
  refine h.invariant (I := Expected) ⟨?_, ?_, ?_, ?_, ?_⟩ fun _ _ _ _ inv hs => inv.step hs
  · intro t task mem wakes
    cases new_stack (List.mem_of_mem_tail mem) with
    | user | listen base | startLoop l base => exact wakes
  · intro t l head
    cases new_stack (List.mem_of_mem_head? head)
  · intro t l head
    cases new_stack (List.mem_of_mem_head? head)
  · intro t l mem
    cases new_stack mem
  · intro t l mem
    simp only [Server.new] at mem
    split at mem
    · rcases List.mem_append.mp mem with mem | mem
      · split at mem
        · cases List.mem_singleton.mp mem
        · obtain ⟨l', pool, same⟩ := List.mem_map.mp mem
          cases same
          exact pool
      · simp at mem
    · simp at mem
    · simp at mem

theorem Attended.outside (inv : s.Attended)
    (idle : ∀ task ∈ (s.stack t).head?, ¬ task.Wakes) (l : LoopId) :
    (s.sys l).caller t = .outside := by
  cases hc : (s.sys l).caller t with
  | outside => rfl
  | queueing n => exact absurd trivial (idle _ (inv.queueing l t n hc))
  | quitting => exact absurd trivial (idle _ (inv.quitting l t hc))

private theorem mayCall_of_tasks (reach : machine.Reachable (Server.new config) s)
    (tasks : s.stack t ≠ []) (l : LoopId) : (s.sys l).MayCall true t = true := by
  unfold LoopSystem.MayCall
  by_cases own : t = .loop l
  · subst own
    have aside := (attended reach).aside l tasks
    cases hp : (s.sys l).loop.position with
    | created | handling channel rest | calling f rest | stopped => simp
    | starting | testing | polling | dispatching rest | draining | running rest =>
      rw [hp] at aside
      exact aside.elim
  · have thread := LoopSystem.threadId_eq (loops_reachable reach l)
    simp [EventLoop.isInLoopThread, thread, Ne.symm own]

theorem step_alone (effect : s.effect t input = some eff) (loop : eff.loop = none) :
    machine.step s (t, input) = some (s.after t eff s.sys) := by
  simp [machine, Server.step, effect, loop, loopStep]

private theorem canStep_alone (effect : s.effect t input = some eff) (loop : eff.loop = none) :
    s.CanStep t :=
  ⟨input, s.after t eff s.sys, step_alone effect loop⟩

theorem step_call {m : Option ConnId} {rest : List Task} {u : UserCall}
    (stack : s.stack t = .user m :: rest) (call : s.callEffect t m u = some eff)
    (loop : eff.loop = none) : ∃ s', machine.step s (t, .call u) = some s' := by
  have effect : s.effect t (.call u) = some { eff with push := eff.push ++ [.user m] } := by
    simp [Server.effect, stack, taskEffect, call]
  exact ⟨_, step_alone effect loop⟩

theorem step_send {m : Option ConnId} {rest : List Task} {c : ConnId}
    (stack : s.stack t = .user m :: rest) (up : s.Up c) (p : Address) (len : Nat) :
    ∃ s', machine.step s (t, .call (.send c p len (.failed .EWOULDBLOCK))) = some s' := by
  have call : ∃ eff, s.callEffect t m (.send c p len (.failed .EWOULDBLOCK)) = some eff ∧
      eff.loop = none := by
    simp only [callEffect, if_pos up, sendEffect]
    split
    · split
      · exact ⟨_, if_pos trivial, rfl⟩
      · exact ⟨_, rfl, rfl⟩
    · exact ⟨_, rfl, rfl⟩
  obtain ⟨eff, call, loop⟩ := call
  exact step_call stack call loop

private theorem canStep_on {i : LoopInput Tid Functor ChannelRef}
    (effect : s.effect t input = some eff)
    (loop : eff.loop = some (l, i))
    (takes : ((LoopSystem.machine true).step (s.sys l) i).isSome = true) : s.CanStep t := by
  obtain ⟨m, step⟩ := Option.isSome_iff_exists.mp takes
  exact ⟨input, s.after t eff (Function.update s.sys l m), by
    simp [machine, Server.step, effect, loop, loopStep, step]⟩

private theorem canStep_of_task (reach : machine.Reachable (Server.new config) s) {task : Task}
    {rest : List Task} (stack : s.stack t = task :: rest) :
    s.CanStep t ∨ ∃ l, s.WaitsFor t l := by
  have head : (s.stack t).head? = some task := by rw [stack]; rfl
  have tasks : s.stack t ≠ [] := by rw [stack]; exact List.cons_ne_nil _ _
  have effect {input : Input} {eff : Effect} (here : s.taskEffect t task input = some eff) :
      s.effect t input = some eff := by
    unfold Server.effect
    rw [stack]
    exact here
  have alone {input : Input} {eff : Effect} (here : s.taskEffect t task input = some eff)
      (loop : eff.loop = none) : s.CanStep t ∨ ∃ l, s.WaitsFor t l :=
    .inl (canStep_alone (effect here) loop)
  have outside (idle : ¬ task.Wakes) (l : LoopId) : (s.sys l).caller t = .outside := by
    refine (attended reach).outside ?_ l
    rw [head]
    rintro _ ⟨⟩
    exact idle
  cases task with
  | user m => exact alone (rfl : s.taskEffect t (.user m) .run = _) rfl
  | functor f =>
    cases f with
    | connectDestroyed c =>
      by_cases connected : (s.conn c).state_ = .kConnected
      · exact alone (show s.taskEffect t (.functor (.connectDestroyed c)) .run = some _ from
          if_pos connected) rfl
      · exact alone (show s.taskEffect t (.functor (.connectDestroyed c)) .run = some _ from
          if_neg connected) rfl
    | sendInLoop c p len call =>
      exact alone (rfl : s.taskEffect t _ (.write (.failed .EINTR)) = some _) rfl
    | listen | connectEstablished c | removeConnectionInLoop c | shutdownInLoop c
    | writeCompleteCallback c | highWaterMarkCallback c size | user =>
      exact alone (rfl : s.taskEffect t _ .run = _) rfl
  | queueInLoop l f =>
    have may := mayCall_of_tasks reach tasks l
    refine .inl (canStep_on (effect (rfl : s.taskEffect t _ .run = _)) rfl ?_)
    simp [LoopSystem.machine, LoopSystem.step, outside id l, may]
  | queueWakeup l =>
    obtain ⟨n, busy⟩ := (expected reach).queueing t l head
    refine .inl (canStep_on (effect (rfl : s.taskEffect t _ .run = _)) rfl ?_)
    simp [LoopSystem.machine, LoopSystem.step, busy]
  | quit l =>
    have may := mayCall_of_tasks reach tasks l
    refine .inl (canStep_on (effect (rfl : s.taskEffect t _ .run = _)) rfl ?_)
    simp [LoopSystem.machine, LoopSystem.step, outside id l, may]
  | quitWakeup l =>
    have busy := (expected reach).quitting t l head
    refine .inl (canStep_on (effect (rfl : s.taskEffect t _ .run = _)) rfl ?_)
    simp [LoopSystem.machine, LoopSystem.step, busy]
  | join l =>
    by_cases here : (s.sys l).loop.position = .stopped
    · exact alone (show s.taskEffect t (.join l) .run = some _ from if_pos here) rfl
    · exact .inr ⟨l, .inl ⟨head, here⟩⟩
  | startLoop l =>
    by_cases published : s.Published l
    · exact alone (show s.taskEffect t (.startLoop l) .run = some _ from if_pos published) rfl
    · exact .inr ⟨l, .inr ⟨head, published⟩⟩
  | accept => exact alone (rfl : s.taskEffect t _ (.accept none) = _) rfl
  | callback c k =>
    cases k with
    | close | error => exact alone (rfl : s.taskEffect t _ .run = _) rfl
    | read =>
      exact alone (rfl : s.taskEffect t _ (.read (.failed .EINTR)) = some _) rfl
    | write =>
      exact alone (rfl : s.taskEffect t _ (.write (.failed .EINTR)) = some _) rfl
  | acceptChannel op | handleWriteEnd c | closeCallback c | connectDestroyedClose c
  | connectDestroyedRemove c | shutdownStore c =>
    exact alone (rfl : s.taskEffect t _ .run = _) rfl

theorem outside_of_idle (reach : machine.Reachable (Server.new config) s)
    (idle : s.stack t = []) (l : LoopId) : (s.sys l).caller t = .outside := by
  refine (attended reach).outside ?_ l
  rw [idle]
  exact fun _ mem => by cases mem

private theorem canStep_in_loop (reach : machine.Reachable (Server.new config) s)
    (idle : s.stack (.loop l) = []) (made : l ≤ s.config.numThreads_)
    (goes_on : (s.sys l).loop.position ≠ .stopped) : s.CanStep (.loop l) := by
  have thread := LoopSystem.threadId_eq (loops_reachable reach l)
  have outside := outside_of_idle reach idle l
  obtain ⟨m, advance⟩ := EventLoop.advance_isSome goes_on
  have takes : ((LoopSystem.machine true).step (s.sys l) (.advance [])).isSome = true := by
    simp [LoopSystem.machine, LoopSystem.step, thread, outside, advance]
  have turns : ∃ input eff, s.loopEffect l input = some eff ∧
      eff.loop = some (l, .advance []) := by
    simp only [loopEffect, if_pos made]
    cases hp : (s.sys l).loop.position with
    | polling => exact ⟨.poll [], _, if_pos rfl, rfl⟩
    | dispatching rest => cases rest <;> exact ⟨.run, _, rfl, rfl⟩
    | running rest => cases rest <;> exact ⟨.run, _, rfl, rfl⟩
    | created | starting | testing | handling channel rest | draining | calling f rest
    | stopped => exact ⟨.run, _, rfl, rfl⟩
  obtain ⟨input, eff, effect, loop⟩ := turns
  have here : s.effect (.loop l) input = some eff := by
    unfold Server.effect
    rw [idle]
    exact effect
  exact canStep_on here loop takes

theorem canStep_of_busy (reach : machine.Reachable (Server.new config) s) (busy : s.Busy t) :
    s.CanStep t ∨ ∃ l, s.WaitsFor t l := by
  cases hs : s.stack t with
  | cons task rest => exact canStep_of_task reach hs
  | nil =>
    obtain ⟨l, rfl, made, goes_on⟩ := busy.resolve_left (absurd hs)
    exact .inl (canStep_in_loop reach hs made goes_on)

/-- The base thread alone waits, and the thread that it waits for goes on. -/
theorem WaitsFor.resolve (waits : s.WaitsFor t l)
    (reach : machine.Reachable (Server.new config) s) :
    t = .loop 0 ∧ l ∈ config.loops_ ∧ s.CanStep (.loop l) := by
  have config := reachable_config reach
  subst config
  have confined := confined reach
  have others (l : LoopId) (pool : l ≠ 0) (busy : s.Busy (.loop l)) : s.CanStep (.loop l) := by
    refine (canStep_of_busy reach busy).resolve_right ?_
    rintro ⟨l', ⟨head, -⟩ | ⟨head, -⟩⟩
    · have base := confined.tasks _ _ (List.mem_of_mem_head? head)
      exact pool (Tid.loop.inj base)
    · have base := confined.tasks _ _ (List.mem_of_mem_head? head)
      exact pool (Tid.loop.inj base)
  have made (pool : l ∈ s.config.loops_) : l ≤ s.config.numThreads_ := by
    obtain ⟨i, below, rfl⟩ := List.mem_map.mp pool
    exact List.mem_range.mp below
  rcases waits with ⟨head, running⟩ | ⟨head, unpublished⟩
  · have mem := List.mem_of_mem_head? head
    have pool := (expected reach).joins t l mem
    have busy : s.Busy (.loop l) := .inr ⟨l, rfl, made pool, running⟩
    exact ⟨confined.tasks t _ mem, pool, others l (ServerConfig.loops_pos pool) busy⟩
  · have mem := List.mem_of_mem_head? head
    have pool := (expected reach).starts t l mem
    have busy : s.Busy (.loop l) := .inl fun none => unpublished (.inl none)
    exact ⟨confined.tasks t _ mem, pool, others l (ServerConfig.loops_pos pool) busy⟩

/-- Nothing blocks for good: in every reachable state a thread that is inside of a call or in
`loop()` can take a step, or it is the base thread in `join` or `startLoop`, and then the thread
of the pool that it waits for can take one. -/
theorem never_stuck (config : ServerConfig) (s : Server)
    (h : machine.Reachable (Server.new config) s) (t : Tid) (busy : s.Busy t) :
    s.CanStep t ∨
      t = .loop 0 ∧ ∃ l ∈ config.loops_, s.WaitsFor t l ∧ s.CanStep (.loop l) := by
  refine (canStep_of_busy h busy).imp_right ?_
  rintro ⟨l, waits⟩
  obtain ⟨base, pool, goes_on⟩ := waits.resolve h
  exact ⟨base, l, pool, waits, goes_on⟩

theorem never_stuck_waiting : ∃ s, machine.Run (Server.new oneLoop) joiningWaiting s ∧
    s.WaitsFor (.loop 0) 1 ∧ (s.CanStep (.loop 0) ∨ Tid.loop 0 = .loop 0 ∧
      ∃ l ∈ oneLoop.loops_, s.WaitsFor (.loop 0) l ∧ s.CanStep (.loop l)) := by
  obtain ⟨s, run, joining, running⟩ := machine.exists_run (.new oneLoop) joiningWaiting
    (fun s => (s.stack (.loop 0)).head? = some (.join 1) ∧
      (s.sys 1).loop.position ≠ .stopped) (by decide +kernel)
  have tasks : s.stack (.loop 0) ≠ [] := List.ne_nil_of_mem (List.mem_of_mem_head? joining)
  exact ⟨s, run, .inl ⟨joining, running⟩,
    never_stuck oneLoop s run.reachable (.loop 0) (.inl tasks)⟩

end Server

end TcpMuduo
