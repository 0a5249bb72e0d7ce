import TcpMuduo.Net.Service
import TcpMuduo.Net.TearDown

/-!
The end of the thread pool: `~EventLoopThread` calls `quit` on its loop and
joins the thread. The join waits for a loop that is on its way out, unless the
flag was stored before `loop()` reset it.
-/

set_option autoImplicit false
set_option relaxedAutoImplicit false

namespace TcpMuduo

/-- The task waits for another thread, or wakes one up. -/
def Task.Signals : Task → Prop
  | .join _ | .startLoop _ | .queueWakeup _ | .quitWakeup _ => True
  | _ => False

/-- Every `join` on the stack comes after the `quit` of its loop, or the loop has been told. -/
def Announced (told : LoopId → Prop) (stack : List Task) : Prop :=
  ∀ front l back, stack = front ++ .join l :: back → l ≠ 0 ∧ (.quit l ∈ front ∨ told l)

namespace Announced

variable {told : LoopId → Prop} {stack front back : List Task} {task : Task}

private theorem of_none (none : ∀ l, .join l ∉ stack) : Announced told stack := by
  rintro front l back rfl
  exact absurd (List.mem_append_right _ List.mem_cons_self) (none l)

theorem append (before : Announced told front) (behind : Announced told back) :
    Announced told (front ++ back) := by
  intro front' l back' split
  rcases List.append_eq_append_iff.mp split with ⟨more, same, rest⟩ | ⟨more, same, rest⟩
  · obtain ⟨pool, quit⟩ := behind more l back' rest
    subst same
    exact ⟨pool, quit.imp_left (List.mem_append_right _)⟩
  · cases more with
    | nil =>
      obtain ⟨pool, quit⟩ := behind [] l back' rest.symm
      exact ⟨pool, quit.imp_left (fun mem => by cases mem)⟩
    | cons first more =>
      obtain ⟨rfl, -⟩ := List.cons.inj rest
      exact before front' l more same

theorem tail (inv : Announced told (task :: stack))
    (quits : ∀ l, l ≠ 0 → task = .quit l → told l) : Announced told stack := by
  intro front l back split
  obtain ⟨pool, quit⟩ := inv (task :: front) l back (by rw [split]; rfl)
  refine ⟨pool, ?_⟩
  rcases quit with mem | quit
  · rcases List.mem_cons.mp mem with same | mem
    · exact .inr (quits l pool same.symm)
    · exact .inl mem
  · exact .inr quit

theorem mono {told' : LoopId → Prop} (inv : Announced told stack)
    (more : ∀ l, told l → told' l) : Announced told' stack := by
  intro front l back split
  obtain ⟨pool, quit⟩ := inv front l back split
  exact ⟨pool, quit.imp_right (more l)⟩

theorem stops {loops : List LoopId} (pool : ∀ l ∈ loops, l ≠ 0) :
    Announced told (loops.flatMap fun l => [.quit l, .join l]) := by
  induction loops with
  | nil => exact of_none (by simp)
  | cons l loops ih =>
    refine append ?_ (ih fun l' mem => pool l' (List.mem_cons_of_mem _ mem))
    intro front l' back split
    have same : front = [.quit l] ∧ l' = l := by
      rcases front with - | ⟨first, - | ⟨second, front⟩⟩
      · simp at split
      · obtain ⟨rfl, rfl, -⟩ : .quit l = first ∧ l = l' ∧ back = [] := by simpa using split
        exact ⟨rfl, rfl⟩
      · simp at split
    obtain ⟨rfl, rfl⟩ := same
    exact ⟨pool l' List.mem_cons_self, .inl (List.mem_singleton_self _)⟩

end Announced

namespace Server

variable {s s' : Server} {t : Tid} {input : Input} {eff : Effect} {config : ServerConfig}
variable {sys : LoopId → LoopSystem Tid Functor ChannelRef} {i : Tid × Input}
variable {inputs : List (Tid × Input)}

private theorem announced_destructor (told : LoopId → Prop) (order : List ConnId) {back : List Task}
    (user : ∀ task ∈ back, task = .user none) : Announced told (s.destructor order ++ back) := by
  refine .append (.append (.append (.of_none ?_) (.stops ?_)) (.of_none ?_)) (.of_none ?_)
  · intro l mem
    obtain ⟨c, -, same⟩ := List.mem_map.mp mem
    unfold runInLoop at same
    split at same <;> cases same
  · intro l mem
    obtain ⟨n, -, rfl⟩ := List.mem_map.mp mem
    exact Nat.succ_ne_zero n
  · simp
  · intro l mem
    cases user _ mem

theorem Does.pushes_signal {head : Option Task} {task : Task} (does : Does s t head input eff)
    (mem : task ∈ eff.push) (signals : task.Signals) :
    (∃ l ∈ s.config.loops_, task = .join l ∧ eff.change = .destroy) ∨
      (∃ l f, task = .queueWakeup l ∧ head = some (.queueInLoop l f)) ∨
      ∃ l, task = .quitWakeup l ∧ head = some (.quit l) := by
  have ran {u : Tid} {l : LoopId} {f : Functor} : task ≠ runInLoop u l f := by
    rintro rfl
    unfold runInLoop at signals
    split at signals <;> exact signals
  have queued (c : ConnId) (op : ConnOp) : task ∉ s.queued c op := by
    intro mem
    obtain ⟨f, -, rfl⟩ := List.mem_map.mp mem
    exact signals
  have user {m : Option ConnId} : task ≠ .user m := by
    rintro rfl
    exact signals
  have destructor {order : List ConnId} (change : eff.change = .destroy)
      (mem : task ∈ s.destructor order) :
      ∃ l ∈ s.config.loops_, task = .join l ∧ eff.change = .destroy := by
    simp only [destructor, List.mem_append, List.mem_map, List.mem_flatMap, List.mem_cons,
      List.not_mem_nil, or_false] at mem
    rcases mem with (⟨c, -, rfl⟩ | ⟨l, pool, rfl | rfl⟩) | rfl | rfl
    · exact absurd rfl ran
    · exact signals.elim
    · exact ⟨l, pool, rfl, change⟩
    · exact signals.elim
    · exact signals.elim
  cases does with
  | destroy order may => exact .inl (destructor rfl mem)
  | userDestroy order alone may =>
    rcases List.mem_append.mp mem with mem | mem
    · exact .inl (destructor rfl mem)
    · exact absurd (List.mem_singleton.mp mem) user
  | queueInLoop t l f => exact .inr (.inl ⟨l, f, List.mem_singleton.mp mem, rfl⟩)
  | quit t l => exact .inr (.inr ⟨l, List.mem_singleton.mp mem, rfl⟩)
  | dispatch l channel rest here =>
    cases channel with
    | wakeup => cases mem
    | acceptor =>
      obtain ⟨k, -, he⟩ := List.mem_filterMap.mp mem
      cases k <;> cases he
      exact signals.elim
    | conn c =>
      obtain ⟨k, -, rfl⟩ := List.mem_map.mp mem
      exact signals.elim
  | handleRead t c r fits =>
    rw [List.mem_singleton.mp mem, readTask] at signals
    split at signals
    · exact signals.elim
    · split at signals <;> exact signals.elim
  | handleWrite t c r fits =>
    rcases List.mem_append.mp mem with mem | mem
    · exact absurd mem (queued _ _)
    · split at mem
      · rw [List.mem_singleton.mp mem] at signals
        exact signals.elim
      · cases mem
  | send t m c p len r up connected own fits =>
    rcases List.mem_append.mp mem with mem | mem
    · exact absurd mem (queued _ _)
    · exact absurd (List.mem_singleton.mp mem) user
  | sendInLoop t c p len call r fits => exact absurd mem (queued _ _)
  | _ =>
    simp only [List.mem_cons, List.not_mem_nil, or_false, user, ran, false_or] at mem
    try
      subst mem
      exact signals.elim

private theorem Does.pushes_join {head : Option Task} {l : LoopId} (does : Does s t head input eff)
    (mem : .join l ∈ eff.push) : eff.change = .destroy := by
  rcases does.pushes_signal mem trivial with ⟨-, -, -, destroy⟩ | ⟨_, _, same, -⟩ | ⟨_, same, -⟩
  · exact destroy
  · cases same
  · cases same

/-- The flag of the loop is set, and `loop()` will not reset it. -/
def Stopping (s : Server) (l : LoopId) : Prop :=
  (s.sys l).loop.quit_ = true ∧ (s.sys l).loop.position.Entered

theorem Stopping.after {l : LoopId} (inv : s.Stopping l)
    (loops : s.loopStep eff.loop = some sys) : (s.after t eff sys).Stopping l := by
  unfold Stopping
  rw [after_sys]
  rcases loopStep_at loops l with ⟨same, -⟩ | ⟨input', -, step⟩
  · exact same ▸ inv
  · have leaving := LoopSystem.step_leaving step inv.1 inv.2
    exact ⟨leaving.flag, leaving.entered⟩

/-- A loop of the pool is told to quit only once `loop()` has begun to test its flag. -/
def StopsEntered (s : Server) (i : Tid × Input) : Prop :=
  match (s.stack i.1).head? with
  | some (.quit l) => l ≠ 0 → (s.sys l).loop.position.Entered
  | _ => True

instance (s : Server) (i : Tid × Input) : Decidable (s.StopsEntered i) :=
  decidable_of_bool (match (s.stack i.1).head? with
    | some (.quit l) => decide (l ≠ 0 → (s.sys l).loop.position.Entered)
    | _ => true) (by unfold StopsEntered; split <;> simp only [decide_eq_true_eq])

/-- The joins of `~TcpServer` come after the `quit` of their loops, which the base thread alone
calls. -/
structure Joins (s : Server) : Prop where
  announced : Announced s.Stopping (s.stack (.loop 0))
  alone : ∀ l t, l ≠ 0 → (s.sys l).caller t = .quitting → t = .loop 0

private theorem announced_push (told : LoopId → Prop) {head : Option Task}
    (does : Does s t head input eff) : Announced told eff.push := by
  by_cases joins : ∃ l, .join l ∈ eff.push
  · obtain ⟨l, mem⟩ := joins
    have destroy := does.pushes_join mem
    cases does with
    | destroy order may =>
      rw [← List.append_nil (s.destructor _)]
      exact announced_destructor told order (by simp)
    | userDestroy order alone may => exact announced_destructor told order (by simp)
    | _ => cases destroy
  · exact .of_none fun l mem => joins ⟨l, mem⟩

private theorem Joins.announced_after (inv : s.Joins) (does : Does s t (s.stack t).head? input eff)
    (loops : s.loopStep eff.loop = some sys) (entered : s.StopsEntered (t, input)) :
    Announced (s.after t eff sys).Stopping ((s.after t eff sys).stack (.loop 0)) := by
  have kept : Announced (s.after t eff sys).Stopping (s.stack (.loop 0)) :=
    inv.announced.mono fun l stopping => stopping.after loops
  by_cases own : t = .loop 0
  · subst own
    rw [after_stack, Function.update_self]
    refine .append (announced_push _ does) ?_
    cases hs : s.stack (.loop 0) with
    | nil => exact .of_none (by simp)
    | cons task rest =>
      rw [hs] at kept does
      refine kept.tail ?_
      rintro l pool rfl
      have here : (s.sys l).loop.position.Entered := by
        unfold StopsEntered at entered
        rw [hs] at entered
        exact entered pool
      have step := step_of_loopStep loops does.quit_loop
      unfold Stopping
      rw [after_sys]
      generalize sys l = after at step ⊢
      cases LoopSystem.step_steps step with
      | storeQuit u free may => exact ⟨rfl, here⟩
  · rw [after_stack, Function.update_of_ne (Ne.symm own)]
    exact kept

private theorem Joins.alone_after (confined : s.Confined) (inv : s.Joins)
    (does : Does s t (s.stack t).head? input eff) (loops : s.loopStep eff.loop = some sys)
    (l : LoopId) (u : Tid) (pool : l ≠ 0) (quits : (sys l).caller u = .quitting) :
    u = .loop 0 := by
  rcases loopStep_at loops l with ⟨same, -⟩ | ⟨input', here, step⟩
  · rw [same] at quits
    exact inv.alone l u pool quits
  · have calls := does.calls here
    generalize sys l = after at step quits
    cases LoopSystem.step_steps step with
    | storeQuit u' free may =>
      obtain ⟨rfl, -, head⟩ := calls
      by_cases own : u = u'
      · rw [own]
        exact (confined.tasks u' _ (List.mem_of_mem_head? head)).resolve_left pool
      · exact inv.alone l u pool ((Function.update_of_ne own _ _).symm.trans quits)
    | emplaceBack u' f free may | queueWakeup u' index busy | quitWakeup u' busy =>
      by_cases own : u = u'
      · simp [own] at quits
      · exact inv.alone l u pool ((Function.update_of_ne own _ _).symm.trans quits)
    | advance active loop free moves => exact inv.alone l u pool quits

theorem joins (run : machine.Run (Server.new config) inputs s)
    (entered : machine.StepsMeet StopsEntered (Server.new config) inputs) : s.Joins := by
  have init : (Server.new config).Joins := by
    refine ⟨.of_none fun l mem => ?_, fun l t _ quits => ?_⟩
    · cases new_stack mem
    · cases quits
  refine run.invariant_of_stepsMeet (I := fun _ s => s.Joins) entered init ?_
  intro _ m i m' before inv entered hs
  obtain ⟨eff, sys, does, loops, rfl⟩ := step_does (t := i.1) (a := i.2) hs
  exact ⟨inv.announced_after does loops entered,
    inv.alone_after (confined before.reachable) does loops⟩

/-- The tear-down does not hang: along every run in which `~EventLoopThread` stores its flag only
behind the reset in `loop()`, a thread that the base thread waits for in `join` is not asleep,
returns from `epoll_wait` once at most and takes no more steps of `loop()` than were left, and two
for every channel reported and every functor queued meanwhile. -/
theorem join_returns (config : ServerConfig) (inputs : List (Tid × Input)) (s : Server)
    (run : machine.Run (Server.new config) inputs s)
    (entered : machine.StepsMeet StopsEntered (Server.new config) inputs) (l : LoopId)
    (joining : (s.stack (.loop 0)).head? = some (.join l)) :
    ((s.sys l).loop.position = .polling → (s.sys l).loop.wakeupFd_ ≠ 0) ∧
      ∀ later s', machine.Run s later s' →
        LoopSystem.Left true (s.sys l) (machine.collect (inputOf l) s later) (s'.sys l) := by
  have inv := joins run entered
  obtain ⟨back, stack⟩ := List.head?_eq_some_iff.mp joining
  obtain ⟨pool, stopping⟩ := inv.announced [] l back stack
  obtain ⟨flag, entered⟩ := stopping.resolve_left (by simp)
  refine ⟨?_, fun later s' further => LoopSystem.run_left (run_loop further l) flag entered⟩
  intro waits
  rcases LoopSystem.told (loops_reachable run.reachable l) flag waits with written | ⟨t, -, busy⟩
  · exact written
  · have head := (attended run.reachable).quitting l t busy
    rw [inv.alone l t pool busy, joining] at head
    cases head

/-- The base thread has destroyed the server and waits for the thread of the sub-loop, which is
still in `epoll_wait`. -/
def joiningWaiting : List (Tid × Input) :=
  tearDownWaiting ++ [(.loop 0, .destroy [1])] ++ steps (.loop 0) 4

theorem join_returns_waiting : ∃ s, machine.Run (Server.new oneLoop) joiningWaiting s ∧
    (s.stack (.loop 0)).head? = some (.join 1) ∧ (s.sys 1).loop.position = .polling ∧
      (s.sys 1).loop.wakeupFd_ ≠ 0 := by
  obtain ⟨s, run, joining, waits⟩ := machine.exists_run (.new oneLoop) joiningWaiting
    (fun s => (s.stack (.loop 0)).head? = some (.join 1) ∧
      (s.sys 1).loop.position = .polling) (by decide +kernel)
  have entered : machine.StepsMeet StopsEntered (Server.new oneLoop) joiningWaiting :=
    Lib.Machine.stepsMeet_of_checks (by decide +kernel)
  exact ⟨s, run, joining, waits,
    (join_returns oneLoop joiningWaiting s run entered 1 joining).1 waits⟩

end Server

end TcpMuduo
