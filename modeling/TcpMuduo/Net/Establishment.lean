import TcpMuduo.Net.Protocol
import TcpMuduo.Net.Registry

/-!
The beginning of a connection: on its way through the queues the functor of
`connectEstablished` stays in front of that of `connectDestroyed`, so that
nothing of the connection runs before it.
-/

set_option autoImplicit false
set_option relaxedAutoImplicit false

namespace TcpMuduo

/-- The functors that begin and end the life of the connection `c`. -/
def Functor.isLife (c : ConnId) : Functor → Bool
  | .connectEstablished c' | .connectDestroyed c' => c' == c
  | _ => false

private theorem Functor.isLife_cases {c : ConnId} {f : Functor} (h : f.isLife c = true) :
    f = .connectEstablished c ∨ f = .connectDestroyed c := by
  cases f with
  | connectEstablished c' => exact .inl (by rw [eq_of_beq h])
  | connectDestroyed c' => exact .inr (by rw [eq_of_beq h])
  | _ => cases h

def Task.called (c : ConnId) : Task → Option Functor
  | .functor f => if f.isLife c then some f else none
  | _ => none

def Task.queued (c : ConnId) (l : LoopId) : Task → Option Functor
  | .queueInLoop l' f => if l' = l ∧ f.isLife c then some f else none
  | _ => none

private theorem Task.carries_of_called {c : ConnId} {task : Task} {f : Functor}
    (h : task.called c = some f) : task.carries = some f ∧ f.isLife c = true := by
  cases task with
  | functor g =>
    simp only [called] at h
    split at h
    · rename_i life
      cases h
      exact ⟨rfl, life⟩
    · cases h
  | _ => cases h

private theorem Task.carries_of_queued {c : ConnId} {l : LoopId} {task : Task} {f : Functor}
    (h : task.queued c l = some f) :
    task = .queueInLoop l f ∧ f.isLife c = true := by
  cases task with
  | queueInLoop l' g =>
    simp only [queued] at h
    split at h
    · rename_i life
      cases h
      exact ⟨by rw [life.1], life.2⟩
    · cases h
  | _ => cases h

namespace Server

variable {s s' : Server} {t : Tid} {input : Input} {eff : Effect} {config : ServerConfig}
variable {sys : LoopId → LoopSystem Tid Functor ChannelRef} {c : ConnId}
variable {inputs : List (Tid × Input)}

/-- The way of these functors to the thread of the loop `l`, in the order in which they will be
called: those called, those in the loop, and those the base thread will queue. -/
def way (s : Server) (c : ConnId) (l : LoopId) : List Functor :=
  (s.stack (.loop l)).filterMap (Task.called c) ++ (s.sys l).work.filter (Functor.isLife c) ++
    (s.stack (.loop 0)).filterMap (Task.queued c l)

/-- The connections of the base loop are established without a queue, and `connectDestroyed` is
queued by the base thread. -/
structure Routed (s : Server) : Prop where
  direct : ∀ t c, .queueInLoop 0 (.connectEstablished c) ∉ s.stack t
  unqueued : ∀ c, .connectEstablished c ∉ (s.sys 0).work
  base : ∀ t l c, .queueInLoop l (.connectDestroyed c) ∈ s.stack t → t = .loop 0

theorem Does.destroy_quiet {head : Option Task} (does : Does s t head input eff)
    (head_eq : head = (s.stack t).head?) (h : eff.change = .destroy) :
    t = .loop 0 ∧ eff.loop = none ∧ (s.stack (.loop 0) = [] ∨ s.stack (.loop 0) = [.user none]) ∧
      ∃ order, s.MayDestroy order ∧ ∀ task ∈ eff.push, task ∈ s.destructor order ∨
        task = .user none := by
  cases does with
  | destroy order may =>
    refine ⟨rfl, rfl, .inl (List.head?_eq_none_iff.mp head_eq.symm), order, may, ?_⟩
    intro task mem
    exact .inl mem
  | userDestroy order alone may =>
    refine ⟨rfl, rfl, .inr alone, order, may, ?_⟩
    intro task mem
    exact (List.mem_append.mp mem).imp_right List.mem_singleton.mp
  | _ => cases h

theorem Routed.step (confined : s.Confined) (inv : s.Routed)
    (h : machine.step s (t, input) = some s') : s'.Routed := by
  obtain ⟨eff, sys, does, loops, rfl⟩ := step_does h
  refine ⟨?_, ?_, ?_⟩
  · intro u c mem
    rcases mem_after_stack _ _ _ _ mem with ⟨-, pushed⟩ | old
    · generalize hf : Functor.connectEstablished c = f at pushed
      cases does.setsOut pushed rfl with
      | called l f rest here loop push =>
        rw [push] at pushed
        cases List.mem_singleton.mp pushed
      | connectEstablished connfd change =>
        obtain ⟨head, -, -, push⟩ := does.newConnection change
        have own : t = .loop 0 := confined.tasks t _ (List.mem_of_mem_head? head)
        rw [push, List.mem_singleton] at pushed
        unfold runInLoop at pushed
        split at pushed
        · cases pushed
        · rename_i other
          obtain ⟨same, -⟩ := Task.queueInLoop.inj pushed
          exact other (own.trans (congrArg Tid.loop same))
      | _ => cases hf
    · exact inv.direct u c old
  · intro c mem
    rw [after_sys] at mem
    rcases does.mem_work loops mem with old | queued
    · exact inv.unqueued c old
    · exact inv.direct t c (List.mem_of_mem_head? queued)
  · intro u l c mem
    rcases mem_after_stack _ _ _ _ mem with ⟨rfl, pushed⟩ | old
    · generalize hf : Functor.connectDestroyed c = f at pushed
      cases does.setsOut pushed rfl with
      | called l f rest here loop push =>
        rw [push] at pushed
        cases List.mem_singleton.mp pushed
      | connectDestroyed c why =>
        rcases why with remove | destroy
        · obtain ⟨l, rfl, -, rfl⟩ := confined.tasks u _ (List.mem_of_mem_head? remove)
          rfl
        · exact (does.destroy_quiet rfl destroy).1
      | _ => cases hf
    · exact inv.base u l c old

theorem routed (h : machine.Reachable (Server.new config) s) : s.Routed := by
  refine h.invariant (I := Routed) ⟨?_, ?_, ?_⟩ fun _ _ _ reach inv hs =>
    inv.step (confined reach) hs
  · intro t c mem
    cases new_stack mem
  · intro c mem
    cases mem
  · intro t l c mem
    cases new_stack mem

private theorem filterMap_called_eq_nil {tasks : List Task}
    (none : ∀ task ∈ tasks, ∀ f, task.carries = some f → f.isLife c = false) (l : LoopId) :
    tasks.filterMap (Task.called c) = [] ∧ tasks.filterMap (Task.queued c l) = [] := by
  refine ⟨?_, ?_⟩
  · refine List.filterMap_eq_nil_iff.mpr ?_
    intro task mem
    cases he : task.called c with
    | none => rfl
    | some f =>
      obtain ⟨carries, life⟩ := Task.carries_of_called he
      rw [none task mem f carries] at life
      cases life
  · refine List.filterMap_eq_nil_iff.mpr ?_
    intro task mem
    cases he : task.queued c l with
    | none => rfl
    | some f =>
      obtain ⟨rfl, life⟩ := Task.carries_of_queued he
      rw [none _ mem f rfl] at life
      cases life

private theorem Confined.sends_life (confined : s.Confined) (created : s.Created c) (new : ¬ s.Up c)
    (does : Does s t (s.stack t).head? input eff) {task : Task} {f : Functor}
    (mem : task ∈ eff.push) (carries : task.carries = some f) (life : f.isLife c = true) :
    (∃ l rest, (s.sys l).loop.position = .running (f :: rest) ∧
        eff.loop = some (l, .advance []) ∧ eff.push = [.functor f]) ∨ eff.change = .destroy := by
  cases does.setsOut mem carries with
  | called l f rest here loop push => exact .inl ⟨l, rest, here, loop, push⟩
  | connectEstablished connfd change =>
    rcases Functor.isLife_cases life with same | same
    · cases same
      exact absurd created.2 (Nat.lt_irrefl _)
    · cases same
  | connectDestroyed c' why =>
    rcases why with remove | destroy
    · obtain ⟨l, -, known, -⟩ := confined.tasks t _ (List.mem_of_mem_head? remove)
      rcases Functor.isLife_cases life with same | same
      · cases same
      · cases same
        exact absurd known.2 new
    · exact .inr destroy
  | _ => cases life

private theorem filterMap_tail {α : Type} {f : Task → Option α} {stack : List Task}
    (head : ∀ task ∈ stack.head?, f task = none) : stack.tail.filterMap f = stack.filterMap f := by
  cases stack with
  | nil => rfl
  | cons first rest => rw [List.filterMap_cons_none (head first rfl), List.tail_cons]

theorem after_stack_at (s : Server) (t : Tid) (eff : Effect)
    (sys : LoopId → LoopSystem Tid Functor ChannelRef) (u : Tid) :
    (s.after t eff sys).stack u = if u = t then eff.push ++ (s.stack t).tail else s.stack u := by
  rw [after_stack, Function.update_apply]

theorem mem_stack_after {task : Task} {u : Tid} (mem : task ∈ s.stack u) :
    task ∈ (s.after t eff sys).stack u ∨ u = t ∧ (s.stack t).head? = some task := by
  rw [after_stack_at]
  split
  · rename_i own
    subst own
    cases hs : s.stack u with
    | nil =>
      rw [hs] at mem
      cases mem
    | cons first rest =>
      rw [hs] at mem
      rcases List.mem_cons.mp mem with rfl | behind
      · exact .inr ⟨rfl, rfl⟩
      · exact .inl (List.mem_append_right _ behind)
  · exact .inl mem

private theorem way_called (does : Does s t (s.stack t).head? input eff)
    (loops : s.loopStep eff.loop = some sys) {l : LoopId} {f : Functor} {rest : List Functor}
    (life : f.isLife c = true) (here : (s.sys l).loop.position = .running (f :: rest))
    (loop : eff.loop = some (l, .advance [])) :
    (s.after t eff sys).way c l = s.way c l := by
  have takes : (s.sys l).takes (.advance []) = [f] := by simp [LoopSystem.takes, here]
  obtain ⟨rfl, none, push⟩ := does.takes loop (by rw [takes]; exact List.mem_singleton_self f)
  have empty : s.stack (.loop l) = [] := List.head?_eq_none_iff.mp none
  have work : f :: (sys l).work = (s.sys l).work := by
    have sum := LoopSystem.step_work (step_of_loopStep loops loop)
    rw [takes] at sum
    simpa [LoopInput.emplaced] using sum
  have base : ((s.after (.loop l) eff sys).stack (.loop 0)).filterMap (Task.queued c l) =
      (s.stack (.loop 0)).filterMap (Task.queued c l) := by
    rw [after_stack_at]
    split
    · rename_i zero
      rw [← zero] at empty
      rw [push, ← zero, empty]
      rfl
    · rfl
  unfold way
  rw [base, after_sys, ← work, after_stack_at, if_pos rfl, empty, push]
  simp [Task.called, life]

private theorem way_destroy (routed : s.Routed) (does : Does s t (s.stack t).head? input eff)
    (loops : s.loopStep eff.loop = some sys) {l : LoopId}
    (first : (s.way c l).head? = some (.connectEstablished c)) (destroy : eff.change = .destroy) :
    s.way c l <+: (s.after t eff sys).way c l := by
  obtain ⟨rfl, none, quiet, -⟩ := does.destroy_quiet rfl destroy
  rw [none] at loops
  obtain rfl : s.sys = sys := Option.some.inj loops
  have queued : (s.stack (.loop 0)).filterMap (Task.queued c l) = [] := by
    rcases quiet with same | same <;> rw [same] <;> rfl
  have pool : l ≠ 0 := by
    rintro rfl
    have called : (s.stack (.loop 0)).filterMap (Task.called c) = [] := by
      rcases quiet with same | same <;> rw [same] <;> rfl
    unfold way at first
    rw [called, queued, List.nil_append, List.append_nil] at first
    exact routed.unqueued c (List.mem_of_mem_filter (List.mem_of_mem_head? first))
  unfold way
  rw [queued, List.append_nil, after_sys, after_stack_at, if_neg (by simpa using pool)]
  exact List.prefix_append _ _

private theorem way_queued (does : Does s (.loop 0) (s.stack (.loop 0)).head? input eff)
    (loops : s.loopStep eff.loop = some sys) {l : LoopId} {f : Functor}
    (life : f.isLife c = true) (head : (s.stack (.loop 0)).head? = some (.queueInLoop l f)) :
    (s.after (.loop 0) eff sys).way c l = s.way c l := by
  obtain ⟨rest, stack⟩ := List.head?_eq_some_iff.mp head
  rw [head] at does
  have loop : eff.loop = some (l, .emplaceBack (.loop 0) f) := by rw [does.queueInLoop_eff]
  have push : eff.push = [.queueWakeup l] := by rw [does.queueInLoop_eff]
  have work : (sys l).work = (s.sys l).work ++ [f] := by
    have sum := LoopSystem.step_work (step_of_loopStep loops loop)
    simpa [LoopSystem.takes, LoopInput.emplaced] using sum
  have called : ((s.after (.loop 0) eff sys).stack (.loop l)).filterMap (Task.called c) =
      (s.stack (.loop l)).filterMap (Task.called c) := by
    rw [after_stack_at]
    split
    · rename_i own
      rw [own, stack, push]
      rfl
    · rfl
  unfold way
  rw [called, after_sys, work, after_stack_at, if_pos rfl, stack, push]
  simp [Task.queued, life, List.filterMap_cons]

private theorem way_quiet (confined : s.Confined) (routed : s.Routed)
    (does : Does s t (s.stack t).head? input eff) (loops : s.loopStep eff.loop = some sys)
    {l : LoopId} (goes_on : ∀ f, (s.stack t).head? = some (.functor f) → f.isLife c = false)
    (stays : ∀ f, (s.stack t).head? = some (.queueInLoop l f) → t = .loop 0 → f.isLife c = false)
    (none : ∀ task ∈ eff.push, ∀ f, task.carries = some f → f.isLife c = false) :
    (s.after t eff sys).way c l = s.way c l := by
  obtain ⟨pushed, pushed'⟩ := filterMap_called_eq_nil none l
  have called : ((s.after t eff sys).stack (.loop l)).filterMap (Task.called c) =
      (s.stack (.loop l)).filterMap (Task.called c) := by
    rw [after_stack_at]
    split
    · rename_i own
      rw [own, List.filterMap_append, pushed, List.nil_append]
      refine filterMap_tail ?_
      intro task head
      cases he : task.called c with
      | none => rfl
      | some f =>
        cases task with
        | functor g =>
          obtain ⟨carries, life⟩ := Task.carries_of_called he
          cases carries
          rw [goes_on f head] at life
          cases life
        | _ => cases he
    · rfl
  have queued : ((s.after t eff sys).stack (.loop 0)).filterMap (Task.queued c l) =
      (s.stack (.loop 0)).filterMap (Task.queued c l) := by
    rw [after_stack_at]
    split
    · rename_i base
      rw [base, List.filterMap_append, pushed', List.nil_append]
      refine filterMap_tail ?_
      intro task head
      cases he : task.queued c l with
      | none => rfl
      | some f =>
        obtain ⟨rfl, life⟩ := Task.carries_of_queued he
        rw [stays f head base.symm] at life
        cases life
    · rfl
  have work : (sys l).work.filter (Functor.isLife c) =
      (s.sys l).work.filter (Functor.isLife c) := by
    rcases loopStep_at loops l with ⟨same, -⟩ | ⟨i, here, step⟩
    · rw [same]
    · have sum := congrArg (List.filter (Functor.isLife c)) (LoopSystem.step_work step)
      have taken : ((s.sys l).takes i).filter (Functor.isLife c) = [] := by
        refine List.filter_eq_nil_iff.mpr ?_
        intro f mem
        obtain ⟨-, -, push⟩ := does.takes here mem
        have idle := none (.functor f) (by rw [push]; exact List.mem_cons_self) f rfl
        simp [idle]
      have brought : i.emplaced.toList.filter (Functor.isLife c) = [] := by
        refine List.filter_eq_nil_iff.mpr ?_
        intro f mem life
        have head := does.emplaces here (Option.mem_toList.mp mem)
        have listed := List.mem_of_mem_head? head
        have base : t = .loop 0 := by
          rcases Functor.isLife_cases life with rfl | rfl
          · exact (confined.tasks t _ listed).2 c rfl
          · exact routed.base t l c listed
        rw [stays f head base] at life
        cases life
      rw [List.filter_append, List.filter_append, taken, brought, List.append_nil] at sum
      exact sum
  unfold way
  rw [called, after_sys, work, queued]

/-- A step in which no call of these functors ends leaves them their order: those on the way
stay in front of those sent out now. -/
theorem way_step (confined : s.Confined) (routed : s.Routed) (created : s.Created c)
    (new : ¬ s.Up c) (does : Does s t (s.stack t).head? input eff)
    (loops : s.loopStep eff.loop = some sys) {l : LoopId} (own : (s.conn c).loop_ = l)
    (first : (s.way c l).head? = some (.connectEstablished c))
    (goes_on : ∀ f, (s.stack t).head? = some (.functor f) → f.isLife c = false) :
    s.way c l <+: (s.after t eff sys).way c l := by
  by_cases sends : ∃ task ∈ eff.push, ∃ f, task.carries = some f ∧ f.isLife c = true
  · obtain ⟨task, mem, f, carries, life⟩ := sends
    rcases confined.sends_life created new does mem carries life with
      ⟨l', rest, here, loop, -⟩ | destroy
    · have at_loop := confined.work l' f (by simp [LoopSystem.work, here, Position.batch])
      obtain rfl : l' = l := by
        rcases Functor.isLife_cases life with rfl | rfl
        · exact at_loop.2.trans own
        · exact at_loop.2.trans own
      rw [way_called does loops life here loop]
    · exact way_destroy routed does loops first destroy
  · have none : ∀ task ∈ eff.push, ∀ f, task.carries = some f → f.isLife c = false := by
      intro task mem f carries
      by_contra life
      exact sends ⟨task, mem, f, carries, by simpa using life⟩
    by_cases moves : ∃ f, (s.stack t).head? = some (.queueInLoop l f) ∧ t = .loop 0 ∧
        f.isLife c = true
    · obtain ⟨f, head, rfl, life⟩ := moves
      rw [way_queued does loops life head]
    · have stays : ∀ f, (s.stack t).head? = some (.queueInLoop l f) → t = .loop 0 →
          f.isLife c = false := by
        intro f head base
        by_contra life
        exact moves ⟨f, head, base, by simpa using life⟩
      rw [way_quiet confined routed does loops goes_on stays none]

/-- A connection that is not established has the functor of `connectEstablished` first on its
way, and the last statement of `connectDestroyed` comes after it. -/
structure EstablishedFirst (s : Server) : Prop where
  first : ∀ c, s.Created c → ¬ s.Up c →
    (s.way c (s.conn c).loop_).head? = some (.connectEstablished c)
  removing : ∀ t c, .connectDestroyedRemove c ∈ s.stack t → s.Up c

theorem EstablishedFirst.up_of_destroy (confined : s.Confined) (inv : s.EstablishedFirst)
    (head : (s.stack t).head? = some (.functor (.connectDestroyed c))) : s.Up c := by
  obtain ⟨l, rfl, created, rfl⟩ := confined.tasks t _ (List.mem_of_mem_head? head)
  by_contra new
  have first := inv.first c created new
  obtain ⟨rest, stack⟩ := List.head?_eq_some_iff.mp head
  unfold way at first
  rw [stack] at first
  simp [Task.called, Functor.isLife] at first

private theorem Confined.created_of_carries (confined : s.Confined) {task : Task} {f : Functor}
    (mem : task ∈ s.stack t) (carries : task.carries = some f) (life : f.isLife c = true) :
    s.Created c := by
  have at_thread := confined.tasks t task mem
  cases task with
  | functor g =>
    cases carries
    obtain ⟨l, -, at_loop⟩ := at_thread
    rcases Functor.isLife_cases life with rfl | rfl
    · exact at_loop.1
    · exact at_loop.1
  | queueInLoop l g =>
    cases carries
    rcases Functor.isLife_cases life with rfl | rfl
    · exact at_thread.1.1
    · exact at_thread.1.1
  | _ => cases carries

private theorem way_new (confined : s.Confined) {connfd : Nat}
    (does : Does s t (s.stack t).head? input eff) (new : eff.change = .newConnection connfd) :
    ((s.after t eff s.sys).way s.nextConnId_ s.getNextLoop.1).head? =
      some (.connectEstablished s.nextConnId_) := by
  obtain ⟨head, -, -, push⟩ := does.newConnection new
  obtain rfl : t = .loop 0 := confined.tasks t _ (List.mem_of_mem_head? head)
  generalize hl : s.getNextLoop.1 = l at push ⊢
  generalize hc : s.nextConnId_ = c at push ⊢
  have unknown : ¬ s.Created c := by
    subst hc
    exact fun created => Nat.lt_irrefl _ created.2
  have tasks (u : Tid) : ∀ task ∈ s.stack u, ∀ f, task.carries = some f → f.isLife c = false := by
    intro task mem f carries
    by_contra life
    exact unknown (confined.created_of_carries mem carries (by simpa using life))
  have work : (s.sys l).work.filter (Functor.isLife c) = [] := by
    refine List.filter_eq_nil_iff.mpr ?_
    intro f mem life
    have at_loop := confined.work l f mem
    rcases Functor.isLife_cases life with rfl | rfl
    · exact unknown at_loop.1
    · exact unknown at_loop.1
  have life : (Functor.connectEstablished c).isLife c = true := by simp [Functor.isLife]
  unfold way
  rw [after_sys, work, after_stack_at, after_stack_at, push]
  by_cases base : l = 0
  · subst base
    simp [runInLoop, Task.called, life]
  · have other : Tid.loop l ≠ .loop 0 := by simpa using base
    rw [if_neg other, (filterMap_called_eq_nil (tasks (.loop l)) l).1]
    simp [runInLoop, other.symm, Task.queued, life]

theorem EstablishedFirst.step (confined : s.Confined) (routed : s.Routed)
    (inv : s.EstablishedFirst) (h : machine.step s (t, input) = some s') :
    s'.EstablishedFirst := by
  obtain ⟨eff, sys, does, loops, rfl⟩ := step_does h
  have ext := s.after_extends t eff sys
  refine ⟨?_, ?_⟩
  · intro c created new
    have old_new : ¬ s.Up c := fun up => new (ext.up up)
    rcases created_after created with old | ⟨rfl, connfd, accept⟩
    · rw [ext.loop c old]
      have first := inv.first c old old_new
      have goes_on : ∀ f, (s.stack t).head? = some (.functor f) → f.isLife c = false := by
        intro f head
        by_contra life
        rcases Functor.isLife_cases (by simpa using life) with rfl | rfl
        · have establishes : eff.change = .conn c .connectEstablished := by
            rw [head] at does
            cases does
            rfl
          exact new (up_connectEstablished establishes)
        · exact old_new (inv.up_of_destroy confined head)
      obtain ⟨more, whole⟩ :=
        way_step confined routed old old_new does loops rfl first goes_on
      rw [← whole, List.head?_append, first]
      rfl
    · obtain ⟨-, -, none, -⟩ := does.newConnection accept
      rw [none] at loops
      obtain rfl : s.sys = sys := Option.some.inj loops
      have loop : ((s.after t eff s.sys).conn s.nextConnId_).loop_ = s.getNextLoop.1 := by
        rw [after_conn, accept]
        simp [act, newConnection, TcpConnection.new]
      rw [loop]
      exact way_new confined does accept
  · intro u c mem
    rcases mem_after_stack _ _ _ _ mem with ⟨-, pushed⟩ | old
    · cases does.puts pushed with
      | carrying task f carries => cases carries
      | connectDestroyedRemove c destroyed =>
        rcases destroyed with head | head
        · exact ext.up (inv.up_of_destroy confined head)
        · exact ext.up (confined.tasks t _ (List.mem_of_mem_head? head)).1.2
    · exact ext.up (inv.removing u c old)

theorem establishedFirst (h : machine.Reachable (Server.new config) s) : s.EstablishedFirst := by
  refine h.invariant (I := EstablishedFirst) ⟨?_, ?_⟩ fun _ _ _ reach inv hs =>
    inv.step (confined reach) (routed reach) hs
  · intro c created
    exact absurd created.1 (Nat.not_lt_of_ge (Nat.le_of_lt_succ created.2))
  · intro t c mem
    cases new_stack mem

/-- The step runs `connectEstablished` for the connection `c`. -/
def Establishes (c : ConnId) (s : Server) (i : Tid × Input) : Prop :=
  (s.stack i.1).head? = some (.functor (.connectEstablished c))

/-- The step begins a call of `connectDestroyed` for the connection `c`. -/
def BeginsDestroy (c : ConnId) (s : Server) (i : Tid × Input) : Prop :=
  (s.stack i.1).head? = some (.functor (.connectDestroyed c))

/-- The step is one of `handleRead`, `handleWrite`, `handleClose`, `handleError`, `sendInLoop`,
`shutdownInLoop` or `connectDestroyed` for the connection `c`; a `send` may run `sendInLoop`. -/
def Serves (c : ConnId) (s : Server) (i : Tid × Input) : Prop :=
  match (s.stack i.1).head?, i.2 with
  | some (.callback c' _), _ | some (.handleWriteEnd c'), _ | some (.closeCallback c'), _
  | some (.functor (.sendInLoop c' _ _ _)), _ | some (.functor (.shutdownInLoop c')), _
  | some (.functor (.connectDestroyed c')), _ | some (.connectDestroyedClose c'), _
  | some (.connectDestroyedRemove c'), _ => c' = c
  | some (.user _), .call (.send c' _ _ _) => c' = c
  | _, _ => False

private theorem Does.establishes_iff (does : Does s t (s.stack t).head? input eff) :
    Establishes c s (t, input) ↔ eff.change = .conn c .connectEstablished := by
  constructor
  · intro head
    have head : (s.stack t).head? = some (.functor (.connectEstablished c)) := head
    rw [head] at does
    cases does
    rfl
  · exact does.establish_head

/-- The user knows a connection exactly when `connectEstablished` has run. -/
theorem up_iff_established (run : machine.Run (Server.new config) inputs s) :
    s.Up c ↔ machine.Occurred (Establishes c) (Server.new config) inputs := by
  induction run with
  | nil =>
    constructor
    · intro up
      cases up
    · intro h
      exact absurd h Lib.Machine.not_occurred_nil
  | @snoc inputs s s' i run hs ih =>
    obtain ⟨t, input⟩ := i
    obtain ⟨eff, sys, does, -, rfl⟩ := step_does hs
    rw [run.occurred_snoc, does.establishes_iff, ← ih]
    constructor
    · exact up_after
    · rintro (old | establish)
      · exact (s.after_extends t eff sys).up old
      · exact up_connectEstablished establish

private theorem up_of_serves (reach : machine.Reachable (Server.new config) s)
    (does : Does s t (s.stack t).head? input eff) (serves : Serves c s (t, input)) : s.Up c := by
  have confined := confined reach
  have first := establishedFirst reach
  have listed {task : Task} (head : (s.stack t).head? = some task) :
      task ∈ s.stack t ∧ task.At s t := by
    have mem := List.mem_of_mem_head? head
    exact ⟨mem, confined.tasks t task mem⟩
  unfold Serves at serves
  split at serves
  case h_1 c' k head =>
    subst serves
    exact (listed head).2.1.2
  case h_2 c' head =>
    subst serves
    exact (listed head).2.1.2
  case h_3 c' head =>
    subst serves
    exact (listed head).2.1.2
  case h_4 c' p len call head =>
    subst serves
    obtain ⟨l, -, known, -⟩ := (listed head).2
    exact known.2
  case h_5 c' head =>
    subst serves
    obtain ⟨l, -, known, -⟩ := (listed head).2
    exact known.2
  case h_6 c' head =>
    subst serves
    exact first.up_of_destroy confined head
  case h_7 c' head =>
    subst serves
    exact (listed head).2.1.2
  case h_8 c' head =>
    subst serves
    exact first.removing t c' (listed head).1
  case h_9 m c' p len r head call =>
    subst serves
    dsimp only at call
    subst call
    rw [head] at does
    cases does with
    | send t m c p len r up connected own fits => exact up
    | sendElsewhere t m c p len r up connected other => exact up
    | sendLate t m c p len r up state => exact up
  case h_10 => exact serves.elim

/-- A call of `connectDestroyed` is to come or under way. -/
def Destroying (s : Server) (c : ConnId) : Prop :=
  s.InFlight (.connectDestroyed c) ∨ (∃ t, .connectDestroyedClose c ∈ s.stack t) ∨
    ∃ t, .connectDestroyedRemove c ∈ s.stack t

private theorem alive_before (change : Change) (alive : (s.act change).destroyed = false) :
    s.destroyed = false ∧ change ≠ .destroy := by
  cases change with
  | destroy => cases alive
  | nothing | conn c op | acceptor op | fillActiveChannels active | newConnection connfd | erase c
  | store p byte => exact ⟨alive, by simp⟩

private theorem destroying_of_head
    (head : (s.stack t).head? = some (.functor (.connectDestroyed c)) ∨
      (s.stack t).head? = some (.connectDestroyedClose c)) : s.Destroying c := by
  rcases head with head | head
  · exact .inl (.inl ⟨t, _, List.mem_of_mem_head? head, rfl⟩)
  · exact .inr (.inl ⟨t, List.mem_of_mem_head? head⟩)

theorem Destroying.origin (destroying : (s.after t eff sys).Destroying c)
    (alive : eff.change ≠ .destroy) (does : Does s t (s.stack t).head? input eff)
    (loops : s.loopStep eff.loop = some sys) : s.Destroying c ∨ Removes c s (t, input) := by
  rcases destroying with flight | ⟨u, mem⟩ | ⟨u, mem⟩
  · rcases flight.origin does loops with old | ⟨task, pushed, carries⟩
    · exact .inl (.inl old)
    · generalize hf : Functor.connectDestroyed c = f at carries
      cases does.setsOut pushed carries with
      | called l f rest here loop push =>
        rw [← hf] at here
        exact .inl (.inl (inFlight_running here))
      | connectDestroyed c' why =>
        cases hf
        rcases why with remove | destroy
        · exact .inr remove
        · exact absurd destroy alive
      | _ => cases hf
  · rcases mem_after_stack _ _ _ _ mem with ⟨-, pushed⟩ | old
    · cases does.puts pushed with
      | carrying task f carries => cases carries
      | connectDestroyedClose c head => exact .inl (destroying_of_head (.inl head))
    · exact .inl (.inr (.inl ⟨u, old⟩))
  · rcases mem_after_stack _ _ _ _ mem with ⟨-, pushed⟩ | old
    · cases does.puts pushed with
      | carrying task f carries => cases carries
      | connectDestroyedRemove c head => exact .inl (destroying_of_head head)
    · exact .inl (.inr (.inr ⟨u, old⟩))

private theorem removed_of_destroying (run : machine.Run (Server.new config) inputs s) :
    s.destroyed = false → ∀ c, s.Destroying c →
      machine.Occurred (Removes c) (Server.new config) inputs := by
  induction run with
  | nil =>
    intro _ c destroying
    rcases destroying with (⟨t, task, mem, carries⟩ | ⟨l, mem⟩) | ⟨t, mem⟩ | ⟨t, mem⟩
    · cases new_stack mem <;> cases carries
    · cases mem
    · cases new_stack mem
    · cases new_stack mem
  | @snoc inputs s s' i run hs ih =>
    obtain ⟨t, input⟩ := i
    obtain ⟨eff, sys, does, loops, rfl⟩ := step_does hs
    intro alive c destroying
    obtain ⟨before, other⟩ := alive_before eff.change alive
    rw [run.occurred_snoc]
    exact (destroying.origin other does loops).imp_left (ih before c)

/-- `connectEstablished` runs at most once for a connection, and nothing of the connection runs
before it; before `~TcpServer`, `connectDestroyed` begins only after `removeConnectionInLoop` has
erased the connection from `connections_`. -/
theorem establish_first (config : ServerConfig) (inputs : List (Tid × Input)) (s : Server)
    (run : machine.Run (Server.new config) inputs s) (i : Tid × Input) (s' : Server)
    (step : machine.step s i = some s') (c : ConnId) :
    (Establishes c s i → ¬ machine.Occurred (Establishes c) (Server.new config) inputs) ∧
    (Serves c s i → machine.Occurred (Establishes c) (Server.new config) inputs) ∧
    (s.destroyed = false → BeginsDestroy c s i →
      machine.Occurred (Removes c) (Server.new config) inputs ∧
        ∀ entry ∈ s.connections_, entry.2 ≠ c) := by
  obtain ⟨t, input⟩ := i
  obtain ⟨eff, sys, does, loops, -⟩ := step_does step
  rw [← up_iff_established run]
  refine ⟨?_, ?_, ?_⟩
  · intro establishes
    exact not_up_of_establish run.reachable (List.mem_of_mem_head? establishes)
  · exact up_of_serves run.reachable does
  · intro alive begins
    have removed := removed_of_destroying run alive c (destroying_of_head (.inl begins))
    refine ⟨removed, ?_⟩
    rintro ⟨name, c'⟩ mem rfl
    exact ((roster run).entries name _ mem).2.2 removed

/-- In the run of `closingOnce`, `connectDestroyed` begins two steps before the end. -/
theorem establish_first_once : ∃ s, machine.Run (Server.new oneLoop) (closingOnce.take 54) s ∧
    BeginsDestroy 1 s (.loop 1, .run) ∧
    machine.Occurred (Establishes 1) (Server.new oneLoop) (closingOnce.take 54) ∧
    machine.Occurred (Removes 1) (Server.new oneLoop) (closingOnce.take 54) := by
  obtain ⟨s, run, begins, alive, goes_on⟩ := machine.exists_run (.new oneLoop)
    (closingOnce.take 54)
    (fun s => (s.stack (.loop 1)).head? = some (.functor (.connectDestroyed 1)) ∧
      s.destroyed = false ∧ (machine.step s (.loop 1, .run)).isSome = true) (by decide +kernel)
  obtain ⟨s', step⟩ := Option.isSome_iff_exists.mp goes_on
  obtain ⟨-, serves, destroys⟩ :=
    establish_first oneLoop (closingOnce.take 54) s run (.loop 1, .run) s' step 1
  have serving : Serves 1 s (.loop 1, .run) := by
    unfold Serves
    rw [begins]
  exact ⟨s, run, begins, serves serving, (destroys alive begins).1⟩

end Server

end TcpMuduo
