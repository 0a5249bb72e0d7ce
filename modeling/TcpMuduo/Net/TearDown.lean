import TcpMuduo.Net.InFlight
import TcpMuduo.Net.Quit
import TcpMuduo.Net.ThreadPool

/-!
`~TcpServer`: it queues `connectDestroyed` to the loop of every connection and
then quits and joins the loops of the pool. A loop that has run its last batch
when the functors arrive and the flag is stored returns without calling them.
-/

set_option autoImplicit false
set_option relaxedAutoImplicit false

namespace TcpMuduo

namespace Server

variable {s s' : Server} {t : Tid} {input : Input} {eff : Effect} {config : ServerConfig}

/-- No `quit` stores its flag between the last swap of a loop and the loop's test with a functor
left in the queue whose `queueInLoop` has returned. -/
def Timely (s : Server) (i : Tid × Input) : Prop :=
  ∀ l, (s.stack i.1).head? = some (.quit l) → (s.sys l).Timely (.storeQuit i.1)

instance (s : Server) (i : Tid × Input) : Decidable (s.Timely i) :=
  match first : (s.stack i.1).head? with
  | some task =>
    match task with
    | .quit l =>
      decidable_of_iff ((s.sys l).Timely (.storeQuit i.1)) (by simp [Timely, first])
    | .user _ | .functor _ | .queueInLoop _ _ | .queueWakeup _ | .quitWakeup _ | .join _
    | .startLoop _ | .accept | .acceptChannel _ | .callback _ _ | .handleWriteEnd _
    | .closeCallback _ | .connectDestroyedClose _ | .connectDestroyedRemove _
    | .shutdownStore _ => .isTrue (by simp [Timely, first])
  | none => .isTrue (by simp [Timely, first])

/-- Every connection that was registered in `s₀` has been destroyed on its loop, and every
promised functor executed, by the time `loop()` returns. -/
structure TornDown (s₀ s : Server) : Prop where
  destroyed : ∀ entry ∈ s₀.connections_,
    (s.sys (s₀.conn entry.2).loop_).loop.position = .stopped →
      .connectDestroyed entry.2 ∈ (s.sys (s₀.conn entry.2).loop_).loop.executed
  promises : ∀ l, (s.sys l).loop.position = .stopped → (s.sys l).PromisesKept

theorem Does.storeQuit {head : Option Task} {l : LoopId} {u : Tid}
    (does : Does s t head input eff) (h : eff.loop = some (l, .storeQuit u)) :
    head = some (.quit l) ∧ u = t := by
  cases does <;> cases h
  exact ⟨rfl, rfl⟩

theorem Does.quit_loop {l : LoopId} (does : Does s t (some (.quit l)) input eff) :
    eff.loop = some (l, .storeQuit t) := by
  cases does
  rfl

private theorem loops_promises (h : machine.Reachable (Server.new config) s) (l : LoopId) :
    (s.sys l).Promises :=
  (loops_reachable h l).invariant (LoopSystem.new_promises _ _) fun _ _ _ _ inv hs => inv.step hs

/-- Along timely steps every loop that is told to quit has taken in what is promised. -/
theorem caught_step (inv : ∀ l, (s.sys l).Promises) (caught : ∀ l, (s.sys l).Caught)
    (timely : s.Timely (t, input)) (h : machine.step s (t, input) = some s') :
    ∀ l, (s'.sys l).Caught := by
  obtain ⟨eff, sys, does, loops, rfl⟩ := step_does h
  intro l
  rw [after_sys]
  rcases loopStep_at loops l with ⟨same, -⟩ | ⟨i, here, step⟩
  · exact same ▸ caught l
  · refine (caught l).step (inv l) ?_ step
    cases i with
    | storeQuit u =>
      obtain ⟨head, rfl⟩ := does.storeQuit here
      exact timely l head
    | emplaceBack | queueWakeup | quitWakeup | advance => trivial

private theorem loops_caught {inputs : List (Tid × Input)}
    (run : machine.Run (Server.new config) inputs s)
    (timely : machine.StepsMeet Timely (Server.new config) inputs) :
    ∀ l, (s.sys l).Caught := by
  refine run.invariant_of_stepsMeet (I := fun _ s => ∀ l, (s.sys l).Caught) timely
    (fun _ quit => by cases quit) ?_
  intro _ m i m' before caught timely hs
  exact caught_step (loops_promises before.reachable) caught timely hs

/-- The loops of the pool are not told to quit before `~TcpServer`. -/
def Undisturbed (s : Server) : Prop :=
  s.destroyed = false → ∀ l, l ≠ 0 →
    (s.sys l).loop.quit_ = false ∧ ∀ t, .quit l ∉ s.stack t

private theorem Does.push_quit {head : Option Task} {l : LoopId} (does : Does s t head input eff)
    (h : .quit l ∈ eff.push) : l = 0 ∨ eff.change = .destroy := by
  cases does.puts h with
  | carrying task f carries => cases carries
  | quit l may => exact may

theorem Does.once {head : Option Task} (does : Does s t head input eff)
    (h : eff.change = .destroy) : s.destroyed = false := by
  cases does with
  | destroy order may | userDestroy order alone may => exact may.2.1
  | _ => cases h

theorem Undisturbed.step (inv : s.Undisturbed)
    (h : machine.step s (t, input) = some s') : s'.Undisturbed := by
  obtain ⟨eff, sys, does, loops, rfl⟩ := step_does h
  intro alive l pool
  have before : s.destroyed = false ∧ eff.change ≠ .destroy := by
    change (s.act eff.change).destroyed = false at alive
    cases hc : eff.change <;> rw [hc] at alive <;> first | exact ⟨alive, by simp⟩ | cases alive
  obtain ⟨running, none⟩ := inv before.1 l pool
  constructor
  · rw [after_sys]
    rcases loopStep_at loops l with ⟨same, -⟩ | ⟨i, here, step⟩
    · exact same ▸ running
    · by_contra quit
      rcases LoopSystem.step_quit step (by simpa using quit) with old | ⟨u, rfl⟩
      · rw [running] at old
        cases old
      · exact none t (List.mem_of_mem_head? (does.storeQuit here).1)
  · intro u mem
    rcases mem_after_stack _ _ _ _ mem with ⟨-, pushed⟩ | old
    · rcases does.push_quit pushed with base | destroy
      · exact pool base
      · exact before.2 destroy
    · exact none u old

private theorem undisturbed (h : machine.Reachable (Server.new config) s) : s.Undisturbed := by
  refine h.invariant (I := Undisturbed) ?_ fun _ _ _ _ inv hs => inv.step hs
  intro _ l pool
  refine ⟨rfl, ?_⟩
  intro t mem
  cases new_stack mem

/-- With sub-loops no connection is on the base loop. -/
def Pooled (s : Server) : Prop :=
  s.config.numThreads_ ≠ 0 →
    s.next_ < s.config.numThreads_ ∧ ∀ c, s.Created c → (s.conn c).loop_ ≠ 0

private theorem pooled (h : machine.Reachable (Server.new config) s) : s.Pooled := by
  intro some
  obtain ⟨inputs, run⟩ := h
  have inv := rotates run
  have size := s.config.length_loops
  have pool : s.config.loops_ ≠ [] := by
    intro none
    rw [none] at size
    exact some size.symm
  refine ⟨?_, fun c created => inv.loop_pool pool created⟩
  rw [inv.turn pool, ← size]
  exact Lib.mod_length_lt pool _

end Server

def Task.HandsOver : Task → Prop
  | .queueInLoop _ (.connectDestroyed _) => True
  | _ => False

def Task.StopsPool : Task → Prop
  | .quit l => l ≠ 0
  | _ => False

/-- All connections are handed over before a loop is stopped. -/
def Ordered (stack : List Task) : Prop :=
  stack.Pairwise fun first later => first.StopsPool → ¬ later.HandsOver

theorem Ordered.append {front back : List Task} (none : ∀ task ∈ front, ¬ task.StopsPool)
    (ordered : Ordered back) : Ordered (front ++ back) := by
  induction front with
  | nil => exact ordered
  | cons task front ih =>
    have left := ih fun task mem => none task (List.mem_cons_of_mem _ mem)
    exact List.Pairwise.cons (fun _ _ stops => absurd stops (none task List.mem_cons_self)) left

namespace Server

variable {s s' s₀ s₁ : Server} {t : Tid} {input : Input} {eff : Effect} {config : ServerConfig}

/-- `~TcpServer` is under way or done: every `connectDestroyed` is among the calls that the base
thread has still to make or in its queue, and a loop that is told to quit has been handed all of
its own. -/
structure TearingDown (s₀ s : Server) : Prop where
  once : s.destroyed = true
  ordered : Ordered (s.stack (.loop 0))
  handed : ∀ entry ∈ s₀.connections_,
    .queueInLoop (s₀.conn entry.2).loop_ (.connectDestroyed entry.2) ∈ s.stack (.loop 0) ∨
      (s.sys (s₀.conn entry.2).loop_).Handed (.loop 0) (.connectDestroyed entry.2)
  promised : ∀ entry ∈ s₀.connections_, (s.sys (s₀.conn entry.2).loop_).loop.quit_ = true →
    (s.sys (s₀.conn entry.2).loop_).Promised (.connectDestroyed entry.2)

private theorem ordered_destructor {order : List ConnId} {back : List Task}
    (user : ∀ task ∈ back, task = .user none) : Ordered (s.destructor order ++ back) := by
  rw [destructor, List.append_assoc, List.append_assoc]
  refine Ordered.append ?_ ?_
  · intro task mem stops
    obtain ⟨c, -, rfl⟩ := List.mem_map.mp mem
    unfold runInLoop at stops
    split at stops <;> exact stops
  · refine List.pairwise_of_forall_mem_list ?_
    intro _ _ task mem _ hands
    simp only [List.mem_append, List.mem_flatMap, List.mem_cons, List.not_mem_nil,
      or_false] at mem
    rcases mem with ⟨l, -, rfl | rfl⟩ | (rfl | rfl) | mem
    · exact hands
    · exact hands
    · exact hands
    · exact hands
    · rw [user task mem] at hands
      exact hands

theorem Does.destroyed {order : List ConnId}
    (does : Does s t (s.stack t).head? (.destroy order) eff) :
    t = .loop 0 ∧ s.MayDestroy order ∧ eff.change = .destroy ∧ eff.loop = none ∧
      (s.stack t).tail = [] ∧ ∃ back, eff.push = s.destructor order ++ back ∧
        ∀ task ∈ back, task = .user none := by
  generalize first : (s.stack t).head? = head at does
  cases does with
  | destroy order may =>
    have idle : s.stack (.loop 0) = [] := List.head?_eq_none_iff.mp first
    exact ⟨rfl, may, rfl, rfl, by rw [idle]; rfl, [], (List.append_nil _).symm, by simp⟩
  | userDestroy order alone may =>
    exact ⟨rfl, may, rfl, rfl, by rw [alone]; rfl, [.user none], rfl, by simp⟩

private theorem tearingDown_start {order : List ConnId} (quiet : s₀.Undisturbed)
    (pool : ∀ entry ∈ s₀.connections_, (s₀.conn entry.2).loop_ ≠ 0)
    (h : machine.step s₀ (.loop 0, .destroy order) = some s₁) : TearingDown s₀ s₁ := by
  obtain ⟨eff, sys, does, loops, rfl⟩ := step_does h
  obtain ⟨-, ⟨-, once, perm⟩, change, loop, alone, back, push, user⟩ := does.destroyed
  rw [loop] at loops
  obtain rfl : s₀.sys = sys := Option.some.inj loops
  have stack : (s₀.after (.loop 0) eff s₀.sys).stack (.loop 0) = s₀.destructor order ++ back := by
    rw [after_stack, Function.update_self, alone, push, List.append_nil]
  refine ⟨?_, stack ▸ ordered_destructor user, ?_, ?_⟩
  · change (s₀.act eff.change).destroyed = true
    rw [change]
    rfl
  · intro entry listed
    refine .inl ?_
    have mem : entry.2 ∈ order := perm.symm.subset (List.mem_map_of_mem listed)
    have elsewhere : runInLoop (.loop 0) (s₀.conn entry.2).loop_ (.connectDestroyed entry.2)
        = .queueInLoop (s₀.conn entry.2).loop_ (.connectDestroyed entry.2) :=
      if_neg (by simpa using (pool entry listed).symm)
    rw [stack, ← elsewhere, destructor, List.append_assoc, List.append_assoc]
    exact List.mem_append_left _ (List.mem_map_of_mem mem)
  · intro entry listed quit
    rw [after_sys, (quiet once _ (pool entry listed)).1] at quit
    cases quit

/-- When the base thread comes to the first `quit`, everything has been handed over. -/
theorem TearingDown.settled (inv : TearingDown s₀ s) {l : LoopId} (pool : l ≠ 0)
    (head : (s.stack (.loop 0)).head? = some (.quit l)) {entry : String × ConnId}
    (listed : entry ∈ s₀.connections_) :
    (s.sys (s₀.conn entry.2).loop_).Handed (.loop 0) (.connectDestroyed entry.2) := by
  refine (inv.handed entry listed).resolve_left ?_
  intro mem
  have ordered := inv.ordered
  obtain ⟨tail, stack⟩ := List.head?_eq_some_iff.mp head
  rw [stack] at mem ordered
  rcases List.mem_cons.mp mem with same | mem
  · cases same
  · exact (List.pairwise_cons.mp ordered).1 _ mem pool trivial

private theorem TearingDown.ordered_step (inv : TearingDown s₀ s)
    (does : Does s t (s.stack t).head? input eff)
    (sys : LoopId → LoopSystem Tid Functor ChannelRef) :
    Ordered ((s.after t eff sys).stack (.loop 0)) := by
  rw [after_stack]
  by_cases own : t = .loop 0
  · subst own
    rw [Function.update_self]
    refine Ordered.append ?_ (inv.ordered.sublist (List.tail_sublist _))
    intro task mem stops
    cases task with
    | quit l =>
      rcases does.push_quit mem with base | destroy
      · exact stops base
      · have again := does.once destroy
        rw [inv.once] at again
        cases again
    | _ => exact stops
  · rw [Function.update_of_ne (Ne.symm own)]
    exact inv.ordered

theorem TearingDown.step (confined : s.Confined) (inv : TearingDown s₀ s)
    (pool : ∀ entry ∈ s₀.connections_, (s₀.conn entry.2).loop_ ≠ 0)
    (h : machine.step s (t, input) = some s') : TearingDown s₀ s' := by
  obtain ⟨eff, sys, does, loops, rfl⟩ := step_does h
  refine ⟨?_, inv.ordered_step does sys, ?_, ?_⟩
  · change (s.act eff.change).destroyed = true
    cases eff.change <;> first | exact inv.once | rfl
  · intro entry listed
    rw [after_sys]
    have keep (handed : (s.sys (s₀.conn entry.2).loop_).Handed (.loop 0)
        (.connectDestroyed entry.2)) :
        (sys (s₀.conn entry.2).loop_).Handed (.loop 0) (.connectDestroyed entry.2) := by
      rcases loopStep_at loops (s₀.conn entry.2).loop_ with ⟨same, -⟩ | ⟨i, -, step⟩
      · exact same ▸ handed
      · exact handed.step step
    rcases inv.handed entry listed with mem | handed
    · by_cases own : t = .loop 0
      · subst own
        rw [after_stack, Function.update_self]
        cases hs : s.stack (.loop 0) with
        | nil =>
          rw [hs] at mem
          cases mem
        | cons task rest =>
          rw [hs] at mem does
          rcases List.mem_cons.mp mem with rfl | mem
          · -- the functor is appended to its queue by this step
            obtain rfl := does.queueInLoop_eff
            exact .inr (LoopSystem.handed_of_emplaceBack (step_of_loopStep loops rfl))
          · exact .inl (List.mem_append_right _ mem)
      · rw [after_stack, Function.update_of_ne (Ne.symm own)]
        exact .inl mem
    · exact .inr (keep handed)
  · intro entry listed quit
    rw [after_sys] at quit ⊢
    rcases loopStep_at loops (s₀.conn entry.2).loop_ with ⟨same, -⟩ | ⟨i, here, step⟩
    · rw [same] at quit ⊢
      exact inv.promised entry listed quit
    · rcases LoopSystem.step_quit step quit with old | ⟨u, rfl⟩
      · exact (inv.promised entry listed old).step step
      · obtain ⟨head, rfl⟩ := does.storeQuit here
        have caller : u = .loop 0 :=
          (confined.tasks u _ (List.mem_of_mem_head? head)).resolve_left (pool entry listed)
        subst caller
        exact (inv.settled (pool entry listed) head listed).promised step

/-- `~TcpServer` reaches every connection: in every state of every run in which each `quit` is
timely, a loop that has returned has executed `connectDestroyed` of all its connections and all
functors promised to it. Conversely, when every loop told to quit has returned, this holds only
if each `quit` was timely. -/
theorem tearDown_reaches (config : ServerConfig) (subLoops : config.numThreads_ ≠ 0)
    (before after : List (Tid × Input)) (order : List ConnId) (s₀ s₁ s : Server)
    (run₀ : machine.Run (Server.new config) before s₀)
    (destroy : machine.step s₀ (.loop 0, .destroy order) = some s₁)
    (run : machine.Run s₁ after s) :
    (machine.StepsMeet Timely (Server.new config)
        (before ++ [(.loop 0, .destroy order)] ++ after) → TornDown s₀ s) ∧
      ((∀ l, (s.sys l).loop.quit_ = true → (s.sys l).loop.position = .stopped) →
        TornDown s₀ s → machine.StepsMeet Timely (Server.new config)
          (before ++ [(.loop 0, .destroy order)] ++ after)) := by
  have whole := (run₀.snoc destroy).append run
  have promises := loops_promises whole.reachable
  constructor
  · intro timely
    have caught := loops_caught whole timely
    have pool : ∀ entry ∈ s₀.connections_, (s₀.conn entry.2).loop_ ≠ 0 := fun entry listed =>
      (pooled run₀.reachable (by rw [reachable_config run₀.reachable]; exact subLoops)).2 _
        ((confined run₀.reachable).registry entry listed)
    have tearing : s.Confined ∧ TearingDown s₀ s := by
      refine run.reachable.invariant (I := fun s => s.Confined ∧ TearingDown s₀ s)
        ⟨confined (run₀.snoc destroy).reachable,
          tearingDown_start (undisturbed run₀.reachable) pool destroy⟩ ?_
      intro m i m' _ inv hs
      exact ⟨inv.1.step hs, inv.2.step inv.1 pool hs⟩
    have kept (l : LoopId) (stopped : (s.sys l).loop.position = .stopped) :=
      (caught l).kept (promises l) stopped
    refine ⟨?_, kept⟩
    intro entry listed stopped
    have quit := (promises (s₀.conn entry.2).loop_).stopped stopped
    exact (tearing.2.promised entry listed quit).executed (promises _) (kept _ stopped)
  · intro ended torn
    refine whole.stepsMeet ?_
    intro pre m i next post _ before hs rest l head
    by_contra late
    have forgotten : (next.sys l).Forgotten := by
      obtain ⟨eff, sys, does, loops, rfl⟩ := step_does (t := i.1) (a := i.2) hs
      rw [head] at does
      rcases loopStep_at loops l with ⟨-, none⟩ | ⟨j, here, step⟩
      · exact absurd does.quit_loop (none _)
      · rw [does.quit_loop] at here
        cases here
        exact LoopSystem.forgotten_of_not_timely late step
    have still : (s.sys l).Forgotten :=
      ((loop_simulation l).reachable rest.reachable).invariant forgotten
        fun _ _ _ _ inv step => inv.step step
    have stopped := ended l still.1
    exact still.not_kept (promises l) stopped (torn.promises l stopped)

/-- The user stops the base loop, and the sub-loop goes on until it waits. -/
def tearDownWaiting : List (Tid × Input) :=
  establishing ++ [(.user 0, .call .quit)] ++ steps (.user 0) 2 ++ steps (.loop 0) 4 ++
    steps (.loop 1) 3

/-- The functor and the flag arrive while the sub-loop waits. -/
def destroyWaiting : List (Tid × Input) :=
  steps (.loop 0) 4 ++ [(.loop 1, .poll [(.wakeup, EPOLLIN)])] ++ steps (.loop 1) 11

theorem tearDown_reaches_waiting :
    ∃ s₀ s₁ s, machine.Run (Server.new oneLoop) tearDownWaiting s₀ ∧
      machine.step s₀ (.loop 0, .destroy [1]) = some s₁ ∧ machine.Run s₁ destroyWaiting s ∧
      (s.sys 1).loop.position = .stopped ∧ TornDown s₀ s := by
  obtain ⟨s, run, stopped⟩ := machine.exists_run (.new oneLoop)
    (tearDownWaiting ++ [(.loop 0, .destroy [1])] ++ destroyWaiting)
    (fun s => (s.sys 1).loop.position = .stopped) (by decide +kernel)
  have timely : machine.StepsMeet Timely (Server.new oneLoop)
      (tearDownWaiting ++ [(.loop 0, .destroy [1])] ++ destroyWaiting) :=
    Lib.Machine.stepsMeet_of_checks (by decide +kernel)
  obtain ⟨s₁, first, rest⟩ := run.split
  obtain ⟨s₀, start, destroy⟩ := Lib.Machine.run_snoc_iff.mp first
  exact ⟨s₀, s₁, s, start, destroy, rest, stopped,
    (tearDown_reaches oneLoop (by decide) _ _ _ _ _ _ start destroy rest).1 timely⟩

/-- As before, but the sub-loop goes on until it has swapped an empty queue. -/
def tearDownBehindSwap : List (Tid × Input) :=
  tearDownWaiting ++ [(.loop 1, .poll [])] ++ steps (.loop 1) 2

/-- The base thread queues `connectDestroyed` and stores the flag, and the sub-loop tests it. -/
def destroyBehindSwap : List (Tid × Input) := steps (.loop 0) 3 ++ steps (.loop 1) 2

/-- The connection is left in the queue of a loop that has returned. -/
theorem tearDown_forgets :
    ∃ s₀ s₁ s, machine.Run (Server.new oneLoop) tearDownBehindSwap s₀ ∧
      machine.step s₀ (.loop 0, .destroy [1]) = some s₁ ∧ machine.Run s₁ destroyBehindSwap s ∧
      s₀.connections_ = [("EchoServer-127.0.0.1:8002#1", 1)] ∧
      (s.sys 1).loop.position = .stopped ∧
      .connectDestroyed 1 ∉ (s.sys 1).loop.executed ∧ ¬ TornDown s₀ s := by
  obtain ⟨s₀, start, entry, loop⟩ := machine.exists_run (.new oneLoop) tearDownBehindSwap
    (fun s => s.connections_ = [("EchoServer-127.0.0.1:8002#1", 1)] ∧ (s.conn 1).loop_ = 1)
    (by decide +kernel)
  obtain ⟨s, run, here, missing⟩ := machine.exists_run (.new oneLoop)
    (tearDownBehindSwap ++ [(.loop 0, .destroy [1])] ++ destroyBehindSwap)
    (fun s => (s.sys 1).loop.position = .stopped ∧
      .connectDestroyed 1 ∉ (s.sys 1).loop.executed) (by decide +kernel)
  obtain ⟨s₁, destroy, rest⟩ := run.step_at start
  refine ⟨s₀, s₁, s, start, destroy, rest, entry, here, missing, ?_⟩
  intro torn
  have executed := torn.destroyed ("EchoServer-127.0.0.1:8002#1", 1) (by simp [entry])
  rw [loop] at executed
  exact missing (executed here)

end Server

end TcpMuduo
