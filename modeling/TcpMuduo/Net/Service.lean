import TcpMuduo.Net.Establishment
import TcpMuduo.Net.Pollers
import TcpMuduo.Net.Rounds

/-!
The loops of a server in their rounds: what a loop has been given at one visit
of `epoll_wait` has been run at the next, a loop that is told to quit does, and
no loop sleeps on its work.
-/

set_option autoImplicit false
set_option relaxedAutoImplicit false

namespace TcpMuduo

def Position.Aside {F H : Type} : Position F H → Prop
  | .created | .handling _ _ | .calling _ _ | .stopped => True
  | _ => False

namespace Server

variable {s s' : Server} {t : Tid} {input : Input} {eff : Effect} {config : ServerConfig}
variable {sys : LoopId → LoopSystem Tid Functor ChannelRef} {i : Tid × Input}
variable {inputs : List (Tid × Input)}

theorem step_effect (h : machine.step s i = some s') : ∃ eff sys,
    s.effect i.1 i.2 = some eff ∧ s.loopStep eff.loop = some sys ∧ s' = s.after i.1 eff sys := by
  simp only [machine, step] at h
  obtain ⟨eff, effect, h⟩ := Option.bind_eq_some_iff.mp h
  obtain ⟨sys, loops, rfl⟩ := Option.map_eq_some_iff.mp h
  exact ⟨eff, sys, effect, loops, rfl⟩

/-- The step of the loop `l` that a step of the server makes. -/
def inputOf (l : LoopId) (s : Server) (i : Tid × Input) :
    List (LoopInput Tid Functor ChannelRef) :=
  match (s.effect i.1 i.2).bind Effect.loop with
  | some (l', input) => if l' = l then [input] else []
  | none => []

theorem inputOf_eq_nil {l : LoopId} (effect : s.effect i.1 i.2 = some eff)
    (other : ∀ input, eff.loop ≠ some (l, input)) : s.inputOf l i = [] := by
  cases hl : eff.loop with
  | none => simp [inputOf, effect, hl]
  | some named =>
    obtain ⟨l', input⟩ := named
    have apart : l' ≠ l := by
      rintro rfl
      exact other input hl
    simp [inputOf, effect, hl, apart]

theorem inputOf_eq_singleton {l : LoopId} {a : LoopInput Tid Functor ChannelRef}
    (effect : s.effect i.1 i.2 = some eff) (here : eff.loop = some (l, a)) :
    s.inputOf l i = [a] := by
  simp [inputOf, effect, here]

private theorem step_loop (l : LoopId) (s : Server) (i : Tid × Input) (s' : Server)
    (h : machine.step s i = some s') :
    (LoopSystem.machine true).Run (s.sys l) (s.inputOf l i) (s'.sys l) := by
  obtain ⟨eff, sys, effect, loops, rfl⟩ := step_effect h
  rw [after_sys]
  rcases loopStep_at loops l with ⟨same, other⟩ | ⟨input, here, step⟩
  · rw [inputOf_eq_nil effect other, same]
    exact .nil
  · rw [inputOf_eq_singleton effect here]
    exact Lib.Machine.Run.cons step .nil

theorem run_loop (run : machine.Run s inputs s') (l : LoopId) :
    (LoopSystem.machine true).Run (s.sys l) (machine.collect (inputOf l) s inputs) (s'.sys l) :=
  Lib.Machine.Run.project (A := LoopSystem.machine true) (step_loop l) run

/-- The loop `l` returns from `epoll_wait`. -/
def PollsOn (l : LoopId) (s : Server) (i : Tid × Input) : Prop :=
  i.1 = .loop l ∧ (s.sys l).loop.position = .polling ∧ ∃ active, i.2 = .poll active

private theorem polls_loop (l : LoopId) (s : Server) (i : Tid × Input) (s' : Server)
    (h : machine.step s i = some s') (polls : s.PollsOn l i) :
    (LoopSystem.machine true).Occurred LoopSystem.Polls (s.sys l) (s.inputOf l i) := by
  obtain ⟨t, input⟩ := i
  obtain ⟨rfl, waits, active, rfl⟩ := polls
  obtain ⟨eff, sys, effect, loops, rfl⟩ := step_effect h
  have loop : eff.loop = some (l, .advance (active.map Prod.fst)) := by
    have does := effect_does effect
    generalize (s.stack (.loop l)).head? = head at does
    cases does
    rfl
  rw [inputOf_eq_singleton effect loop]
  exact ⟨[], _, s.sys l, List.prefix_refl _, .nil, waits, _, rfl⟩

/-- A loop thread has something else to do than `loop()` only where other code may run, and what
a thread is doing on a loop is its next task. -/
structure Attended (s : Server) : Prop where
  aside : ∀ l, s.stack (.loop l) ≠ [] → (s.sys l).loop.position.Aside
  queueing : ∀ l t n, (s.sys l).caller t = .queueing n →
    (s.stack t).head? = some (.queueWakeup l)
  quitting : ∀ l t, (s.sys l).caller t = .quitting →
    (s.stack t).head? = some (.quitWakeup l)

private theorem aside_of_outsideDispatch {p : Position Functor ChannelRef}
    (h : outsideDispatch p = true) : p.Aside := by
  unfold outsideDispatch at h
  split at h
  · trivial
  · trivial
  · trivial
  · cases h

private theorem aside_after (reach : machine.Reachable (Server.new config) s) (inv : s.Attended)
    (does : Does s t (s.stack t).head? input eff) (loops : s.loopStep eff.loop = some sys)
    {l : LoopId} (tasks : (s.after t eff sys).stack (.loop l) ≠ []) :
    (sys l).loop.position.Aside := by
  by_cases own : t = .loop l
  · subst own
    by_cases busy : s.stack (.loop l) = []
    · rw [after_stack, Function.update_self, busy, List.tail_nil, List.append_nil] at tasks
      rw [busy] at does
      cases does with
      | dispatch l channel rest here =>
        have wake := wakeupChannel_eq reach l
        have other : channel ≠ (s.sys l).loop.wakeupChannel_ := by
          rintro rfl
          rw [wake] at tasks
          exact tasks rfl
        rw [LoopSystem.step_dispatching (step_of_loopStep loops rfl) here other]
        trivial
      | call l f rest here =>
        rw [(LoopSystem.step_calling (step_of_loopStep loops rfl) here).1]
        trivial
      | destroy order may =>
        have same : s.sys = sys := Option.some.inj loops
        rw [← same]
        exact aside_of_outsideDispatch may.1
      | poll l active here reports | turn l waits active batch => exact absurd rfl tasks
    · rw [position_kept does loops fun _ => busy]
      exact inv.aside l busy
  · rw [after_stack, Function.update_of_ne (Ne.symm own)] at tasks
    rw [position_kept does loops fun same => absurd same own]
    exact inv.aside l tasks

def Calls (t : Tid) (head : Option Task) (push : List Task) (l : LoopId) :
    LoopInput Tid Functor ChannelRef → Prop
  | .emplaceBack u f => u = t ∧ push = [.queueWakeup l] ∧ head = some (.queueInLoop l f)
  | .queueWakeup u => u = t ∧ head = some (.queueWakeup l)
  | .storeQuit u => u = t ∧ push = [.quitWakeup l] ∧ head = some (.quit l)
  | .quitWakeup u => u = t ∧ head = some (.quitWakeup l)
  | .advance _ => head = none ∧ t = .loop l

theorem Does.calls {head : Option Task} {l : LoopId} {input' : LoopInput Tid Functor ChannelRef}
    (does : Does s t head input eff) (h : eff.loop = some (l, input')) :
    Calls t head eff.push l input' := by
  cases does <;> cases h <;> simp [Calls]

private theorem caller_after (inv : s.Attended) (does : Does s t (s.stack t).head? input eff)
    (loops : s.loopStep eff.loop = some sys) (l : LoopId) (u : Tid) :
    (∀ n, (sys l).caller u = .queueing n →
        ((s.after t eff sys).stack u).head? = some (.queueWakeup l)) ∧
      ((sys l).caller u = .quitting →
        ((s.after t eff sys).stack u).head? = some (.quitWakeup l)) := by
  have kept (same : (sys l).caller u = (s.sys l).caller u)
      (idle : u = t → (s.stack t).head? ≠ some (.queueWakeup l) ∧
        (s.stack t).head? ≠ some (.quitWakeup l)) :
      (∀ n, (sys l).caller u = .queueing n →
          ((s.after t eff sys).stack u).head? = some (.queueWakeup l)) ∧
        ((sys l).caller u = .quitting →
          ((s.after t eff sys).stack u).head? = some (.quitWakeup l)) := by
    rw [same]
    by_cases own : u = t
    · subst own
      exact ⟨fun n busy => absurd (inv.queueing l u n busy) (idle rfl).1,
        fun busy => absurd (inv.quitting l u busy) (idle rfl).2⟩
    · rw [after_stack, Function.update_of_ne own]
      exact ⟨inv.queueing l u, inv.quitting l u⟩
  have pushed {task : Task} (own : u = t) (push : eff.push = [task]) :
      ((s.after t eff sys).stack u).head? = some task := by
    rw [after_stack, own, Function.update_self, push]
    rfl
  rcases loopStep_at loops l with ⟨same, other⟩ | ⟨input', here, step⟩
  · refine kept (by rw [same]) ?_
    intro _
    constructor
    · intro head
      rw [head] at does
      cases does
      exact other _ rfl
    · intro head
      rw [head] at does
      cases does
      exact other _ rfl
  · have calls := does.calls here
    generalize sys l = after at step kept ⊢
    cases LoopSystem.step_steps step with
    | emplaceBack t' f free may =>
      obtain ⟨rfl, push, -⟩ := calls
      by_cases own : u = t'
      · exact ⟨fun _ _ => pushed own push, by simp [own]⟩
      · exact kept (Function.update_of_ne own _ _) fun same => absurd same own
    | queueWakeup t' index busy =>
      obtain ⟨rfl, head⟩ := calls
      by_cases own : u = t'
      · simp [own]
      · exact kept (Function.update_of_ne own _ _) fun same => absurd same own
    | storeQuit t' free may =>
      obtain ⟨rfl, push, -⟩ := calls
      by_cases own : u = t'
      · exact ⟨by simp [own], fun _ => pushed own push⟩
      · exact kept (Function.update_of_ne own _ _) fun same => absurd same own
    | quitWakeup t' busy =>
      obtain ⟨rfl, head⟩ := calls
      by_cases own : u = t'
      · simp [own]
      · exact kept (Function.update_of_ne own _ _) fun same => absurd same own
    | advance active loop free moves =>
      refine kept rfl fun _ => ?_
      rw [calls.1]
      simp

theorem attended (h : machine.Reachable (Server.new config) s) : s.Attended := by
  refine h.invariant (I := Attended) ⟨fun _ _ => trivial, ?_, ?_⟩ ?_
  · intro l t n busy
    cases busy
  · intro l t busy
    cases busy
  · intro m i m' reach inv hs
    obtain ⟨eff, sys, does, loops, rfl⟩ := step_does (t := i.1) (a := i.2) hs
    exact ⟨fun l => aside_after reach inv does loops,
      fun l t => (caller_after inv does loops l t).1,
      fun l t => (caller_after inv does loops l t).2⟩

/-- The thread of the loop `l` runs the functor `f`. -/
def Runs (l : LoopId) (f : Functor) (s : Server) (i : Tid × Input) : Prop :=
  i.1 = .loop l ∧ (s.stack i.1).head? = some (.functor f)

private theorem call_kept {m m' : Server} (h : machine.step m i = some m') {l : LoopId}
    {f : Functor}
    (mem : .functor f ∈ m.stack (.loop l)) : .functor f ∈ m'.stack (.loop l) ∨ Runs l f m i := by
  obtain ⟨eff, sys, -, -, rfl⟩ := step_effect h
  by_cases own : i.1 = .loop l
  · cases hs : m.stack (.loop l) with
    | nil =>
      rw [hs] at mem
      cases mem
    | cons first rest =>
      rw [hs] at mem
      rcases List.mem_cons.mp mem with now | behind
      · exact .inr ⟨own, by rw [own, hs, now]; rfl⟩
      · refine .inl ?_
        rw [after_stack, own, Function.update_self, hs]
        exact List.mem_append_right _ behind
  · refine .inl ?_
    rw [after_stack, Function.update_of_ne (Ne.symm own)]
    exact mem

private theorem run_of_executed (run : machine.Run (Server.new config) inputs s) {l : LoopId}
    {f : Functor} (mem : f ∈ (s.sys l).loop.executed) :
    .functor f ∈ s.stack (.loop l) ∨ machine.Occurred (Runs l f) (.new config) inputs := by
  induction run with
  | nil => cases mem
  | @snoc inputs m m' i run hs ih =>
    rw [run.occurred_snoc]
    have before : f ∈ (m.sys l).loop.executed ∨ .functor f ∈ m'.stack (.loop l) := by
      obtain ⟨eff, sys, does, loops, rfl⟩ := step_does (t := i.1) (a := i.2) hs
      rcases loopStep_at loops l with ⟨same, -⟩ | ⟨input', here, step⟩
      · exact .inl (same ▸ mem)
      · refine (LoopSystem.step_executed step mem).imp_right ?_
        intro taken
        obtain ⟨own, -, push⟩ := does.takes here taken
        rw [← own]
        exact pushed_mem_stack _ _ _ _ (push ▸ List.mem_singleton_self _)
    rcases before with old | new
    · rcases ih old with waiting | done
      · exact (call_kept hs waiting).imp_right .inr
      · exact .inr (.inl done)
    · exact .inl new

private theorem round_loop {later : List (Tid × Input)} {l : LoopId}
    (run : machine.Run (Server.new config) inputs s) (further : machine.Run s later s')
    (polled : machine.Occurred (PollsOn l) s later)
    (waits : (s'.sys l).loop.position = .polling) :
    (s.sys l).loop.queued <+: (s'.sys l).loop.executed := by
  have visited := further.occurred_project (step_loop l) (polls_loop l) polled
  exact LoopSystem.round_executes (run_loop run l) (run_loop further l) visited
    (by simp [waits, Position.BeforeSwap]) (by simp [waits, Position.batch])

private theorem runs_of_polling {l : LoopId} {f : Functor}
    (run : machine.Run (Server.new config) inputs s)
    (waits : (s.sys l).loop.position = .polling) (executed : f ∈ (s.sys l).loop.executed) :
    machine.Occurred (Runs l f) (Server.new config) inputs := by
  refine (run_of_executed run executed).resolve_left ?_
  intro left
  have aside := (attended run.reachable).aside l (List.ne_nil_of_mem left)
  rw [waits] at aside
  exact aside

/-- A functor that a loop's thread is about to run, or that its loop has before it, has been run
when the loop has returned from `epoll_wait` and visits it again. -/
theorem run_within_a_round {later : List (Tid × Input)} {l : LoopId} {f : Functor}
    (run : machine.Run (Server.new config) inputs s) (further : machine.Run s later s')
    (polled : machine.Occurred (PollsOn l) s later)
    (waits : (s'.sys l).loop.position = .polling)
    (here : .functor f ∈ s.stack (.loop l) ∨ f ∈ (s.sys l).work) :
    machine.Occurred (Runs l f) (Server.new config) (inputs ++ later) := by
  rcases here with call | work
  · have kept : .functor f ∈ s'.stack (.loop l) ∨ machine.Occurred (Runs l f) s later := by
      clear polled waits
      induction further with
      | nil => exact .inl call
      | snoc further hs ih =>
        rw [further.occurred_snoc]
        rcases ih with waiting | done
        · exact (call_kept hs waiting).imp_right .inr
        · exact .inr (.inl done)
    rcases kept with left | done
    · have aside := (attended (run.append further).reachable).aside l (List.ne_nil_of_mem left)
      rw [waits] at aside
      exact aside.elim
    · exact run.occurred_append done
  · refine runs_of_polling (run.append further) waits
      ((round_loop run further polled waits).subset ?_)
    have inOrder := LoopSystem.run_inOrder (run_loop run l)
    rw [← inOrder.history, List.append_assoc]
    exact List.mem_append_right _ work

/-- In every run and for every loop: what has been queued when the loop visits `epoll_wait` has
been executed at its next visit, in the order of queueing, and each of these functors has been run
on the loop's thread. -/
theorem served_within_a_round (config : ServerConfig) (inputs : List (Tid × Input)) (s : Server)
    (run : machine.Run (Server.new config) inputs s) (l : LoopId) (later : List (Tid × Input))
    (s' : Server) (further : machine.Run s later s')
    (polled : machine.Occurred (PollsOn l) s later)
    (waits : (s'.sys l).loop.position = .polling) :
    (s.sys l).loop.queued <+: (s'.sys l).loop.executed ∧ ∀ f ∈ (s.sys l).loop.queued,
      machine.Occurred (Runs l f) (Server.new config) (inputs ++ later) := by
  have executed := round_loop run further polled waits
  exact ⟨executed, fun f mem =>
    runs_of_polling (run.append further) waits (executed.subset mem)⟩

/-- The sub-loop visits `epoll_wait` with `connectEstablished` in its queue. -/
def handedOver : List (Tid × Input) := waiting.take 16

/-- The round in which the connection is established. -/
def establishingRound : List (Tid × Input) := waiting.drop 16

theorem served_within_a_round_waiting : ∃ s s', machine.Run (Server.new oneLoop) handedOver s ∧
    machine.Run s establishingRound s' ∧ (s.sys 1).loop.queued = [.connectEstablished 1] ∧
      (s.sys 1).loop.queued <+: (s'.sys 1).loop.executed := by
  obtain ⟨s, run, here, queued⟩ := machine.exists_run (.new oneLoop) handedOver
    (fun s => (s.sys 1).loop.position = .polling ∧
      (s.sys 1).loop.queued = [.connectEstablished 1]) (by decide +kernel)
  obtain ⟨s', whole, waits⟩ := machine.exists_run (.new oneLoop) (handedOver ++ establishingRound)
    (fun s => (s.sys 1).loop.position = .polling) (by decide +kernel)
  have further := whole.rest run
  have polled : machine.Occurred (PollsOn 1) s establishingRound :=
    ⟨[], _, s, ⟨_, rfl⟩, .nil, rfl, here, _, rfl⟩
  exact ⟨s, s', run, further, queued,
    (served_within_a_round oneLoop handedOver s run 1 _ s' further polled waits).1⟩

theorem Extends.refl (s : Server) : s.Extends s :=
  ⟨rfl, Nat.le_refl _, fun _ _ => rfl, fun _ _ => rfl, fun _ _ => rfl,
    fun _ => List.prefix_refl _⟩

theorem Extends.trans {s'' : Server} (h : s.Extends s') (h' : s'.Extends s'') :
    s.Extends s'' where
  config := h'.config.trans h.config
  created := Nat.le_trans h.created h'.created
  loop c created := (h'.loop c (h.mono created)).trans (h.loop c created)
  name c created := (h'.name c (h.mono created)).trans (h.name c created)
  fd c created := (h'.fd c (h.mono created)).trans (h.fd c created)
  events c := (h.events c).trans (h'.events c)

theorem run_extends (run : machine.Run s inputs s') : s.Extends s' := by
  induction run with
  | nil => exact .refl _
  | snoc run hs ih =>
    obtain ⟨eff, sys, -, -, rfl⟩ := step_effect hs
    exact ih.trans (after_extends _ _ _ _)

private theorem establishing_at (reach : machine.Reachable (Server.new config) s) {c : ConnId}
    (created : s.Created c) (new : ¬ s.Up c) :
    .functor (.connectEstablished c) ∈ s.stack (.loop (s.conn c).loop_) ∨
      .connectEstablished c ∈ (s.sys (s.conn c).loop_).work ∨
      .queueInLoop (s.conn c).loop_ (.connectEstablished c) ∈ s.stack (.loop 0) := by
  have first := (establishedFirst reach).first c created new
  rcases List.mem_append.mp (List.mem_of_mem_head? first) with mem | mem
  · rcases List.mem_append.mp mem with mem | mem
    · obtain ⟨task, listed, called⟩ := List.mem_filterMap.mp mem
      unfold Task.called at called
      split at called
      · split at called
        · cases called
          exact .inl listed
        · cases called
      · cases called
    · exact .inr (.inl (List.mem_filter.mp mem).1)
  · obtain ⟨task, listed, queued⟩ := List.mem_filterMap.mp mem
    unfold Task.queued at queued
    split at queued
    · split at queued
      · rename_i named
        cases queued
        obtain ⟨rfl, -⟩ : _ = (s.conn c).loop_ ∧ _ := by simpa using named
        exact .inr (.inr listed)
      · cases queued
    · cases queued

/-- No accepted connection is lost: in every run, a connection whose `connectEstablished` the base
thread has handed over is up at the latest when its loop has returned from `epoll_wait` and visits
it again. -/
theorem established_within_a_round (config : ServerConfig) (inputs : List (Tid × Input))
    (s : Server) (run : machine.Run (Server.new config) inputs s) (c : ConnId)
    (created : s.Created c)
    (handed : .queueInLoop (s.conn c).loop_ (.connectEstablished c) ∉ s.stack (.loop 0))
    (later : List (Tid × Input)) (s' : Server) (further : machine.Run s later s')
    (polled : machine.Occurred (PollsOn (s.conn c).loop_) s later)
    (waits : (s'.sys (s.conn c).loop_).loop.position = .polling) : s'.Up c := by
  by_cases up : s.Up c
  · exact (run_extends further).up up
  generalize hl : (s.conn c).loop_ = l at handed polled waits
  have settled : machine.Occurred (Runs l (.connectEstablished c)) (Server.new config)
      (inputs ++ later) → s'.Up c := by
    intro occurred
    exact (up_iff_established (run.append further)).mpr (occurred.imp fun _ _ runs => runs.2)
  have served := run_within_a_round (f := .connectEstablished c) run further polled waits
  rcases establishing_at run.reachable created up with call | work | queue
  · rw [hl] at call
    exact settled (served (.inl call))
  · rw [hl] at work
    exact settled (served (.inr work))
  · rw [hl] at queue
    exact absurd queue handed

theorem established_within_a_round_waiting : ∃ s s',
    machine.Run (Server.new oneLoop) handedOver s ∧ machine.Run s establishingRound s' ∧
      ¬ s.Up 1 ∧ s'.Up 1 := by
  obtain ⟨s, run, here, ⟨created, loop⟩, handed, new⟩ := machine.exists_run (.new oneLoop)
    handedOver (fun s => (s.sys 1).loop.position = .polling ∧
      ((0 < 1 ∧ 1 < s.nextConnId_) ∧ (s.conn 1).loop_ = 1) ∧
      .queueInLoop 1 (.connectEstablished 1) ∉ s.stack (.loop 0) ∧ ¬ s.Up 1) (by decide +kernel)
  obtain ⟨s', whole, waits⟩ := machine.exists_run (.new oneLoop) (handedOver ++ establishingRound)
    (fun s => (s.sys 1).loop.position = .polling) (by decide +kernel)
  have further := whole.rest run
  have polled : machine.Occurred (PollsOn 1) s establishingRound :=
    ⟨[], _, s, ⟨_, rfl⟩, .nil, rfl, here, _, rfl⟩
  have up := established_within_a_round oneLoop handedOver s run 1 created
    (loop.symm ▸ handed) _ s' further (loop.symm ▸ polled) (loop.symm ▸ waits)
  exact ⟨s, s', run, further, new, up⟩

/-- In every run, a loop whose flag `quit_` is set after `loop()` has begun to test it is not left
waiting: it has been woken up or is about to be. The flag stays set, the loop returns from
`epoll_wait` once at most, and its thread takes no more steps of `loop()` than were left, and two
for every channel reported and every functor queued meanwhile. -/
theorem quit_heeded (config : ServerConfig) (inputs : List (Tid × Input)) (s : Server)
    (run : machine.Run (Server.new config) inputs s) (l : LoopId)
    (flag : (s.sys l).loop.quit_ = true) (entered : (s.sys l).loop.position.Entered) :
    ((s.sys l).loop.position = .polling → (s.sys l).loop.wakeupFd_ ≠ 0 ∨
        ∃ t, t ≠ .loop l ∧ (s.stack t).head? = some (.quitWakeup l)) ∧
      ∀ later s', machine.Run s later s' →
        LoopSystem.Left true (s.sys l) (machine.collect (inputOf l) s later) (s'.sys l) := by
  refine ⟨?_, fun later s' further => LoopSystem.run_left (run_loop further l) flag entered⟩
  intro waits
  have loop := loops_reachable run.reachable l
  refine (LoopSystem.told loop flag waits).imp_right ?_
  rintro ⟨t, other, busy⟩
  rw [LoopSystem.threadId_eq loop] at other
  exact ⟨t, other, (attended run.reachable).quitting l t busy⟩

/-- Another thread has stored the flag of the base loop, which is behind its handlers. -/
def quitting : List (Tid × Input) :=
  establishing ++ [(.user 0, .call .quit)] ++ steps (.user 0) 1

theorem quit_heeded_quitting : ∃ s, machine.Run (Server.new oneLoop) quitting s ∧
    (s.sys 0).loop.quit_ = true ∧ (s.sys 0).remaining = 4 ∧ ∀ later s', machine.Run s later s' →
      LoopSystem.Left true (s.sys 0) (machine.collect (inputOf 0) s later) (s'.sys 0) := by
  obtain ⟨s, run, flag, entered, left⟩ := machine.exists_run (.new oneLoop) quitting
    (fun s => (s.sys 0).loop.quit_ = true ∧ (s.sys 0).loop.position.Entered ∧
      (s.sys 0).remaining = 4) (by decide +kernel)
  exact ⟨s, run, flag, left, (quit_heeded oneLoop quitting s run 0 flag entered).2⟩

/-- The step is no `queueInLoop` and no `quit` of a thread on its own loop before `loop()`. -/
def Inside (s : Server) (i : Tid × Input) : Prop :=
  match i.1, (s.stack i.1).head? with
  | .loop l, some (.queueInLoop l' _) | .loop l, some (.quit l') =>
    l' = l → (s.sys l).loop.position ≠ .created
  | _, _ => True

instance (s : Server) (i : Tid × Input) : Decidable (s.Inside i) :=
  decidable_of_bool (match i.1, (s.stack i.1).head? with
    | .loop l, some (.queueInLoop l' _) | .loop l, some (.quit l') =>
      decide (l' = l → (s.sys l).loop.position ≠ .created)
    | _, _ => true) (by unfold Inside; split <;> simp only [decide_eq_true_eq])

private theorem awake_step (reach : machine.Reachable (Server.new config) s) (inside : s.Inside i)
    (awake : ∀ l, (s.sys l).Awake) (h : machine.step s i = some s') :
    ∀ l, (s'.sys l).Awake := by
  obtain ⟨t, input⟩ := i
  obtain ⟨eff, sys, does, loops, rfl⟩ := step_does h
  intro l
  rcases loopStep_at loops l with ⟨same, -⟩ | ⟨input', here, step⟩
  · rw [after_sys, same]
    exact awake l
  · refine LoopSystem.step_awake (awake l) (LoopSystem.step_of_not_early step ?_)
    have calls := does.calls here
    have thread := LoopSystem.threadId_eq (loops_reachable reach l)
    unfold Inside at inside
    cases input' with
    | emplaceBack u f =>
      obtain ⟨rfl, -, head⟩ := calls
      rintro ⟨own, created⟩
      rw [thread] at own
      subst own
      rw [head] at inside
      exact inside rfl created
    | storeQuit u =>
      obtain ⟨rfl, -, head⟩ := calls
      rintro ⟨own, created⟩
      rw [thread] at own
      subst own
      rw [head] at inside
      exact inside rfl created
    | queueWakeup u | quitWakeup u | advance active => exact id

/-- Along every run in which no thread calls `queueInLoop` or `quit` on its own loop before
`loop()`, no loop of the server waits in `epoll_wait` with functors queued and its counter at zero
while no thread is about to write to the counter. -/
theorem loops_awake (config : ServerConfig) (inputs : List (Tid × Input)) (s : Server)
    (run : machine.Run (Server.new config) inputs s)
    (inside : machine.StepsMeet Inside (Server.new config) inputs) (l : LoopId) :
    ¬ ((s.sys l).loop.position = .polling ∧ (s.sys l).loop.pendingFunctors_ ≠ [] ∧
      (s.sys l).loop.wakeupFd_ = 0 ∧ ∀ t, (s.stack t).head? ≠ some (.queueWakeup l)) := by
  have awake : ∀ l, (s.sys l).Awake := by
    refine run.invariant_of_stepsMeet (I := fun _ s => ∀ l, (s.sys l).Awake) inside ?_ ?_
    · exact fun l => LoopSystem.new_awake _ _
    · intro _ _ _ _ before awake inside hs
      exact awake_step before.reachable inside awake hs
  rintro ⟨here, work, zero, idle⟩
  rcases (awake l).work work with before | stopped | written | ⟨t, n, busy⟩
  · simp [here, Position.BeforeSwap] at before
  · simp [here] at stopped
  · exact written zero
  · exact idle t ((attended run.reachable).queueing l t n busy)

theorem loops_awake_waiting : ∃ s, machine.Run (Server.new oneLoop) handedOver s ∧
    (s.sys 1).loop.position = .polling ∧
      (s.sys 1).loop.pendingFunctors_ = [.connectEstablished 1] ∧
      ¬ ((s.sys 1).loop.position = .polling ∧ (s.sys 1).loop.pendingFunctors_ ≠ [] ∧
        (s.sys 1).loop.wakeupFd_ = 0 ∧ ∀ t, (s.stack t).head? ≠ some (.queueWakeup 1)) := by
  obtain ⟨s, run, waits, queued⟩ := machine.exists_run (.new oneLoop) handedOver
    (fun s => (s.sys 1).loop.position = .polling ∧
      (s.sys 1).loop.pendingFunctors_ = [.connectEstablished 1]) (by decide +kernel)
  have inside : machine.StepsMeet Inside (Server.new oneLoop) handedOver :=
    Lib.Machine.stepsMeet_of_checks (by decide +kernel)
  exact ⟨s, run, waits, queued, loops_awake oneLoop handedOver s run inside 1⟩

end Server

end TcpMuduo
