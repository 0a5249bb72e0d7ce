import TcpMuduo.Net.EventQueue

/-!
`EventLoopThread`: `threadFunc` and the thread that starts and destroys it. The
loop is published before `loop()` is entered, and `loop()` begins with a reset of
`quit_`; a functor queued by the init callback is queued without a wakeup.
-/

set_option autoImplicit false
set_option relaxedAutoImplicit false

namespace TcpMuduo

/-- The loop's thread, and the one that calls `startLoop` and `~EventLoopThread`. -/
inductive Party
  | starter
  | loopThread
  deriving DecidableEq, Repr

/-- Where `threadFunc` is. In `publishing` the init callback has returned. -/
inductive ThreadFunc
  | unstarted
  | constructing
  | callback
  | publishing
  | looping
  | finished
  deriving DecidableEq, Repr

/-- Where the starter is: `waiting` in `startLoop`, from `exiting` on in the destructor. -/
inductive Starter
  | idle
  | waiting
  | started
  | exiting
  | quitting
  | joining
  | gone
  deriving DecidableEq, Repr

/-- `loop_` says whether the pointer is set. `returned` is a history: a call of `quit` has
returned. -/
structure EventLoopThread (F H : Type) where
  loop_ : Bool
  exiting_ : Bool
  thread_ : ThreadFunc
  starter : Starter
  sys : LoopSystem Party F H
  returned : Bool

/-- The steps of the starter and of `threadFunc`, and those of the loop. -/
inductive ThreadInput (F H : Type)
  | start
  | awake
  | destruct
  | test
  | join
  | threadFunc
  | loop (i : LoopInput Party F H)

namespace EventLoopThread

variable {F H : Type}

def new (wakeupChannel : H) : EventLoopThread F H where
  loop_ := false
  exiting_ := false
  thread_ := .unstarted
  starter := .idle
  sys := LoopSystem.new .loopThread wakeupChannel
  returned := false

/-- Who may take a step of the loop. The starter calls `quit` from its destructor, and the loop is
there until its thread has finished; the init callback, the handlers and the functors may call
`queueInLoop` and `quit` on their own loop. -/
def May (s : EventLoopThread F H) : LoopInput Party F H → Prop
  | .storeQuit .starter | .quitWakeup .starter => s.starter = .quitting ∧ s.thread_ ≠ .finished
  | .emplaceBack .starter _ | .queueWakeup .starter => False
  | .emplaceBack .loopThread _ | .queueWakeup .loopThread | .storeQuit .loopThread
  | .quitWakeup .loopThread =>
    s.thread_ = .callback ∨ s.thread_ = .looping ∧ s.sys.loop.position ≠ .stopped
  | .advance _ => s.thread_ = .looping

variable [DecidableEq F] [DecidableEq H]

instance (s : EventLoopThread F H) (i : LoopInput Party F H) : Decidable (s.May i) := by
  unfold May
  split <;> infer_instance

/-- The state after a step of the loop. The destructor goes on to `join` when `quit` returns. -/
def called (s : EventLoopThread F H) (i : LoopInput Party F H) (sys : LoopSystem Party F H) :
    EventLoopThread F H :=
  match i with
  | .quitWakeup .starter => { s with sys := sys, starter := .joining, returned := true }
  | .quitWakeup .loopThread => { s with sys := sys, returned := true }
  | _ => { s with sys := sys }

def step (s : EventLoopThread F H) : ThreadInput F H → Option (EventLoopThread F H)
  | .start =>
    if s.starter = .idle then some { s with starter := .waiting, thread_ := .constructing }
    else none
  | .awake =>
    if s.starter = .waiting ∧ s.loop_ = true then some { s with starter := .started } else none
  | .destruct =>
    if s.starter = .idle ∨ s.starter = .started then
      some { s with exiting_ := true, starter := .exiting }
    else none
  | .test =>
    if s.starter = .exiting then
      some { s with starter := if s.loop_ then .quitting else .gone }
    else none
  | .join =>
    if s.starter = .joining ∧ s.thread_ = .finished then some { s with starter := .gone } else none
  | .threadFunc =>
    match s.thread_ with
    | .constructing => some { s with thread_ := .callback }
    | .callback =>
      if s.sys.caller .loopThread = .outside then some { s with thread_ := .publishing } else none
    | .publishing => some { s with thread_ := .looping, loop_ := true }
    | .looping =>
      if s.sys.loop.position = .stopped then some { s with thread_ := .finished, loop_ := false }
      else none
    | .unstarted | .finished => none
  | .loop i =>
    if s.May i then ((LoopSystem.machine true).step s.sys i).map (s.called i) else none

/-- All interleavings of the two threads. -/
def machine : Lib.Machine (EventLoopThread F H) (ThreadInput F H) where
  step := step

variable {s s' : EventLoopThread F H} {input : ThreadInput F H}

/-- What a step changes: where the two threads are, or the loop. -/
inductive Steps (s : EventLoopThread F H) : ThreadInput F H → EventLoopThread F H → Prop
  | thread (input : ThreadInput F H) (other : ∀ i, input ≠ .loop i) (loop exiting : Bool)
      (thread : ThreadFunc) (starter : Starter)
      (quitting : s.starter = .quitting → starter = .quitting) :
      Steps s input { s with
        loop_ := loop, exiting_ := exiting, thread_ := thread, starter := starter }
  | loop (i : LoopInput Party F H) (may : s.May i) (sys : LoopSystem Party F H)
      (step : (LoopSystem.machine true).step s.sys i = some sys) :
      Steps s (.loop i) (s.called i sys)

theorem step_steps (h : machine.step s input = some s') : Steps s input s' := by
  change s.step input = some s' at h
  unfold EventLoopThread.step at h
  split at h
  · split at h
    · rename_i idle
      cases h
      exact .thread _ (by simp) _ _ _ _ (by simp [idle])
    · cases h
  · split at h
    · rename_i waiting
      cases h
      exact .thread _ (by simp) _ _ _ _ (by simp [waiting.1])
    · cases h
  · split at h
    · rename_i there
      cases h
      refine .thread _ (by simp) _ _ _ _ ?_
      intro quitting
      simp [quitting] at there
    · cases h
  · split at h
    · rename_i exiting
      cases h
      exact .thread _ (by simp) _ _ _ _ (by simp [exiting])
    · cases h
  · split at h
    · rename_i joining
      cases h
      exact .thread _ (by simp) _ _ _ _ (by simp [joining.1])
    · cases h
  · split at h
    · cases h
      exact .thread _ (by simp) _ _ _ _ id
    · split at h
      · cases h
        exact .thread _ (by simp) _ _ _ _ id
      · cases h
    · cases h
      exact .thread _ (by simp) _ _ _ _ id
    · split at h
      · cases h
        exact .thread _ (by simp) _ _ _ _ id
      · cases h
    · cases h
    · cases h
  · split at h
    · rename_i i may
      obtain ⟨sys, step, rfl⟩ := Option.map_eq_some_iff.mp h
      exact .loop i may sys step
    · cases h

/-- A call of `quit` has stored its flag and not returned yet. -/
def Quitting (s : EventLoopThread F H) : Prop := ∃ t, s.sys.caller t = .quitting

def InBatch : Position F H → Prop
  | .running _ | .calling _ _ => True
  | _ => False

/-- The loop thread has not passed the first test of `quit_`. -/
def Early : Position F H → Prop
  | .created | .starting | .testing => True
  | _ => False

/-- What holds in every run: the flag is set by `quit` only, and nobody but the destructor writes
the eventfd before the first `epoll_wait`. -/
structure Sound (s : EventLoopThread F H) : Prop where
  own : s.sys.loop.threadId_ = .loopThread
  calling : s.sys.caller .starter = .quitting → s.starter = .quitting
  stored : s.sys.loop.quit_ = true → s.returned = true ∨ s.Quitting
  swapped : InBatch s.sys.loop.position → s.sys.loop.batches ≠ []
  silent : Early s.sys.loop.position → s.sys.loop.batches = [] →
    s.sys.loop.callingPendingFunctors_ = false ∧ (s.returned = false → s.sys.loop.wakeupFd_ = 0)

omit [DecidableEq F] [DecidableEq H] in
private theorem new_sound (wakeupChannel : H) :
    (new wakeupChannel : EventLoopThread F H).Sound where
  own := rfl
  calling h := by cases h
  stored h := by cases h
  swapped h := h.elim
  silent _ _ := ⟨rfl, fun _ => rfl⟩

omit [DecidableEq F] [DecidableEq H] in
theorem Quitting.other (quitting : s.Quitting) {u : Party} (free : s.sys.caller u ≠ .quitting)
    (c : Caller) : ∃ t, Function.update s.sys.caller u c t = .quitting := by
  obtain ⟨t, here⟩ := quitting
  refine ⟨t, ?_⟩
  rw [Function.update_of_ne]
  · exact here
  · rintro rfl
    exact free here

omit [DecidableEq F] [DecidableEq H] in
private theorem quitting_of_update {u : Party} {c : Caller} (other : c ≠ .quitting)
    (quitting : ∃ t, Function.update s.sys.caller u c t = .quitting) : s.Quitting := by
  obtain ⟨t, here⟩ := quitting
  rw [Function.update_apply] at here
  split at here
  · exact absurd here other
  · exact ⟨t, here⟩

omit [DecidableEq F] [DecidableEq H] in
private theorem queueWakeup_own {l : EventLoop Party F H} (own : l.threadId_ = .loopThread)
    (idle : l.callingPendingFunctors_ = false) : l.queueWakeup .loopThread = l := by
  simp [EventLoop.queueWakeup, EventLoop.isInLoopThread, own, idle]

omit [DecidableEq F] [DecidableEq H] in
theorem Sound.advance (inv : s.Sound) {active : List H} {loop : EventLoop Party F H}
    (moves : s.sys.loop.Moves active loop) :
    Sound { s with sys := { s.sys with loop := loop } } := by
  have same (idle : ¬ InBatch loop.position) (late : ¬ Early loop.position)
      (own : loop.threadId_ = s.sys.loop.threadId_) (quit : loop.quit_ = s.sys.loop.quit_) :
      Sound { s with sys := { s.sys with loop := loop } } :=
    ⟨own.trans inv.own, inv.calling, fun set => inv.stored (quit ▸ set),
      fun batch => absurd batch idle, fun early => absurd early late⟩
  cases moves with
  | enter here =>
    exact ⟨inv.own, inv.calling, inv.stored, False.elim,
      fun _ first => inv.silent (by simp [here, Early]) first⟩
  | reset here =>
    exact ⟨inv.own, inv.calling, nofun, False.elim,
      fun _ first => inv.silent (by simp [here, Early]) first⟩
  | stop here quit | wait here quit | report here ready | begin here | drain rest here
  | handle channel rest here other | handled channel rest here =>
    exact same id id rfl rfl
  | swap here =>
    exact ⟨inv.own, inv.calling, inv.stored, fun _ => by simp, False.elim⟩
  | call functor rest here | called functor rest here =>
    exact ⟨inv.own, inv.calling, inv.stored, fun _ => inv.swapped (by simp [here, InBatch]),
      False.elim⟩
  | finish here =>
    have swapped := inv.swapped (by simp [here, InBatch])
    exact ⟨inv.own, inv.calling, inv.stored, False.elim, fun _ first => absurd first swapped⟩

theorem Sound.step (inv : s.Sound) (h : machine.step s input = some s') : s'.Sound := by
  cases step_steps h with
  | thread input other loop exiting thread starter quitting =>
    exact ⟨inv.own, fun calling => quitting (inv.calling calling), inv.stored, inv.swapped,
      inv.silent⟩
  | loop i may sys step =>
    cases LoopSystem.step_steps step with
    | emplaceBack t f free may' =>
      cases t with
      | starter => exact may.elim
      | loopThread =>
        refine ⟨inv.own, inv.calling, ?_, inv.swapped, inv.silent⟩
        intro set
        exact (inv.stored set).imp_right fun quitting => quitting.other (by simp [free]) _
    | queueWakeup t index here =>
      cases t with
      | starter => exact may.elim
      | loopThread =>
        obtain ⟨n, same⟩ := s.sys.loop.queueWakeup_eq .loopThread
        have busy : s.sys.caller .loopThread ≠ .quitting := by simp [here]
        have stored (set : s.sys.loop.quit_ = true) := (inv.stored set).imp_right
          fun quitting => quitting.other busy .outside
        refine ⟨?_, inv.calling, ?_, ?_, ?_⟩
        · simp only [called, same]
          exact inv.own
        · simp only [called, same]
          exact stored
        · simp only [called, same]
          exact inv.swapped
        · simp only [called]
          intro early first
          have before := inv.silent (by simpa [same] using early) (by simpa [same] using first)
          rw [queueWakeup_own inv.own before.1]
          exact before
    | storeQuit t free may' =>
      refine ⟨?_, ?_, fun _ => .inr ⟨t, ?_⟩, ?_, ?_⟩
      · cases t <;> exact inv.own
      · cases t with
        | starter => exact fun _ => may.1
        | loopThread => exact inv.calling
      · cases t <;> simp [called]
      · cases t <;> exact inv.swapped
      · cases t <;> exact inv.silent
    | quitWakeup t here =>
      obtain ⟨n, same⟩ := s.sys.loop.quitWakeup_eq t
      cases t with
      | starter =>
        simp only [called, same]
        refine ⟨inv.own, ?_, fun _ => .inl rfl, inv.swapped, fun early first => ⟨?_, nofun⟩⟩
        · intro calling
          simp at calling
        · exact (inv.silent early first).1
      | loopThread =>
        simp only [called, same]
        exact ⟨inv.own, inv.calling, fun _ => .inl rfl, inv.swapped,
          fun early first => ⟨(inv.silent early first).1, nofun⟩⟩
    | advance active loop free moves => exact inv.advance moves

theorem sound {wakeupChannel : H} (h : machine.Reachable (new wakeupChannel) s) : s.Sound :=
  h.invariant (new_sound wakeupChannel) fun _ _ _ _ inv hs => inv.step hs

def Running : Position F H → Prop
  | .created | .stopped => False
  | _ => True

/-- Requests made around start-up take effect: the loop has not forgotten a `quit` that has
returned, and does not wait in its first `epoll_wait` with functors queued and no wakeup written. -/
structure Kept (s : EventLoopThread F H) : Prop where
  quit : s.returned = true → Running s.sys.loop.position → s.sys.loop.quit_ = true
  first : s.sys.loop.position = .polling → s.sys.loop.batches = [] →
    s.sys.loop.pendingFunctors_ ≠ [] → s.sys.loop.wakeupFd_ ≠ 0

/-- `loop()` resets the flag before any `quit` has stored it, and when its first test lets it wait
the init callback has queued nothing. -/
def Prompt (s : EventLoopThread F H) : ThreadInput F H → Prop
  | .loop (.advance _) =>
    (s.sys.loop.position = .starting → s.sys.loop.quit_ = false) ∧
      (s.sys.loop.position = .testing → s.sys.loop.quit_ = false → s.sys.loop.batches = [] →
        s.sys.loop.pendingFunctors_ = [])
  | _ => True

instance (s : EventLoopThread F H) (input : ThreadInput F H) : Decidable (s.Prompt input) := by
  unfold Prompt
  split <;> infer_instance

/-- The requests are kept, also when the destructor's call of `quit` returns now. -/
def Safe (s : EventLoopThread F H) : Prop :=
  s.Kept ∧ ∀ s', machine.step s (.loop (.quitWakeup .starter)) = some s' → s'.Kept

/-- In a run whose steps have been prompt no stored flag is lost. -/
structure Heeded (s : EventLoopThread F H) : Prop where
  quit : s.returned = true ∨ s.Quitting → s.sys.loop.quit_ = true
  first : s.sys.loop.position = .polling → s.sys.loop.batches = [] →
    s.sys.loop.pendingFunctors_ = []

omit [DecidableEq F] [DecidableEq H] in
theorem Heeded.kept (inv : s.Heeded) : s.Kept :=
  ⟨fun returned _ => inv.quit (.inl returned),
    fun waits first queued => absurd (inv.first waits first) queued⟩

omit [DecidableEq F] [DecidableEq H] in
theorem Heeded.advance (inv : s.Heeded) {active : List H} {loop : EventLoop Party F H}
    (prompt : s.Prompt (.loop (.advance active))) (moves : s.sys.loop.Moves active loop) :
    Heeded { s with sys := { s.sys with loop := loop } } := by
  have same (waits : loop.position ≠ .polling) (quit : loop.quit_ = s.sys.loop.quit_) :
      Heeded { s with sys := { s.sys with loop := loop } } :=
    ⟨fun request => quit.trans (inv.quit request), fun here => absurd here waits⟩
  cases moves with
  | reset here =>
    refine ⟨fun request => ?_, nofun⟩
    have stored := inv.quit request
    rw [prompt.1 here] at stored
    cases stored
  | wait here quit => exact ⟨inv.quit, fun _ first => prompt.2 here quit first⟩
  | enter here | stop here quit | report here ready | begin here | drain rest here
  | handle channel rest here other | handled channel rest here | swap here
  | call functor rest here | called functor rest here | finish here =>
    exact same (by simp) rfl

theorem Heeded.step (sound : s.Sound) (inv : s.Heeded) (prompt : s.Prompt input)
    (h : machine.step s input = some s') : s'.Heeded := by
  cases step_steps h with
  | thread input other loop exiting thread starter quitting => exact ⟨inv.quit, inv.first⟩
  | loop i may sys step =>
    cases LoopSystem.step_steps step with
    | emplaceBack t f free may' =>
      cases t with
      | starter => exact may.elim
      | loopThread =>
        refine ⟨fun request => inv.quit (request.imp_right (quitting_of_update (by simp))), ?_⟩
        intro waits first
        have waits : s.sys.loop.position = .polling := waits
        simp [LoopSystem.MayCall, EventLoop.isInLoopThread, sound.own, waits] at may'
    | queueWakeup t index here =>
      cases t with
      | starter => exact may.elim
      | loopThread =>
        obtain ⟨n, same⟩ := s.sys.loop.queueWakeup_eq .loopThread
        simp only [called, same]
        exact ⟨fun request => inv.quit (request.imp_right (quitting_of_update (by simp))),
          inv.first⟩
    | storeQuit t free may' => cases t <;> exact ⟨fun _ => rfl, inv.first⟩
    | quitWakeup t here =>
      obtain ⟨n, same⟩ := s.sys.loop.quitWakeup_eq t
      have stored := inv.quit (.inr ⟨t, here⟩)
      cases t with
      | starter =>
        simp only [called, same]
        exact ⟨fun _ => stored, inv.first⟩
      | loopThread =>
        simp only [called, same]
        exact ⟨fun _ => stored, inv.first⟩
    | advance active loop free moves => exact inv.advance prompt moves

private theorem Heeded.safe (sound : s.Sound) (inv : s.Heeded) : s.Safe := by
  refine ⟨inv.kept, ?_⟩
  intro s' hs
  have prompt : s.Prompt (.loop (.quitWakeup .starter)) := trivial
  exact (inv.step sound prompt hs).kept

/-- A call of `quit` in the destructor can return, and does nothing to the flag. -/
theorem quit_returns (may : s.May (.quitWakeup .starter))
    (here : s.sys.caller .starter = .quitting) :
    ∃ s', machine.step s (.loop (.quitWakeup .starter)) = some s' ∧ s'.returned = true ∧
      s'.sys.loop.position = s.sys.loop.position ∧ s'.sys.loop.quit_ = s.sys.loop.quit_ := by
  obtain ⟨n, same⟩ := s.sys.loop.quitWakeup_eq .starter
  refine ⟨s.called (.quitWakeup .starter) { s.sys with
    loop := s.sys.loop.quitWakeup .starter
    caller := Function.update s.sys.caller .starter .outside }, ?_, rfl, ?_, ?_⟩
  · simp only [machine, EventLoopThread.step, if_pos may, LoopSystem.machine, LoopSystem.step, here]
    rfl
  · simp only [called, same]
  · simp only [called, same]

/-- A step that is not prompt breaks a promise, or the return of `quit` then does. -/
theorem prompt_of_safe (sound : s.Sound) (safe : s.Safe) (safe' : s'.Safe)
    (h : machine.step s input = some s') : s.Prompt input := by
  cases step_steps h with
  | thread input other loop exiting thread starter quitting =>
    cases input with
    | loop i => exact absurd rfl (other i)
    | _ => trivial
  | loop i may sys step =>
    cases LoopSystem.step_steps step with
    | emplaceBack | queueWakeup | storeQuit | quitWakeup => trivial
    | advance active loop free moves =>
      refine ⟨?_, ?_⟩
      · intro here
        by_contra set
        cases moves with
        | reset here =>
          rcases sound.stored (by simpa using set) with returned | ⟨t, quitting⟩
          · have lost := safe'.1.quit returned trivial
            cases lost
          · cases t with
            | starter =>
              have looping : s.thread_ = .looping := may
              obtain ⟨s'', hs, returned, position, quit⟩ := quit_returns
                (s := s.called (.advance active) { s.sys with
                  loop := { s.sys.loop with quit_ := false, position := .testing } })
                ⟨sound.calling quitting, by simp [called, looping]⟩ quitting
              have kept := (safe'.2 s'' hs).quit returned (by rw [position]; trivial)
              rw [quit] at kept
              cases kept
            | loopThread =>
              rw [sound.own, quitting] at free
              cases free
        | _ => simp_all only [reduceCtorEq]
      · intro here quit first
        by_contra queued
        have running : s.returned = false := by
          by_contra returned
          have kept := safe.1.quit (by simpa using returned) (by rw [here]; trivial)
          rw [quit] at kept
          cases kept
        have silent := (sound.silent (by rw [here]; trivial) first).2 running
        cases moves with
        | wait here quit => exact safe'.1.first rfl first queued silent
        | stop here set =>
          rw [quit] at set
          cases set
        | _ => simp_all only [reduceCtorEq]

/-- Requests made around start-up take effect in every run in which `loop()` is entered before a
`quit` and with an empty queue. A run is prompt exactly when its requests are kept in all its
states, also if the destructor's call of `quit` returned there. -/
theorem requests_kept_iff (wakeupChannel : H) (inputs : List (ThreadInput F H))
    (s : EventLoopThread F H) (h : machine.Run (new wakeupChannel) inputs s) :
    (machine.StepsMeet Prompt (new wakeupChannel) inputs →
      machine.Throughout (fun _ => Kept) (new wakeupChannel) inputs) ∧
    (machine.StepsMeet Prompt (new wakeupChannel) inputs ↔
      machine.Throughout (fun _ => Safe) (new wakeupChannel) inputs) := by
  have heeded {pre : List (ThreadInput F H)} {m : EventLoopThread F H}
      (run : machine.Run (new wakeupChannel) pre m)
      (meets : machine.StepsMeet Prompt (new wakeupChannel) pre) : m.Heeded := by
    refine run.invariant_of_stepsMeet (I := fun _ m => m.Heeded) meets ?_ ?_
    · refine ⟨?_, nofun⟩
      rintro (returned | ⟨t, quitting⟩)
      · cases returned
      · cases quitting
    · intro _ m i m' before inv prompt hs
      exact inv.step (sound before.reachable) prompt hs
  refine ⟨?_, ?_, ?_⟩
  · intro meets pre m hpre run
    exact (heeded run (meets.before hpre)).kept
  · intro meets pre m hpre run
    exact (heeded run (meets.before hpre)).safe (sound run.reachable)
  · intro safe
    refine safe.stepsMeet h ?_
    intro pre m i m' hpre run hs after
    have before : m.Safe := safe pre m ((List.prefix_append pre [i]).trans hpre) run
    exact prompt_of_safe (sound run.reachable) before after hs

/-- The thread publishes its loop, enters `loop()` and waits; then it is destroyed. -/
def quitWhileWaiting : List (ThreadInput Unit Unit) :=
  [.start, .threadFunc, .threadFunc, .threadFunc, .awake, .loop (.advance []),
    .loop (.advance []), .loop (.advance []), .destruct, .test, .loop (.storeQuit .starter),
    .loop (.quitWakeup .starter), .loop (.advance [()]), .loop (.advance []),
    .loop (.advance []), .loop (.advance []), .loop (.advance []), .loop (.advance []),
    .threadFunc, .join]

theorem requests_kept_iff_waiting : ∃ s, machine.Run (new ()) quitWhileWaiting s ∧
    s.starter = .gone ∧ machine.Throughout (fun _ => Kept) (new ()) quitWhileWaiting := by
  obtain ⟨s, run, gone⟩ := machine.exists_run (new ()) quitWhileWaiting
    (fun s => s.starter = .gone) (by decide)
  have prompt : machine.StepsMeet Prompt (new ()) quitWhileWaiting :=
    Lib.Machine.stepsMeet_of_checks (by decide)
  exact ⟨s, run, gone, (requests_kept_iff () quitWhileWaiting s run).1 prompt⟩

/-- It is destroyed between the publication and `loop()`. -/
def quitBeforeLoop : List (ThreadInput Unit Unit) :=
  [.start, .threadFunc, .threadFunc, .threadFunc, .awake, .destruct, .test,
    .loop (.storeQuit .starter), .loop (.quitWakeup .starter), .loop (.advance []),
    .loop (.advance []), .loop (.advance [])]

/-- The init callback queues a functor. -/
def queueInCallback : List (ThreadInput Unit Unit) :=
  [.start, .threadFunc, .loop (.emplaceBack .loopThread ()), .loop (.queueWakeup .loopThread),
    .threadFunc, .threadFunc, .loop (.advance []), .loop (.advance []), .loop (.advance [])]

/-- The destructor waits in `join` for a loop that has forgotten its `quit`, and a loop waits with
a functor queued. -/
theorem requests_forgotten :
    (∃ s, machine.Run (new ()) quitBeforeLoop s ∧ s.starter = .joining ∧
      s.sys.loop.position = .polling ∧ ¬ s.Kept) ∧
    ∃ s, machine.Run (new ()) queueInCallback s ∧ s.sys.loop.pendingFunctors_ = [()] ∧
      s.sys.loop.wakeupFd_ = 0 ∧ ¬ s.Kept := by
  obtain ⟨s, run, joining, waits, returned, quit⟩ := machine.exists_run (new ()) quitBeforeLoop
    (fun s => s.starter = .joining ∧ s.sys.loop.position = .polling ∧ s.returned = true ∧
      s.sys.loop.quit_ = false) (by decide)
  obtain ⟨s', run', waits', first, queued, counter⟩ := machine.exists_run (new ())
    queueInCallback (fun s => s.sys.loop.position = .polling ∧ s.sys.loop.batches = [] ∧
      s.sys.loop.pendingFunctors_ = [()] ∧ s.sys.loop.wakeupFd_ = 0) (by decide)
  refine ⟨⟨s, run, joining, waits, ?_⟩, s', run', queued, counter, ?_⟩
  · intro kept
    have set := kept.quit returned (by rw [waits]; trivial)
    rw [quit] at set
    cases set
  · intro kept
    exact kept.first waits' first (by rw [queued]; simp) counter

end EventLoopThread

end TcpMuduo
