import TcpMuduo.Net.EventLoop

/-!
What holds of a loop in every interleaving: functors are executed once and in
the order in which they were queued, a batch is the list found by its swap, and
the loop thread does not wait in `epoll_wait` with work queued and no wakeup
under way.
-/

set_option autoImplicit false
set_option relaxedAutoImplicit false

namespace TcpMuduo

variable {T F H : Type}

def Position.batch : Position F H → List F
  | .running rest => rest
  | .calling _ rest => rest
  | _ => []

/-- The reported channels whose handlers have not returned. -/
def Position.channels : Position F H → List H
  | .dispatching rest => rest
  | .handling channel rest => channel :: rest
  | _ => []

/-- The loop thread has the batch of this iteration behind its swap and reads `quit_` before it
swaps again. -/
def Position.PastSwap : Position F H → Prop
  | .running _ | .calling _ _ | .testing | .stopped => True
  | _ => False

instance (p : Position F H) : Decidable p.PastSwap :=
  match p with
  | .running _ | .calling _ _ | .testing | .stopped => .isTrue trivial
  | .created | .starting | .polling | .dispatching _ | .handling _ _ | .draining => .isFalse id

/-- The loop thread swaps the queue out before it can wait again. -/
def Position.BeforeSwap : Position F H → Prop
  | .dispatching _ | .handling _ _ | .draining => True
  | _ => False

/-- Code outside the loop runs on the loop thread. -/
def Position.Outside : Position F H → Prop
  | .handling _ _ | .calling _ _ | .stopped => True
  | _ => False

namespace EventLoop

/-- The steps of the loop thread, one constructor for each place it can be at. -/
inductive Moves (l : EventLoop T F H) (active : List H) : EventLoop T F H → Prop
  | enter (here : l.position = .created) :
      Moves l active { l with looping_ := true, position := .starting }
  | reset (here : l.position = .starting) :
      Moves l active { l with quit_ := false, position := .testing }
  | stop (here : l.position = .testing) (quit : l.quit_ = true) :
      Moves l active { l with looping_ := false, position := .stopped }
  | wait (here : l.position = .testing) (quit : l.quit_ = false) :
      Moves l active { l with position := .polling }
  | report (here : l.position = .polling) (ready : l.Ready active) :
      Moves l active { l with position := .dispatching active }
  | begin (here : l.position = .dispatching []) :
      Moves l active { l with callingPendingFunctors_ := true, position := .draining }
  | drain (rest : List H) (here : l.position = .dispatching (l.wakeupChannel_ :: rest)) :
      Moves l active { l.handleRead with position := .dispatching rest }
  | handle (channel : H) (rest : List H) (here : l.position = .dispatching (channel :: rest))
      (other : channel ≠ l.wakeupChannel_) :
      Moves l active { l with position := .handling channel rest }
  | handled (channel : H) (rest : List H) (here : l.position = .handling channel rest) :
      Moves l active { l with position := .dispatching rest }
  | swap (here : l.position = .draining) :
      Moves l active { l with
        position := .running l.pendingFunctors_
        pendingFunctors_ := []
        batches := l.batches ++ [l.pendingFunctors_] }
  | call (functor : F) (rest : List F) (here : l.position = .running (functor :: rest)) :
      Moves l active
        { l with position := .calling functor rest, executed := l.executed ++ [functor] }
  | called (functor : F) (rest : List F) (here : l.position = .calling functor rest) :
      Moves l active { l with position := .running rest }
  | finish (here : l.position = .running []) :
      Moves l active { l with callingPendingFunctors_ := false, position := .testing }

private theorem advance_moves [DecidableEq H] {l l' : EventLoop T F H} {active : List H}
    (h : l.advance active = some l') : Moves l active l' := by
  unfold advance at h
  split at h
  · rename_i here
    exact Option.some.inj h ▸ .enter here
  · rename_i here
    exact Option.some.inj h ▸ .reset here
  · rename_i here
    split at h
    · rename_i quit
      exact Option.some.inj h ▸ .stop here quit
    · rename_i quit
      exact Option.some.inj h ▸ .wait here (by simpa using quit)
  · rename_i here
    split at h
    · rename_i ready
      exact Option.some.inj h ▸ .report here ready
    · cases h
  · rename_i here
    exact Option.some.inj h ▸ .begin here
  · rename_i channel rest here
    split at h
    · rename_i same
      subst same
      exact Option.some.inj h ▸ .drain rest here
    · rename_i other
      exact Option.some.inj h ▸ .handle channel rest here other
  · rename_i channel rest here
    exact Option.some.inj h ▸ .handled channel rest here
  · rename_i here
    exact Option.some.inj h ▸ .swap here
  · rename_i functor rest here
    exact Option.some.inj h ▸ .call functor rest here
  · rename_i here
    exact Option.some.inj h ▸ .finish here
  · rename_i functor rest here
    exact Option.some.inj h ▸ .called functor rest here
  · cases h

/-- The executed functors, the rest of the batch and the queue are all functors ever queued, in
their order; the executed ones and the rest of the batch are the lists swapped out so far. -/
structure InOrder (l : EventLoop T F H) : Prop where
  history : l.executed ++ l.position.batch ++ l.pendingFunctors_ = l.queued
  swapped : l.batches.flatten = l.executed ++ l.position.batch

theorem new_inOrder (tid : T) (wakeupChannel : H) :
    (new tid wakeupChannel : EventLoop T F H).InOrder :=
  ⟨rfl, rfl⟩

theorem InOrder.emplaceBack {l : EventLoop T F H} (h : l.InOrder) (f : F) :
    (l.emplaceBack f).InOrder := by
  refine ⟨?_, h.swapped⟩
  have history := h.history
  simp only [EventLoop.emplaceBack]
  rw [← history]
  simp

theorem InOrder.moves {l l' : EventLoop T F H} {active : List H} (h : l.InOrder)
    (m : Moves l active l') :
    l'.InOrder := by
  obtain ⟨history, swapped⟩ := h
  cases m with
  | swap here =>
    simp only [here, Position.batch, List.append_nil] at history swapped
    refine ⟨by simpa [Position.batch] using history, ?_⟩
    simp [Position.batch, swapped]
  | call functor rest here | called functor rest here =>
    simp only [here, Position.batch] at history swapped
    exact ⟨by simpa [Position.batch] using history, by simpa [Position.batch] using swapped⟩
  | enter here | reset here | stop here _ | wait here _ | report here _ | begin here
  | drain _ here | handle _ _ here _ | handled _ _ here | finish here =>
    simp only [here, Position.batch] at history swapped
    exact ⟨history, swapped⟩

private theorem wakeup_eq (l : EventLoop T F H) : ∃ n, l.wakeup = { l with wakeupFd_ := n } := by
  unfold wakeup
  split
  · exact ⟨_, rfl⟩
  · exact ⟨l.wakeupFd_, rfl⟩

theorem wakeup_ne_zero (l : EventLoop T F H) : l.wakeup.wakeupFd_ ≠ 0 := by
  unfold wakeup
  split
  · exact Nat.succ_ne_zero _
  · rename_i full
    simp only [eventfdMax] at full
    omega

variable [DecidableEq T]

theorem queueWakeup_eq (l : EventLoop T F H) (t : T) :
    ∃ n, l.queueWakeup t = { l with wakeupFd_ := n } := by
  unfold queueWakeup
  split
  · exact l.wakeup_eq
  · exact ⟨l.wakeupFd_, rfl⟩

theorem quitWakeup_eq (l : EventLoop T F H) (t : T) :
    ∃ n, l.quitWakeup t = { l with wakeupFd_ := n } := by
  unfold quitWakeup
  split
  · exact l.wakeup_eq
  · exact ⟨l.wakeupFd_, rfl⟩

theorem quitWakeup_ne_zero (l : EventLoop T F H) (t : T) :
    (l.quitWakeup t).wakeupFd_ ≠ 0 ∨ l.quitWakeup t = l := by
  unfold quitWakeup
  split
  · exact .inl l.wakeup_ne_zero
  · exact .inr rfl

/-- The wakeup after an append is written unless the loop thread itself queued outside a
batch. -/
theorem queueWakeup_ne_zero {l : EventLoop T F H} {t : T}
    (h : t ≠ l.threadId_ ∨ l.callingPendingFunctors_ = true) : (l.queueWakeup t).wakeupFd_ ≠ 0 := by
  have written : (!l.isInLoopThread t || l.callingPendingFunctors_) = true := by
    rcases h with h | h
    · have : l.isInLoopThread t = false := by simpa [isInLoopThread] using Ne.symm h
      simp [this]
    · simp [h]
  rw [queueWakeup, if_pos written]
  exact l.wakeup_ne_zero

end EventLoop

def LoopInput.emplaced : LoopInput T F H → Option F
  | .emplaceBack _ f => some f
  | _ => none

namespace LoopSystem

variable [DecidableEq T] [DecidableEq H] {startup : Bool}

/-- The steps of the machine, one constructor for each input. -/
inductive Steps (startup : Bool) (s : LoopSystem T F H) :
    LoopInput T F H → LoopSystem T F H → Prop
  | emplaceBack (t : T) (f : F) (free : s.caller t = .outside) (may : s.MayCall startup t = true) :
      Steps startup s (.emplaceBack t f) { s with
        loop := s.loop.emplaceBack f
        caller := Function.update s.caller t (.queueing s.loop.queued.length) }
  | queueWakeup (t : T) (index : Nat) (here : s.caller t = .queueing index) :
      Steps startup s (.queueWakeup t) { s with
        loop := s.loop.queueWakeup t
        caller := Function.update s.caller t .outside
        completed := s.completed ++ [index] }
  | storeQuit (t : T) (free : s.caller t = .outside) (may : s.MayCall startup t = true) :
      Steps startup s (.storeQuit t) { s with
        loop := s.loop.storeQuit
        caller := Function.update s.caller t .quitting
        promised := s.promised ++ s.completed }
  | quitWakeup (t : T) (here : s.caller t = .quitting) :
      Steps startup s (.quitWakeup t) { s with
        loop := s.loop.quitWakeup t
        caller := Function.update s.caller t .outside }
  | advance (active : List H) (loop : EventLoop T F H)
      (free : s.caller s.loop.threadId_ = .outside) (moves : s.loop.Moves active loop) :
      Steps startup s (.advance active) { s with loop := loop }

theorem step_steps {s s' : LoopSystem T F H} {input : LoopInput T F H}
    (h : (machine startup).step s input = some s') : Steps startup s input s' := by
  simp only [machine] at h
  cases input with
  | emplaceBack t f =>
    simp only [step] at h
    split at h
    · rename_i may
      exact Option.some.inj h ▸ .emplaceBack t f may.1 may.2
    · cases h
  | queueWakeup t =>
    simp only [step] at h
    split at h
    · rename_i index here
      exact Option.some.inj h ▸ .queueWakeup t index here
    · cases h
  | storeQuit t =>
    simp only [step] at h
    split at h
    · rename_i may
      exact Option.some.inj h ▸ .storeQuit t may.1 may.2
    · cases h
  | quitWakeup t =>
    simp only [step] at h
    split at h
    · rename_i here
      exact Option.some.inj h ▸ .quitWakeup t here
    · cases h
  | advance active =>
    simp only [step] at h
    split at h
    · rename_i free
      obtain ⟨loop, moves, rfl⟩ := Option.map_eq_some_iff.mp h
      exact .advance active loop free (EventLoop.advance_moves moves)
    · cases h

theorem step_inOrder {s s' : LoopSystem T F H} {input : LoopInput T F H}
    (inv : s.loop.InOrder) (h : (machine startup).step s input = some s') : s'.loop.InOrder := by
  cases step_steps h with
  | emplaceBack t f free may => exact inv.emplaceBack f
  | queueWakeup t index here =>
    obtain ⟨n, same⟩ := s.loop.queueWakeup_eq t
    simp only [same]
    exact ⟨inv.history, inv.swapped⟩
  | storeQuit t free may => exact ⟨inv.history, inv.swapped⟩
  | quitWakeup t here =>
    obtain ⟨n, same⟩ := s.loop.quitWakeup_eq t
    simp only [same]
    exact ⟨inv.history, inv.swapped⟩
  | advance active loop free moves => exact inv.moves moves

theorem run_inOrder {tid : T} {wake : H} {inputs : List (LoopInput T F H)}
    {s : LoopSystem T F H} (h : (machine startup).Run (new tid wake) inputs s) :
    s.loop.InOrder :=
  h.reachable.invariant (I := fun s => s.loop.InOrder) (EventLoop.new_inOrder tid wake)
    fun _ _ _ _ inv hs => step_inOrder inv hs

def work (s : LoopSystem T F H) : List F := s.loop.position.batch ++ s.loop.pendingFunctors_

def takes (s : LoopSystem T F H) (input : LoopInput T F H) : List F :=
  match input, s.loop.position with
  | .advance _, .running (functor :: _) => [functor]
  | _, _ => []

/-- Work comes in at the end through `emplaceBack` and goes out at the front by a call. -/
theorem step_work {s s' : LoopSystem T F H} {input : LoopInput T F H}
    (h : (machine startup).step s input = some s') :
    s.takes input ++ s'.work = s.work ++ input.emplaced.toList := by
  cases step_steps h with
  | emplaceBack t f free may =>
    simp [takes, work, LoopInput.emplaced, EventLoop.emplaceBack]
  | queueWakeup t index here =>
    obtain ⟨n, same⟩ := s.loop.queueWakeup_eq t
    simp [takes, work, LoopInput.emplaced, same]
  | storeQuit t free may => simp [takes, work, LoopInput.emplaced, EventLoop.storeQuit]
  | quitWakeup t here =>
    obtain ⟨n, same⟩ := s.loop.quitWakeup_eq t
    simp [takes, work, LoopInput.emplaced, same]
  | advance active loop free moves =>
    cases moves with
    | call f rest here => simp [takes, work, LoopInput.emplaced, Position.batch, here]
    | enter here | reset here | stop here _ | wait here _ | report here _ | begin here
    | drain _ here | handle _ _ here _ | handled _ _ here | swap here | called _ _ here
    | finish here =>
      simp [takes, work, LoopInput.emplaced, Position.batch, EventLoop.handleRead, here]

theorem step_position {s s' : LoopSystem T F H} {input : LoopInput T F H}
    (h : (machine startup).step s input = some s') :
    s'.loop.position = s.loop.position ∨ ∃ active, input = .advance active := by
  cases step_steps h with
  | emplaceBack t f free may => exact .inl rfl
  | queueWakeup t index here =>
    obtain ⟨n, same⟩ := s.loop.queueWakeup_eq t
    exact .inl (by rw [same])
  | storeQuit t free may => exact .inl rfl
  | quitWakeup t here =>
    obtain ⟨n, same⟩ := s.loop.quitWakeup_eq t
    exact .inl (by rw [same])
  | advance active loop free moves => exact .inr ⟨active, rfl⟩

theorem step_channels {s s' : LoopSystem T F H} {input : LoopInput T F H} {channel : H}
    (h : (machine startup).step s input = some s') (mem : channel ∈ s'.loop.position.channels) :
    channel ∈ s.loop.position.channels ∨
      ∃ active, input = .advance active ∧ s.loop.position = .polling ∧ channel ∈ active := by
  cases hi : input with
  | advance active =>
    subst hi
    cases step_steps h with
    | advance active loop free moves =>
      cases moves with
      | report here ready => exact .inr ⟨active, rfl, here, mem⟩
      | drain rest here => exact .inl (by rw [here]; exact List.mem_cons_of_mem _ mem)
      | handle channel rest here other => exact .inl (by rw [here]; exact mem)
      | handled channel rest here => exact .inl (by rw [here]; exact List.mem_cons_of_mem _ mem)
      | enter here | reset here | stop here _ | wait here _ | begin here | swap here | call _ _ here
      | called _ _ here | finish here =>
        simp [Position.channels] at mem
  | emplaceBack t f | queueWakeup t | storeQuit t | quitWakeup t =>
    rcases step_position h with same | ⟨active, he⟩
    · exact .inl (by rw [← same]; exact mem)
    · rw [hi] at he
      cases he

theorem step_wakeupChannel {s s' : LoopSystem T F H} {input : LoopInput T F H}
    (h : (machine startup).step s input = some s') :
    s'.loop.wakeupChannel_ = s.loop.wakeupChannel_ := by
  cases step_steps h with
  | emplaceBack t f free may => rfl
  | queueWakeup t index here =>
    obtain ⟨n, same⟩ := s.loop.queueWakeup_eq t
    rw [same]
  | storeQuit t free may => rfl
  | quitWakeup t here =>
    obtain ⟨n, same⟩ := s.loop.quitWakeup_eq t
    rw [same]
  | advance active loop free moves => cases moves <;> rfl

theorem step_dispatching {s s' : LoopSystem T F H} {active rest : List H} {channel : H}
    (h : (machine startup).step s (.advance active) = some s')
    (here : s.loop.position = .dispatching (channel :: rest))
    (other : channel ≠ s.loop.wakeupChannel_) :
    s'.loop.position = .handling channel rest := by
  cases step_steps h with
  | advance active loop free moves =>
    cases moves <;> simp_all

theorem step_queued {s s' : LoopSystem T F H} {input : LoopInput T F H}
    (h : (machine startup).step s input = some s') :
    s'.loop.queued = s.loop.queued ++ input.emplaced.toList := by
  cases step_steps h with
  | emplaceBack t f free may => rfl
  | queueWakeup t index here =>
    obtain ⟨n, same⟩ := s.loop.queueWakeup_eq t
    simp [same, LoopInput.emplaced]
  | storeQuit t free may => simp [EventLoop.storeQuit, LoopInput.emplaced]
  | quitWakeup t here =>
    obtain ⟨n, same⟩ := s.loop.quitWakeup_eq t
    simp [same, LoopInput.emplaced]
  | advance active loop free moves =>
    cases moves <;> simp [EventLoop.handleRead, LoopInput.emplaced]

private theorem run_queued {tid : T} {wake : H} {inputs : List (LoopInput T F H)}
    {s : LoopSystem T F H} (h : (machine startup).Run (new tid wake) inputs s) :
    s.loop.queued = inputs.filterMap LoopInput.emplaced := by
  induction h with
  | nil => rfl
  | @snoc inputs s s' input _ hs ih =>
    rw [step_queued hs, ih, List.filterMap_append]
    cases hi : input.emplaced <;> simp [hi]

/-- Exactly-once execution in the order of queueing: in every state of every run the functors
called so far, the rest of the batch and the queue are the functors queued so far, in order. From
a swap until the next one, the functors called and the rest of the batch are those called before
the swap and the list it found, whatever is queued in between. -/
theorem functors_exactly_once (startup : Bool) (tid : T) (wake : H)
    (inputs : List (LoopInput T F H)) (s : LoopSystem T F H)
    (h : (machine startup).Run (new tid wake) inputs s) :
    s.loop.executed ++ s.loop.position.batch ++ s.loop.pendingFunctors_
        = inputs.filterMap LoopInput.emplaced ∧
      ∀ later s', s.loop.position = .draining → (machine startup).Run s later s' →
        s'.loop.batches = s.loop.batches ++ [s.loop.pendingFunctors_] →
        s'.loop.executed ++ s'.loop.position.batch
          = s.loop.executed ++ s.loop.pendingFunctors_ := by
  have inv := run_inOrder h
  refine ⟨by rw [inv.history, run_queued h], ?_⟩
  intro later s' here run one_swap
  have inv' := run_inOrder (h.append run)
  have before : s.loop.batches.flatten = s.loop.executed := by
    simpa [here, Position.batch] using inv.swapped
  rw [← inv'.swapped, one_swap]
  simp [before]

/-- A functor that queues itself again while its batch runs. -/
def requeueInputs : List (LoopInput Nat Nat Nat) :=
  [.emplaceBack 1 10, .queueWakeup 1, .advance [], .advance [], .advance [], .advance [0],
    .advance [], .advance [], .advance [], .advance [], .emplaceBack 0 10, .queueWakeup 0,
    .advance [], .advance []]

theorem functors_exactly_once_requeue :
    ∃ s : LoopSystem Nat Nat Nat, (machine false).Run (new 0 0) requeueInputs s ∧
      s.loop.executed = [10] ∧
      s.loop.executed ++ s.loop.position.batch ++ s.loop.pendingFunctors_ = [10, 10] := by
  have run := Lib.Machine.run_iff_exec.mpr
    (rfl : (machine false).exec (new (0 : Nat) (0 : Nat)) requeueInputs = some _)
  exact ⟨_, run, rfl, (functors_exactly_once false 0 0 _ _ run).1⟩

omit [DecidableEq H] in
private theorem mayCall_outside {s : LoopSystem T F H} {t : T} (may : s.MayCall false t = true)
    (own : t = s.loop.threadId_) : s.loop.position.Outside := by
  subst own
  simp only [MayCall, EventLoop.isInLoopThread, beq_self_eq_true, Bool.not_true,
    Bool.false_or] at may
  split at may
  · rename_i here
    simp [here, Position.Outside]
  · rename_i here
    simp [here, Position.Outside]
  · rename_i here
    simp [here, Position.Outside]
  · cases may
  · cases may

/-- Queued work is about to be swapped out, or announced by the counter or by a call that has yet
to write to it. -/
structure Awake (s : LoopSystem T F H) : Prop where
  own : s.caller s.loop.threadId_ ≠ .outside → s.loop.position.Outside
  flag : ∀ f rest, s.loop.position = .calling f rest → s.loop.callingPendingFunctors_ = true
  batch : ∀ rest, s.loop.position = .running rest → s.loop.callingPendingFunctors_ = true
  drain : s.loop.position = .draining → s.loop.callingPendingFunctors_ = true
  work : s.loop.pendingFunctors_ ≠ [] → s.loop.position.BeforeSwap ∨
    s.loop.position = .stopped ∨ s.loop.wakeupFd_ ≠ 0 ∨ ∃ t index, s.caller t = .queueing index

omit [DecidableEq T] [DecidableEq H] in
theorem new_awake (tid : T) (wake : H) : (new tid wake : LoopSystem T F H).Awake where
  own h := absurd rfl h
  flag _ _ h := by cases h
  batch _ h := by cases h
  drain h := by cases h
  work h := absurd rfl h

omit [DecidableEq T] [DecidableEq H] in
/-- The loop thread's own steps keep the announcement: it leaves `polling` for a swap, and after
the swap only calls that write to the counter can queue. -/
theorem Awake.advance {s : LoopSystem T F H} (inv : s.Awake) {loop : EventLoop T F H}
    {active : List H}
    (free : s.caller s.loop.threadId_ = .outside) (moves : s.loop.Moves active loop) :
    ({ s with loop := loop } : LoopSystem T F H).Awake := by
  have idle : ∀ P : Prop, s.caller s.loop.threadId_ ≠ .outside → P := fun P h => absurd free h
  have announced (noSwap : ¬ s.loop.position.BeforeSwap) (going : s.loop.position ≠ .stopped)
      (work : s.loop.pendingFunctors_ ≠ []) :
      s.loop.wakeupFd_ ≠ 0 ∨ ∃ t index, s.caller t = .queueing index :=
    ((inv.work work).resolve_left noSwap).resolve_left going
  cases moves with
  | enter here | reset here | wait here _ | finish here =>
    refine ⟨idle _, by simp, by simp, by simp, ?_⟩
    intro work
    exact .inr (.inr (announced (by simp [here, Position.BeforeSwap]) (by simp [here]) work))
  | stop here quit => exact ⟨idle _, by simp, by simp, by simp, fun _ => .inr (.inl rfl)⟩
  | report here ready =>
    exact ⟨idle _, by simp, by simp, by simp, fun _ => .inl trivial⟩
  | begin here => exact ⟨idle _, by simp, by simp, by simp, fun _ => .inl trivial⟩
  | drain rest here => exact ⟨idle _, by simp, by simp, by simp, fun _ => .inl trivial⟩
  | handle channel rest here other =>
    exact ⟨idle _, by simp, by simp, by simp, fun _ => .inl trivial⟩
  | handled channel rest here =>
    exact ⟨idle _, by simp, by simp, by simp, fun _ => .inl trivial⟩
  | swap here =>
    exact ⟨idle _, by simp, fun _ _ => inv.drain here, by simp, fun work => absurd rfl work⟩
  | call functor rest here =>
    refine ⟨idle _, fun _ _ _ => inv.batch _ here, by simp, by simp, ?_⟩
    intro work
    exact .inr (.inr (announced (by simp [here, Position.BeforeSwap]) (by simp [here]) work))
  | called functor rest here =>
    refine ⟨idle _, by simp, fun _ _ => inv.flag _ _ here, by simp, ?_⟩
    intro work
    exact .inr (.inr (announced (by simp [here, Position.BeforeSwap]) (by simp [here]) work))

omit [DecidableEq H] in
theorem Awake.call {s : LoopSystem T F H} (inv : s.Awake) {loop : EventLoop T F H} {t : T}
    {c : Caller} {completed promised : List Nat} (position : loop.position = s.loop.position)
    (thread : loop.threadId_ = s.loop.threadId_)
    (flag : loop.callingPendingFunctors_ = s.loop.callingPendingFunctors_)
    (own : c = .outside ∨ (t = s.loop.threadId_ → s.loop.position.Outside))
    (work : loop.pendingFunctors_ ≠ [] → loop.position.BeforeSwap ∨ loop.position = .stopped ∨
      loop.wakeupFd_ ≠ 0 ∨ ∃ u index, Function.update s.caller t c u = .queueing index) :
    (⟨loop, Function.update s.caller t c, completed, promised⟩ : LoopSystem T F H).Awake := by
  refine ⟨?_, by rw [position, flag]; exact inv.flag, by rw [position, flag]; exact inv.batch,
    by rw [position, flag]; exact inv.drain, work⟩
  simp only [position, thread]
  intro busy
  by_cases same : s.loop.threadId_ = t
  · rcases own with rfl | outside
    · simp [same] at busy
    · exact outside same.symm
  · rw [Function.update_of_ne same] at busy
    exact inv.own busy

omit [DecidableEq H] in
theorem Awake.queueWakeup {s : LoopSystem T F H} (inv : s.Awake) {t : T} {index : Nat}
    (here : s.caller t = .queueing index) :
    (s.loop.queueWakeup t).wakeupFd_ ≠ 0 ∨ s.loop.position.BeforeSwap ∨
      s.loop.position = .stopped := by
  by_cases own : t = s.loop.threadId_
  · have outside := inv.own (by rw [← own, here]; simp)
    cases hpos : s.loop.position with
    | handling channel rest => exact .inr (.inl (by simp [Position.BeforeSwap]))
    | calling f rest => exact .inl (EventLoop.queueWakeup_ne_zero (.inr (inv.flag _ _ hpos)))
    | stopped => exact .inr (.inr rfl)
    | created | starting | testing | polling | dispatching rest | draining | running rest =>
      simp [hpos, Position.Outside] at outside
  · exact .inl (EventLoop.queueWakeup_ne_zero (.inl own))

theorem step_awake {s s' : LoopSystem T F H} {input : LoopInput T F H} (inv : s.Awake)
    (h : (machine false).step s input = some s') : s'.Awake := by
  have elsewhere : ∀ {t : T} {c : Caller}, (∀ index, s.caller t ≠ .queueing index) →
      (∃ u index, s.caller u = .queueing index) →
      ∃ u index, Function.update s.caller t c u = .queueing index := by
    rintro t c free ⟨u, index, hu⟩
    have other : u ≠ t := by
      rintro rfl
      exact free index hu
    exact ⟨u, index, by rw [Function.update_of_ne other]; exact hu⟩
  cases step_steps h with
  | emplaceBack t f free may =>
    exact inv.call rfl rfl rfl (.inr fun own => mayCall_outside may own)
      fun _ => .inr (.inr (.inr ⟨t, s.loop.queued.length, by simp⟩))
  | queueWakeup t index here =>
    obtain announced := inv.queueWakeup here
    obtain ⟨n, same⟩ := s.loop.queueWakeup_eq t
    rw [same] at announced
    rw [same]
    refine inv.call rfl rfl rfl (.inl rfl) ?_
    intro _
    rcases announced with h | h | h
    · exact .inr (.inr (.inl h))
    · exact .inl h
    · exact .inr (.inl h)
  | storeQuit t free may =>
    refine inv.call rfl rfl rfl (.inr fun own => mayCall_outside may own) ?_
    intro work
    have others := elsewhere (t := t) (c := .quitting) (by simp [free])
    exact (inv.work work).imp_right (.imp_right (.imp_right others))
  | quitWakeup t here =>
    have others := elsewhere (t := t) (c := .outside) (by simp [here])
    rcases s.loop.quitWakeup_ne_zero t with written | same
    · obtain ⟨n, same⟩ := s.loop.quitWakeup_eq t
      rw [same] at written
      rw [same]
      exact inv.call rfl rfl rfl (.inl rfl) fun _ => .inr (.inr (.inl written))
    · rw [same]
      exact inv.call rfl rfl rfl (.inl rfl) fun work =>
        (inv.work work).imp_right (.imp_right (.imp_right others))
  | advance active loop free moves => exact inv.advance free moves

private theorem run_awake {tid : T} {wake : H} {inputs : List (LoopInput T F H)}
    {s : LoopSystem T F H}
    (h : (machine false).Run (new tid wake) inputs s) : s.Awake :=
  h.reachable.invariant (I := Awake) (new_awake tid wake)
    fun _ _ _ _ inv hs => step_awake inv hs

/-- The loop thread is never at `epoll_wait` with functors queued, the counter at zero and no
thread between its `emplace_back` and the end of its `queueInLoop`. -/
theorem no_sleep_on_queued_work (tid : T) (wake : H) (inputs : List (LoopInput T F H))
    (s : LoopSystem T F H) (h : (machine false).Run (new tid wake) inputs s) :
    ¬ (s.loop.position = .polling ∧ s.loop.pendingFunctors_ ≠ [] ∧ s.loop.wakeupFd_ = 0 ∧
      ∀ t index, s.caller t ≠ .queueing index) := by
  rintro ⟨here, work, zero, quiet⟩
  rcases (run_awake h).work work with before | stopped | written | ⟨t, index, busy⟩
  · simp [here, Position.BeforeSwap] at before
  · simp [here] at stopped
  · exact written zero
  · exact quiet t index busy

/-- A functor queued from another thread while the loop thread waits. -/
theorem no_sleep_on_queued_work_waiting :
    ∃ s : LoopSystem Nat Nat Nat, (machine false).Run (new 0 0)
        [.advance [], .advance [], .advance [], .emplaceBack 1 10] s ∧
      s.loop.position = .polling ∧ s.loop.pendingFunctors_ = [10] ∧
      ¬ (s.loop.position = .polling ∧ s.loop.pendingFunctors_ ≠ [] ∧ s.loop.wakeupFd_ = 0 ∧
        ∀ t index, s.caller t ≠ .queueing index) := by
  have run := Lib.Machine.run_iff_exec.mpr
    (rfl : (machine false).exec (new (0 : Nat) (0 : Nat))
      [.advance [], .advance [], .advance [], .emplaceBack 1 (10 : Nat)] = some _)
  exact ⟨_, run, rfl, rfl, no_sleep_on_queued_work 0 0 _ _ run⟩

end LoopSystem

end TcpMuduo
