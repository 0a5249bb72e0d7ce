import TcpMuduo.Net.Quit

/-!
What happens from one visit of `epoll_wait` to the next: everything queued at
the first is executed before the second. And what is left to do after `quit`:
the loop is woken up, visits `epoll_wait` no more, and ends.
-/

set_option autoImplicit false
set_option relaxedAutoImplicit false

namespace TcpMuduo

variable {T F H : Type}

/-- `loop()` has reset `quit_` and begun to test it. -/
def Position.Entered : Position F H → Prop
  | .created | .starting => False
  | _ => True

instance (p : Position F H) : Decidable p.Entered :=
  match p with
  | .created | .starting => .isFalse id
  | .testing | .polling | .dispatching _ | .handling _ _ | .draining | .running _ | .calling _ _
  | .stopped => .isTrue trivial

/-- The visits of `epoll_wait` that a loop has before it when its flag is set. -/
def Position.visitsLeft : Position F H → Nat
  | .polling => 1
  | _ => 0

/-- The steps that the loop thread has before it when the flag is set and the queue is empty. -/
def Position.stepsLeft : Position F H → Nat
  | .created | .starting | .stopped => 0
  | .testing => 1
  | .running rest => 2 * rest.length + 2
  | .calling _ rest => 2 * rest.length + 3
  | .draining => 3
  | .dispatching rest => 2 * rest.length + 4
  | .handling _ rest => 2 * rest.length + 5
  | .polling => 5

namespace EventLoop

private theorem queueWakeup_kept [DecidableEq T] {l : EventLoop T F H} {t : T}
    (h : l.wakeupFd_ ≠ 0) :
    (l.queueWakeup t).wakeupFd_ ≠ 0 := by
  unfold queueWakeup
  split
  · exact l.wakeup_ne_zero
  · exact h

private theorem quitWakeup_kept [DecidableEq T] {l : EventLoop T F H} {t : T}
    (h : l.wakeupFd_ ≠ 0) :
    (l.quitWakeup t).wakeupFd_ ≠ 0 := by
  rcases l.quitWakeup_ne_zero t with written | same
  · exact written
  · rw [same]
    exact h

private theorem quitWakeup_other [DecidableEq T] {l : EventLoop T F H} {t : T}
    (h : t ≠ l.threadId_) :
    (l.quitWakeup t).wakeupFd_ ≠ 0 := by
  have other : l.isInLoopThread t = false := by simpa [isInLoopThread] using Ne.symm h
  rw [quitWakeup, other]
  exact l.wakeup_ne_zero

end EventLoop

namespace LoopSystem

variable [DecidableEq T] [DecidableEq H] {startup : Bool} {s s' : LoopSystem T F H}
variable {input : LoopInput T F H} {inputs : List (LoopInput T F H)}

theorem step_moves (h : (machine startup).step s input = some s') :
    (∃ active loop, input = .advance active ∧ s' = { s with loop := loop } ∧
        s.loop.Moves active loop) ∨
      (∀ active, input ≠ .advance active) ∧ s'.loop.position = s.loop.position ∧
        s'.loop.batches = s.loop.batches ∧ (s.loop.quit_ = true → s'.loop.quit_ = true) ∧
        s'.loop.pendingFunctors_ = s.loop.pendingFunctors_ ++ input.emplaced.toList := by
  cases step_steps h with
  | emplaceBack t f free may => exact .inr ⟨by simp, rfl, rfl, id, rfl⟩
  | queueWakeup t index here =>
    obtain ⟨n, same⟩ := s.loop.queueWakeup_eq t
    rw [same]
    exact .inr ⟨by simp, rfl, rfl, id, by simp [LoopInput.emplaced]⟩
  | storeQuit t free may =>
    exact .inr ⟨by simp, rfl, rfl, fun _ => rfl, by simp [EventLoop.storeQuit, LoopInput.emplaced]⟩
  | quitWakeup t here =>
    obtain ⟨n, same⟩ := s.loop.quitWakeup_eq t
    rw [same]
    exact .inr ⟨by simp, rfl, rfl, id, by simp [LoopInput.emplaced]⟩
  | advance active loop free moves => exact .inl ⟨active, loop, rfl, rfl, moves⟩

private theorem step_threadId (h : (machine startup).step s input = some s') :
    s'.loop.threadId_ = s.loop.threadId_ := by
  cases step_steps h with
  | emplaceBack t f free may | storeQuit t free may => rfl
  | queueWakeup t index here =>
    obtain ⟨n, same⟩ := s.loop.queueWakeup_eq t
    rw [same]
  | quitWakeup t here =>
    obtain ⟨n, same⟩ := s.loop.quitWakeup_eq t
    rw [same]
  | advance active loop free moves => cases moves <;> rfl

theorem threadId_eq {tid : T} {wake : H} (h : (machine startup).Reachable (new tid wake) s) :
    s.loop.threadId_ = tid :=
  h.invariant (I := fun s => s.loop.threadId_ = tid) rfl
    fun _ _ _ _ inv hs => (step_threadId hs).trans inv

theorem step_calling {active : List H} {f : F} {rest : List F}
    (h : (machine startup).step s (.advance active) = some s')
    (here : s.loop.position = .running (f :: rest)) :
    s'.loop.position = .calling f rest ∧ s'.loop.executed = s.loop.executed ++ [f] := by
  cases step_steps h with
  | advance active loop free moves =>
    cases moves with
    | call functor rest' here' =>
      rw [here] at here'
      cases here'
      exact ⟨rfl, rfl⟩
    | _ => simp_all

theorem step_executed {f : F} (h : (machine startup).step s input = some s')
    (mem : f ∈ s'.loop.executed) : f ∈ s.loop.executed ∨ f ∈ s.takes input := by
  cases step_steps h with
  | queueWakeup t index here =>
    obtain ⟨n, same⟩ := s.loop.queueWakeup_eq t
    rw [same] at mem
    exact .inl mem
  | quitWakeup t here =>
    obtain ⟨n, same⟩ := s.loop.quitWakeup_eq t
    rw [same] at mem
    exact .inl mem
  | emplaceBack t f free may | storeQuit t free may => exact .inl mem
  | advance active loop free moves =>
    cases moves with
    | call functor rest here =>
      refine (List.mem_append.mp mem).imp_right ?_
      intro called
      simpa [takes, here] using called
    | _ => exact .inl mem

def Polls (s : LoopSystem T F H) (input : LoopInput T F H) : Prop :=
  s.loop.position = .polling ∧ ∃ active, input = .advance active

private theorem queued_grows (run : (machine startup).Run s inputs s') :
    s.loop.queued <+: s'.loop.queued := by
  induction run with
  | nil => exact List.prefix_refl _
  | snoc _ hs ih =>
    rw [step_queued hs]
    exact ih.trans (List.prefix_append _ _)

/-- The first `n` queued functors have been swapped out, or will be before the next visit. -/
def TakesIn (n : Nat) (s : LoopSystem T F H) : Prop :=
  s.loop.position.BeforeSwap ∨ n ≤ s.loop.batches.flatten.length

theorem TakesIn.step {n : Nat} (inOrder : s.loop.InOrder) (queued : n ≤ s.loop.queued.length)
    (inv : TakesIn n s) (h : (machine startup).step s input = some s') : TakesIn n s' := by
  rcases step_moves h with ⟨active, loop, -, rfl, moves⟩ | ⟨-, position, batches, -⟩
  · rcases inv with before | taken
    · cases moves with
      | begin here | drain _ here | handle _ _ here _ | handled _ _ here => exact .inl trivial
      | swap here =>
        refine .inr ?_
        have history := inOrder.history
        have swapped := inOrder.swapped
        simp only [here, Position.batch, List.append_nil] at history swapped
        rw [List.flatten_append, swapped]
        simpa [← history] using queued
      | enter here | reset here | stop here _ | wait here _ | report here _ | call _ _ here
      | called _ _ here | finish here =>
        rw [here] at before
        exact before.elim
    · refine .inr (Nat.le_trans taken ?_)
      cases moves with
      | swap here =>
        rw [List.flatten_append, List.length_append]
        exact Nat.le_add_right _ _
      | _ => exact Nat.le_refl _
  · unfold TakesIn
    rw [position, batches]
    exact inv

/-- A round: between two visits of `epoll_wait` the loop executes everything that had been queued
at the first one. In place of the second visit the loop may test `quit_` or have returned. -/
theorem round_executes {tid : T} {wake : H} {before : List (LoopInput T F H)}
    (first : (machine startup).Run (new tid wake) before s)
    (run : (machine startup).Run s inputs s') (polled : (machine startup).Occurred Polls s inputs)
    (through : ¬ s'.loop.position.BeforeSwap) (empty : s'.loop.position.batch = []) :
    s.loop.queued <+: s'.loop.executed := by
  have taken : (machine startup).Occurred Polls s inputs →
      TakesIn s.loop.queued.length s' := by
    clear polled through empty
    induction run with
    | nil => exact fun polled => absurd polled Lib.Machine.not_occurred_nil
    | @snoc inputs m m' input run hs ih =>
      rw [run.occurred_snoc]
      rintro (earlier | ⟨here, active, rfl⟩)
      · have inOrder := run_inOrder (first.append run)
        exact (ih earlier).step inOrder (queued_grows run).length_le hs
      · left
        cases step_steps hs with
        | advance active loop free moves =>
          cases moves with
          | report _ ready => trivial
          | _ => simp_all
  have inOrder := run_inOrder (first.append run)
  have all := (taken polled).resolve_left through
  rw [inOrder.swapped, empty, List.append_nil] at all
  have history := inOrder.history
  rw [empty, List.append_nil] at history
  have done : s'.loop.executed <+: s'.loop.queued := history ▸ List.prefix_append _ _
  exact List.prefix_of_prefix_length_le (queued_grows run) done all

/-- A loop that waits with its flag set has been woken up, or is about to be by the thread that
calls `quit`. -/
def Told (s : LoopSystem T F H) : Prop :=
  s.loop.quit_ = true → s.loop.position = .polling → s.loop.wakeupFd_ ≠ 0 ∨
    ∃ t, t ≠ s.loop.threadId_ ∧ s.caller t = .quitting

omit [DecidableEq H] in
private theorem other_of_polling {t : T} (may : s.MayCall startup t = true)
    (here : s.loop.position = .polling) : t ≠ s.loop.threadId_ := by
  rintro rfl
  simp [MayCall, EventLoop.isInLoopThread, here] at may

theorem Told.step (inv : s.Told) (h : (machine startup).step s input = some s') : s'.Told := by
  have going {t : T} {c : Caller} (free : s.caller t ≠ .quitting)
      (told : ∃ u, u ≠ s.loop.threadId_ ∧ s.caller u = .quitting) :
      ∃ u, u ≠ s.loop.threadId_ ∧ Function.update s.caller t c u = .quitting := by
    obtain ⟨u, other, busy⟩ := told
    have apart : u ≠ t := by
      rintro rfl
      exact free busy
    exact ⟨u, other, (Function.update_of_ne apart _ _).trans busy⟩
  cases step_steps h with
  | emplaceBack t f free may =>
    exact fun quit here => (inv quit here).imp_right (going (by simp [free]))
  | queueWakeup t index here =>
    have kept := s.loop.queueWakeup_kept (t := t)
    obtain ⟨n, same⟩ := s.loop.queueWakeup_eq t
    rw [same] at kept ⊢
    exact fun quit waits => (inv quit waits).imp kept (going (by simp [here]))
  | storeQuit t free may =>
    exact fun _ waits => .inr ⟨t, other_of_polling may waits, by simp⟩
  | quitWakeup t here =>
    by_cases own : t = s.loop.threadId_
    · have kept := s.loop.quitWakeup_kept (t := t)
      obtain ⟨n, same⟩ := s.loop.quitWakeup_eq t
      rw [same] at kept ⊢
      refine fun quit waits => (inv quit waits).imp kept ?_
      rintro ⟨u, other, busy⟩
      exact ⟨u, other, (Function.update_of_ne (own ▸ other) _ _).trans busy⟩
    · have written := s.loop.quitWakeup_other own
      obtain ⟨n, same⟩ := s.loop.quitWakeup_eq t
      rw [same] at written ⊢
      exact fun _ _ => .inl written
  | advance active loop free moves =>
    cases moves with
    | wait here running =>
      intro quit
      rw [show s.loop.quit_ = true from quit] at running
      cases running
    | report here _ | enter here | reset here | stop here _ | begin here | drain _ here
    | handle _ _ here _ | handled _ _ here | swap here | call _ _ here | called _ _ here
    | finish here =>
      intro _ waits
      cases waits

theorem told {tid : T} {wake : H} (h : (machine startup).Reachable (new tid wake) s) : s.Told :=
  h.invariant (I := Told) (fun quit => by cases quit) fun _ _ _ _ inv hs => inv.step hs

def visits (s : LoopSystem T F H) (input : LoopInput T F H) : List (List H) :=
  match s.loop.position, input with
  | .polling, .advance active => [active]
  | _, _ => []

def turns (_ : LoopSystem T F H) : LoopInput T F H → List Unit
  | .advance _ => [()]
  | _ => []

def emplaces (_ : LoopSystem T F H) (input : LoopInput T F H) : List F := input.emplaced.toList

/-- The steps that the loop thread has before it when the flag is set and nothing comes in. -/
def remaining (s : LoopSystem T F H) : Nat :=
  s.loop.position.stepsLeft + 2 * s.loop.pendingFunctors_.length

/-- What a step does to a loop whose flag is set. -/
structure Leaving (s : LoopSystem T F H) (input : LoopInput T F H) (s' : LoopSystem T F H) :
    Prop where
  flag : s'.loop.quit_ = true
  entered : s'.loop.position.Entered
  visits : (s.visits input).length + s'.loop.position.visitsLeft ≤ s.loop.position.visitsLeft
  turns : (s.turns input).length + s'.remaining
    ≤ s.remaining + 2 * (s.emplaces input).length + 2 * (s.visits input).flatten.length

theorem step_leaving (h : (machine startup).step s input = some s')
    (flag : s.loop.quit_ = true) (entered : s.loop.position.Entered) : s.Leaving input s' := by
  rcases step_moves h with
    ⟨active, loop, rfl, rfl, moves⟩ | ⟨other, position, -, kept, pending⟩
  · cases moves with
    | enter here | reset here =>
      rw [here] at entered
      exact entered.elim
    | wait here running =>
      rw [running] at flag
      cases flag
    | drain rest here | report here _ | stop here _ | begin here | handle _ _ here _
    | handled _ _ here | swap here | call _ _ here | called _ _ here | finish here =>
      refine ⟨flag, trivial, ?_, ?_⟩
      · simp [visits, here, Position.visitsLeft]
      · simp [visits, turns, emplaces, remaining, LoopInput.emplaced, here, Position.stepsLeft,
          EventLoop.handleRead]
        try omega
  · have silent : s.visits input = [] := by
      unfold visits
      split
      · exact absurd rfl (other _)
      · rfl
    have idle : s.turns input = [] := by
      unfold turns
      split
      · exact absurd rfl (other _)
      · rfl
    refine ⟨kept flag, position ▸ entered, by rw [silent, position]; simp, ?_⟩
    rw [silent, idle, remaining, remaining, position, pending, List.length_append, emplaces]
    simp
    omega

/-- A loop whose flag was set, after a run: the flag is still set, the loop has visited
`epoll_wait` no more often than it had to, and its thread has taken no more steps than it had left
and than the channels reported and the functors queued meanwhile have added. -/
structure Left (startup : Bool) (s : LoopSystem T F H) (inputs : List (LoopInput T F H))
    (s' : LoopSystem T F H) : Prop where
  flag : s'.loop.quit_ = true
  entered : s'.loop.position.Entered
  visited : ((machine startup).collect visits s inputs).length + s'.loop.position.visitsLeft
    ≤ s.loop.position.visitsLeft
  turned : ((machine startup).collect turns s inputs).length + s'.remaining
    ≤ s.remaining + 2 * ((machine startup).collect emplaces s inputs).length
      + 2 * ((machine startup).collect visits s inputs).flatten.length

theorem run_left (run : (machine startup).Run s inputs s') (flag : s.loop.quit_ = true)
    (entered : s.loop.position.Entered) : Left startup s inputs s' := by
  induction run with
  | nil => exact ⟨flag, entered, by simp [Lib.Machine.collect], by simp [Lib.Machine.collect]⟩
  | snoc run hs ih =>
    have last := step_leaving hs ih.flag ih.entered
    refine ⟨last.flag, last.entered, ?_, ?_⟩
    · have before := ih.visited
      have visits := last.visits
      rw [run.collect_snoc, List.length_append]
      omega
    · have before := ih.turned
      have turns := last.turns
      rw [run.collect_snoc, run.collect_snoc, run.collect_snoc]
      simp only [List.length_append, List.flatten_append]
      omega

/-- The loop thread calls its own loop before it enters `loop()`. -/
def Early (s : LoopSystem T F H) : LoopInput T F H → Prop
  | .emplaceBack t _ | .storeQuit t => t = s.loop.threadId_ ∧ s.loop.position = .created
  | _ => False

theorem step_of_not_early (h : (machine true).step s input = some s') (late : ¬ s.Early input) :
    (machine false).step s input = some s' := by
  have may {t : T} (late : ¬ (t = s.loop.threadId_ ∧ s.loop.position = .created)) :
      s.MayCall true t = s.MayCall false t := by
    unfold MayCall
    by_cases own : t = s.loop.threadId_
    · have created : s.loop.position ≠ .created := fun here => late ⟨own, here⟩
      cases hp : s.loop.position <;> simp_all
    · have other : s.loop.isInLoopThread t = false := by
        simpa [EventLoop.isInLoopThread] using Ne.symm own
      rw [other]
      rfl
  cases input with
  | emplaceBack t f | storeQuit t =>
    have same := may late
    simp only [machine, step, same] at h ⊢
    exact h
  | queueWakeup t | quitWakeup t | advance active => exact h

end LoopSystem

end TcpMuduo
