import TcpMuduo.Net.EventQueue

/-!
What a loop still does after `quit`. The flag is tested after a batch has been
run, so a functor queued behind the last swap is left in the queue. The functors
queued before the flag is stored are executed, unless the store falls between
that swap and the test with one of them still in the queue.
-/

set_option autoImplicit false
set_option relaxedAutoImplicit false

namespace TcpMuduo

variable {T F H : Type} [DecidableEq T] [DecidableEq H]

namespace LoopSystem

variable {startup : Bool} {s s' : LoopSystem T F H} {input : LoopInput T F H}

/-- If `quit` stores its flag behind the swap of the last batch, then no functor whose
`queueInLoop` has returned is left behind that swap. -/
def Timely (s : LoopSystem T F H) : LoopInput T F H → Prop
  | .storeQuit _ =>
    s.loop.position.PastSwap → ∀ i ∈ s.completed, i < s.loop.batches.flatten.length
  | _ => True

instance (s : LoopSystem T F H) (input : LoopInput T F H) : Decidable (s.Timely input) :=
  match input with
  | .storeQuit _ => inferInstanceAs (Decidable (_ → _))
  | .emplaceBack _ _ | .queueWakeup _ | .quitWakeup _ | .advance _ => .isTrue trivial

/-- The functors whose `queueInLoop` had returned when a `quit` stored its flag have been
executed. -/
def PromisesKept (s : LoopSystem T F H) : Prop := ∀ i ∈ s.promised, i < s.loop.executed.length

omit [DecidableEq T] [DecidableEq H] in
private theorem executed_of_lt {i : Nat} {f : F} (inv : s.loop.InOrder)
    (h : i < s.loop.executed.length) (queued : s.loop.queued[i]? = some f) :
    f ∈ s.loop.executed := by
  rw [← inv.history, List.append_assoc, List.getElem?_append_left h] at queued
  exact List.mem_of_getElem? queued

/-- The histories of the calls, as far as they bear on `quit`. -/
structure Promises (s : LoopSystem T F H) : Prop where
  inOrder : s.loop.InOrder
  queueing : ∀ t i, s.caller t = .queueing i → i < s.loop.queued.length
  completed : ∀ i ∈ s.completed, i < s.loop.queued.length
  promised : ∀ i ∈ s.promised, i ∈ s.completed
  stopped : s.loop.position = .stopped → s.loop.quit_ = true

omit [DecidableEq T] [DecidableEq H] in
theorem new_promises (tid : T) (wake : H) : (new tid wake : LoopSystem T F H).Promises where
  inOrder := EventLoop.new_inOrder tid wake
  queueing _ _ h := by cases h
  completed _ h := by cases h
  promised _ h := by cases h
  stopped h := by cases h

omit [DecidableEq H] in
theorem Promises.others (inv : s.Promises) {t : T} {c : Caller} {n : Nat}
    (grow : s.loop.queued.length ≤ n) (own : ∀ i, c = .queueing i → i < n) :
    ∀ u i, Function.update s.caller t c u = .queueing i → i < n := by
  intro u i h
  rw [Function.update_apply] at h
  split at h
  · exact own i h
  · exact Nat.lt_of_lt_of_le (inv.queueing u i h) grow

theorem Promises.step (inv : s.Promises) (h : (machine startup).step s input = some s') :
    s'.Promises := by
  have inOrder := step_inOrder inv.inOrder h
  cases step_steps h with
  | emplaceBack t f free may =>
    have grow : s.loop.queued.length ≤ (s.loop.queued ++ [f]).length := by simp
    refine ⟨inOrder, inv.others grow ?_, fun i mem => Nat.lt_of_lt_of_le (inv.completed i mem) grow,
      inv.promised, inv.stopped⟩
    rintro i ⟨⟩
    simp [EventLoop.emplaceBack]
  | queueWakeup t index here =>
    obtain ⟨n, same⟩ := s.loop.queueWakeup_eq t
    rw [same] at inOrder ⊢
    refine ⟨inOrder, inv.others (Nat.le_refl _) (by simp), ?_, ?_, inv.stopped⟩
    · intro i mem
      rcases List.mem_append.mp mem with mem | mem
      · exact inv.completed i mem
      · rw [List.mem_singleton.mp mem]
        exact inv.queueing t index here
    · exact fun i mem => List.mem_append_left _ (inv.promised i mem)
  | storeQuit t free may =>
    refine ⟨inOrder, inv.others (Nat.le_refl _) (by simp), inv.completed, ?_, fun _ => rfl⟩
    intro i mem
    exact (List.mem_append.mp mem).elim (inv.promised i) id
  | quitWakeup t here =>
    obtain ⟨n, same⟩ := s.loop.quitWakeup_eq t
    rw [same] at inOrder ⊢
    exact ⟨inOrder, inv.others (Nat.le_refl _) (by simp), inv.completed, inv.promised, inv.stopped⟩
  | advance active loop free moves =>
    have queued : loop.queued = s.loop.queued := by
      cases moves <;> rfl
    refine ⟨inOrder, by simpa only [queued] using inv.queueing,
      by simpa only [queued] using inv.completed, inv.promised, ?_⟩
    cases moves with
    | stop here quit => exact fun _ => quit
    | _ => intro here; cases here

/-- With the flag set and the last swap behind it, the loop has taken in every promised
functor. -/
def Caught (s : LoopSystem T F H) : Prop :=
  s.loop.quit_ = true → s.loop.position.PastSwap →
    ∀ i ∈ s.promised, i < s.loop.batches.flatten.length

theorem Caught.step (inv : s.Promises) (caught : s.Caught) (timely : s.Timely input)
    (h : (machine startup).step s input = some s') : s'.Caught := by
  have promises := inv.step h
  cases step_steps h with
  | emplaceBack t f free may => exact caught
  | queueWakeup t index here =>
    obtain ⟨n, same⟩ := s.loop.queueWakeup_eq t
    rw [same]
    exact caught
  | storeQuit t free may =>
    intro _ past i mem
    rcases List.mem_append.mp mem with mem | mem
    · exact timely past i (inv.promised i mem)
    · exact timely past i mem
  | quitWakeup t here =>
    obtain ⟨n, same⟩ := s.loop.quitWakeup_eq t
    rw [same]
    exact caught
  | advance active loop free moves =>
    cases moves with
    | swap here =>
      intro _ _ i mem
      have bound := promises.completed i (promises.promised i mem)
      rwa [← promises.inOrder.history, ← promises.inOrder.swapped, List.append_nil] at bound
    | stop here quit => exact fun _ _ => caught quit (by simp [here, Position.PastSwap])
    | call f rest here | called f rest here =>
      exact fun quit _ => caught quit (by simp [here, Position.PastSwap])
    | finish here => exact fun quit _ => caught quit (by simp [here, Position.PastSwap])
    | reset here => intro quit; cases quit
    | enter here | wait here _ | report here _ | begin here | drain _ here | handle _ _ here _
    | handled _ _ here =>
      intro _ past
      exact absurd past (by simp [Position.PastSwap])

omit [DecidableEq T] [DecidableEq H] in
/-- A loop that has returned with every promised functor taken in has executed them. -/
theorem Caught.kept (caught : s.Caught) (inv : s.Promises)
    (stopped : s.loop.position = .stopped) : s.PromisesKept := by
  intro i mem
  have taken := caught (inv.stopped stopped) (by simp [stopped, Position.PastSwap]) i mem
  rw [inv.inOrder.swapped, stopped] at taken
  simpa [Position.batch] using taken

/-- A promised functor has been left behind the last swap. -/
def Forgotten (s : LoopSystem T F H) : Prop :=
  s.loop.quit_ = true ∧ s.loop.position.PastSwap ∧
    ∃ i ∈ s.promised, s.loop.batches.flatten.length ≤ i

theorem Forgotten.step (forgotten : s.Forgotten)
    (h : (machine startup).step s input = some s') : s'.Forgotten := by
  obtain ⟨quit, past, i, mem, left⟩ := forgotten
  cases step_steps h with
  | emplaceBack t f free may => exact ⟨quit, past, i, mem, left⟩
  | queueWakeup t index here =>
    obtain ⟨n, same⟩ := s.loop.queueWakeup_eq t
    rw [same]
    exact ⟨quit, past, i, mem, left⟩
  | storeQuit t free may => exact ⟨rfl, past, i, List.mem_append_left _ mem, left⟩
  | quitWakeup t here =>
    obtain ⟨n, same⟩ := s.loop.quitWakeup_eq t
    rw [same]
    exact ⟨quit, past, i, mem, left⟩
  | advance active loop free moves =>
    cases moves with
    | stop here _ => exact ⟨quit, trivial, i, mem, left⟩
    | call f rest here | called f rest here | finish here => exact ⟨quit, trivial, i, mem, left⟩
    | wait here running =>
      rw [running] at quit
      cases quit
    | enter here | reset here | report here _ | begin here | drain _ here | handle _ _ here _
    | handled _ _ here | swap here =>
      rw [here] at past
      exact absurd past (by simp [Position.PastSwap])

/-- A `quit` that is not timely forgets a functor. -/
theorem forgotten_of_not_timely (late : ¬ s.Timely input)
    (h : (machine startup).step s input = some s') : s'.Forgotten := by
  cases step_steps h with
  | storeQuit t free may =>
    simp only [Timely, Classical.not_imp, not_forall, Nat.not_lt] at late
    obtain ⟨past, i, mem, left⟩ := late
    exact ⟨rfl, past, i, List.mem_append_right _ mem, left⟩
  | emplaceBack | queueWakeup | quitWakeup | advance => exact absurd trivial late

omit [DecidableEq T] [DecidableEq H] in
theorem Forgotten.not_kept (forgotten : s.Forgotten) (inv : s.Promises)
    (stopped : s.loop.position = .stopped) : ¬ s.PromisesKept := by
  obtain ⟨-, -, i, mem, left⟩ := forgotten
  intro kept
  rw [inv.inOrder.swapped, stopped] at left
  have done := kept i mem
  simp only [Position.batch, List.append_nil] at left
  omega

def Handed (s : LoopSystem T F H) (u : T) (f : F) : Prop :=
  ∃ i, s.loop.queued[i]? = some f ∧ (s.caller u = .queueing i ∨ i ∈ s.completed)

def Promised (s : LoopSystem T F H) (f : F) : Prop :=
  ∃ i, s.loop.queued[i]? = some f ∧ i ∈ s.promised

private theorem step_getElem? {i : Nat} {f : F} (h : (machine startup).step s input = some s')
    (queued : s.loop.queued[i]? = some f) : s'.loop.queued[i]? = some f := by
  have bound := (List.getElem?_eq_some_iff.mp queued).1
  rw [step_queued h, List.getElem?_append_left bound, queued]

theorem Handed.step {u : T} {f : F} (handed : s.Handed u f)
    (h : (machine startup).step s input = some s') : s'.Handed u f := by
  obtain ⟨i, queued, state⟩ := handed
  refine ⟨i, step_getElem? h queued, ?_⟩
  have other {t : T} {c : Caller} (ne : u ≠ t) : Function.update s.caller t c u = s.caller u :=
    Function.update_of_ne ne _ _
  cases step_steps h with
  | emplaceBack t f' free may =>
    by_cases same : u = t
    · exact .inr (state.resolve_left (by simp [same, free]))
    · simpa only [other same] using state
  | queueWakeup t index here =>
    by_cases same : u = t
    · subst same
      refine .inr ?_
      rcases state with busy | done
      · rw [here] at busy
        cases busy
        exact List.mem_append_right _ (List.mem_singleton_self _)
      · exact List.mem_append_left _ done
    · simp only [other same]
      exact state.imp_right (List.mem_append_left _)
  | storeQuit t free may =>
    by_cases same : u = t
    · exact .inr (state.resolve_left (by simp [same, free]))
    · simpa only [other same] using state
  | quitWakeup t here =>
    by_cases same : u = t
    · exact .inr (state.resolve_left (by simp [same, here]))
    · simpa only [other same] using state
  | advance active loop free moves => exact state

theorem handed_of_emplaceBack {u : T} {f : F}
    (h : (machine startup).step s (.emplaceBack u f) = some s') : s'.Handed u f := by
  cases step_steps h with
  | emplaceBack t f free may =>
    exact ⟨s.loop.queued.length, by simp [EventLoop.emplaceBack], .inl (by simp)⟩

theorem Promised.step {f : F} (promised : s.Promised f)
    (h : (machine startup).step s input = some s') : s'.Promised f := by
  obtain ⟨i, queued, mem⟩ := promised
  refine ⟨i, step_getElem? h queued, ?_⟩
  cases step_steps h with
  | storeQuit t free may => exact List.mem_append_left _ mem
  | emplaceBack t f' free may | queueWakeup t index here | quitWakeup t here
  | advance active loop free moves => exact mem

theorem Handed.promised {u : T} {f : F} (handed : s.Handed u f)
    (h : (machine startup).step s (.storeQuit u) = some s') : s'.Promised f := by
  obtain ⟨i, queued, state⟩ := handed
  refine ⟨i, step_getElem? h queued, ?_⟩
  cases step_steps h with
  | storeQuit t free may =>
    exact List.mem_append_right _ (state.resolve_left (by simp [free]))

theorem step_quit (h : (machine startup).step s input = some s')
    (quit : s'.loop.quit_ = true) : s.loop.quit_ = true ∨ ∃ t, input = .storeQuit t := by
  cases step_steps h with
  | emplaceBack t f free may => exact .inl quit
  | queueWakeup t index here =>
    obtain ⟨n, same⟩ := s.loop.queueWakeup_eq t
    rw [same] at quit
    exact .inl quit
  | storeQuit t free may => exact .inr ⟨t, rfl⟩
  | quitWakeup t here =>
    obtain ⟨n, same⟩ := s.loop.quitWakeup_eq t
    rw [same] at quit
    exact .inl quit
  | advance active loop free moves =>
    cases moves with
    | reset here => cases quit
    | _ => exact .inl quit

omit [DecidableEq T] [DecidableEq H] in
theorem Promised.executed {f : F} (promised : s.Promised f) (inv : s.Promises)
    (kept : s.PromisesKept) : f ∈ s.loop.executed := by
  obtain ⟨i, queued, mem⟩ := promised
  exact executed_of_lt inv.inOrder (kept i mem) queued

end LoopSystem

end TcpMuduo
