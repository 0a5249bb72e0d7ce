import Mathlib.Data.Set.Card
import TcpMuduo.Lib.Memory
import TcpMuduo.Net.Syscall
import TcpMuduo.Net.CtlFailure

/-!
`EpollPoller::poll`: `epoll_wait` writes into the array `events_`, which keeps
the entries of earlier calls, `fillActiveChannels` reads the filled part back
into channels, and an array that came back full is doubled.
-/

set_option autoImplicit false
set_option relaxedAutoImplicit false

namespace TcpMuduo

universe u

/-- An `epoll_event`; `ptr` is the channel that `data` points to. -/
structure EpollEvent (ι : Type u) where
  events : EventMask
  ptr : ι
  deriving DecidableEq, Repr

/-- What `epoll_wait` returns: -1 with an error number, or the events it stored, each with the
descriptor it is about. -/
inductive WaitResult (ι : Type u)
  | failed (e : Errno)
  | got (reported : List (Nat × EpollEvent ι))
  deriving DecidableEq, Repr

def kIntEventListSize : Nat := 16

/-- The channels of a loop with their poller, the array `events_` of the poller and the loop's
`activeChannels_`. A value-initialized entry of `events_` points to no channel. -/
structure PollLoop (ι : Type u) where
  registry : Registry ι
  events_ : List (Option (EpollEvent ι))
  activeChannels_ : List ι

section

variable {ι : Type u}

namespace WaitResult

def numEvents : WaitResult ι → Int
  | .failed _ => -1
  | .got reported => reported.length

def stored : WaitResult ι → List (EpollEvent ι)
  | .failed _ => []
  | .got reported => reported.map Prod.snd

/-- At most `maxevents` events, each registered descriptor at most once and with the pointer
registered for it. -/
def Fits (r : WaitResult ι) (interest : Nat → Option (EventMask × ι)) (maxevents : Nat) : Prop :=
  match r with
  | .failed _ => True
  | .got reported => reported.length ≤ maxevents ∧ (reported.map Prod.fst).Nodup ∧
      ∀ event ∈ reported, (interest event.1).map Prod.snd = some event.2.ptr

instance [DecidableEq ι] (r : WaitResult ι) (interest : Nat → Option (EventMask × ι))
    (maxevents : Nat) : Decidable (r.Fits interest maxevents) :=
  match r with
  | .failed _ => inferInstanceAs (Decidable True)
  | .got _ => inferInstanceAs (Decidable (_ ∧ _ ∧ _))

private theorem numEvents_pos {r : WaitResult ι} (some : 0 < r.numEvents) :
    r.numEvents = r.stored.length := by
  cases r with
  | failed e =>
    simp only [numEvents] at some
    omega
  | got reported => simp [numEvents, stored]

private theorem stored_nil {r : WaitResult ι} (none : ¬ 0 < r.numEvents) : r.stored = [] := by
  cases r with
  | failed e => rfl
  | got reported =>
    have empty : reported = [] := by
      rw [← List.length_eq_zero_iff]
      simp only [numEvents] at none
      omega
    rw [empty]
    rfl

end WaitResult

def PollLoop.new (fd : ι → Nat) : PollLoop ι where
  registry := Registry.new fd
  events_ := List.replicate kIntEventListSize none
  activeChannels_ := []

/-- The kernel stores the events from the start of the array on; the other entries stay. -/
def PollLoop.epoll_wait (s : PollLoop ι) (r : WaitResult ι) : PollLoop ι :=
  { s with events_ := Lib.store s.events_ 0 (r.stored.map some) }

def Registry.set_revents [DecidableEq ι] (s : Registry ι) (i : ι) (revt : EventMask) : Registry ι :=
  { s with channel := Function.update s.channel i { s.channel i with revents_ := revt } }

namespace PollLoop

variable [DecidableEq ι]

def activate (s : PollLoop ι) (event : EpollEvent ι) : PollLoop ι :=
  { s with
    registry := s.registry.set_revents event.ptr event.events
    activeChannels_ := s.activeChannels_ ++ [event.ptr] }

/-- One turn of the loop; `none` stands for a read outside `events_` or a null pointer. -/
def fillActiveChannel (s : PollLoop ι) (i : Nat) : Option (PollLoop ι) :=
  match s.events_[i]? with
  | some (some event) => some (s.activate event)
  | some none => none
  | none => none

def fillActiveChannels (s : PollLoop ι) (numEvents : Nat) : Option (PollLoop ι) :=
  (List.range numEvents).foldlM fillActiveChannel s

/-- A timeout and an error, which is logged unless it is `EINTR`, change nothing. -/
def poll (s : PollLoop ι) (r : WaitResult ι) : Option (PollLoop ι) :=
  let waited := s.epoll_wait r
  if 0 < r.numEvents then
    (waited.fillActiveChannels r.numEvents.toNat).map fun filled =>
      if r.numEvents = filled.events_.length then
        { filled with events_ := Lib.resize filled.events_ (filled.events_.length * 2) none }
      else filled
  else some waited

end PollLoop

/-- A channel operation, whose `epoll_ctl` may be refused, or a turn of the loop. -/
inductive PollInput (ι : Type u)
  | channel (i : ι) (op : ChannelOp) (refused : Bool)
  | poll (r : WaitResult ι)
  deriving DecidableEq, Repr

/-- `activeChannels_` is cleared before each `poll`. -/
def pollMachine [DecidableEq ι] : Lib.Machine (PollLoop ι) (PollInput ι) where
  step s
    | .channel i op refused => some { s with registry := s.registry.attempt i op refused }
    | .poll r =>
      if r.Fits s.registry.poller.interest s.events_.length then
        { s with activeChannels_ := [] }.poll r
      else none

def Registry.registered (s : Registry ι) : Set Nat := {n | (s.poller.interest n).isSome = true}

variable {s : PollLoop ι} {events : List (EpollEvent ι)} {fd : ι → Nat} {r : WaitResult ι}

theorem WaitResult.Fits.length_le {interest : Nat → Option (EventMask × ι)} {maxevents : Nat}
    (fits : r.Fits interest maxevents) : r.stored.length ≤ maxevents := by
  cases r with
  | failed e => exact Nat.zero_le _
  | got reported =>
    rw [stored, List.length_map]
    exact fits.1

theorem WaitResult.Fits.nodup {t : Registry ι} {maxevents : Nat}
    (fits : r.Fits t.poller.interest maxevents) (sane : t.Sane fd) :
    (r.stored.map EpollEvent.ptr).Nodup := by
  cases r with
  | failed e => exact List.nodup_nil
  | got reported =>
    obtain ⟨-, once, pointers⟩ := fits
    have own : reported.map Prod.fst = (reported.map (·.2.ptr)).map fd := by
      rw [List.map_map]
      refine List.map_congr_left ?_
      intro event mem
      obtain ⟨entry, present, ptr⟩ := Option.map_eq_some_iff.mp (pointers event mem)
      simp only [Function.comp_apply]
      rw [← ptr]
      exact sane.owned event.1 entry present
    rw [own] at once
    rw [stored, List.map_map]
    exact once.of_map fd

private theorem WaitResult.Fits.length_le_ncard {t : Registry ι} {maxevents : Nat}
    (fits : r.Fits t.poller.interest maxevents) (finite : t.registered.Finite) :
    r.stored.length ≤ t.registered.ncard := by
  cases r with
  | failed e => exact Nat.zero_le _
  | got reported =>
    obtain ⟨-, once, pointers⟩ := fits
    have inside : (↑(reported.map Prod.fst).toFinset : Set Nat) ⊆ t.registered := by
      intro n mem
      obtain ⟨event, reports, rfl⟩ := List.mem_map.mp (List.mem_toFinset.mp (Finset.mem_coe.mp mem))
      obtain ⟨entry, present, -⟩ := Option.map_eq_some_iff.mp (pointers event reports)
      exact Option.isSome_of_eq_some present
    calc (stored (.got reported)).length
      _ = (reported.map Prod.fst).toFinset.card := by
        rw [List.toFinset_card_of_nodup once, stored, List.length_map, List.length_map]
      _ ≤ t.registered.ncard := by
        rw [← Set.ncard_coe_finset]
        exact Set.ncard_le_ncard inside finite

namespace PollLoop

private theorem epoll_wait_entry (room : r.stored.length ≤ s.events_.length) (i : Nat)
    (h : i < r.stored.length) :
    (s.epoll_wait r).events_[i]? = some (some r.stored[i]) := by
  have inside : i < (r.stored.map some).length := by rwa [List.length_map]
  simp only [epoll_wait]
  rw [Lib.store_eq _ _ _ (by simpa using room), List.take_zero, List.nil_append,
    List.getElem?_append_left inside, List.getElem?_map, List.getElem?_eq_getElem h]
  rfl

@[simp] theorem length_epoll_wait : (s.epoll_wait r).events_.length = s.events_.length :=
  Lib.length_store ..

variable [DecidableEq ι]

private theorem foldl_activate_events : (events.foldl activate s).events_ = s.events_ := by
  induction events generalizing s with
  | nil => rfl
  | cons event events ih => exact ih

theorem foldl_activate_poller :
    (events.foldl activate s).registry.poller = s.registry.poller := by
  induction events generalizing s with
  | nil => rfl
  | cons event events ih => exact ih

theorem foldl_activate_activeChannels :
    (events.foldl activate s).activeChannels_ = s.activeChannels_ ++ events.map EpollEvent.ptr := by
  induction events generalizing s with
  | nil => simp
  | cons event events ih =>
    rw [List.foldl_cons, ih]
    simp [activate]

theorem foldl_activate_of_notMem {i : ι} (off : i ∉ events.map EpollEvent.ptr) :
    (events.foldl activate s).registry.channel i = s.registry.channel i := by
  induction events generalizing s with
  | nil => rfl
  | cons event events ih =>
    rw [List.map_cons, List.mem_cons, not_or] at off
    rw [List.foldl_cons, ih off.2]
    exact Function.update_of_ne off.1 ..

private theorem foldl_activate_revents (nodup : (events.map EpollEvent.ptr).Nodup)
    {event : EpollEvent ι}
    (mem : event ∈ events) :
    ((events.foldl activate s).registry.channel event.ptr).revents_ = event.events := by
  induction events generalizing s with
  | nil => cases mem
  | cons first events ih =>
    obtain ⟨once, nodup⟩ := List.nodup_cons.mp nodup
    rw [List.foldl_cons]
    rcases List.mem_cons.mp mem with rfl | later
    · rw [foldl_activate_of_notMem once]
      simp [activate, Registry.set_revents]
    · exact ih nodup later

/-- The loop of `fillActiveChannels`, by induction on the number of its turns. -/
theorem fillActiveChannels_eq
    (filled : ∀ i (h : i < events.length), s.events_[i]? = some (some events[i])) :
    s.fillActiveChannels events.length = some (events.foldl activate s) := by
  induction events using List.reverseRecOn with
  | nil => rfl
  | append_singleton events event ih =>
    have earlier : s.fillActiveChannels events.length = some (events.foldl activate s) := by
      refine ih ?_
      intro i h
      rw [filled i (by simp; omega), List.getElem_append_left h]
    have last := filled events.length (by simp)
    unfold fillActiveChannels at earlier ⊢
    rw [List.length_append, List.length_singleton, List.range_succ, List.foldlM_append, earlier,
      List.foldl_append]
    simp [fillActiveChannel, foldl_activate_events, last]

/-- What a call of `poll` on a cleared list does. The array is doubled when it came back full. -/
theorem poll_eq (room : r.stored.length ≤ s.events_.length) :
    ∃ array : List (Option (EpollEvent ι)),
      s.poll r = some { r.stored.foldl activate (s.epoll_wait r) with events_ := array } ∧
        (array.length = s.events_.length ∨
          array.length = s.events_.length * 2 ∧ r.stored.length = s.events_.length) := by
  unfold poll
  by_cases some : 0 < r.numEvents
  · have count : r.numEvents.toNat = r.stored.length := by
      rw [WaitResult.numEvents_pos some]
      rfl
    have loop := fillActiveChannels_eq (s := s.epoll_wait r) (epoll_wait_entry room)
    have size : (r.stored.foldl activate (s.epoll_wait r)).events_.length = s.events_.length := by
      rw [foldl_activate_events, length_epoll_wait]
    simp only [some, if_true, count, loop, Option.map_some, size]
    by_cases full : r.numEvents = s.events_.length
    · rw [if_pos full]
      refine ⟨_, rfl, .inr ⟨?_, ?_⟩⟩
      · rw [Lib.length_resize]
      · rw [WaitResult.numEvents_pos some] at full
        exact Int.ofNat.inj full
    · rw [if_neg full]
      exact ⟨_, rfl, .inl size⟩
  · rw [if_neg some, WaitResult.stored_nil some]
    exact ⟨_, rfl, .inl length_epoll_wait⟩

private theorem foldl_activate_sane (sane : s.registry.Sane fd) :
    (events.foldl activate s).registry.Sane fd := by
  induction events generalizing s with
  | nil => exact sane
  | cons event events ih =>
    refine ih ⟨?_, ?_, sane.owned⟩
    · intro i
      by_cases this : i = event.ptr
      · subst this
        simpa [activate, Registry.set_revents, Channel.Indexed] using sane.indexed event.ptr
      · simpa [activate, Registry.set_revents, this] using sane.indexed i
    · intro i
      by_cases this : i = event.ptr
      · subst this
        simpa [activate, Registry.set_revents] using sane.fds event.ptr
      · simpa [activate, Registry.set_revents, this] using sane.fds i

end PollLoop

private theorem Registry.registered_attempt [DecidableEq ι] (t : Registry ι) (i : ι)
    (op : ChannelOp)
    (refused : Bool) :
    (t.attempt i op refused).registered ⊆ insert (t.channel i).fd_ t.registered := by
  intro n mem
  by_cases this : n = (t.channel i).fd_
  · exact .inl this
  · refine .inr ?_
    have kernel : (t.attempt i op refused).poller.interest n = t.poller.interest n :=
      apply_kernel_off this
    simpa only [Registry.registered, Set.mem_ofPred_eq, kernel] using mem

/-- The pointers in the kernel's set, and the size of the array. -/
structure PollLoop.Inv (fd : ι → Nat) (s : PollLoop ι) : Prop where
  sane : s.registry.Sane fd
  finite : s.registry.registered.Finite
  size : ∃ k, s.events_.length = kIntEventListSize * 2 ^ k

private theorem PollLoop.new_inv (fd : ι → Nat) : (PollLoop.new fd).Inv fd where
  sane := Registry.new_sane fd
  finite := by
    have none : (PollLoop.new fd).registry.registered = ∅ := Set.eq_empty_of_forall_notMem
      fun _ mem => Bool.false_ne_true mem
    rw [none]
    exact Set.finite_empty
  size := ⟨0, List.length_replicate⟩

variable [DecidableEq ι] {s' : PollLoop ι} {input : PollInput ι}

private theorem pollMachine_step (step : pollMachine.step s input = some s') :
    (∃ i op refused, s' = { s with registry := s.registry.attempt i op refused }) ∨
    ∃ (r : WaitResult ι) (array : List (Option (EpollEvent ι))),
      r.Fits s.registry.poller.interest s.events_.length ∧
      s' = { r.stored.foldl PollLoop.activate
        ({ s with activeChannels_ := [] }.epoll_wait r) with events_ := array } ∧
      (array.length = s.events_.length ∨
        array.length = s.events_.length * 2 ∧ r.stored.length = s.events_.length) := by
  cases input with
  | channel i op refused => exact .inl ⟨i, op, refused, (Option.some.inj step).symm⟩
  | poll r =>
    simp only [pollMachine] at step
    split at step
    · rename_i fits
      obtain ⟨array, poll, size⟩ :=
        PollLoop.poll_eq (s := { s with activeChannels_ := [] }) fits.length_le
      rw [poll] at step
      exact .inr ⟨r, array, fits, (Option.some.inj step).symm, size⟩
    · cases step

theorem PollLoop.Inv.step (inv : s.Inv fd) (step : pollMachine.step s input = some s') :
    s'.Inv fd := by
  obtain ⟨i, op, refused, rfl⟩ | ⟨r, array, fits, rfl, size⟩ := pollMachine_step step
  · exact ⟨inv.sane.attempt i op refused,
      (inv.finite.insert _).subset (Registry.registered_attempt ..), inv.size⟩
  · refine ⟨foldl_activate_sane inv.sane, ?_, ?_⟩
    · simp only [Registry.registered, foldl_activate_poller]
      exact inv.finite
    · obtain ⟨k, before⟩ := inv.size
      rcases size with same | ⟨double, -⟩
      · exact ⟨k, same.trans before⟩
      · refine ⟨k + 1, ?_⟩
        rw [double, before, Nat.pow_succ, Nat.mul_assoc]

private theorem pollMachine_run {inputs : List (PollInput ι)}
    (run : pollMachine.Run (PollLoop.new fd) inputs s) : s.Inv fd :=
  run.reachable.invariant (PollLoop.new_inv fd) fun _ _ _ _ inv step => inv.step step

private theorem pollMachine_grows {inputs : List (PollInput ι)}
    (run : pollMachine.Run s inputs s') :
    s.events_.length ≤ s'.events_.length := by
  induction run with
  | nil => exact Nat.le_refl _
  | snoc _ step ih =>
    refine ih.trans ?_
    obtain ⟨i, op, refused, rfl⟩ | ⟨r, array, fits, rfl, size⟩ := pollMachine_step step
    · exact Nat.le_refl _
    · rcases size with same | ⟨double, -⟩
      · exact same.ge
      · rw [double]
        exact Nat.le_mul_of_pos_right _ Nat.two_pos

private theorem pollMachine_size_le {inputs : List (PollInput ι)}
    (run : pollMachine.Run (PollLoop.new fd) inputs s) (bound : Nat)
    (load : pollMachine.Throughout (fun _ s => s.registry.registered.ncard ≤ bound)
      (PollLoop.new fd) inputs) :
    s.events_.length ≤ max kIntEventListSize (2 * bound) := by
  induction run with
  | nil =>
    simp only [PollLoop.new, List.length_replicate]
    exact Nat.le_max_left _ _
  | @snoc inputs s s' input run step ih =>
    have earlier := ih (load.before (List.prefix_append _ _))
    obtain ⟨i, op, refused, rfl⟩ | ⟨r, array, fits, rfl, size⟩ := pollMachine_step step
    · exact earlier
    · rcases size with same | ⟨double, full⟩
      · exact same.le.trans earlier
      · have few := fits.length_le_ncard (pollMachine_run run).finite
        have now := load inputs s (List.prefix_append _ _) run
        rw [double]
        omega

/-- In every state that calls of `poll` and channel operations lead to, whatever `epoll_ctl` and
`epoll_wait` have answered, the next `poll` reads only entries of `events_` that it has filled and
makes exactly the channels of the returned events active, once each, with their masks; the size of
`events_` is bounded by the descriptors registered at one time. -/
theorem poll_exact (fd : ι → Nat) (inputs : List (PollInput ι)) (s : PollLoop ι)
    (run : pollMachine.Run (PollLoop.new fd) inputs s) :
    (∀ r : WaitResult ι, r.Fits s.registry.poller.interest s.events_.length →
      (∀ i : Nat, i < r.numEvents → ∃ event, r.stored[i]? = some event ∧
        (s.epoll_wait r).events_[i]? = some (some event)) ∧
      ∃ s', pollMachine.step s (.poll r) = some s' ∧
        s'.activeChannels_ = r.stored.map EpollEvent.ptr ∧ s'.activeChannels_.Nodup ∧
        ∀ event ∈ r.stored, (s'.registry.channel event.ptr).revents_ = event.events) ∧
    (∃ k, s.events_.length = 16 * 2 ^ k) ∧
    (∀ later s', pollMachine.Run s later s' → s.events_.length ≤ s'.events_.length) ∧
    s.registry.registered.Finite ∧
    ∀ bound, pollMachine.Throughout (fun _ s => s.registry.registered.ncard ≤ bound)
      (PollLoop.new fd) inputs → s.events_.length ≤ max 16 (2 * bound) := by
  have inv := pollMachine_run run
  refine ⟨?_, inv.size, fun _ _ => pollMachine_grows, inv.finite, pollMachine_size_le run⟩
  intro r fits
  have nodup := fits.nodup inv.sane
  constructor
  · intro i below
    have some : 0 < r.numEvents := by omega
    rw [WaitResult.numEvents_pos some] at below
    have inside : i < r.stored.length := Int.ofNat_lt.mp below
    exact ⟨r.stored[i], List.getElem?_eq_getElem inside,
      PollLoop.epoll_wait_entry fits.length_le i inside⟩
  · obtain ⟨array, poll, -⟩ :=
      PollLoop.poll_eq (s := { s with activeChannels_ := [] }) fits.length_le
    have active : (r.stored.foldl PollLoop.activate
        ({ s with activeChannels_ := [] }.epoll_wait r)).activeChannels_ =
        r.stored.map EpollEvent.ptr := PollLoop.foldl_activate_activeChannels
    refine ⟨_, (if_pos fits).trans poll, active, active ▸ nodup, ?_⟩
    intro event mem
    exact PollLoop.foldl_activate_revents nodup mem

end

/-- Sixteen descriptors are ready at once and fill the array. -/
def fullPoll : List (PollInput Nat) :=
  (List.range 16).map (.channel · .enableReading false) ++
    [.poll (.got ((List.range 16).map fun n => (n, ⟨EPOLLIN, n⟩)))]

/-- The two events returned next overwrite the first two entries; the other fourteen are read by
no one. -/
theorem poll_exact_stale :
    ∃ s s', pollMachine.Run (PollLoop.new id) fullPoll s ∧ s.events_.length = 32 ∧
      s.events_[15]? = some (some ⟨EPOLLIN, 15⟩) ∧
      pollMachine.step s (.poll (.got [(3, ⟨EPOLLIN, 3⟩), (1, ⟨EPOLLHUP, 1⟩)])) = some s' ∧
      s'.activeChannels_ = [3, 1] ∧ (s'.registry.channel 1).revents_ = EPOLLHUP := by
  obtain ⟨s, run, size, stale, fits⟩ := pollMachine.exists_run (PollLoop.new id) fullPoll
    (fun s => s.events_.length = 32 ∧ s.events_[15]? = some (some ⟨EPOLLIN, 15⟩) ∧
      (WaitResult.got [(3, ⟨EPOLLIN, 3⟩), (1, ⟨EPOLLHUP, 1⟩)]).Fits s.registry.poller.interest
        s.events_.length) (by decide +kernel)
  obtain ⟨-, s', step, active, -, revents⟩ := (poll_exact id fullPoll s run).1 _ fits
  exact ⟨s, s', run, size, stale, step, active, revents ⟨EPOLLHUP, 1⟩ (by simp [WaitResult.stored])⟩

end TcpMuduo
