import TcpMuduo.Net.Registration

/-!
Calls of `epoll_ctl` that fail. `update` only logs the failure, and `index_` is
set as if the call had succeeded, so that only a failed MOD leaves `index_` and
the kernel's set in agreement.
-/

set_option autoImplicit false
set_option relaxedAutoImplicit false

namespace TcpMuduo

universe u

variable {ι : Type u}

def Channel.Indexed (ch : Channel) : Prop :=
  ch.index_ = kNew ∨ ch.index_ = kAdded ∨ ch.index_ = kDeleted

/-- `index_` is `kAdded` exactly if the descriptor is in the kernel's set. -/
def Tracks (p : EpollPoller ι) (ch : Channel) : Prop :=
  ch.index_ = kAdded ↔ (p.interest ch.fd_).isSome = true

theorem Tracks.absent {p : EpollPoller ι} {ch : Channel} (tracks : Tracks p ch)
    (other : ch.index_ ≠ kAdded) : p.interest ch.fd_ = none :=
  Option.not_isSome_iff_eq_none.mp fun present => other (tracks.mpr present)

theorem Tracks.present {p : EpollPoller ι} {ch : Channel} (tracks : Tracks p ch)
    (added : ch.index_ = kAdded) : ∃ event, p.interest ch.fd_ = some event :=
  Option.isSome_iff_exists.mp (tracks.mp added)

/-- The `epoll_ctl` that the operation makes, if any. -/
def ChannelOp.ctl (op : ChannelOp) (ch : Channel) : Option CtlOp :=
  if op = .remove then
    if ch.index_ = kAdded then some .EPOLL_CTL_DEL else none
  else if ch.index_ = kNew ∨ ch.index_ = kDeleted then some .EPOLL_CTL_ADD
  else if op.mask ch.events_ = Channel.kNoneEvent then some .EPOLL_CTL_DEL
  else some .EPOLL_CTL_MOD

/-- The operations that add an event. -/
def ChannelOp.Enables (op : ChannelOp) : Prop := op = .enableReading ∨ op = .enableWriting

theorem ChannelOp.Enables.stays {op : ChannelOp} (h : op.Enables) : op ≠ .remove := by
  rcases h with rfl | rfl
  · simp
  · simp

private theorem ChannelOp.Enables.mask_ne {op : ChannelOp} (h : op.Enables) (events : EventMask) :
    op.mask events ≠ Channel.kNoneEvent := by
  have kept (k : EventMask) : (events ||| k) &&& k = k := by
    ext
    simp only [BitVec.getElem_and, BitVec.getElem_or, Bool.and_eq_right_iff_imp, Bool.or_eq_true]
    exact .inr
  have reading := kept Channel.kReadEvent
  have writing := kept Channel.kWriteEvent
  intro none
  rcases h with rfl | rfl
  · rw [mask] at none
    rw [none] at reading
    exact absurd reading (by decide)
  · rw [mask] at none
    rw [none] at writing
    exact absurd writing (by decide)

section Operation

variable {p : EpollPoller ι} {self : ι} {ch : Channel} {refused : Bool} {op : ChannelOp}

private theorem update_kernel_off (operation : CtlOp) {n : Nat} (off : n ≠ ch.fd_) :
    (p.update operation self ch refused).interest n = p.interest n := by
  unfold EpollPoller.update epoll_ctl
  cases refused with
  | true => rfl
  | false =>
    cases operation with
    | EPOLL_CTL_ADD | EPOLL_CTL_MOD | EPOLL_CTL_DEL =>
      simp only [Bool.false_eq_true, if_false]
      split
      · rename_i changed
        split at changed
        · cases changed
          exact Function.update_of_ne off ..
        · cases changed
      · rfl

theorem apply_kernel_off {n : Nat} (off : n ≠ ch.fd_) :
    (op.apply self p ch refused).1.interest n = p.interest n := by
  have interest (events : EventMask) :
      (ch.withEvents self events p refused).1.interest n = p.interest n := by
    unfold Channel.withEvents EpollPoller.updateChannel
    dsimp only
    split
    · refine (update_kernel_off _ (by exact off)).trans ?_
      split <;> rfl
    · split <;> exact update_kernel_off _ off
  by_cases stays : op = .remove
  · subst stays
    simp only [ChannelOp.apply, Channel.remove, EpollPoller.removeChannel]
    split
    · exact update_kernel_off _ off
    · rfl
  · rw [Channel.apply_eq op stays]
    exact interest _

private theorem apply_indexed (indexed : ch.Indexed) : (op.apply self p ch refused).2.Indexed := by
  have set (events : EventMask) : (ch.withEvents self events p refused).2.Indexed := by
    unfold Channel.withEvents EpollPoller.updateChannel
    dsimp only
    split
    · exact .inr (.inl rfl)
    · split
      · exact .inr (.inr rfl)
      · exact indexed
  by_cases stays : op = .remove
  · rw [stays]
    exact .inl rfl
  · rw [Channel.apply_eq op stays]
    exact set _

/-- A failed `epoll_ctl` leaves agreement behind only when it was a MOD. -/
theorem withEvents_tracks (indexed : ch.Indexed) (tracks : Tracks p ch) (events : EventMask) :
    Tracks (ch.withEvents self events p refused).1 (ch.withEvents self events p refused).2 ↔
      (refused = true → ch.index_ = kAdded ∧ events ≠ Channel.kNoneEvent) := by
  unfold Tracks Channel.withEvents EpollPoller.updateChannel
  rcases indexed with index | index | index
  · have none := tracks.absent (by simp [index, kNew, kAdded])
    cases refused with
    | true => simp [index, none, EpollPoller.update, kNew, kAdded]
    | false => simp [index, none, EpollPoller.update, epoll_ctl, kNew, kAdded]
  · obtain ⟨event, present⟩ := tracks.present index
    by_cases idle : events = Channel.kNoneEvent
    · cases refused with
      | true => simp [index, present, idle, Channel.isNoneEvent, EpollPoller.update, kNew, kAdded,
          kDeleted]
      | false => simp [index, present, idle, Channel.isNoneEvent, EpollPoller.update, epoll_ctl,
          kNew, kAdded, kDeleted]
    · cases refused with
      | true => simp [index, present, idle, Channel.isNoneEvent, EpollPoller.update, kNew, kAdded,
          kDeleted]
      | false => simp [index, present, idle, Channel.isNoneEvent, EpollPoller.update, epoll_ctl,
          kNew, kAdded, kDeleted]
  · have none := tracks.absent (by simp [index, kDeleted, kAdded])
    cases refused with
    | true => simp [index, none, EpollPoller.update, kNew, kAdded, kDeleted]
    | false => simp [index, none, EpollPoller.update, epoll_ctl, kNew, kAdded, kDeleted]

private theorem remove_tracks (tracks : Tracks p ch) :
    Tracks (ch.remove self p refused).1 (ch.remove self p refused).2 ↔
      (refused = true → ch.index_ ≠ kAdded) := by
  unfold Tracks Channel.remove EpollPoller.removeChannel
  by_cases index : ch.index_ = kAdded
  · obtain ⟨event, present⟩ := tracks.present index
    cases refused with
    | true => simp [index, present, EpollPoller.update, kNew, kAdded]
    | false => simp [index, present, EpollPoller.update, epoll_ctl, kNew, kAdded]
  · dsimp only
    rw [if_neg index, tracks.absent index]
    exact iff_of_true (by simp [kNew, kAdded]) fun _ => index

private theorem apply_tracks (indexed : ch.Indexed) (tracks : Tracks p ch) :
    Tracks (op.apply self p ch refused).1 (op.apply self p ch refused).2 ↔
      (refused = true → op.ctl ch = none ∨ op.ctl ch = some .EPOLL_CTL_MOD) := by
  by_cases stays : op = .remove
  · subst stays
    refine (remove_tracks tracks).trans ?_
    by_cases index : ch.index_ = kAdded
    · simp [ChannelOp.ctl, index]
    · simp [ChannelOp.ctl, index]
  · rw [Channel.apply_eq op stays]
    refine (withEvents_tracks indexed tracks _).trans (imp_congr_right fun _ => ?_)
    unfold ChannelOp.ctl
    rw [if_neg stays]
    rcases indexed with index | index | index
    · simp [index, kNew, kAdded]
    · by_cases idle : op.mask ch.events_ = Channel.kNoneEvent
      · simp [index, idle, kNew, kAdded, kDeleted]
      · simp [index, idle, kNew, kAdded, kDeleted]
    · simp [index, kNew, kAdded, kDeleted]

private theorem apply_enables (indexed : ch.Indexed) (tracks : Tracks p ch) (enables : op.Enables) :
    (op.apply self p ch).1.errors = p.errors ∧
      (op.apply self p ch).1.interest ch.fd_ = some (op.mask ch.events_, self) := by
  have some := enables.mask_ne ch.events_
  rw [Channel.apply_eq op enables.stays]
  unfold Channel.withEvents EpollPoller.updateChannel
  rcases indexed with index | index | index
  · have none := tracks.absent (by simp [index, kNew, kAdded])
    simp [index, none, EpollPoller.update, epoll_ctl]
  · obtain ⟨event, present⟩ := tracks.present index
    simp [index, present, some, Channel.isNoneEvent, EpollPoller.update, epoll_ctl, kNew, kAdded,
      kDeleted]
  · have none := tracks.absent (by simp [index, kDeleted, kAdded])
    simp [index, none, EpollPoller.update, epoll_ctl, kNew, kDeleted]

end Operation

namespace Registry

def attempt [DecidableEq ι] (s : Registry ι) (i : ι) (op : ChannelOp) (refused : Bool) :
    Registry ι :=
  let r := op.apply i s.poller (s.channel i) refused
  { channel := Function.update s.channel i r.2, poller := r.1 }

end Registry

/-- The operations on the channels of a loop, with the failures of their calls. -/
def refusingMachine [DecidableEq ι] : Lib.Machine (Registry ι) (ι × ChannelOp × Bool) where
  step s input := some (s.attempt input.1 input.2.1 input.2.2)

namespace Registry

/-- What no failure changes: the values of `index_`, the descriptors, and that a descriptor is in
the kernel's set with the pointer of its own channel. -/
structure Sane (fd : ι → Nat) (s : Registry ι) : Prop where
  indexed : ∀ i, (s.channel i).Indexed
  fds : ∀ i, (s.channel i).fd_ = fd i
  owned : ∀ n event, s.poller.interest n = some event → n = fd event.2

theorem new_sane (fd : ι → Nat) : (Registry.new fd).Sane fd where
  indexed _ := .inl rfl
  fds _ := rfl
  owned _ _ entry := by cases entry

variable [DecidableEq ι] {s s' : Registry ι} {fd : ι → Nat} {i j : ι} {op : ChannelOp}
  {refused : Bool}

private theorem attempt_self (s : Registry ι) (i : ι) (op : ChannelOp) (refused : Bool) :
    (s.attempt i op refused).channel i = (op.apply i s.poller (s.channel i) refused).2 :=
  Function.update_self ..

private theorem attempt_of_ne (s : Registry ι) (op : ChannelOp) (refused : Bool) (other : j ≠ i) :
    (s.attempt i op refused).channel j = s.channel j :=
  Function.update_of_ne other ..

theorem Sane.attempt (inv : s.Sane fd) (i : ι) (op : ChannelOp) (refused : Bool) :
    (s.attempt i op refused).Sane fd := by
  refine ⟨?_, ?_, ?_⟩
  · intro j
    by_cases this : j = i
    · subst this
      rw [attempt_self]
      exact apply_indexed (inv.indexed j)
    · rw [attempt_of_ne _ _ _ this]
      exact inv.indexed j
  · intro j
    by_cases this : j = i
    · subst this
      rw [attempt_self, Channel.apply_fd]
      exact inv.fds j
    · rw [attempt_of_ne _ _ _ this]
      exact inv.fds j
  · intro n event entry
    by_cases this : n = (s.channel i).fd_
    · rcases Channel.apply_interest op entry with old | ⟨own, -⟩
      · exact inv.owned n event old
      · rw [own, this, inv.fds i]
    · have entry' : (op.apply i s.poller (s.channel i) refused).1.interest n = some event := entry
      rw [apply_kernel_off this] at entry'
      exact inv.owned n event entry'

/-- The step lemma: after an operation that may have failed, `index_` says of every channel whether
it is in the kernel's set, exactly if the call that failed is a MOD. -/
theorem Sane.tracks_iff (inv : s.Sane fd) (distinct : Function.Injective fd)
    (tracks : ∀ i, Tracks s.poller (s.channel i)) (i : ι) (op : ChannelOp) (refused : Bool) :
    (∀ j, Tracks (s.attempt i op refused).poller ((s.attempt i op refused).channel j)) ↔
      (refused = true →
        op.ctl (s.channel i) = none ∨ op.ctl (s.channel i) = some .EPOLL_CTL_MOD) := by
  have own : Tracks (op.apply i s.poller (s.channel i) refused).1
      (op.apply i s.poller (s.channel i) refused).2 ↔ _ :=
    apply_tracks (inv.indexed i) (tracks i)
  rw [← own]
  constructor
  · intro all
    have this := all i
    rwa [attempt_self] at this
  · intro this j
    by_cases same : j = i
    · subst same
      rw [attempt_self]
      exact this
    · have off : (s.channel j).fd_ ≠ (s.channel i).fd_ := by
        rw [inv.fds j, inv.fds i]
        exact fun he => same (distinct he)
      rw [attempt_of_ne _ _ _ same]
      unfold Tracks
      have kernel : (s.attempt i op refused).poller.interest (s.channel j).fd_ =
          s.poller.interest (s.channel j).fd_ := apply_kernel_off off
      rw [kernel]
      exact tracks j

/-- `index_` is right about every channel, and enabling a channel issues the ADD or the MOD that
is needed. -/
structure InStep (s : Registry ι) : Prop where
  kernel : ∀ i, Tracks s.poller (s.channel i)
  enables : ∀ i op, op.Enables → (s.attempt i op false).poller.errors = s.poller.errors ∧
    (s.attempt i op false).poller.interest (s.channel i).fd_ =
      some (op.mask (s.channel i).events_, i)

private theorem Sane.inStep_iff (inv : s.Sane fd) : s.InStep ↔ ∀ i, Tracks s.poller
    (s.channel i) := by
  refine ⟨fun step => step.kernel, fun tracks => ⟨tracks, ?_⟩⟩
  intro i op enables
  exact apply_enables (inv.indexed i) (tracks i) enables

/-- The call of `epoll_ctl` that fails, if any, is a MOD. -/
def FailsHarmlessly (s : Registry ι) (input : ι × ChannelOp × Bool) : Prop :=
  input.2.2 = true → input.2.1.ctl (s.channel input.1) = none ∨
    input.2.1.ctl (s.channel input.1) = some .EPOLL_CTL_MOD

instance (s : Registry ι) (input : ι × ChannelOp × Bool) : Decidable (s.FailsHarmlessly input) :=
  inferInstanceAs (Decidable (_ → _))

end Registry

private theorem refusingMachine_run [DecidableEq ι] {fd : ι → Nat}
    {inputs : List (ι × ChannelOp × Bool)}
    {s : Registry ι} (h : refusingMachine.Run (Registry.new fd) inputs s) : s.Sane fd := by
  refine h.reachable.invariant (I := Registry.Sane fd) (Registry.new_sane fd) ?_
  intro t input t' _ inv hs
  obtain rfl : t.attempt input.1 input.2.1 input.2.2 = t' := Option.some.inj hs
  exact inv.attempt _ _ _

/-- The bookkeeping agrees with the kernel after every operation of a run exactly if no `epoll_ctl`
but MOD fails in it. -/
theorem failed_ctl_iff [DecidableEq ι] (fd : ι → Nat) (distinct : Function.Injective fd)
    (inputs : List (ι × ChannelOp × Bool)) (s : Registry ι)
    (run : refusingMachine.Run (Registry.new fd) inputs s) :
    refusingMachine.Throughout (fun _ s => s.InStep) (Registry.new fd) inputs ↔
      refusingMachine.StepsMeet Registry.FailsHarmlessly (Registry.new fd) inputs := by
  refine Lib.Machine.throughout_iff_stepsMeet run ?_ ?_
  · refine (Registry.new_sane fd).inStep_iff.mpr ?_
    intro i
    exact iff_of_false (by simp [Registry.new, Channel.new, kAdded])
      (by simp [Registry.new, EpollPoller.new])
  · rintro inputs s ⟨i, op, refused⟩ s' before inStep step
    obtain rfl : s.attempt i op refused = s' := Option.some.inj step
    have sane := refusingMachine_run before
    rw [(sane.attempt i op refused).inStep_iff]
    exact sane.tracks_iff distinct inStep.kernel i op refused

/-- A MOD fails between an ADD and another MOD. -/
def modRefused : List (Unit × ChannelOp × Bool) :=
  [((), .enableReading, false), ((), .enableWriting, true), ((), .enableWriting, false)]

theorem failed_ctl_iff_mod :
    ∃ s, refusingMachine.Run (Registry.new fun _ : Unit => 5) modRefused s ∧
      s.poller.errors = [(.EPOLL_CTL_MOD, 5)] ∧
      refusingMachine.Throughout (fun _ s => s.InStep) (Registry.new fun _ : Unit => 5)
        modRefused := by
  have run := Lib.Machine.run_iff_exec.mpr
    (rfl : refusingMachine.exec (Registry.new fun _ : Unit => 5) modRefused = some _)
  have meets : refusingMachine.StepsMeet Registry.FailsHarmlessly (Registry.new fun _ : Unit => 5)
      modRefused := Lib.Machine.stepsMeet_of_checks (by decide)
  exact ⟨_, run, rfl, (failed_ctl_iff _ (fun _ _ _ => rfl) _ _ run).mpr meets⟩

/-- The ADD of a new channel fails. The channel counts as added, and the MOD that enables writing
finds no descriptor. -/
theorem failed_ctl_deaf :
    ∃ s, refusingMachine.Run (Registry.new fun _ : Unit => 5) [((), .enableReading, true)] s ∧
      (s.channel ()).index_ = kAdded ∧ s.poller.interest 5 = none ∧ ¬ s.InStep ∧
      (s.attempt () .enableWriting false).poller.interest 5 = none ∧
      (s.attempt () .enableWriting false).poller.errors =
        [(.EPOLL_CTL_ADD, 5), (.EPOLL_CTL_MOD, 5)] := by
  have run := Lib.Machine.run_iff_exec.mpr
    (rfl : refusingMachine.exec (Registry.new fun _ : Unit => 5)
      [((), .enableReading, true)] = some _)
  refine ⟨_, run, rfl, rfl, ?_, rfl, rfl⟩
  intro inStep
  cases (inStep.kernel ()).mp rfl

end TcpMuduo
