import TcpMuduo.Net.Registration

/-!
The interest operations one after the other. `updateChannel` looks at `index_`
before it looks at `isNoneEvent`, so a channel without events that is not in
epoll is put there, and taken out again by the same operation.
-/

set_option autoImplicit false
set_option relaxedAutoImplicit false

namespace TcpMuduo

universe u

variable {ι : Type u}

private theorem ChannelOp.mask_mask (op : ChannelOp) (events : EventMask) :
    op.mask (op.mask events) = op.mask events := by
  cases op with
  | enableReading | enableWriting => simp only [mask, BitVec.or_assoc, BitVec.or_self]
  | disableReading | disableWriting => simp only [mask, BitVec.and_assoc, BitVec.and_self]
  | disbaleAll | remove => rfl

private theorem Agrees.withEvents_index {p : EpollPoller ι} {self : ι} {ch : Channel}
    (events : EventMask)
    (h : Agrees p self ch) :
    (ch.withEvents self events p).2.index_ =
      if ch.index_ = kAdded ∧ events = Channel.kNoneEvent then kDeleted else kAdded := by
  unfold Channel.withEvents EpollPoller.updateChannel
  cases h with
  | new index listed kernel | deleted index listed kernel =>
    simp [index, kNew, kAdded, kDeleted]
  | added index listed kernel =>
    by_cases idle : events = Channel.kNoneEvent
    · simp [index, idle, Channel.isNoneEvent, kNew, kAdded, kDeleted]
    · simp [index, idle, Channel.isNoneEvent, kNew, kAdded, kDeleted]

theorem Agrees.apply_index {p : EpollPoller ι} {self : ι} {ch : Channel} (h : Agrees p self ch)
    {op : ChannelOp} (stays : op ≠ .remove) :
    (op.apply self p ch).2.index_ =
      if ch.index_ = kAdded ∧ op.mask ch.events_ = Channel.kNoneEvent then kDeleted
      else kAdded := by
  rw [Channel.apply_eq op stays]
  exact h.withEvents_index _

private theorem Agrees.same_of_index {p p' : EpollPoller ι} {self : ι} {ch ch' : Channel}
    (h : Agrees p self ch) (h' : Agrees p' self ch') (clean : Clean p p' ch ch')
    (index : ch'.index_ = ch.index_) (events : ch'.events_ = ch.events_) :
    p'.channels_ = p.channels_ ∧ p'.interest = p.interest := by
  have own : p'.channels_ ch.fd_ = p.channels_ ch.fd_ ∧ p'.interest ch.fd_ = p.interest ch.fd_ := by
    have fd := clean.fd
    cases h with
    | new old listed kernel =>
      cases h' with
      | new _ listed' kernel' =>
        exact ⟨by rw [listed, ← fd, listed'], by rw [kernel, ← fd, kernel']⟩
      | added new _ _ | deleted new _ _ => simp [index, old, kNew, kAdded, kDeleted] at new
    | added old listed kernel =>
      cases h' with
      | added _ listed' kernel' =>
        exact ⟨by rw [listed, ← fd, listed'], by rw [kernel, ← fd, kernel', events]⟩
      | new new _ _ | deleted new _ _ => simp [index, old, kNew, kAdded, kDeleted] at new
    | deleted old listed kernel =>
      cases h' with
      | deleted _ listed' kernel' =>
        exact ⟨by rw [listed, ← fd, listed'], by rw [kernel, ← fd, kernel']⟩
      | new new _ _ | added new _ _ => simp [index, old, kNew, kAdded, kDeleted] at new
  refine ⟨?_, ?_⟩
  · funext n
    by_cases this : n = ch.fd_
    · rw [this]
      exact own.1
    · exact clean.same.listed n this
  · funext n
    by_cases this : n = ch.fd_
    · rw [this]
      exact own.2
    · exact clean.same.kernel n this

/-- Two states with every channel registered in the same way. -/
structure Registry.Same (s s' : Registry ι) : Prop where
  events : ∀ i, (s'.channel i).events_ = (s.channel i).events_
  index : ∀ i, (s'.channel i).index_ = (s.channel i).index_
  listed : s'.poller.channels_ = s.poller.channels_
  kernel : s'.poller.interest = s.poller.interest

namespace Registry

variable {s : Registry ι} {fd : ι → Nat} {i j : ι} {op : ChannelOp}

private theorem Consistent.absent_iff (inv : s.Consistent fd) (i : ι) :
    s.poller.interest (s.channel i).fd_ = none ↔ (s.channel i).index_ ≠ kAdded := by
  cases inv.agrees i with
  | new index listed kernel | added index listed kernel | deleted index listed kernel =>
    simp [index, kernel, kNew, kAdded, kDeleted]

variable [DecidableEq ι]

@[simp] theorem apply_self (s : Registry ι) (i : ι) (op : ChannelOp) :
    (s.apply i op).channel i = (op.apply i s.poller (s.channel i)).2 :=
  Function.update_self ..

private theorem apply_of_ne (s : Registry ι) (op : ChannelOp) (other : j ≠ i) :
    (s.apply i op).channel j = s.channel j :=
  Function.update_of_ne other ..

theorem apply_events (s : Registry ι) (i : ι) (op : ChannelOp) :
    ((s.apply i op).channel i).events_ = op.mask (s.channel i).events_ := by
  rw [apply_self, Channel.apply_events]

theorem Consistent.apply_index (inv : s.Consistent fd) (i : ι) (op : ChannelOp) :
    ((s.apply i op).channel i).index_ =
      if op = .remove then kNew
      else if (s.channel i).index_ = kAdded ∧
          op.mask (s.channel i).events_ = Channel.kNoneEvent then kDeleted
      else kAdded := by
  rw [apply_self]
  split
  · rename_i remove
    rw [remove]
    rfl
  · rename_i stays
    exact (inv.agrees i).apply_index stays

/-- The operation applied twice is the operation applied once. -/
def Idempotent (s : Registry ι) (i : ι) (op : ChannelOp) : Prop :=
  Same (s.apply i op) ((s.apply i op).apply i op)

def LeavesEvents (s : Registry ι) (i : ι) (op : ChannelOp) : Prop :=
  op = .remove ∨ op.mask (s.channel i).events_ ≠ Channel.kNoneEvent

instance (s : Registry ι) (i : ι) (op : ChannelOp) : Decidable (s.LeavesEvents i op) :=
  inferInstanceAs (Decidable (_ ∨ _))

private theorem Consistent.idempotent_iff (inv : s.Consistent fd) (distinct : Function.Injective fd)
    (i : ι) (op : ChannelOp) : s.Idempotent i op ↔ s.LeavesEvents i op := by
  have once := inv.apply distinct i op
  have twice := once.apply distinct i op
  have index := inv.apply_index i op
  have index' := once.apply_index i op
  have events : (((s.apply i op).apply i op).channel i).events_ =
      ((s.apply i op).channel i).events_ := by
    rw [apply_events, s.apply_events, op.mask_mask]
  rw [s.apply_events, op.mask_mask] at index'
  constructor
  · intro same
    by_contra empties
    obtain ⟨stays, none⟩ := not_or.mp empties
    have kept := same.index i
    rw [index', if_neg stays] at kept
    simp only [not_not.mp none, and_true] at kept
    split at kept
    · rename_i added
      rw [added] at kept
      exact absurd kept (by decide)
    · rename_i other
      exact other kept.symm
  · intro leaves
    have kept : (((s.apply i op).apply i op).channel i).index_ =
        ((s.apply i op).channel i).index_ := by
      rw [index', index]
      rcases leaves with remove | some
      · simp [remove]
      · simp [some]
    have spec := (op.spec (once.agrees i)).2
    rw [← apply_self] at spec
    obtain ⟨listed, kernel⟩ := (once.agrees i).same_of_index (twice.agrees i) spec kept events
    refine ⟨?_, ?_, listed, kernel⟩
    · intro j
      by_cases this : j = i
      · rw [this]
        exact events
      · rw [apply_of_ne _ op this]
    · intro j
      by_cases this : j = i
      · rw [this]
        exact kept
      · rw [apply_of_ne _ op this]

def Quiet (s : Registry ι) : Prop :=
  ∀ i, (s.channel i).events_ = Channel.kNoneEvent → s.poller.interest (s.channel i).fd_ = none

/-- An operation that leaves no event finds the channel added. -/
def EmptiesAdded (s : Registry ι) (input : ι × ChannelOp) : Prop :=
  s.LeavesEvents input.1 input.2 ∨ (s.channel input.1).index_ = kAdded

instance (s : Registry ι) (input : ι × ChannelOp) : Decidable (s.EmptiesAdded input) :=
  inferInstanceAs (Decidable (_ ∨ _))

private theorem Consistent.quiet_iff (inv : s.Consistent fd) (distinct : Function.Injective fd)
    (quiet : s.Quiet) (i : ι) (op : ChannelOp) :
    (s.apply i op).Quiet ↔ s.EmptiesAdded (i, op) := by
  have after := inv.apply distinct i op
  have index := inv.apply_index i op
  constructor
  · intro quiet'
    by_contra idle
    obtain ⟨empties, absent⟩ := not_or.mp idle
    obtain ⟨stays, none⟩ := not_or.mp empties
    have none' := (s.apply_events i op).trans (not_not.mp none)
    have absent' := (after.absent_iff i).mp (quiet' i none')
    rw [index, if_neg stays, if_neg fun added => absent added.1] at absent'
    exact absent' rfl
  · intro empties j none
    refine (after.absent_iff j).mpr ?_
    by_cases this : j = i
    · subst this
      rw [s.apply_events] at none
      rw [index]
      split
      · decide
      · rename_i stays
        have added := empties.resolve_left fun leaves => leaves.elim stays fun some => some none
        rw [if_pos ⟨added, none⟩]
        decide
    · rw [s.apply_of_ne op this] at none ⊢
      exact (inv.absent_iff j).mp (quiet j none)

end Registry

/-- In every reachable state an operation is idempotent exactly if it removes the channel or leaves
an event; and over a run no idle channel is ever in the kernel's set exactly if every operation that
leaves no event finds the channel added. -/
theorem interest_iff [DecidableEq ι] (fd : ι → Nat) (distinct : Function.Injective fd)
    (ops : List (ι × ChannelOp)) (s : Registry ι)
    (run : registryMachine.Run (Registry.new fd) ops s) :
    (∀ i op, s.Idempotent i op ↔ s.LeavesEvents i op) ∧
      (registryMachine.Throughout (fun _ s => s.Quiet) (Registry.new fd) ops ↔
        registryMachine.StepsMeet Registry.EmptiesAdded (Registry.new fd) ops) := by
  refine ⟨(registryMachine_run distinct run).idempotent_iff distinct, ?_⟩
  refine Lib.Machine.throughout_iff_stepsMeet run (fun _ _ => rfl) ?_
  rintro ops s ⟨i, op⟩ s' before quiet step
  obtain rfl : s.apply i op = s' := Option.some.inj step
  exact (registryMachine_run distinct before).quiet_iff distinct quiet i op

/-- The channel of the descriptor 5 is enabled and disabled. -/
def enableDisable : List (Unit × ChannelOp) := [((), .enableReading), ((), .disableReading)]

theorem interest_iff_enabled :
    ∃ s, registryMachine.Run (Registry.new fun _ : Unit => 5) enableDisable s ∧
      registryMachine.Throughout (fun _ s => s.Quiet) (Registry.new fun _ : Unit => 5)
        enableDisable ∧ s.Idempotent () .enableWriting := by
  have run := Lib.Machine.run_iff_exec.mpr
    (rfl : registryMachine.exec (Registry.new fun _ : Unit => 5) enableDisable = some _)
  have meets : registryMachine.StepsMeet Registry.EmptiesAdded (Registry.new fun _ : Unit => 5)
      enableDisable := Lib.Machine.stepsMeet_of_checks (by decide)
  obtain ⟨idempotent, quiet⟩ := interest_iff _ (fun _ _ _ => rfl) _ _ run
  exact ⟨_, run, quiet.mpr meets, (idempotent () .enableWriting).mpr (by decide)⟩

/-- The disabled channel is disabled once more. It is put into epoll without events; a further
`disableReading` takes it out again. -/
theorem interest_alternates :
    ∃ s, registryMachine.Run (Registry.new fun _ : Unit => 5)
        (enableDisable ++ [((), .disableReading)]) s ∧
      (s.channel ()).events_ = Channel.kNoneEvent ∧ s.poller.interest 5 = some (0, ()) ∧
      (s.apply () .disableReading).poller.interest 5 = none ∧
      ¬ s.Quiet ∧ ¬ s.Idempotent () .disableReading := by
  have run := Lib.Machine.run_iff_exec.mpr
    (rfl : registryMachine.exec (Registry.new fun _ : Unit => 5)
      (enableDisable ++ [((), .disableReading)]) = some _)
  refine ⟨_, run, rfl, rfl, rfl, ?_, ?_⟩
  · intro quiet
    cases quiet () rfl
  · intro same
    exact absurd (same.index ()) (by decide)

end TcpMuduo
