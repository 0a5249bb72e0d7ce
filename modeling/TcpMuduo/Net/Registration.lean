import TcpMuduo.Lib.Machine
import TcpMuduo.Net.Channel

/-!
The three copies of a channel's registration: `index_` in the channel, the
entry in `channels_` and the entry in the kernel. They agree in every state
the channel operations can reach.
-/

set_option autoImplicit false
set_option relaxedAutoImplicit false

namespace TcpMuduo

universe u

variable {ι : Type u}

/-- The three registration states of a channel. `deleted` is the half-registered one: the
poller still lists the channel and the kernel does not know its descriptor. -/
inductive Agrees (p : EpollPoller ι) (self : ι) (ch : Channel) : Prop
  | new (index : ch.index_ = kNew) (listed : p.channels_ ch.fd_ = none)
      (kernel : p.interest ch.fd_ = none)
  | added (index : ch.index_ = kAdded) (listed : p.channels_ ch.fd_ = some self)
      (kernel : p.interest ch.fd_ = some (ch.events_, self))
  | deleted (index : ch.index_ = kDeleted) (listed : p.channels_ ch.fd_ = some self)
      (kernel : p.interest ch.fd_ = none)

/-- Nothing about any descriptor but `fd` differs between two pollers. -/
structure SameOff (p p' : EpollPoller ι) (fd : Nat) : Prop where
  listed : ∀ fd', fd' ≠ fd → p'.channels_ fd' = p.channels_ fd'
  kernel : ∀ fd', fd' ≠ fd → p'.interest fd' = p.interest fd'

theorem SameOff.agrees {p p' : EpollPoller ι} {fd : Nat} {other : ι} {ch : Channel}
    (same : SameOff p p' fd) (off : ch.fd_ ≠ fd) (h : Agrees p other ch) :
    Agrees p' other ch := by
  have hl := same.listed _ off
  have hk := same.kernel _ off
  cases h with
  | new index listed kernel => exact .new index (hl.trans listed) (hk.trans kernel)
  | added index listed kernel => exact .added index (hl.trans listed) (hk.trans kernel)
  | deleted index listed kernel => exact .deleted index (hl.trans listed) (hk.trans kernel)

/-- What an operation on the channel of `fd` leaves alone, and that its `epoll_ctl` succeeded. -/
structure Clean (p p' : EpollPoller ι) (ch ch' : Channel) : Prop where
  same : SameOff p p' ch.fd_
  fd : ch'.fd_ = ch.fd_
  errors : p'.errors = p.errors

private theorem update_add {p : EpollPoller ι} {self : ι} {ch : Channel}
    (absent : p.interest ch.fd_ = none) :
    p.update .EPOLL_CTL_ADD self ch
      = { p with interest := Function.update p.interest ch.fd_ (some (ch.events_, self)) } := by
  simp [EpollPoller.update, epoll_ctl, absent]

private theorem update_mod {p : EpollPoller ι} {self : ι} {ch : Channel} {event : EventMask × ι}
    (present : p.interest ch.fd_ = some event) :
    p.update .EPOLL_CTL_MOD self ch
      = { p with interest := Function.update p.interest ch.fd_ (some (ch.events_, self)) } := by
  simp [EpollPoller.update, epoll_ctl, present]

private theorem update_del {p : EpollPoller ι} {self : ι} {ch : Channel} {event : EventMask × ι}
    (present : p.interest ch.fd_ = some event) :
    p.update .EPOLL_CTL_DEL self ch
      = { p with interest := Function.update p.interest ch.fd_ none } := by
  simp [EpollPoller.update, epoll_ctl, present]

private theorem sameOff_of_update {p : EpollPoller ι} {fd : Nat} {c : Option ι}
    {k : Option (EventMask × ι)} {errors : List (CtlOp × Nat)} :
    SameOff p ⟨Function.update p.channels_ fd c, Function.update p.interest fd k, errors⟩ fd :=
  ⟨fun _ off => Function.update_of_ne off _ _, fun _ off => Function.update_of_ne off _ _⟩

/-- `updateChannel` from an agreeing state: the channel is registered with the new mask, except
that an added channel without events becomes a deleted one. -/
theorem updateChannel_spec {p : EpollPoller ι} {self : ι} {ch : Channel} (events : EventMask)
    (h : Agrees p self ch) :
    Agrees (ch.withEvents self events p).1 self (ch.withEvents self events p).2 ∧
      Clean p (ch.withEvents self events p).1 ch (ch.withEvents self events p).2 ∧
      (ch.withEvents self events p).2.events_ = events ∧
      (ch.withEvents self events p).2.index_ ≠ kNew := by
  cases h with
  | new index listed kernel =>
    have result : ch.withEvents self events p =
        (⟨Function.update p.channels_ ch.fd_ (some self),
            Function.update p.interest ch.fd_ (some (events, self)), p.errors⟩,
          { ch with events_ := events, index_ := kAdded }) := by
      simp only [Channel.withEvents, EpollPoller.updateChannel, index, true_or, if_true]
      rw [update_add (by exact kernel)]
    rw [result]
    exact ⟨.added rfl (by simp) (by simp), ⟨sameOff_of_update, rfl, rfl⟩, rfl,
      by simp [kAdded, kNew]⟩
  | deleted index listed kernel =>
    have result : ch.withEvents self events p =
        (⟨p.channels_, Function.update p.interest ch.fd_ (some (events, self)), p.errors⟩,
          { ch with events_ := events, index_ := kAdded }) := by
      simp only [Channel.withEvents, EpollPoller.updateChannel, index, or_true, if_true]
      rw [if_neg (by decide), update_add (by exact kernel)]
    rw [result]
    exact ⟨.added rfl listed (by simp),
      ⟨⟨fun _ _ => rfl, fun _ off => Function.update_of_ne off _ _⟩, rfl, rfl⟩, rfl,
      by simp [kAdded, kNew]⟩
  | added index listed kernel =>
    by_cases idle : events = Channel.kNoneEvent
    · have result : ch.withEvents self events p =
          (⟨p.channels_, Function.update p.interest ch.fd_ none, p.errors⟩,
            { ch with events_ := events, index_ := kDeleted }) := by
        simp only [Channel.withEvents, EpollPoller.updateChannel, index]
        rw [if_neg (by decide), if_pos (by simpa [Channel.isNoneEvent] using idle),
          update_del (by exact kernel)]
      rw [result]
      exact ⟨.deleted rfl listed (by simp),
        ⟨⟨fun _ _ => rfl, fun _ off => Function.update_of_ne off _ _⟩, rfl, rfl⟩, rfl,
        by simp [kDeleted, kNew]⟩
    · have result : ch.withEvents self events p =
          (⟨p.channels_, Function.update p.interest ch.fd_ (some (events, self)), p.errors⟩,
            { ch with events_ := events }) := by
        simp only [Channel.withEvents, EpollPoller.updateChannel, index]
        rw [if_neg (by decide), if_neg (by simpa [Channel.isNoneEvent] using idle),
          update_mod (by exact kernel)]
      rw [result]
      exact ⟨.added index listed (by simp),
        ⟨⟨fun _ _ => rfl, fun _ off => Function.update_of_ne off _ _⟩, rfl, rfl⟩, rfl,
        by simp [index, kAdded, kNew]⟩

/-- `removeChannel` from an agreeing state: no trace of the channel is left. -/
theorem removeChannel_spec {p : EpollPoller ι} {self : ι} {ch : Channel} (h : Agrees p self ch) :
    Agrees (ch.remove self p).1 self (ch.remove self p).2 ∧
      Clean p (ch.remove self p).1 ch (ch.remove self p).2 ∧
      (ch.remove self p).2.events_ = ch.events_ ∧ (ch.remove self p).2.index_ = kNew := by
  have unlisted (index : ch.index_ ≠ kAdded) :
      ch.remove self p = (⟨Function.update p.channels_ ch.fd_ none, p.interest, p.errors⟩,
        { ch with index_ := kNew }) := by
    simp only [Channel.remove, EpollPoller.removeChannel]
    rw [if_neg index]
  cases h with
  | new index listed kernel =>
    rw [unlisted (by simp [index, kNew, kAdded])]
    exact ⟨.new rfl (by simp) kernel,
      ⟨⟨fun _ off => Function.update_of_ne off _ _, fun _ _ => rfl⟩, rfl, rfl⟩, rfl, rfl⟩
  | deleted index listed kernel =>
    rw [unlisted (by simp [index, kDeleted, kAdded])]
    exact ⟨.new rfl (by simp) kernel,
      ⟨⟨fun _ off => Function.update_of_ne off _ _, fun _ _ => rfl⟩, rfl, rfl⟩, rfl, rfl⟩
  | added index listed kernel =>
    have result : ch.remove self p =
        (⟨Function.update p.channels_ ch.fd_ none, Function.update p.interest ch.fd_ none,
          p.errors⟩, { ch with index_ := kNew }) := by
      simp only [Channel.remove, EpollPoller.removeChannel]
      rw [if_pos index, update_del (by exact kernel)]
    rw [result]
    exact ⟨.new rfl (by simp) (by simp), ⟨sameOff_of_update, rfl, rfl⟩, rfl, rfl⟩

theorem ChannelOp.spec {p : EpollPoller ι} {self : ι} {ch : Channel} (op : ChannelOp)
    (h : Agrees p self ch) :
    Agrees (op.apply self p ch).1 self (op.apply self p ch).2 ∧
      Clean p (op.apply self p ch).1 ch (op.apply self p ch).2 := by
  by_cases stays : op = .remove
  · subst stays
    exact ⟨(removeChannel_spec h).1, (removeChannel_spec h).2.1⟩
  · rw [Channel.apply_eq op stays]
    exact ⟨(updateChannel_spec _ h).1, (updateChannel_spec _ h).2.1⟩

/-- The channels of one loop and its poller. -/
structure Registry (ι : Type u) where
  channel : ι → Channel
  poller : EpollPoller ι

def Registry.new (fd : ι → Nat) : Registry ι where
  channel := fun i => Channel.new (fd i)
  poller := EpollPoller.new

def Registry.apply [DecidableEq ι] (s : Registry ι) (i : ι) (op : ChannelOp) : Registry ι :=
  let r := op.apply i s.poller (s.channel i)
  { channel := Function.update s.channel i r.2, poller := r.1 }

def registryMachine [DecidableEq ι] : Lib.Machine (Registry ι) (ι × ChannelOp) where
  step s input := some (s.apply input.1 input.2)

/-- Every channel agrees with the poller, keeps its descriptor, and nothing has failed. -/
structure Registry.Consistent (fd : ι → Nat) (s : Registry ι) : Prop where
  agrees : ∀ i, Agrees s.poller i (s.channel i)
  fds : ∀ i, (s.channel i).fd_ = fd i
  clean : s.poller.errors = []

private theorem Registry.new_consistent (fd : ι → Nat) : (Registry.new fd).Consistent fd where
  agrees _ := .new rfl rfl rfl
  fds _ := rfl
  clean := rfl

/-- One operation on one channel keeps the agreement of all of them. -/
theorem Registry.Consistent.apply [DecidableEq ι] {fd : ι → Nat} (distinct : Function.Injective fd)
    {s : Registry ι} (h : s.Consistent fd) (i : ι) (op : ChannelOp) :
    (s.apply i op).Consistent fd := by
  obtain ⟨agree, clean⟩ := op.spec (h.agrees i)
  refine ⟨?_, ?_, clean.errors.trans h.clean⟩
  · intro j
    by_cases hj : j = i
    · subst hj
      simpa [Registry.apply] using agree
    · have off : (s.channel j).fd_ ≠ (s.channel i).fd_ := by
        rw [h.fds j, h.fds i]
        exact fun he => hj (distinct he)
      simpa [Registry.apply, hj] using clean.same.agrees off (h.agrees j)
  · intro j
    by_cases hj : j = i
    · subst hj
      simpa [Registry.apply, clean.fd] using h.fds j
    · simpa [Registry.apply, hj] using h.fds j

theorem registryMachine_run [DecidableEq ι] {fd : ι → Nat} (distinct : Function.Injective fd)
    {ops : List (ι × ChannelOp)} {s : Registry ι}
    (h : registryMachine.Run (Registry.new fd) ops s) : s.Consistent fd := by
  refine h.reachable.invariant (I := Registry.Consistent fd) (Registry.new_consistent fd) ?_
  intro t input t' _ inv hs
  obtain rfl : t.apply input.1 input.2 = t' := Option.some.inj hs
  exact inv.apply distinct _ _

theorem Agrees.index_iff [DecidableEq ι] {p : EpollPoller ι} {self : ι} {ch : Channel}
    (h : Agrees p self ch) :
    (ch.index_ = kNew ↔ p.channels_ ch.fd_ = none ∧ p.interest ch.fd_ = none) ∧
      (ch.index_ = kAdded ↔ p.channels_ ch.fd_ = some self ∧
        p.interest ch.fd_ = some (ch.events_, self)) ∧
      (ch.index_ = kDeleted ↔ p.channels_ ch.fd_ = some self ∧ p.interest ch.fd_ = none) ∧
      (p.hasChannel self ch = true ↔ ch.index_ ≠ kNew) := by
  cases h with
  | new index listed kernel | added index listed kernel | deleted index listed kernel =>
    simp [EpollPoller.hasChannel, index, listed, kernel, kNew, kAdded, kDeleted]

theorem Agrees.index_of_kernel {p : EpollPoller ι} {self : ι} {ch : Channel}
    {event : EventMask × ι} (h : Agrees p self ch) (entry : p.interest ch.fd_ = some event) :
    ch.index_ ≠ kNew := by
  cases h with
  | new index listed kernel =>
    rw [kernel] at entry
    cases entry
  | added index listed kernel | deleted index listed kernel => simp [index, kNew, kAdded, kDeleted]

theorem Agrees.index_of_listed {p : EpollPoller ι} {self ref : ι} {ch : Channel}
    (h : Agrees p self ch) (entry : p.channels_ ch.fd_ = some ref) :
    ch.index_ ≠ kNew ∧ ref = self := by
  cases h with
  | new index listed kernel =>
    rw [listed] at entry
    cases entry
  | added index listed kernel | deleted index listed kernel =>
    rw [listed] at entry
    cases entry
    exact ⟨by simp [index, kNew, kAdded, kDeleted], rfl⟩

theorem Agrees.listed_of_index {p : EpollPoller ι} {self : ι} {ch : Channel}
    (h : Agrees p self ch) (index : ch.index_ ≠ kNew) : p.channels_ ch.fd_ = some self := by
  cases h with
  | new new listed kernel => exact absurd new index
  | added added listed kernel | deleted deleted listed kernel => exact listed

/-- `index_`, `channels_` and the kernel agree on every channel after any operations, no
`epoll_ctl` has failed, and an operation changes no entry but its own channel's. -/
theorem registration_agrees [DecidableEq ι] (fd : ι → Nat) (distinct : Function.Injective fd)
    (ops : List (ι × ChannelOp)) (s : Registry ι)
    (h : registryMachine.Run (Registry.new fd) ops s) :
    s.poller.errors = [] ∧
      (∀ i,
        ((s.channel i).index_ = kNew ↔
          s.poller.channels_ (fd i) = none ∧ s.poller.interest (fd i) = none) ∧
        ((s.channel i).index_ = kAdded ↔
          s.poller.channels_ (fd i) = some i ∧
            s.poller.interest (fd i) = some ((s.channel i).events_, i)) ∧
        ((s.channel i).index_ = kDeleted ↔
          s.poller.channels_ (fd i) = some i ∧ s.poller.interest (fd i) = none) ∧
        (s.poller.hasChannel i (s.channel i) = true ↔ (s.channel i).index_ ≠ kNew)) ∧
      ∀ i op, SameOff s.poller (s.apply i op).poller (fd i) ∧
        ∀ j, j ≠ i → (s.apply i op).channel j = s.channel j := by
  have inv := registryMachine_run distinct h
  refine ⟨inv.clean, ?_, ?_⟩
  · intro i
    have := (inv.agrees i).index_iff
    rw [inv.fds i] at this
    exact this
  · intro i op
    have same := (op.spec (inv.agrees i)).2.same
    rw [inv.fds i] at same
    exact ⟨same, fun j hj => by simp [Registry.apply, hj]⟩

/-- Two channels, one of them disabled and enabled again, the other one removed. -/
def twoChannelCalls : List (Bool × ChannelOp) :=
  [(true, .enableReading), (false, .enableReading), (true, .disableReading),
    (true, .enableWriting), (false, .remove)]

theorem registration_agrees_two_channels :
    ∃ s : Registry Bool,
      registryMachine.Run (Registry.new (fun i => if i then 7 else 5)) twoChannelCalls s ∧
        s.poller.errors = [] ∧ s.poller.interest 7 = some (Channel.kWriteEvent, true) := by
  have run := Lib.Machine.run_iff_exec.mpr
    (rfl : registryMachine.exec (Registry.new (fun i : Bool => if i then 7 else 5))
      twoChannelCalls = some _)
  have distinct : Function.Injective fun i : Bool => if i then 7 else 5 := by
    intro i j
    cases i <;> cases j <;> simp
  exact ⟨_, run, (registration_agrees _ distinct _ _ run).1, rfl⟩

end TcpMuduo
