import TcpMuduo.Net.Disconnect
import TcpMuduo.Net.Establishment

/-!
`state_` over a whole run: it goes forward except where `shutdown` stores
`kDisconnecting` late, and a connection that has been shut down and not closed
is destroyed without having gone down.
-/

set_option autoImplicit false
set_option relaxedAutoImplicit false

namespace TcpMuduo

def StateE.rank : StateE → Nat
  | .kConnecting => 0
  | .kConnected => 1
  | .kDisconnecting => 2
  | .kDisconnected => 3

private theorem StateE.rank_le_disconnected (state : StateE) :
    state.rank ≤ StateE.kDisconnected.rank := by
  cases state <;> decide

private theorem StateE.rank_le_disconnecting {state : StateE} (h : state ≠ .kDisconnected) :
    state.rank ≤ StateE.kDisconnecting.rank := by
  cases state with
  | kDisconnected => exact absurd rfl h
  | kConnecting | kConnected | kDisconnecting => decide

namespace Server

variable {s s' : Server} {t : Tid} {input : Input} {eff : Effect} {config : ServerConfig}
variable {sys : LoopId → LoopSystem Tid Functor ChannelRef} {c : ConnId}
variable {inputs : List (Tid × Input)}

/-- No `state_` has gone back. -/
def Forward (s s' : Server) : Prop :=
  ∀ c, (s.conn c).state_.rank ≤ (s'.conn c).state_.rank

/-- A store of `kDisconnecting` finds the connection not yet disconnected. -/
def StoresInTime (s : Server) (i : Tid × Input) : Prop :=
  match (s.stack i.1).head? with
  | some (.shutdownStore c) => (s.conn c).state_ ≠ .kDisconnected
  | _ => True

instance (s : Server) (i : Tid × Input) : Decidable (s.StoresInTime i) :=
  decidable_of_bool (match (s.stack i.1).head? with
    | some (.shutdownStore c) => decide ((s.conn c).state_ ≠ .kDisconnected)
    | _ => true) (by unfold StoresInTime; split <;> simp only [decide_eq_true_eq])

private theorem storesInTime_iff : s.StoresInTime (t, input) ↔
    ∀ c, (s.stack t).head? = some (.shutdownStore c) → (s.conn c).state_ ≠ .kDisconnected := by
  unfold StoresInTime
  split
  · rename_i c head
    dsimp only at head
    constructor
    · intro here c' same
      rw [head] at same
      cases same
      exact here
    · intro here
      exact here c head
  · rename_i other
    simp only [true_iff]
    intro c head
    exact absurd head (other c)

private theorem Does.store_head {head : Option Task} (does : Does s t head input eff)
    (here : eff.change = .conn c .shutdownStore) : head = some (.shutdownStore c) := by
  have operation := does.operation here
  cases operation
  rfl

/-- The step lemma: `state_` goes forward unless a store of `shutdown` comes late. -/
theorem forward_step_iff (reach : machine.Reachable (Server.new config) s)
    (h : machine.step s (t, input) = some s') :
    Forward s s' ↔ s.StoresInTime (t, input) := by
  obtain ⟨eff, sys, does, loops, rfl⟩ := step_does h
  rw [storesInTime_iff]
  constructor
  · intro forward c head late
    have change : eff.change = .conn c .shutdownStore := by
      rw [head] at does
      cases does
      rfl
    have up := forward c
    rcases s.callbacks_after t eff sys c with ⟨op, here, -, state⟩ | ⟨other, -, -⟩
    · rw [change] at here
      cases here
      rw [state, late] at up
      exact absurd up (by decide)
    · exact absurd change (other _)
  · intro inTime c
    rcases s.callbacks_after t eff sys c with ⟨op, here, -, state⟩ | ⟨-, -, kept⟩
    · rw [state]
      cases op with
      | connectEstablished =>
        have mem := List.mem_of_mem_head? (does.establish_head here)
        have fresh := (confined reach).fresh c (not_up_of_establish reach mem)
        rw [fresh.2.1]
        exact Nat.zero_le _
      | connectDestroyedClose | handleClose => exact StateE.rank_le_disconnected _
      | shutdownStore => exact StateE.rank_le_disconnecting (inTime c (does.store_head here))
      | _ => exact Nat.le_refl _
    · by_cases created : s.Created c
      · rw [kept created]
      · have fresh := (confined reach).fresh c fun up => created ((confined reach).created c up)
        rw [fresh.2.1]
        exact Nat.zero_le _

/-- Every step of a run moves every `state_` forward, or leaves it, exactly when every store of
`shutdown` finds its connection not yet disconnected. -/
theorem forward_iff (config : ServerConfig) (inputs : List (Tid × Input)) (s : Server)
    (run : machine.Run (Server.new config) inputs s) :
    machine.StepsMeet (fun m i => ∀ m', machine.step m i = some m' → Forward m m')
        (Server.new config) inputs ↔
      machine.StepsMeet StoresInTime (Server.new config) inputs := by
  constructor
  · intro forward
    refine run.stepsMeet ?_
    intro pre m i m' post split before step _
    have here := forward pre i m ⟨post, split.symm⟩ before m' step
    exact (forward_step_iff before.reachable step).mp here
  · intro inTime pre i m hpre before m' step
    exact (forward_step_iff before.reachable step).mpr (inTime pre i m hpre before)

/-- The peer closes when `shutdown` has stored its state. -/
def shuttingDownInTime : List (Tid × Input) :=
  waiting ++ [(.user 0, .call (.shutdown 1)), (.user 0, .run)] ++ reading (.got []) ++
    steps (.loop 1) 1

theorem forward_iff_shutdown : ∃ m s, machine.Run (Server.new oneLoop)
      (waiting ++ [(.user 0, .call (.shutdown 1)), (.user 0, .run)]) m ∧
    (m.conn 1).state_ = .kDisconnecting ∧
    machine.Run (Server.new oneLoop) shuttingDownInTime s ∧
    (s.conn 1).state_ = .kDisconnected ∧
    machine.StepsMeet (fun m i => ∀ m', machine.step m i = some m' → Forward m m')
      (Server.new oneLoop) shuttingDownInTime := by
  obtain ⟨m, before, disconnecting⟩ := machine.exists_run (.new oneLoop)
    (waiting ++ [(.user 0, .call (.shutdown 1)), (.user 0, .run)])
    (fun s => (s.conn 1).state_ = .kDisconnecting) (by decide +kernel)
  obtain ⟨s, run, disconnected⟩ := machine.exists_run (.new oneLoop) shuttingDownInTime
    (fun s => (s.conn 1).state_ = .kDisconnected) (by decide +kernel)
  have inTime : machine.StepsMeet StoresInTime (Server.new oneLoop) shuttingDownInTime :=
    Lib.Machine.stepsMeet_of_checks (by decide +kernel)
  exact ⟨m, s, before, disconnecting, run, disconnected,
    (forward_iff oneLoop shuttingDownInTime s run).mpr inTime⟩

/-- The peer closes while a user's thread is between the two halves of `shutdown`. -/
def shuttingDownLate : List (Tid × Input) :=
  waiting ++ [(.user 0, .call (.shutdown 1))] ++ reading (.got []) ++ steps (.loop 1) 1

/-- The late store takes the connection back from `kDisconnected` to `kDisconnecting`. -/
theorem forward_breaks : ∃ s s', machine.Run (Server.new oneLoop) shuttingDownLate s ∧
    machine.step s (.user 0, .run) = some s' ∧ (s.conn 1).state_ = .kDisconnected ∧
    (s'.conn 1).state_ = .kDisconnecting ∧ ¬ Forward s s' := by
  obtain ⟨s, run, before, after⟩ := machine.exists_run (.new oneLoop) shuttingDownLate
    (fun s => (s.conn 1).state_ = .kDisconnected ∧
      (machine.step s (.user 0, .run)).any (fun s' => (s'.conn 1).state_ = .kDisconnecting) = true)
    (by decide +kernel)
  obtain ⟨s', step, back⟩ := (Option.any_eq_true _ _).mp after
  have back : (s'.conn 1).state_ = .kDisconnecting := of_decide_eq_true back
  refine ⟨s, s', run, step, before, back, ?_⟩
  intro forward
  have up := forward 1
  rw [before, back] at up
  exact absurd up (by decide)

private theorem state_of_up (h : machine.Reachable (Server.new config) s) :
    ∀ c, s.Up c → (s.conn c).state_ ≠ .kConnecting := by
  refine h.invariant (I := fun s => ∀ c, s.Up c → (s.conn c).state_ ≠ .kConnecting)
    (fun c up => by cases up) ?_
  intro m i m' reach inv hs c up
  obtain ⟨eff, sys, does, -, rfl⟩ := step_does (t := i.1) (a := i.2) hs
  rcases m.callbacks_after i.1 eff sys c with ⟨op, here, -, state⟩ | ⟨other, events, kept⟩
  · rw [state]
    have before : op ≠ .connectEstablished → m.Up c := by
      intro different
      refine (up_after up).resolve_right ?_
      intro establish
      rw [here] at establish
      cases establish
      exact different rfl
    cases op with
    | connectEstablished | connectDestroyedClose | handleClose | shutdownStore =>
      simp [ConnOp.state]
    | _ => exact inv c (before (by simp))
  · have before : m.Up c := (up_after up).resolve_right (other _)
    rw [kept ((confined reach).created c before)]
    exact inv c before

/-- What holds of `state_` from the test in `connectDestroyed` to its last statement. -/
def Settles (ok : StateE → Prop) (s : Server) : Prop :=
  ∀ t c, .connectDestroyedRemove c ∈ s.stack t → ok (s.conn c).state_

theorem Settles.step {ok : StateE → Prop} (reach : machine.Reachable (Server.new config) s)
    (inv : s.Settles ok) (final : ok .kDisconnected)
    (test : ∀ c, (s.stack t).head? = some (.functor (.connectDestroyed c)) →
      (s.conn c).state_ ≠ .kConnected → ok (s.conn c).state_)
    (store : ∀ c, (s.stack t).head? = some (.shutdownStore c) →
      .connectDestroyedRemove c ∈ s.stack (.loop (s.conn c).loop_) → ok .kDisconnecting)
    (h : machine.step s (t, input) = some s') : s'.Settles ok := by
  obtain ⟨eff, sys, does, loops, rfl⟩ := step_does h
  have confined := confined reach
  intro u c mem
  rcases mem_after_stack _ _ _ _ mem with ⟨rfl, pushed⟩ | old
  · cases does.puts pushed with
    | carrying task f carries => cases carries
    | connectDestroyedRemove c destroyed =>
      rcases destroyed with head | head
      · have ok := test c head
        rw [head] at does
        cases does with
        | connectDestroyed t c connected => cases List.mem_singleton.mp pushed
        | connectDestroyedLate t c state => exact ok state
      · rw [head] at does
        have close : eff.change = .conn c .connectDestroyedClose := by
          cases does
          rfl
        rw [state_of_close (.inr close)]
        exact final
  · obtain ⟨created, own⟩ := confined.tasks u _ old
    have up := (establishedFirst reach).removing u c old
    rcases s.callbacks_after t eff sys c with ⟨op, here, -, state⟩ | ⟨-, -, kept⟩
    · rw [state]
      cases op with
      | connectEstablished =>
        have mem := List.mem_of_mem_head? (does.establish_head here)
        exact absurd up (not_up_of_establish reach mem)
      | connectDestroyedClose | handleClose => exact final
      | shutdownStore => exact store c (does.store_head here) (own ▸ old)
      | _ => exact inv u c old
    · rw [kept created]
      exact inv u c old

private theorem closing_of_late (reach : machine.Reachable (Server.new config) s)
    (head : (s.stack t).head? = some (.functor (.connectDestroyed c)))
    (other : (s.conn c).state_ ≠ .kConnected) :
    (s.conn c).state_ = .kDisconnecting ∨ (s.conn c).state_ = .kDisconnected := by
  have up := (establishedFirst reach).up_of_destroy (confined reach) head
  have left := state_of_up reach c up
  cases state : (s.conn c).state_ with
  | kConnecting => exact absurd state left
  | kConnected => exact absurd state other
  | kDisconnecting => exact .inl rfl
  | kDisconnected => exact .inr rfl

private theorem settles_leaving (h : machine.Reachable (Server.new config) s) :
    s.Settles fun state => state = .kDisconnecting ∨ state = .kDisconnected := by
  refine h.invariant
    (I := Settles fun state => state = .kDisconnecting ∨ state = .kDisconnected) ?_ ?_
  · intro t c mem
    cases new_stack mem
  · rintro m ⟨t, input⟩ m' reach inv hs
    refine inv.step reach (.inr rfl) ?_ (fun _ _ _ => .inl rfl) hs
    intro c head other
    exact closing_of_late reach head other

/-- The connection is at its end: the user has been told, `state_` says so, and its channel is
neither in `channels_` nor in the kernel. -/
structure Ended (s : Server) (c : ConnId) : Prop where
  down : s.Down c
  state : (s.conn c).state_ = .kDisconnected
  unlisted : (s.poller (s.conn c).loop_).channels_ (s.conn c).channel_.fd_ = none
  unknown : (s.poller (s.conn c).loop_).interest (s.conn c).channel_.fd_ = none

/-- The step ends the calls of `connectDestroyed` it ends as they should end. -/
def Ends (s : Server) (i : Tid × Input) : Prop :=
  ∀ c, (s.stack i.1).head? = some (.connectDestroyedRemove c) →
    ∀ s', machine.step s i = some s' → s'.Ended c

private theorem ended_iff (reach : machine.Reachable (Server.new config) s)
    (head : (s.stack t).head? = some (.connectDestroyedRemove c))
    (h : machine.step s (t, input) = some s') :
    s'.Ended c ↔ (s.conn c).state_ ≠ .kDisconnecting := by
  have reach' := reach.step h
  obtain ⟨eff, sys, does, loops, rfl⟩ := step_does h
  have mem := List.mem_of_mem_head? head
  have change : eff.change = .conn c .connectDestroyedRemove := by
    rw [head] at does
    cases does
    rfl
  have created := (s.after_extends t eff sys).mono ((confined reach).tasks t _ mem).1
  have state : ((s.after t eff sys).conn c).state_ = (s.conn c).state_ := by
    rw [after_conn, change]
    simp [act, put, ConnOp.apply, TcpConnection.connectDestroyedRemove, ConnEnv.channel, env]
  have index : ((s.after t eff sys).conn c).channel_.index_ = kNew := by
    rw [after_conn, change]
    simp only [act, put, Function.update_self]
    rfl
  constructor
  · intro ended left
    have final := ended.state
    rw [state, left] at final
    cases final
  · intro closed
    have final : ((s.after t eff sys).conn c).state_ = .kDisconnected := by
      rw [state]
      exact (settles_leaving reach t c mem).resolve_left closed
    obtain ⟨unlisted, unknown⟩ := ((registered reach').conns c created).index_iff.1.mp index
    exact ⟨down_of_disconnected reach' c final, final, unlisted, unknown⟩

/-- The test in `connectDestroyed` does not find the connection shut down and still open, and
`shutdown` stores nothing while only the last statement is left: after `setState(kDisconnected)`,
or after a test that has not found the connection connected. -/
def DestroysClosed (s : Server) (i : Tid × Input) : Prop :=
  match (s.stack i.1).head? with
  | some (.functor (.connectDestroyed c)) => (s.conn c).state_ ≠ .kDisconnecting
  | some (.shutdownStore c) => .connectDestroyedRemove c ∉ s.stack (.loop (s.conn c).loop_)
  | _ => True

instance (s : Server) (i : Tid × Input) : Decidable (s.DestroysClosed i) :=
  decidable_of_bool (match (s.stack i.1).head? with
    | some (.functor (.connectDestroyed c)) => decide ((s.conn c).state_ ≠ .kDisconnecting)
    | some (.shutdownStore c) =>
      decide (.connectDestroyedRemove c ∉ s.stack (.loop (s.conn c).loop_))
    | _ => true) (by unfold DestroysClosed; split <;> simp only [decide_eq_true_eq])

private theorem settles_closed (run : machine.Run (Server.new config) inputs s)
    (closed : machine.StepsMeet DestroysClosed (Server.new config) inputs) :
    s.Settles fun state => state = .kDisconnected := by
  refine run.invariant_of_stepsMeet
    (I := fun _ s => s.Settles fun state => state = .kDisconnected) closed ?_ ?_
  · intro t c mem
    cases new_stack mem
  · rintro is m ⟨t, input⟩ m' before inv here hs
    have reach := before.reachable
    refine inv.step reach rfl ?_ ?_ hs
    · intro c head other
      have open_ : (m.conn c).state_ ≠ .kDisconnecting := by
        unfold DestroysClosed at here
        rw [head] at here
        exact here
      exact (closing_of_late reach head other).resolve_left open_
    · intro c head pending
      unfold DestroysClosed at here
      rw [head] at here
      exact absurd pending here

/-- The last statement of a `connectDestroyed` waits behind no task of another one. -/
def InTurn (stack : List Task) : Prop :=
  stack.Pairwise fun before behind =>
    before.Destroys → ∀ c, behind ≠ .connectDestroyedRemove c

private theorem Does.push_inTurn {head : Option Task} (does : Does s t head input eff) :
    InTurn eff.push := by
  by_cases last : ∃ c, .connectDestroyedRemove c ∈ eff.push
  · obtain ⟨c, mem⟩ := last
    cases does.puts mem with
    | carrying task f carries => cases carries
    | connectDestroyedRemove c destroyed =>
      rcases destroyed with rfl | rfl
      · cases does <;> simp [InTurn]
      · cases does
        simp [InTurn, Task.Destroys]
  · refine List.pairwise_of_forall_mem_list ?_
    rintro before - behind mem - c rfl
    exact last ⟨c, mem⟩

private theorem inTurn_step (inv : ∀ t, InTurn (s.stack t))
    (h : machine.step s (t, input) = some s') (u : Tid) : InTurn (s'.stack u) := by
  obtain ⟨eff, sys, does, loops, rfl⟩ := step_does h
  rw [after_stack_at]
  split
  swap
  · exact inv u
  refine List.pairwise_append.mpr ⟨does.push_inTurn, (inv t).tail, ?_⟩
  rintro before pushed behind mem destroys c rfl
  cases hs : s.stack t with
  | nil =>
    rw [hs] at mem
    cases mem
  | cons first rest =>
    have turn := inv t
    rw [hs] at mem turn
    rcases does.pushes_destroy pushed destroys with ⟨task, head, destroys'⟩ |
      ⟨l, f, rest', -, -, loop⟩ | destroy
    · rw [hs] at head
      cases head
      exact (List.pairwise_cons.mp turn).1 _ mem destroys' c rfl
    · have none := (does.advances loop).1
      rw [hs] at none
      cases none
    · obtain ⟨rfl, -, quiet, -⟩ := does.destroy_quiet rfl destroy
      rw [hs] at quiet
      rcases quiet with same | same
      · cases same
      · cases same
        cases mem

private theorem inTurn (h : machine.Reachable (Server.new config) s) (t : Tid) :
    InTurn (s.stack t) := by
  refine h.invariant (I := fun s => ∀ t, InTurn (s.stack t)) ?_
    (fun _ _ _ _ inv hs => inTurn_step inv hs) t
  intro u
  refine List.pairwise_of_forall_mem_list ?_
  rintro before - behind mem - c rfl
  cases new_stack mem

private theorem first_of_removing {task : Task} (reach : machine.Reachable (Server.new config) s)
    (pending : .connectDestroyedRemove c ∈ s.stack t) (head : (s.stack t).head? = some task)
    (destroys : task.Destroys) : task = .connectDestroyedRemove c := by
  have turn := inTurn reach t
  cases hs : s.stack t with
  | nil =>
    rw [hs] at head
    cases head
  | cons first rest =>
    rw [hs] at head turn pending
    cases head
    rcases List.mem_cons.mp pending with same | behind
    · exact same.symm
    · exact absurd rfl ((List.pairwise_cons.mp turn).1 _ behind destroys c)

/-- A call of `connectDestroyed` that will leave the connection open. -/
structure Leaving (s : Server) (c : ConnId) : Prop where
  pending : .connectDestroyedRemove c ∈ s.stack (.loop (s.conn c).loop_)
  state : (s.conn c).state_ = .kDisconnecting

theorem Leaving.step (reach : machine.Reachable (Server.new config) s) (leaving : s.Leaving c)
    (other : (s.stack t).head? ≠ some (.connectDestroyedRemove c))
    (h : machine.step s (t, input) = some s') : s'.Leaving c := by
  obtain ⟨eff, sys, does, loops, rfl⟩ := step_does h
  have confined := confined reach
  have created := (confined.tasks _ _ leaving.pending).1
  have up := (establishedFirst reach).removing _ c leaving.pending
  refine ⟨?_, ?_⟩
  · rw [(s.after_extends t eff sys).loop c created]
    rcases mem_stack_after (t := t) leaving.pending with stays | ⟨-, head⟩
    · exact stays
    · exact absurd head other
  · rcases s.callbacks_after t eff sys c with ⟨op, here, -, state⟩ | ⟨-, -, kept⟩
    · rw [state]
      have operation := does.operation here
      cases op with
      | connectEstablished =>
        have mem := List.mem_of_mem_head? (does.establish_head here)
        exact absurd up (not_up_of_establish reach mem)
      | connectDestroyedClose =>
        generalize hd : (s.stack t).head? = head at operation
        cases operation
        have own := (confined.tasks t _ (List.mem_of_mem_head? hd)).2
        have same := first_of_removing reach (own ▸ leaving.pending) hd trivial
        cases same
      | handleClose =>
        generalize hd : (s.stack t).head? = head at operation
        cases operation
        have mem := List.mem_of_mem_head? hd
        obtain ⟨-, rfl⟩ := confined.tasks t _ mem
        have handled := (handling reach).callbacks _ c .close mem
        rw [(handling reach).destroying _ _ leaving.pending trivial] at handled
        cases handled
      | shutdownStore => rfl
      | _ => exact leaving.state
    · rw [kept created]
      exact leaving.state

private theorem leaving_of_not_destroysClosed (reach : machine.Reachable (Server.new config) s)
    (h : machine.step s (t, input) = some s') (late : ¬ s.DestroysClosed (t, input)) :
    ∃ c, s'.Leaving c := by
  obtain ⟨eff, sys, does, loops, rfl⟩ := step_does h
  have confined := confined reach
  have ext := s.after_extends t eff sys
  unfold DestroysClosed at late
  generalize hd : (s.stack t).head? = head at does
  dsimp only at late
  rw [hd] at late
  split at late
  · rename_i c
    have left : (s.conn c).state_ = .kDisconnecting := not_not.mp late
    obtain ⟨l, own, created, same⟩ := confined.tasks t _ (List.mem_of_mem_head? hd)
    cases does with
    | connectDestroyed t c connected =>
      rw [left] at connected
      cases connected
    | connectDestroyedLate t c state =>
      refine ⟨c, ?_, left⟩
      rw [ext.loop c created, ← same, ← own]
      exact pushed_mem_stack _ _ _ _ (List.mem_singleton_self _)
  · rename_i c
    have pending := not_not.mp late
    have created := (confined.tasks _ _ pending).1
    cases does
    refine ⟨c, ?_, ?_⟩
    · rw [ext.loop c created]
      refine (mem_stack_after (t := t) pending).resolve_right ?_
      rintro ⟨-, head⟩
      rw [hd] at head
      cases head
    · rw [after_conn]
      simp only [act, put, Function.update_self]
      rfl
  · exact absurd trivial late

/-- A call that will leave the connection open is under way, or has ended so. -/
theorem leaving_after (reach : machine.Reachable (Server.new config) s) (leaving : s.Leaving c)
    (run : machine.Run s inputs s') (ends : machine.StepsMeet Ends s inputs) : s'.Leaving c := by
  refine run.invariant_of_stepsMeet (I := fun _ s => s.Leaving c) ends leaving ?_
  rintro is m ⟨t, input⟩ m' before leaving ends step
  have reach : machine.Reachable (Server.new config) m :=
    before.reachable.invariant reach fun _ _ _ _ reach hs => reach.step hs
  refine leaving.step reach ?_ step
  intro head
  exact (ended_iff reach head step).mp (ends c head m' step) leaving.state

/-- No `connectDestroyed` is left with only its last statement to go. -/
def AllDestroyed (s : Server) : Prop := ∀ t c, .connectDestroyedRemove c ∉ s.stack t

/-- Every connection has gone down, is disconnected and is registered nowhere when a call of
`connectDestroyed` returns, in every run in which these calls find no connection shut down and
still open and `shutdown` stores nothing before their last statement. Conversely, when the run
leaves none of them before its last statement, they end so only if its steps meet this
condition. -/
theorem connectDestroyed_ends (config : ServerConfig) (inputs : List (Tid × Input)) (s : Server)
    (run : machine.Run (Server.new config) inputs s) :
    (machine.StepsMeet DestroysClosed (Server.new config) inputs →
      machine.StepsMeet Ends (Server.new config) inputs) ∧
    (s.AllDestroyed → (machine.StepsMeet Ends (Server.new config) inputs ↔
      machine.StepsMeet DestroysClosed (Server.new config) inputs)) := by
  have sufficient : machine.StepsMeet DestroysClosed (Server.new config) inputs →
      machine.StepsMeet Ends (Server.new config) inputs := by
    rintro closed pre ⟨t, input⟩ m hpre before c head m' step
    refine (ended_iff before.reachable head step).mpr ?_
    have final := settles_closed before
      (closed.before ((List.prefix_append pre [(t, input)]).trans hpre)) t c
      (List.mem_of_mem_head? head)
    rw [final]
    decide
  refine ⟨sufficient, fun destroyed => ⟨?_, sufficient⟩⟩
  intro ends
  refine run.stepsMeet ?_
  rintro pre m ⟨t, input⟩ m' post rfl before step rest
  by_contra late
  obtain ⟨c, leaving⟩ := leaving_of_not_destroysClosed before.reachable step late
  have after := before.snoc step
  have left := leaving_after after.reachable leaving rest (ends.after after)
  exact destroyed _ c left.pending

/-- The server is destroyed, and a user's thread shuts the connection down between the test in
`connectDestroyed` and its `setState(kDisconnected)`. -/
def shutdownInBetween : List (Tid × Input) :=
  establishing ++ [(.user 0, .call .quit)] ++ steps (.user 0) 2 ++ steps (.loop 0) 4 ++
    steps (.loop 1) 3 ++ [(.loop 0, .destroy [1])] ++ steps (.loop 0) 2 ++
    [(.loop 1, .poll [(.wakeup, EPOLLIN)])] ++ steps (.loop 1) 5 ++
    [(.user 0, .call (.shutdown 1)), (.user 0, .run)] ++ steps (.loop 1) 2

theorem connectDestroyed_ends_between : ∃ s s',
    machine.Run (Server.new oneLoop) shutdownInBetween s ∧
      machine.step s (.loop 1, .run) = some s' ∧ s'.AllDestroyed ∧ s'.Ended 1 := by
  obtain ⟨s', run, created, idle⟩ := machine.exists_run (.new oneLoop)
    (shutdownInBetween ++ [(.loop 1, .run)])
    (fun s => s.nextConnId_ = 2 ∧ s.stack (.loop (s.conn 1).loop_) = []) (by decide +kernel)
  obtain ⟨s, before, step⟩ := Lib.Machine.run_snoc_iff.mp run
  have destroyed : s'.AllDestroyed := by
    intro t c mem
    obtain ⟨⟨positive, bound⟩, rfl⟩ := (confined run.reachable).tasks t _ mem
    obtain rfl : c = 1 := Nat.le_antisymm (Nat.le_of_lt_succ (bound.trans_eq created)) positive
    rw [idle] at mem
    cases mem
  have closed : machine.StepsMeet DestroysClosed (Server.new oneLoop)
      (shutdownInBetween ++ [(.loop 1, .run)]) :=
    Lib.Machine.stepsMeet_of_checks (by decide +kernel)
  have ends := ((connectDestroyed_ends oneLoop _ s' run).2 destroyed).mpr closed
  obtain ⟨s₁, run₁, head⟩ := machine.exists_run (.new oneLoop) shutdownInBetween
    (fun s => (s.stack (.loop 1)).head? = some (.connectDestroyedRemove 1)) (by decide +kernel)
  obtain rfl := before.unique run₁
  exact ⟨s, s', before, step, destroyed, ends.last before 1 head s' step⟩

/-- A user's thread shuts the connection down, and the server is destroyed before the peer has
closed. -/
def shutdownThenDestroy : List (Tid × Input) :=
  establishing ++ [(.user 0, .call (.shutdown 1))] ++ steps (.user 0) 3 ++
    [(.user 0, .call .quit)] ++ steps (.user 0) 2 ++ steps (.loop 0) 4 ++ steps (.loop 1) 3 ++
    [(.loop 0, .destroy [1])] ++ steps (.loop 0) 2 ++ [(.loop 1, .poll [(.wakeup, EPOLLIN)])] ++
    steps (.loop 1) 8

/-- `connectDestroyed` returns without the user having been told. -/
theorem connectDestroyed_leaves : ∃ s s',
    machine.Run (Server.new oneLoop) shutdownThenDestroy s ∧
      (s.stack (.loop 1)).head? = some (.connectDestroyedRemove 1) ∧
      machine.step s (.loop 1, .run) = some s' ∧ s'.Up 1 ∧ ¬ s'.Down 1 ∧
      (s'.conn 1).state_ = .kDisconnecting ∧ ¬ s'.Ended 1 := by
  obtain ⟨s, run, head, after⟩ := machine.exists_run (.new oneLoop) shutdownThenDestroy
    (fun s => (s.stack (.loop 1)).head? = some (.connectDestroyedRemove 1) ∧
      (machine.step s (.loop 1, .run)).any (fun s' => s'.Up 1 ∧ ¬ s'.Down 1 ∧
        (s'.conn 1).state_ = .kDisconnecting) = true) (by decide +kernel)
  obtain ⟨s', step, end_⟩ := (Option.any_eq_true _ _).mp after
  obtain ⟨up, open_, state⟩ : s'.Up 1 ∧ ¬ s'.Down 1 ∧ (s'.conn 1).state_ = .kDisconnecting :=
    of_decide_eq_true end_
  exact ⟨s, s', run, head, step, up, open_, state, fun ended => open_ ended.down⟩

end Server

end TcpMuduo
