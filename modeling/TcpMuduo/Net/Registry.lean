import TcpMuduo.Net.Protocol

/-!
The registry of a server: `connections_` holds exactly the connections that
`newConnection` has made and `removeConnectionInLoop` has not erased, each under
a name that no other connection has.
-/

set_option autoImplicit false
set_option relaxedAutoImplicit false

namespace TcpMuduo

def intMax : Nat := 2147483647

/-- The names of connections with different numbers differ: `buf` has room for the address and
for every positive `int`. -/
theorem ServerConfig.connName_injective {config : ServerConfig} {c c' : ConnId}
    (small : c ≤ intMax) (small' : c' ≤ intMax) (same : config.connName c = config.connName c') :
    c = c' := by
  have room {n : Nat} (h : n ≤ intMax) :
      ("-" ++ config.ipPort_ ++ "#" ++ Nat.repr n).length < 64 := by
    have address : config.ipPort_.length ≤ 21 := config.listenAddr.length_toIpPort
    have digits : (Nat.repr n).length ≤ 10 := by
      refine Nat.repr_length n 10 (by decide) ?_
      simp only [intMax] at h
      omega
    have dash : "-".length = 1 := rfl
    have hash : "#".length = 1 := rfl
    simp only [String.length_append, dash, hash]
    omega
  unfold ServerConfig.connName at same
  rw [snprintf_eq (room small), snprintf_eq (room small')] at same
  have texts := congrArg String.toList same
  simp only [String.toList_append, List.append_cancel_left_eq] at texts
  exact decimal_injective (String.toList_injective texts)

namespace Server

variable {s s' : Server} {t : Tid} {input : Input} {eff : Effect} {config : ServerConfig}
variable {sys : LoopId → LoopSystem Tid Functor ChannelRef} {c : ConnId}

/-- The step runs `newConnection` for the connection `c`. -/
def Accepts (c : ConnId) (s : Server) (i : Tid × Input) : Prop :=
  (s.stack i.1).head? = some .accept ∧ (∃ connfd, i.2 = .accept (some connfd)) ∧
    c = s.nextConnId_

/-- The step runs `removeConnectionInLoop` for the connection `c`. -/
def Removes (c : ConnId) (s : Server) (i : Tid × Input) : Prop :=
  (s.stack i.1).head? = some (.functor (.removeConnectionInLoop c))

private theorem Does.accepts_iff (does : Does s t (s.stack t).head? input eff) :
    Accepts c s (t, input) ↔ c = s.nextConnId_ ∧ ∃ connfd, eff.change = .newConnection connfd := by
  unfold Accepts
  generalize (s.stack t).head? = head at does
  constructor
  · rintro ⟨rfl, ⟨connfd, rfl⟩, this⟩
    cases does
    exact ⟨this, connfd, rfl⟩
  · rintro ⟨this, connfd, new⟩
    cases does <;> cases new
    exact ⟨rfl, ⟨connfd, rfl⟩, this⟩

theorem Does.removes_iff (does : Does s t (s.stack t).head? input eff) :
    Removes c s (t, input) ↔ eff.change = .erase c := by
  unfold Removes
  generalize (s.stack t).head? = head at does
  constructor
  · rintro rfl
    cases does
    rfl
  · intro erase
    cases does <;> cases erase
    rfl

theorem small_id (created : s.Created c) (few : s.nextConnId_ - 1 ≤ intMax) : c ≤ intMax :=
  Nat.le_trans (Nat.le_sub_one_of_lt created.2) few

/-- What `connections_` holds after the steps `inputs`. -/
structure Roster (config : ServerConfig) (inputs : List (Tid × Input)) (s : Server) : Prop where
  accepted : ∀ c, machine.Occurred (Accepts c) (.new config) inputs ↔ s.Created c
  named : ∀ c, s.Created c → (s.conn c).name_ = config.connName c
  entries : ∀ name c, (name, c) ∈ s.connections_ →
    s.Created c ∧ name = config.connName c ∧ ¬ machine.Occurred (Removes c) (.new config) inputs
  erased : ∀ c, machine.Occurred (Removes c) (.new config) inputs → s.Created c
  keys : (s.connections_.map Prod.fst).Nodup
  kept : s.destroyed = false → s.nextConnId_ - 1 ≤ intMax → ∀ c, s.Created c →
    ¬ machine.Occurred (Removes c) (.new config) inputs →
      (config.connName c, c) ∈ s.connections_

variable {inputs : List (Tid × Input)}

private theorem Roster.accepted_step (run : machine.Run (.new config) inputs s)
    (inv : s.Roster config inputs) (does : Does s t (s.stack t).head? input eff) (c : ConnId) :
    machine.Occurred (Accepts c) (.new config) (inputs ++ [(t, input)]) ↔
      (s.after t eff sys).Created c := by
  rw [run.occurred_snoc, inv.accepted, does.accepts_iff]
  have confined := confined run.reachable
  constructor
  · rintro (old | ⟨rfl, connfd, new⟩)
    · exact (s.after_extends t eff sys).mono old
    · refine ⟨confined.ids, ?_⟩
      rw [after_nextConnId, new]
      exact Nat.lt_succ_self _
  · intro created
    rcases created_after created with old | ⟨this, new⟩
    · exact .inl old
    · exact .inr ⟨this, new⟩

private theorem Roster.named_step (run : machine.Run (.new config) inputs s)
    (inv : s.Roster config inputs) (created : (s.after t eff sys).Created c) :
    ((s.after t eff sys).conn c).name_ = config.connName c := by
  rcases created_after created with old | ⟨rfl, connfd, new⟩
  · rw [(s.after_extends t eff sys).name c old]
    exact inv.named c old
  · have name : ((s.after t eff sys).conn s.nextConnId_).name_ = s.connName := by
      rw [after_conn, new]
      simp [act, newConnection, TcpConnection.new]
    rw [name, connName, reachable_config run.reachable]

theorem Roster.newConnection {connfd : Nat} (run : machine.Run (.new config) inputs s)
    (inv : s.Roster config inputs) (few : s.nextConnId_ ≤ intMax) :
    (s.act (.newConnection connfd)).connections_ = (s.connName, s.nextConnId_) :: s.connections_ ∧
      s.connName ∉ s.connections_.map Prod.fst := by
  have apart : ∀ entry ∈ s.connections_, entry.1 ≠ s.connName := by
    rintro ⟨name, c⟩ mem same
    obtain ⟨created, named, -⟩ := inv.entries name c mem
    rw [connName, reachable_config run.reachable] at same
    have equal := ServerConfig.connName_injective (Nat.le_trans (Nat.le_of_lt created.2) few) few
      (named.symm.trans same)
    exact absurd equal (Nat.ne_of_lt created.2)
  refine ⟨?_, ?_⟩
  · have whole : s.connections_.filter (·.1 != s.connName) = s.connections_ := by
      refine List.filter_eq_self.mpr ?_
      intro entry mem
      exact bne_iff_ne.mpr (apart entry mem)
    simp only [act, Server.newConnection, whole]
  · intro mem
    obtain ⟨entry, listed, same⟩ := List.mem_map.mp mem
    exact apart entry listed same

theorem mem_erase {entry : String × ConnId} :
    entry ∈ (s.act (.erase c)).connections_ ↔
      entry ∈ s.connections_ ∧ entry.1 ≠ (s.conn c).name_ := by
  simp only [act, List.mem_filter, bne_iff_ne]

private theorem Roster.entries_step (run : machine.Run (.new config) inputs s)
    (inv : s.Roster config inputs) (does : Does s t (s.stack t).head? input eff) {name : String}
    (mem : (name, c) ∈ (s.after t eff sys).connections_) :
    (s.after t eff sys).Created c ∧ name = config.connName c ∧
      ¬ machine.Occurred (Removes c) (.new config) (inputs ++ [(t, input)]) := by
  have ext := s.after_extends t eff sys
  rw [run.occurred_snoc, does.removes_iff]
  rw [after_connections] at mem
  have old (listed : (name, c) ∈ s.connections_) (other : eff.change ≠ .erase c) :
      (s.after t eff sys).Created c ∧ name = config.connName c ∧
        ¬ (machine.Occurred (Removes c) (.new config) inputs ∨ eff.change = .erase c) := by
    obtain ⟨created, named, left⟩ := inv.entries name c listed
    exact ⟨ext.mono created, named, fun h => h.elim left other⟩
  cases hc : eff.change with
  | newConnection connfd =>
    rw [hc] at mem old
    rcases List.mem_cons.mp mem with new | listed
    · obtain ⟨rfl, rfl⟩ := Prod.mk.inj new
      refine ⟨⟨(confined run.reachable).ids, ?_⟩, ?_, ?_⟩
      · rw [after_nextConnId, hc]
        exact Nat.lt_succ_self _
      · rw [connName, reachable_config run.reachable]
      · rintro (removed | erase)
        · exact absurd (inv.erased _ removed).2 (Nat.lt_irrefl _)
        · cases erase
    · exact old (List.mem_of_mem_filter listed) (by simp)
  | erase c' =>
    rw [hc] at mem old
    obtain ⟨listed, kept⟩ := mem_erase.mp mem
    refine old listed ?_
    intro erase
    cases erase
    obtain ⟨created, named, -⟩ := inv.entries name _ listed
    exact kept (named.trans (inv.named _ created).symm)
  | destroy =>
    rw [hc] at mem
    cases mem
  | nothing | conn c' op | acceptor op | fillActiveChannels active | store p byte =>
    rw [hc] at mem old
    exact old mem (by simp)

theorem created_of_erase (run : machine.Run (.new config) inputs s)
    (does : Does s t (s.stack t).head? input eff) (erase : eff.change = .erase c) :
    s.Created c := by
  have head : (s.stack t).head? = some (.functor (.removeConnectionInLoop c)) :=
    does.removes_iff.mpr erase
  obtain ⟨l, -, known, -⟩ := (confined run.reachable).tasks t _ (List.mem_of_mem_head? head)
  exact known.1

private theorem Roster.keys_step (inv : s.Roster config inputs) (eff : Effect) :
    ((s.after t eff sys).connections_.map Prod.fst).Nodup := by
  rw [after_connections]
  cases eff.change with
  | newConnection connfd =>
    simp only [act, Server.newConnection, List.map_cons, List.nodup_cons]
    refine ⟨?_, inv.keys.sublist (List.filter_sublist.map _)⟩
    intro mem
    obtain ⟨entry, listed, same⟩ := List.mem_map.mp mem
    exact absurd same (bne_iff_ne.mp (List.mem_filter.mp listed).2)
  | erase c => exact inv.keys.sublist (List.filter_sublist.map _)
  | destroy => exact List.nodup_nil
  | nothing | conn c' op | acceptor op | fillActiveChannels active | store p byte =>
    exact inv.keys

private theorem Roster.kept_step (run : machine.Run (.new config) inputs s)
    (inv : s.Roster config inputs) (does : Does s t (s.stack t).head? input eff)
    (alive : (s.after t eff sys).destroyed = false)
    (few : (s.after t eff sys).nextConnId_ - 1 ≤ intMax) (created : (s.after t eff sys).Created c)
    (left : ¬ machine.Occurred (Removes c) (.new config) (inputs ++ [(t, input)])) :
    (config.connName c, c) ∈ (s.after t eff sys).connections_ := by
  rw [run.occurred_snoc, does.removes_iff] at left
  obtain ⟨left, other⟩ := not_or.mp left
  have alive : (s.act eff.change).destroyed = false := alive
  rw [after_nextConnId] at few
  rw [after_connections]
  have before := created_after created
  cases hc : eff.change with
  | newConnection connfd =>
    rw [hc] at alive few before
    have listed : (s.act (.newConnection connfd)).connections_ =
        (s.connName, s.nextConnId_) :: s.connections_ := (inv.newConnection run few).1
    rw [listed]
    rcases before with old | ⟨rfl, -⟩
    · exact List.mem_cons_of_mem _ (inv.kept alive
        (Nat.le_trans (Nat.sub_le _ _) few) c old left)
    · rw [connName, reachable_config run.reachable]
      exact List.mem_cons_self
  | erase c' =>
    rw [hc] at alive few before other
    have old : s.Created c := before.resolve_right fun h => by cases h.2.choose_spec
    have few : s.nextConnId_ - 1 ≤ intMax := few
    have known : s.Created c' := created_of_erase run does hc
    refine mem_erase.mpr ⟨inv.kept alive few c old left, ?_⟩
    intro same
    rw [inv.named c' known] at same
    have equal : c = c' := ServerConfig.connName_injective (small_id old few) (small_id known few)
      same
    exact other (by rw [equal])
  | destroy =>
    rw [hc] at alive
    cases alive
  | nothing | conn c' op | acceptor op | fillActiveChannels active | store p byte =>
    rw [hc] at alive few before
    have old : s.Created c := before.resolve_right fun h => by cases h.2.choose_spec
    exact inv.kept alive few c old left

theorem roster (run : machine.Run (.new config) inputs s) : s.Roster config inputs := by
  induction run with
  | nil =>
    have none (c : ConnId) : ¬ (Server.new config).Created c := by
      rintro ⟨positive, bound⟩
      exact absurd positive (Nat.not_lt_of_ge (Nat.le_of_lt_succ bound))
    refine ⟨?_, ?_, ?_, ?_, List.nodup_nil, ?_⟩
    · intro c
      exact ⟨fun h => absurd h Lib.Machine.not_occurred_nil, fun h => absurd h (none c)⟩
    · intro c created
      exact absurd created (none c)
    · intro name c mem
      cases mem
    · intro c h
      exact absurd h Lib.Machine.not_occurred_nil
    · intro _ _ c created
      exact absurd created (none c)
  | @snoc inputs s s' i run hs inv =>
    obtain ⟨t, input⟩ := i
    obtain ⟨eff, sys, does, -, rfl⟩ := step_does hs
    refine ⟨inv.accepted_step run does, ?_, ?_, ?_, inv.keys_step eff, ?_⟩
    · intro c created
      exact inv.named_step run created
    · intro name c mem
      exact inv.entries_step run does mem
    · intro c h
      rw [run.occurred_snoc, does.removes_iff] at h
      have ext := s.after_extends t eff sys
      rcases h with old | erase
      · exact ext.mono (inv.erased c old)
      · exact ext.mono (created_of_erase run does erase)
    · intro alive few c created left
      exact inv.kept_step run does alive few created left

/-- Before `~TcpServer` and with fewer than `2 ^ 31` connections accepted, `connections_` holds
exactly those that `newConnection` has made and `removeConnectionInLoop` has not erased, each
under its own name. A new connection displaces no entry; a removal erases no entry but its own,
and nothing when it is repeated. -/
theorem registry_exact (config : ServerConfig) (inputs : List (Tid × Input)) (s : Server)
    (run : machine.Run (Server.new config) inputs s) (alive : s.destroyed = false)
    (few : s.nextConnId_ - 1 ≤ intMax) :
    (s.connections_.map Prod.fst).Nodup ∧
    (∀ name c, (name, c) ∈ s.connections_ ↔
      machine.Occurred (Accepts c) (Server.new config) inputs ∧ name = (s.conn c).name_ ∧
        ¬ machine.Occurred (Removes c) (Server.new config) inputs) ∧
    (∀ c i s', machine.step s i = some s' → Accepts c s i → s'.nextConnId_ - 1 ≤ intMax →
      s'.connections_ = ((s'.conn c).name_, c) :: s.connections_ ∧
        (s'.conn c).name_ ∉ s.connections_.map Prod.fst) ∧
    ∀ c i s', machine.step s i = some s' → Removes c s i →
      (∀ entry, entry.2 ≠ c → (entry ∈ s'.connections_ ↔ entry ∈ s.connections_)) ∧
      (machine.Occurred (Removes c) (Server.new config) inputs →
        s'.connections_ = s.connections_) := by
  have inv := roster run
  refine ⟨inv.keys, ?_, ?_, ?_⟩
  · intro name c
    constructor
    · intro mem
      obtain ⟨created, named, left⟩ := inv.entries name c mem
      exact ⟨(inv.accepted c).mpr created, named.trans (inv.named c created).symm, left⟩
    · rintro ⟨accepted, rfl, left⟩
      have created := (inv.accepted c).mp accepted
      rw [inv.named c created]
      exact inv.kept alive few c created left
  · rintro c ⟨t, input⟩ s' hs accepts few'
    obtain ⟨eff, sys, does, -, rfl⟩ := step_does hs
    obtain ⟨rfl, connfd, new⟩ := does.accepts_iff.mp accepts
    have name : ((s.after t eff sys).conn s.nextConnId_).name_ = s.connName := by
      rw [after_conn, new]
      simp [act, newConnection, TcpConnection.new]
    rw [after_nextConnId, new] at few'
    rw [name, after_connections, new]
    exact inv.newConnection run few'
  · rintro c ⟨t, input⟩ s' hs removes
    obtain ⟨eff, sys, does, -, rfl⟩ := step_does hs
    have erase := does.removes_iff.mp removes
    have created := created_of_erase run does erase
    rw [after_connections, erase]
    have other {entry : String × ConnId} (mem : entry ∈ s.connections_) (other : entry.2 ≠ c) :
        entry.1 ≠ (s.conn c).name_ := by
      obtain ⟨name, c'⟩ := entry
      obtain ⟨created', rfl, -⟩ := inv.entries name c' mem
      intro same
      rw [inv.named c created] at same
      exact other (ServerConfig.connName_injective (small_id created' few) (small_id created few)
        same)
    refine ⟨?_, ?_⟩
    · intro entry apart
      rw [mem_erase]
      exact ⟨fun h => h.1, fun mem => ⟨mem, other mem apart⟩⟩
    · intro removed
      refine List.filter_eq_self.mpr ?_
      rintro ⟨name, c'⟩ mem
      refine bne_iff_ne.mpr (other mem ?_)
      rintro rfl
      exact (inv.entries name _ mem).2.2 removed

/-- A second connection is accepted, and the first one closes twice before the base loop runs. -/
def closingAmongTwo : List (Tid × Input) :=
  waiting ++ steps (.loop 0) 4 ++ [(.loop 0, .poll [(.acceptor, EPOLLIN)]), (.loop 0, .run),
    (.loop 0, .accept (some 10))] ++ steps (.loop 0) 2 ++ reading (.got []) ++
    steps (.loop 1) 14 ++ reading (.got []) ++ steps (.loop 1) 5 ++ steps (.loop 0) 4

/-- The base loop has removed it once and comes to the second removal. -/
def removingAgain : List (Tid × Input) := closingAmongTwo ++ steps (.loop 0) 5

theorem registry_exact_removing : ∃ s s', machine.Run (Server.new oneLoop) removingAgain s ∧
    machine.step s (.loop 0, .run) = some s' ∧ Removes 1 s (.loop 0, .run) ∧
    machine.Occurred (Removes 1) (Server.new oneLoop) removingAgain ∧
    s.connections_ = [("EchoServer-127.0.0.1:8002#2", 2)] ∧
    machine.Occurred (Accepts 2) (Server.new oneLoop) removingAgain ∧
    ¬ machine.Occurred (Removes 2) (Server.new oneLoop) removingAgain ∧
    s'.connections_ = s.connections_ := by
  obtain ⟨m, first, removes⟩ := machine.exists_run (.new oneLoop) closingAmongTwo
    (fun s => (s.stack (.loop 0)).head? = some (.functor (.removeConnectionInLoop 1)))
    (by decide +kernel)
  obtain ⟨s, run, here, alive, few, again, goes_on⟩ := machine.exists_run (.new oneLoop)
    removingAgain (fun s => s.connections_ = [("EchoServer-127.0.0.1:8002#2", 2)] ∧
      s.destroyed = false ∧ s.nextConnId_ - 1 ≤ intMax ∧
      (s.stack (.loop 0)).head? = some (.functor (.removeConnectionInLoop 1)) ∧
      (machine.step s (.loop 0, .run)).isSome = true) (by decide +kernel)
  obtain ⟨s', step⟩ := Option.isSome_iff_exists.mp goes_on
  have removed : machine.Occurred (Removes 1) (Server.new oneLoop) removingAgain :=
    ⟨closingAmongTwo, (.loop 0, .run), m, ⟨steps (.loop 0) 4, rfl⟩, first, removes⟩
  have listed : ("EchoServer-127.0.0.1:8002#2", 2) ∈ s.connections_ := by
    rw [here]
    exact List.mem_cons_self
  obtain ⟨-, entries, -, removals⟩ := registry_exact oneLoop removingAgain s run alive few
  obtain ⟨accepted, -, left⟩ := (entries _ _).mp listed
  exact ⟨s, s', run, step, again, removed, here, accepted, left,
    (removals 1 _ s' step again).2 removed⟩

end Server

end TcpMuduo
