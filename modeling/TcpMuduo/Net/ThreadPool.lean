import TcpMuduo.Lib.RoundRobin
import TcpMuduo.Net.Confinement

/-!
The pool of loops: over a whole run of a server `getNextLoop` hands out the
loops of the pool in turn, one for every connection.
-/

set_option autoImplicit false
set_option relaxedAutoImplicit false

namespace TcpMuduo

theorem ServerConfig.length_loops (config : ServerConfig) :
    config.loops_.length = config.numThreads_ := by
  simp [loops_]

private theorem ServerConfig.loops_distinct (config : ServerConfig) : config.loops_.Nodup :=
  List.Nodup.map (fun _ _ same => Nat.succ.inj same) List.nodup_range

theorem ServerConfig.loops_pos {config : ServerConfig} {l : LoopId} (h : l ∈ config.loops_) :
    l ≠ 0 := by
  obtain ⟨i, -, rfl⟩ := List.mem_map.mp h
  exact Nat.succ_ne_zero i

namespace Server

variable {s s' : Server} {t : Tid} {input : Input} {eff : Effect} {config : ServerConfig}
variable {sys : LoopId → LoopSystem Tid Functor ChannelRef} {inputs : List (Tid × Input)}

def nextLoops (s : Server) (i : Tid × Input) : List LoopId :=
  match (s.stack i.1).head?, i.2 with
  | some .accept, .accept (some _) => [s.getNextLoop.1]
  | _, _ => []

/-- The results of all calls of `getNextLoop` in a run. -/
def handedOut (config : ServerConfig) (inputs : List (Tid × Input)) : List LoopId :=
  machine.collect nextLoops (Server.new config) inputs

theorem Does.nextLoops (does : Does s t (s.stack t).head? input eff) :
    s.nextLoops (t, input) = [s.getNextLoop.1] ∧ (∃ connfd, eff.change = .newConnection connfd) ∨
      s.nextLoops (t, input) = [] ∧ (s.act eff.change).nextConnId_ = s.nextConnId_ ∧
        (s.act eff.change).next_ = s.next_ := by
  unfold Server.nextLoops
  dsimp only
  generalize (s.stack t).head? = head at does
  cases does with
  | accept t connfd fresh => exact .inl ⟨rfl, connfd, rfl⟩
  | _ => exact .inr ⟨rfl, rfl, rfl⟩

private theorem getNextLoop_turn (pool : s.config.loops_ ≠ []) {k : Nat}
    (turn : s.next_ = k % s.config.loops_.length) :
    s.config.loops_[k % s.config.loops_.length]? = some s.getNextLoop.1 ∧
      s.getNextLoop.2 = (k + 1) % s.config.loops_.length := by
  have inside := Lib.mod_length_lt pool k
  have next := Lib.nextIndex_mod (List.length_pos_iff.mpr pool) k
  unfold getNextLoop
  cases h : s.config.loops_ with
  | nil => exact absurd h pool
  | cons l loops_ =>
    rw [h] at inside next turn
    refine ⟨?_, ?_⟩
    · dsimp only
      rw [turn, List.getD_eq_getElem?_getD, List.getElem?_eq_getElem inside]
      rfl
    · dsimp only
      rw [turn, ← next]
      rfl

private theorem getNextLoop_base (base : s.config.loops_ = []) : s.getNextLoop.1 = 0 := by
  unfold getNextLoop
  rw [base]

/-- The pool after the calls `calls`. -/
structure Rotates (s : Server) (calls : List LoopId) : Prop where
  number : s.nextConnId_ = calls.length + 1
  turn : s.config.loops_ ≠ [] → s.next_ = calls.length % s.config.loops_.length
  pool : s.config.loops_ ≠ [] → calls = Lib.turns s.config.loops_ calls.length
  base : s.config.loops_ = [] → ∀ l ∈ calls, l = 0
  assigned : calls = (List.range calls.length).map fun k => (s.conn (k + 1)).loop_

theorem Rotates.step {calls : List LoopId} (inv : s.Rotates calls)
    (does : Does s t (s.stack t).head? input eff) :
    (s.after t eff sys).Rotates (calls ++ s.nextLoops (t, input)) := by
  have ext := s.after_extends t eff sys
  have kept : ∀ k ∈ List.range calls.length,
      ((s.after t eff sys).conn (k + 1)).loop_ = (s.conn (k + 1)).loop_ := by
    intro k mem
    have before := List.mem_range.mp mem
    have bound : k + 1 < s.nextConnId_ := by
      rw [inv.number]
      exact Nat.succ_lt_succ before
    exact ext.loop (k + 1) ⟨Nat.succ_pos k, bound⟩
  have assigned := inv.assigned
  rw [← List.map_congr_left kept] at assigned
  rcases does.nextLoops with ⟨called, connfd, new⟩ | ⟨none, number, next⟩
  · rw [called]
    have size : (calls ++ [s.getNextLoop.1]).length = calls.length + 1 := by simp
    have loop : ((s.after t eff sys).conn (calls.length + 1)).loop_ = s.getNextLoop.1 := by
      rw [after_conn, new, ← inv.number]
      simp [act, newConnection, TcpConnection.new]
    refine ⟨?_, ?_, ?_, ?_, ?_⟩
    · rw [after_nextConnId, new, size, ← inv.number]
      rfl
    · intro pool
      rw [ext.config] at pool ⊢
      change (s.act eff.change).next_ = _
      rw [new, size]
      exact (getNextLoop_turn pool (inv.turn pool)).2
    · intro pool
      rw [ext.config] at pool ⊢
      have entry := (getNextLoop_turn pool (inv.turn pool)).1
      rw [size, Lib.turns_succ, ← inv.pool pool, entry]
      rfl
    · intro base l mem
      rw [ext.config] at base
      rcases List.mem_append.mp mem with old | this
      · exact inv.base base l old
      · rw [List.mem_singleton.mp this]
        exact getNextLoop_base base
    · rw [size, List.range_succ, List.map_append, ← assigned]
      simp only [List.map_cons, List.map_nil, loop]
  · rw [none, List.append_nil]
    refine ⟨number.trans inv.number, ?_, ?_, ?_, assigned⟩
    · rw [ext.config]
      exact fun pool => next.trans (inv.turn pool)
    · rw [ext.config]
      exact inv.pool
    · rw [ext.config]
      exact inv.base

theorem rotates (run : machine.Run (Server.new config) inputs s) :
    s.Rotates (handedOut config inputs) := by
  induction run with
  | nil => exact ⟨rfl, fun _ => (Nat.zero_mod _).symm, fun _ => rfl, fun _ _ => nofun, rfl⟩
  | @snoc inputs s s' i run hs inv =>
    obtain ⟨eff, sys, does, -, rfl⟩ := step_does (t := i.1) (a := i.2) hs
    unfold handedOut
    rw [run.collect_snoc]
    exact inv.step does

private theorem Rotates.loop_mem {calls : List LoopId} (inv : s.Rotates calls) {c : ConnId}
    (created : s.Created c) : (s.conn c).loop_ ∈ calls := by
  have inside : c - 1 ∈ List.range calls.length := by
    have bound : c < calls.length + 1 := inv.number ▸ created.2
    exact List.mem_range.mpr (Nat.sub_one_lt_of_le created.1 (Nat.le_of_lt_succ bound))
  rw [inv.assigned]
  refine List.mem_map.mpr ⟨c - 1, inside, ?_⟩
  rw [Nat.sub_add_cancel created.1]

theorem Rotates.loop_le {calls : List LoopId} (inv : s.Rotates calls) {c : ConnId}
    (created : s.Created c) :
    (s.conn c).loop_ ≤ s.config.numThreads_ := by
  have mem := inv.loop_mem created
  by_cases pool : s.config.loops_ = []
  · rw [inv.base pool _ mem]
    exact Nat.zero_le _
  · rw [inv.pool pool] at mem
    obtain ⟨n, bound, here⟩ := List.mem_map.mp (Lib.mem_of_mem_turns mem)
    exact here ▸ List.mem_range.mp bound

theorem Rotates.loop_pool {calls : List LoopId} (inv : s.Rotates calls)
    (pool : s.config.loops_ ≠ []) {c : ConnId} (created : s.Created c) : (s.conn c).loop_ ≠ 0 := by
  have mem := inv.loop_mem created
  rw [inv.pool pool] at mem
  exact ServerConfig.loops_pos (Lib.mem_of_mem_turns mem)

/-- Over every run of a server with a pool the index that `getNextLoop` uses is one of the pool,
call number `k` returns `loops_[(k - 1) % n]`, the connection number `k` is on that loop, and the
numbers of connections of two loops differ by at most one. Without a pool all connections are on
the base loop. -/
theorem round_robin (config : ServerConfig) (inputs : List (Tid × Input)) (s : Server)
    (run : machine.Run (Server.new config) inputs s) :
    (0 < config.numThreads_ → s.next_ < config.loops_.length ∧
      (∀ k, 0 < k → k ≤ (handedOut config inputs).length →
        (handedOut config inputs)[k - 1]? = config.loops_[(k - 1) % config.numThreads_]?) ∧
      ∀ l ∈ config.loops_, ∀ l' ∈ config.loops_,
        (handedOut config inputs).count l ≤ (handedOut config inputs).count l' + 1) ∧
    (config.numThreads_ = 0 → ∀ l ∈ handedOut config inputs, l = 0) ∧
    handedOut config inputs =
      (List.range (s.nextConnId_ - 1)).map fun k => (s.conn (k + 1)).loop_ := by
  have inv := rotates run
  have same := reachable_config run.reachable
  have size := config.length_loops
  refine ⟨?_, ?_, ?_⟩
  · intro some
    have pool : config.loops_ ≠ [] := by
      intro none
      rw [none] at size
      exact absurd size.symm (Nat.pos_iff_ne_zero.mp some)
    have turn := inv.turn (same ▸ pool)
    have turns := inv.pool (same ▸ pool)
    rw [same] at turn turns
    refine ⟨?_, ?_, ?_⟩
    · rw [turn]
      exact Lib.mod_length_lt pool _
    · intro k first last
      have done : k - 1 < (handedOut config inputs).length := by omega
      rw [turns, ← size]
      exact Lib.getElem?_turns pool done
    · intro l mem l' mem'
      rw [turns]
      exact Lib.turns_balanced pool config.loops_distinct mem mem' _
  · intro none
    refine inv.base ?_
    rw [same]
    exact List.eq_nil_of_length_eq_zero (size.trans none)
  · have number : s.nextConnId_ - 1 = (handedOut config inputs).length := by
      rw [inv.number, Nat.add_sub_cancel]
    rw [number]
    exact inv.assigned

/-- A server with two sub-loops. -/
def twoLoops : ServerConfig := { oneLoop with numThreads_ := 2 }

/-- The waiting base loop accepts a connection and waits again. -/
def accepting (connfd : Nat) : List (Tid × Input) :=
  [(.loop 0, .poll [(.acceptor, EPOLLIN)]), (.loop 0, .run), (.loop 0, .accept (some connfd))] ++
    steps (.loop 0) 7

def acceptingThree : List (Tid × Input) :=
  steps (.loop 1) 1 ++ steps (.loop 2) 1 ++ steps (.loop 0) 7 ++ accepting 9 ++ accepting 10 ++
    accepting 11

theorem round_robin_three : ∃ s, machine.Run (Server.new twoLoops) acceptingThree s ∧
    s.nextConnId_ = 4 ∧ s.next_ < 2 ∧ handedOut twoLoops acceptingThree = [1, 2, 1] ∧
    (handedOut twoLoops acceptingThree).count 1 ≤
      (handedOut twoLoops acceptingThree).count 2 + 1 := by
  obtain ⟨s, run, number⟩ := machine.exists_run (.new twoLoops) acceptingThree
    (fun s => s.nextConnId_ = 4) (by decide +kernel)
  obtain ⟨next, -, balanced⟩ := (round_robin twoLoops acceptingThree s run).1 (by decide)
  exact ⟨s, run, number, next, by decide +kernel, balanced 1 (by decide) 2 (by decide)⟩

end Server

end TcpMuduo
