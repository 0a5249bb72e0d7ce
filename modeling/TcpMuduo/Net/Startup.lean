import TcpMuduo.Net.Dispatch
import TcpMuduo.Net.Establishment
import TcpMuduo.Net.Rounds
import TcpMuduo.Net.ThreadPool

/-!
`start`: the base thread waits for every loop of the pool before the server
listens, so that no connection meets a loop that is not there yet.
-/

set_option autoImplicit false
set_option relaxedAutoImplicit false

namespace TcpMuduo

namespace LoopSystem

variable {T F H : Type} [DecidableEq T] [DecidableEq H] {startup : Bool}
variable {s s' : LoopSystem T F H} {input : LoopInput T F H}

/-- A loop leaves its constructor's state for good, with the first step of its thread. -/
theorem step_created (h : (machine startup).step s input = some s')
    (here : s'.loop.position = .created) :
    s.loop.position = .created ∧ ∀ active, input ≠ .advance active := by
  rcases step_moves h with ⟨active, loop, rfl, rfl, moves⟩ | ⟨other, same, -⟩
  · cases moves <;> cases here
  · exact ⟨same ▸ here, other⟩

end LoopSystem

namespace Server

variable {s s' : Server} {t : Tid} {input : Input} {eff : Effect} {config : ServerConfig}
variable {sys : LoopId → LoopSystem Tid Functor ChannelRef} {l : LoopId}

theorem Published.after (inv : s.Published l) (pool : l ≠ 0)
    (does : Does s t (s.stack t).head? input eff) (loops : s.loopStep eff.loop = some sys) :
    (s.after t eff sys).Published l := by
  by_cases here : (sys l).loop.position = .created
  · rcases loopStep_at loops l with ⟨same, other⟩ | ⟨input', named, step⟩
    · rw [same] at here
      have idle := inv.resolve_right (absurd here)
      refine .inl ?_
      rw [after_stack_at]
      split
      · rename_i own
        rw [← own, idle] at does
        cases does with
        | destroy order may => exact absurd rfl pool
        | poll l' active here' reports | dispatch l' channel rest here' | call l' f rest here'
        | turn l' waits active batch => exact absurd rfl (other _)
      · exact idle
    · obtain ⟨before, other⟩ := LoopSystem.step_created step here
      have idle := inv.resolve_right (absurd before)
      refine .inl ?_
      rw [after_stack_at]
      split
      · rename_i own
        rw [← own, idle] at does
        cases does <;> cases named
        all_goals exact absurd rfl (other _)
      · exact idle
  · exact .inr here

/-- The base thread is still in `start()`, before `listen`: the loops it has not waited for. -/
structure Starting (s : Server) (left : List LoopId) : Prop where
  stack : s.stack (.loop 0) = left.map .startLoop ++ [.functor .listen, .user none]
  others : ∀ l ∈ s.config.loops_, l ∈ left ∨ s.Published l
  deaf : s.acceptChannel_.index_ = kNew
  none : s.nextConnId_ = 1
  outside : (s.sys 0).loop.position = .created
  alive : s.destroyed = false

theorem Confined.elsewhere (confined : s.Confined) (does : Does s t (s.stack t).head? input eff)
    (other : t ≠ .loop 0) :
    (s.act eff.change).acceptChannel_.index_ = s.acceptChannel_.index_ ∧
      (s.act eff.change).nextConnId_ = s.nextConnId_ ∧
      (s.act eff.change).destroyed = s.destroyed := by
  cases hc : eff.change with
  | acceptor op =>
    refine absurd ?_ other
    rcases does.accepts hc with ⟨head, -⟩ | head
    · obtain ⟨l, rfl, rfl⟩ := confined.tasks t _ (List.mem_of_mem_head? head)
      rfl
    · exact confined.tasks t _ (List.mem_of_mem_head? head)
  | newConnection connfd =>
    have head := (does.newConnection hc).1
    exact absurd (confined.tasks t _ (List.mem_of_mem_head? head)) other
  | destroy => exact absurd (does.destroys hc).2.1 other
  | fillActiveChannels active =>
    refine ⟨?_, rfl, rfl⟩
    simp only [act, fillActiveChannels]
    split <;> rfl
  | nothing | conn c op | erase c | store p byte => exact ⟨rfl, rfl, rfl⟩

/-- Until the base thread has waited for all loops it does nothing else. -/
def Prepared (s : Server) : Prop :=
  (∃ left, s.Starting left) ∨ ∀ l ∈ s.config.loops_, s.Published l

theorem Prepared.step (confined : s.Confined) (inv : s.Prepared)
    (h : machine.step s (t, input) = some s') : s'.Prepared := by
  obtain ⟨eff, sys, does, loops, rfl⟩ := step_does h
  have config : (s.after t eff sys).config = s.config := (s.after_extends t eff sys).config
  have stays {l : LoopId} (mem : l ∈ s.config.loops_) (published : s.Published l) :
      (s.after t eff sys).Published l :=
    published.after (ServerConfig.loops_pos mem) does loops
  rcases inv with ⟨left, starting⟩ | all
  · by_cases base : t = .loop 0
    · subst base
      cases left with
      | nil =>
        refine .inr ?_
        rw [config]
        intro l mem
        exact stays mem ((starting.others l mem).resolve_left (by simp))
      | cons l left =>
        have stack := starting.stack
        rw [stack] at does
        cases does with
        | started t l published =>
          obtain rfl : s.sys = sys := Option.some.inj loops
          refine .inl ⟨left, ?_, ?_, starting.deaf, starting.none, starting.outside,
            starting.alive⟩
          · rw [after_stack_at, if_pos rfl, stack]
            rfl
          · rw [config]
            intro l' mem
            rcases starting.others l' mem with waiting | before
            · rcases List.mem_cons.mp waiting with rfl | waiting
              · exact .inr (stays mem published)
              · exact .inl waiting
            · exact .inr (stays mem before)
    · obtain ⟨deaf, none, alive⟩ := confined.elsewhere does base
      refine .inl ⟨left, ?_, ?_, deaf.trans starting.deaf, none.trans starting.none, ?_,
        alive.trans starting.alive⟩
      · rw [after_stack_at, if_neg (Ne.symm base)]
        exact starting.stack
      · rw [config]
        intro l mem
        exact (starting.others l mem).imp_right (stays mem)
      · rw [after_sys, position_kept does loops fun own => absurd own base]
        exact starting.outside
  · refine .inr ?_
    rw [config]
    intro l mem
    exact stays mem (all l mem)

private theorem prepared (h : machine.Reachable (Server.new config) s) : s.Prepared := by
  refine h.invariant (I := Prepared) ?_ fun _ _ _ reach inv hs => inv.step (confined reach) hs
  by_cases none : config.numThreads_ = 0
  · refine .inr ?_
    intro l mem
    simp [Server.new, ServerConfig.loops_, none] at mem
  · refine .inl ⟨config.loops_, ?_, fun l mem => .inl mem, rfl, rfl, rfl, rfl⟩
    simp only [Server.new, if_neg none]

/-- In every reachable state in which the server has begun to listen, or has accepted a
connection, or the base thread has entered `loop()`, or `~TcpServer` has begun, every loop of the
pool has been published by its thread: its init callback has returned. -/
theorem start_waits (config : ServerConfig) (s : Server)
    (h : machine.Reachable (Server.new config) s)
    (used : s.acceptChannel_.index_ ≠ kNew ∨ (∃ c, s.Created c) ∨
      (s.sys 0).loop.position ≠ .created ∨ s.destroyed = true) :
    ∀ l ∈ config.loops_, s.Published l := by
  rw [← reachable_config h]
  refine (prepared h).resolve_left ?_
  rintro ⟨left, starting⟩
  rcases used with listens | ⟨c, created⟩ | entered | destroyed
  · exact listens starting.deaf
  · have few := created.2
    rw [starting.none] at few
    exact absurd created.1 (Nat.not_lt_of_ge (Nat.le_of_lt_succ few))
  · exact entered starting.outside
  · rw [starting.alive] at destroyed
    cases destroyed

theorem start_waits_establishing : ∃ s, machine.Run (Server.new oneLoop) establishing s ∧
    s.Created 1 ∧ ∀ l ∈ oneLoop.loops_, s.Published l := by
  obtain ⟨s, run, created⟩ := machine.exists_run (.new oneLoop) establishing
    (fun s => 0 < 1 ∧ 1 < s.nextConnId_) (by decide +kernel)
  exact ⟨s, run, created, start_waits oneLoop s run.reachable (.inr (.inl ⟨1, created⟩))⟩

end Server

end TcpMuduo
