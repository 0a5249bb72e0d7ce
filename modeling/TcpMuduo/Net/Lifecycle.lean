import TcpMuduo.Net.InFlight

/-!
The life of a connection: `connectEstablished` runs once, a connection that has
been closed is never connected again, and `connectDestroyed` closes only what
has not been closed.
-/

set_option autoImplicit false
set_option relaxedAutoImplicit false

namespace TcpMuduo

namespace Server

variable {s s' : Server} {t : Tid} {input : Input} {eff : Effect} {config : ServerConfig}
variable {sys : LoopId → LoopSystem Tid Functor ChannelRef} {c : ConnId}

theorem count_after_stack (s : Server) (t : Tid) (eff : Effect)
    (sys : LoopId → LoopSystem Tid Functor ChannelRef) (u : Tid) (task : Task) :
    ((s.after t eff sys).stack u).count task +
        (if u = t ∧ (s.stack t).head? = some task then 1 else 0) =
      (s.stack u).count task + if u = t then eff.push.count task else 0 := by
  rw [after_stack, Function.update_apply]
  by_cases own : u = t
  · subst own
    simp only [if_true, true_and, List.count_append]
    cases s.stack u with
    | nil => simp
    | cons head rest =>
      simp only [List.head?_cons, Option.some.injEq, List.tail_cons, List.count_cons, beq_iff_eq]
      omega
  · simp [own]

private theorem count_work (loops : s.loopStep eff.loop = some sys) (l : LoopId) (f : Functor) :
    ((sys l).work.count f = (s.sys l).work.count f ∧ ∀ i, eff.loop ≠ some (l, i)) ∨
      ∃ i, eff.loop = some (l, i) ∧
        ((s.sys l).takes i).count f + (sys l).work.count f =
          (s.sys l).work.count f + i.emplaced.toList.count f := by
  rcases loopStep_at loops l with ⟨same, none⟩ | ⟨i, here, step⟩
  · exact .inl ⟨by rw [same], none⟩
  · refine .inr ⟨i, here, ?_⟩
    rw [← List.count_append, LoopSystem.step_work step, List.count_append]

/-- What a step adds to the callbacks of a connection. -/
theorem callbacks_after (s : Server) (t : Tid) (eff : Effect)
    (sys : LoopId → LoopSystem Tid Functor ChannelRef) (c : ConnId) :
    (∃ op, eff.change = .conn c op ∧
        callbacks ((s.after t eff sys).events c) =
          callbacks (s.events c) ++ op.callbacks (s.env c) ∧
        ((s.after t eff sys).conn c).state_ = op.state (s.conn c).state_) ∨
      (∀ op, eff.change ≠ .conn c op) ∧ (s.after t eff sys).events c = s.events c ∧
        (s.Created c → ((s.after t eff sys).conn c).state_ = (s.conn c).state_) := by
  have touches := s.act_touches eff.change c
  rw [after_events, after_conn]
  cases touches with
  | op op here conn events =>
    have spec := op.spec c (s.env c)
    exact .inl ⟨op, here, by rw [events]; exact spec.callbacks, by rw [conn]; exact spec.state⟩
  | new connfd here this conn events =>
    refine .inr ⟨by simp [here], events, ?_⟩
    intro created
    exact absurd this (Nat.ne_of_lt created.2)
  | idle other revents conn events => exact .inr ⟨other, events, fun _ => by rw [conn]⟩

/-- The times `connectEstablished` has run or will run. -/
def establishments (s : Server) (c : ConnId) : Nat :=
  (s.stack (.loop 0)).count (.queueInLoop (s.conn c).loop_ (.connectEstablished c)) +
    (s.stack (.loop (s.conn c).loop_)).count (.functor (.connectEstablished c)) +
    (s.sys (s.conn c).loop_).work.count (.connectEstablished c) +
    (callbacks (s.events c)).count (.connectionCallback true)

private theorem count_callbacks_up (op : ConnOp) (e : ConnEnv) :
    (op.callbacks e).count (.connectionCallback true) =
      if op = .connectEstablished then 1 else 0 := by
  cases op with
  | handleRead r =>
    simp only [ConnOp.callbacks]
    split
    · split <;> simp
    · rfl
  | _ => simp [ConnOp.callbacks]

private theorem Does.pushes_establish {head : Option Task} {task : Task}
    (does : Does s t head input eff)
    (created : s.Created c) (mem : task ∈ eff.push)
    (carries : task.carries = some (.connectEstablished c)) :
    task = .functor (.connectEstablished c) ∧ eff.push = [task] ∧
      ∃ l, t = .loop l ∧ eff.loop = some (l, .advance []) ∧
        (s.sys l).takes (.advance []) = [.connectEstablished c] := by
  generalize hf : Functor.connectEstablished c = f at carries
  cases does.setsOut mem carries with
  | called l f rest here loop push =>
    subst hf
    rw [push, List.mem_singleton] at mem
    have takes : (s.sys l).takes (.advance []) = [.connectEstablished c] := by
      simp [LoopSystem.takes, here]
    have own := (does.takes loop (by rw [takes]; exact List.mem_singleton_self _)).1
    exact ⟨mem, by rw [push, mem], l, own, loop, takes⟩
  | connectEstablished connfd change =>
    cases hf
    exact absurd created.2 (Nat.lt_irrefl _)
  | _ => cases hf

theorem Does.establish_head {head : Option Task} (does : Does s t head input eff)
    (h : eff.change = .conn c .connectEstablished) :
    head = some (.functor (.connectEstablished c)) := by
  cases does.operation h
  rfl

private theorem count_up_after (confined : s.Confined)
    (does : Does s t (s.stack t).head? input eff) :
    (callbacks ((s.after t eff sys).events c)).count (.connectionCallback true) ≤
      (callbacks (s.events c)).count (.connectionCallback true) +
        if .loop (s.conn c).loop_ = t ∧
          (s.stack t).head? = some (.functor (.connectEstablished c)) then 1 else 0 := by
  rcases s.callbacks_after t eff sys c with ⟨op, here, callbacks, -⟩ | ⟨-, same, -⟩
  · rw [callbacks, List.count_append, count_callbacks_up]
    refine Nat.add_le_add_left ?_ _
    split
    · rename_i establish
      subst establish
      have thread := (confined.operates does here).2.2.resolve_right (by simp)
      rw [if_pos ⟨thread.symm, does.establish_head here⟩]
    · exact Nat.zero_le _
  · rw [same]
    exact Nat.le_add_right _ _

private theorem count_establish_after (confined : s.Confined) (created : s.Created c)
    (does : Does s t (s.stack t).head? input eff) (loops : s.loopStep eff.loop = some sys)
    (l : LoopId) :
    (sys l).work.count (.connectEstablished c) +
        (if .loop l = t then eff.push.count (.functor (.connectEstablished c)) else 0) ≤
      (s.sys l).work.count (.connectEstablished c) +
        if .loop 0 = t ∧ (s.stack t).head? = some (.queueInLoop l (.connectEstablished c))
          then 1 else 0 := by
  have calls (mem : .functor (.connectEstablished c) ∈ eff.push) (thread : .loop l = t) :
      eff.push.count (.functor (.connectEstablished c)) = 1 ∧
        eff.loop = some (l, .advance []) ∧
        (s.sys l).takes (.advance []) = [.connectEstablished c] := by
    obtain ⟨-, push, l', own, loop, takes⟩ := does.pushes_establish created mem rfl
    rw [← thread] at own
    cases own
    exact ⟨by rw [push]; simp, loop, takes⟩
  rcases count_work loops l (.connectEstablished c) with ⟨same, none⟩ | ⟨i, here, sum⟩
  · have quiet : (if .loop l = t then eff.push.count (.functor (.connectEstablished c)) else 0) =
        0 := by
      rw [ite_eq_right_iff]
      refine fun thread => List.count_eq_zero_of_not_mem fun mem => ?_
      exact none _ (calls mem thread).2.1
    rw [quiet, same]
    exact Nat.le_add_right _ _
  · have pushed : (if .loop l = t then eff.push.count (.functor (.connectEstablished c)) else 0) ≤
        ((s.sys l).takes i).count (.connectEstablished c) := by
      split
      · rename_i thread
        by_cases mem : .functor (.connectEstablished c) ∈ eff.push
        · obtain ⟨once, loop, takes⟩ := calls mem thread
          rw [here] at loop
          cases loop
          rw [once, takes]
          simp
        · rw [List.count_eq_zero_of_not_mem mem]
          exact Nat.zero_le _
      · exact Nat.zero_le _
    have emplaced : i.emplaced.toList.count (.connectEstablished c) ≤
        if .loop 0 = t ∧ (s.stack t).head? = some (.queueInLoop l (.connectEstablished c))
          then 1 else 0 := by
      cases he : i.emplaced with
      | none => exact Nat.zero_le _
      | some f =>
        by_cases this : f = .connectEstablished c
        · subst this
          have head := does.emplaces here he
          have thread := (confined.tasks t _ (List.mem_of_mem_head? head)).2 c rfl
          rw [if_pos ⟨thread.symm, head⟩]
          simp
        · simp [this]
    omega

private theorem establishments_step (confined : s.Confined) (created : s.Created c)
    (does : Does s t (s.stack t).head? input eff) (loops : s.loopStep eff.loop = some sys) :
    (s.after t eff sys).establishments c ≤ s.establishments c := by
  have same : ((s.after t eff sys).conn c).loop_ = (s.conn c).loop_ :=
    (s.after_extends t eff sys).loop c created
  have up : (callbacks ((s.after t eff sys).events c)).count (.connectionCallback true) ≤
      (callbacks (s.events c)).count (.connectionCallback true) +
        if .loop (s.conn c).loop_ = t ∧
          (s.stack t).head? = some (.functor (.connectEstablished c)) then 1 else 0 :=
    count_up_after confined does
  unfold establishments
  rw [same]
  generalize (s.conn c).loop_ = l at up ⊢
  have base := s.count_after_stack t eff sys (.loop 0)
    (.queueInLoop l (.connectEstablished c))
  have own := s.count_after_stack t eff sys (.loop l)
    (.functor (.connectEstablished c))
  have unqueued : eff.push.count (.queueInLoop l (.connectEstablished c)) = 0 := by
    refine List.count_eq_zero_of_not_mem ?_
    intro mem
    cases (does.pushes_establish created mem rfl).1
  have work := count_establish_after confined created does loops l
  rw [unqueued] at base
  rw [after_sys]
  simp only [ite_self] at base
  omega

private theorem establishments_new (confined : s.Confined) {connfd : Nat}
    (does : Does s t (s.stack t).head? input eff) (new : eff.change = .newConnection connfd) :
    (s.after t eff s.sys).establishments s.nextConnId_ ≤ 1 := by
  have unknown : ¬ s.Created s.nextConnId_ := fun created => Nat.lt_irrefl _ created.2
  obtain ⟨-, -, -, push⟩ := does.newConnection new
  unfold establishments
  generalize ((s.after t eff s.sys).conn s.nextConnId_).loop_ = l
  have base := s.count_after_stack t eff s.sys (.loop 0)
    (.queueInLoop l (.connectEstablished s.nextConnId_))
  have own := s.count_after_stack t eff s.sys (.loop l)
    (.functor (.connectEstablished s.nextConnId_))
  have no_queue : (s.stack (.loop 0)).count
      (.queueInLoop l (.connectEstablished s.nextConnId_)) = 0 :=
    List.count_eq_zero_of_not_mem fun mem => unknown (confined.tasks _ _ mem).1.1
  have no_call : (s.stack (.loop l)).count (.functor (.connectEstablished s.nextConnId_)) = 0 := by
    refine List.count_eq_zero_of_not_mem ?_
    intro mem
    obtain ⟨l', -, created, -⟩ := confined.tasks _ _ mem
    exact unknown created
  have no_work : ((s.after t eff s.sys).sys l).work.count
      (.connectEstablished s.nextConnId_) = 0 :=
    List.count_eq_zero_of_not_mem fun mem => unknown (confined.work _ _ mem).1
  have no_up : (callbacks ((s.after t eff s.sys).events s.nextConnId_)).count
      (.connectionCallback true) = 0 := by
    refine List.count_eq_zero_of_not_mem ?_
    intro mem
    rw [after_events, new] at mem
    exact unknown (confined.created _ ((mem_callbacks rfl).mp mem))
  have once : eff.push.count (.queueInLoop l (.connectEstablished s.nextConnId_)) +
      eff.push.count (.functor (.connectEstablished s.nextConnId_)) ≤ 1 := by
    rw [push]
    unfold runInLoop
    split
    · simp
    · simp only [List.count_cons, List.count_nil]
      split <;> simp
  rw [no_queue] at base
  rw [no_call] at own
  rw [no_work, no_up]
  have most (p : Prop) [Decidable p] (n : Nat) : (if p then n else 0) ≤ n := by
    split
    · exact Nat.le_refl n
    · exact Nat.zero_le n
  have most_base := most (.loop 0 = t)
    (eff.push.count (.queueInLoop l (.connectEstablished s.nextConnId_)))
  have most_own := most (.loop l = t)
    (eff.push.count (.functor (.connectEstablished s.nextConnId_)))
  omega

/-- `connectEstablished` runs at most once for each connection. -/
theorem established_once (h : machine.Reachable (Server.new config) s) :
    ∀ c, s.Created c → s.establishments c ≤ 1 := by
  refine h.invariant (I := fun s => ∀ c, s.Created c → s.establishments c ≤ 1) ?_ ?_
  · rintro c ⟨positive, bound⟩
    exact absurd positive (Nat.not_lt_of_ge (Nat.le_of_lt_succ bound))
  · rintro m ⟨t, input⟩ m' reach inv hs c created
    obtain ⟨eff, sys, does, loops, rfl⟩ := step_does hs
    rcases created_after created with old | ⟨rfl, connfd, new⟩
    · exact Nat.le_trans (establishments_step (confined reach) old does loops) (inv c old)
    · obtain ⟨-, -, none, -⟩ := does.newConnection new
      rw [none] at loops
      cases loops
      exact establishments_new (confined reach) does new

/-- The functor of `connectEstablished` is called only for a connection that is not up. -/
theorem not_up_of_establish (h : machine.Reachable (Server.new config) s)
    (mem : .functor (.connectEstablished c) ∈ s.stack t) : ¬ s.Up c := by
  intro up
  obtain ⟨l, rfl, created, rfl⟩ := (confined h).tasks t _ mem
  have once := established_once h c created
  have call := List.count_pos_iff.mpr mem
  have told := List.count_pos_iff.mpr ((mem_callbacks rfl).mpr up)
  unfold establishments at once
  omega

/-- The user has been told that the connection is down. -/
def Down (s : Server) (c : ConnId) : Prop := .connectionCallback false ∈ s.events c

instance (s : Server) (c : ConnId) : Decidable (s.Down c) := inferInstanceAs (Decidable (_ ∈ _))

theorem count_callbacks_down (op : ConnOp) (e : ConnEnv) :
    (op.callbacks e).count (.connectionCallback false) =
      if op = .connectDestroyedClose ∨ op = .handleClose then 1 else 0 := by
  cases op with
  | handleRead r =>
    simp only [ConnOp.callbacks]
    split
    · split <;> simp
    · rfl
  | _ => simp [ConnOp.callbacks]

theorem Extends.down (ext : s.Extends s') (h : s.Down c) : s'.Down c := (ext.events c).subset h

theorem Confined.down_known (inv : s.Confined) (down : s.Down c) : s.Known c := by
  refine inv.known ?_
  by_contra up
  have mem := (mem_callbacks (e := .connectionCallback false) rfl).mpr down
  rw [(inv.fresh c up).1] at mem
  cases mem

theorem down_after (down : (s.after t eff sys).Down c) :
    s.Down c ∨ eff.change = .conn c .handleClose ∨
      eff.change = .conn c .connectDestroyedClose := by
  have down := (mem_callbacks (e := .connectionCallback false) rfl).mpr down
  rcases s.callbacks_after t eff sys c with ⟨op, here, callbacks, -⟩ | ⟨-, same, -⟩
  · rw [callbacks, List.mem_append] at down
    rcases down with old | new
    · exact .inl ((mem_callbacks rfl).mp old)
    · have some := List.count_pos_iff.mpr new
      rw [count_callbacks_down] at some
      split at some
      · rename_i closing
        rcases closing with rfl | rfl
        · exact .inr (.inr here)
        · exact .inr (.inl here)
      · exact absurd some (Nat.lt_irrefl _)
  · rw [same] at down
    exact .inl ((mem_callbacks rfl).mp down)

/-- A connection that is down is not connected, and `connectDestroyed` closes none that is
down. -/
structure Closing (s : Server) : Prop where
  state : ∀ c, s.Down c → (s.conn c).state_ ≠ .kConnected
  first : ∀ t c, .connectDestroyedClose c ∉ (s.stack t).tail
  pending : ∀ t c, .connectDestroyedClose c ∈ s.stack t → ¬ s.Down c

theorem Closing.step (reach : machine.Reachable (Server.new config) s) (inv : s.Closing)
    (h : machine.step s (t, input) = some s') : s'.Closing := by
  obtain ⟨eff, sys, does, loops, rfl⟩ := step_does h
  have confined := confined reach
  refine ⟨?_, ?_, ?_⟩
  · intro c down
    rcases s.callbacks_after t eff sys c with ⟨op, here, -, state⟩ | ⟨-, same, kept⟩
    · rw [state]
      rcases down_after down with old | close | close
      · have left := inv.state c old
        cases op with
        | connectEstablished =>
          exact absurd (confined.down_known old).2 (not_up_of_establish reach
            (List.mem_of_mem_head? (does.establish_head here)))
        | connectDestroyedClose | handleClose | shutdownStore => simp [ConnOp.state]
        | _ => exact left
      all_goals
        rw [here] at close
        cases close
        simp [ConnOp.state]
    · have old : s.Down c := by
        unfold Down at down ⊢
        rwa [same] at down
      rw [kept (confined.down_known old).1]
      exact inv.state c old
  · intro u c mem
    rcases mem_tail_after _ _ _ _ mem with ⟨-, pushed⟩ | old
    · cases does.puts (List.mem_of_mem_tail pushed) with
      | carrying task f carries => cases carries
      | connectDestroyedClose c destroyed connected change push =>
        rw [push] at pushed
        cases pushed
    · exact inv.first u c old
  · intro u c mem down
    rcases stack_cases _ _ _ _ mem with ⟨rfl, pushed⟩ | ⟨rfl, left⟩ | ⟨other, old⟩
    · cases does.puts pushed with
      | carrying task f carries => cases carries
      | connectDestroyedClose c destroyed connected change push =>
        rcases down_after down with old | close | close
        · exact inv.state c old connected
        · rw [change] at close
          cases close
        · rw [change] at close
          cases close
    · exact inv.first u c left
    · have at_loop : u = .loop (s.conn c).loop_ := (confined.tasks u _ old).2
      rcases down_after down with before | close | close
      · exact inv.pending u c old before
      all_goals
        have here := (confined.operates does close).2.2.resolve_right (by simp)
        exact other (at_loop.trans here.symm)

theorem closing (h : machine.Reachable (Server.new config) s) : s.Closing := by
  refine h.invariant (I := Closing) ⟨?_, ?_, ?_⟩ fun _ _ _ reach inv hs => inv.step reach hs
  · intro c down
    cases down
  · intro u c mem
    cases new_stack (List.mem_of_mem_tail mem)
  · intro u c mem
    cases new_stack mem

end Server

end TcpMuduo
