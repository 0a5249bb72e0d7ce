import TcpMuduo.Net.InFlight

/-!
`send`: the `else` of its test belongs to the state and not to the thread. A
connected connection drops what another thread sends, and one that is not
connected still executes `sendInLoop`, with the address of the caller's bytes.
-/

set_option autoImplicit false
set_option relaxedAutoImplicit false

namespace TcpMuduo

namespace Server

variable {s s' : Server} {t : Tid} {input : Input} {eff : Effect} {config : ServerConfig}
variable {sys : LoopId → LoopSystem Tid Functor ChannelRef}

def RunsFor (s : Server) (u : Tid) (l : LoopId) (r : SendRun) : Prop :=
  r.thread = .loop l ∧ ∃ call, s.sends[r.call]? = some call ∧ call.thread = u

instance (s : Server) (u : Tid) (l : LoopId) : DecidablePred (s.RunsFor u l) := fun r =>
  decidable_of_iff (r.thread = .loop l ∧ (s.sends[r.call]?).any (·.thread = u) = true) (by
    unfold RunsFor
    cases s.sends[r.call]? <;> simp)

/-- What `send` promises: a call on a connected connection is executed once, on the thread of its
loop and with the bytes of the call, the calls of another thread in their order, and no call on
a connection that is not connected is executed. -/
structure SendsAccepted (s : Server) : Prop where
  connected : ∀ k call, s.sends[k]? = some call → call.state = .kConnected →
    s.runs.filter (·.call == k) = [⟨k, .loop (s.conn call.conn).loop_, call.data⟩]
  others : ∀ k call, s.sends[k]? = some call → call.state ≠ .kConnected →
    s.runs.filter (·.call == k) = []
  order : ∀ u l, u ≠ .loop l →
    ((s.runs.filter fun r => decide (s.RunsFor u l r)).map (·.call)).Pairwise (· < ·)

/-- No execution of `sendInLoop` is left in a queue or in the hands of a thread. -/
def Drained (s : Server) : Prop := ∀ c p len k, ¬ s.InFlight (.sendInLoop c p len k)

/-- A `send` is called on a connected connection and on the thread of its loop. -/
def SendsHere (s : Server) (i : Tid × Input) : Prop :=
  match (s.stack i.1).head?, i.2 with
  | some (.user _), .call (.send c _ _ _) =>
    (s.conn c).state_ = .kConnected ∧ i.1 = .loop (s.conn c).loop_
  | _, _ => True

instance (s : Server) (i : Tid × Input) : Decidable (s.SendsHere i) :=
  decidable_of_bool (match (s.stack i.1).head?, i.2 with
    | some (.user _), .call (.send c _ _ _) =>
      decide ((s.conn c).state_ = .kConnected ∧ i.1 = .loop (s.conn c).loop_)
    | _, _ => true) (by unfold SendsHere; split <;> simp only [decide_eq_true_eq])

private theorem Does.ran_cases {head : Option Task} (does : Does s t head input eff) :
    eff.ran = [] ∧ (eff.sent = [] ∨ ∃ m c p len r, head = some (.user m) ∧
        input = .call (.send c p len r) ∧ eff.sent = [⟨t, c, (s.conn c).state_, s.bytes p len⟩]) ∨
      (∃ m c p len r, head = some (.user m) ∧ input = .call (.send c p len r) ∧ s.Up c ∧
        (s.conn c).state_ = .kConnected ∧ t = .loop (s.conn c).loop_ ∧
        eff.sent = [⟨t, c, (s.conn c).state_, s.bytes p len⟩] ∧
        eff.ran = [⟨s.sends.length, t, s.bytes p len⟩]) ∨
      ∃ c p len call, head = some (.functor (.sendInLoop c p len call)) ∧ eff.sent = [] ∧
        eff.ran = [⟨call, t, s.bytes p len⟩] := by
  cases does with
  | send t m c p len r up connected own fits =>
    exact .inr (.inl ⟨m, c, p, len, r, rfl, rfl, up, connected, own, rfl, rfl⟩)
  | sendElsewhere t m c p len r up connected other =>
    exact .inl ⟨rfl, .inr ⟨m, c, p, len, r, rfl, rfl, rfl⟩⟩
  | sendLate t m c p len r up state =>
    exact .inl ⟨rfl, .inr ⟨m, c, p, len, r, rfl, rfl, rfl⟩⟩
  | sendInLoop t c p len call r fits => exact .inr (.inr ⟨c, p, len, call, rfl, rfl, rfl⟩)
  | _ => exact .inl ⟨rfl, .inl rfl⟩

/-- Executions and functors of `sendInLoop` belong to calls that have been made. -/
structure Numbered (s : Server) : Prop where
  runs : ∀ r ∈ s.runs, r.call < s.sends.length
  inFlight : ∀ c p len k, s.InFlight (.sendInLoop c p len k) → k < s.sends.length

private theorem inFlight_head {f : Functor} (h : (s.stack t).head? = some (.functor f)) :
    s.InFlight f :=
  .inl ⟨t, _, List.mem_of_mem_head? h, rfl⟩

theorem Numbered.step (inv : s.Numbered) (h : machine.step s (t, input) = some s') :
    s'.Numbered := by
  obtain ⟨eff, sys, does, loops, rfl⟩ := step_does h
  constructor
  · intro r mem
    rw [after_runs] at mem
    rw [after_sends, List.length_append]
    rcases List.mem_append.mp mem with old | new
    · exact Nat.lt_of_lt_of_le (inv.runs r old) (Nat.le_add_right _ _)
    · rcases does.ran_cases with ⟨none, -⟩ | ⟨m, c, p, len, w, -, -, -, -, -, sent, ran⟩ |
        ⟨c, p, len, call, head, -, ran⟩
      · rw [none] at new
        cases new
      · rw [ran, List.mem_singleton] at new
        simp [new, sent]
      · rw [ran, List.mem_singleton] at new
        have bound := inv.inFlight c p len call (inFlight_head head)
        rw [new]
        exact Nat.lt_of_lt_of_le bound (Nat.le_add_right _ _)
  · intro c p len k flight
    rw [after_sends, List.length_append]
    rcases flight.origin does loops with old | ⟨task, mem, carries⟩
    · exact Nat.lt_of_lt_of_le (inv.inFlight c p len k old) (Nat.le_add_right _ _)
    · cases does.setsOut mem carries with
      | called l f rest here =>
        have bound := inv.inFlight c p len k (inFlight_running here)
        exact Nat.lt_of_lt_of_le bound (Nat.le_add_right _ _)
      | sendInLoop m c p len r user call state =>
        have sent : eff.sent ≠ [] := by
          subst call
          rw [user] at does
          cases does <;> simp
        exact Nat.lt_add_of_pos_right (List.length_pos_iff.mpr sent)

private theorem new_not_inFlight (f : Functor) (h : (Server.new config).InFlight f) :
    f = .listen := by
  rcases h with ⟨t, task, mem, carries⟩ | ⟨l, mem⟩
  · cases new_stack mem with
    | user | startLoop l base => cases carries
    | listen base =>
      cases carries
      rfl
  · cases mem

private theorem numbered (h : machine.Reachable (Server.new config) s) : s.Numbered := by
  refine h.invariant (I := Numbered) ⟨?_, ?_⟩ fun _ _ _ _ inv hs => inv.step hs
  · intro r mem
    cases mem
  · intro c p len k flight
    have := new_not_inFlight _ flight
    cases this

/-- What holds while every `send` is made where it works: each call has been executed on the
spot. -/
structure AllHere (s : Server) : Prop where
  calls : ∀ call ∈ s.sends, call.state = .kConnected ∧ s.Created call.conn ∧
    call.thread = .loop (s.conn call.conn).loop_
  once : ∀ k call, s.sends[k]? = some call →
    s.runs.filter (·.call == k) = [⟨k, call.thread, call.data⟩]
  threads : ∀ r ∈ s.runs, ∃ call, s.sends[r.call]? = some call ∧ call.thread = r.thread
  none : ∀ c p len k, ¬ s.InFlight (.sendInLoop c p len k)

theorem AllHere.accepted (inv : s.AllHere) : s.SendsAccepted where
  connected k call at_k _ := by
    rw [inv.once k call at_k, (inv.calls call (List.mem_of_getElem? at_k)).2.2]
  others k call at_k state := absurd (inv.calls call (List.mem_of_getElem? at_k)).1 state
  order u l other := by
    have empty : s.runs.filter (fun r => decide (s.RunsFor u l r)) = [] := by
      rw [List.filter_eq_nil_iff]
      intro r mem runs
      obtain ⟨own, call, at_call, caller⟩ := of_decide_eq_true runs
      obtain ⟨call', at_call', thread⟩ := inv.threads r mem
      rw [at_call] at at_call'
      cases at_call'
      exact other (caller.symm.trans (thread.trans own))
    rw [empty]
    exact .nil

theorem AllHere.step (confined : s.Confined) (inv : s.AllHere) (here : s.SendsHere (t, input))
    (h : machine.step s (t, input) = some s') : s'.AllHere := by
  obtain ⟨eff, sys, does, loops, rfl⟩ := step_does h
  have ext := s.after_extends t eff sys
  have calls : ∀ call ∈ s.sends, call.state = .kConnected ∧ (s.after t eff sys).Created call.conn ∧
      call.thread = .loop ((s.after t eff sys).conn call.conn).loop_ := by
    intro call mem
    obtain ⟨state, created, thread⟩ := inv.calls call mem
    exact ⟨state, ext.mono created, by rw [ext.loop _ created]; exact thread⟩
  have made {m : Option ConnId} {c : ConnId} {p : Address} {len : Nat} {r : WriteResult}
      (head : (s.stack t).head? = some (.user m)) (call : input = .call (.send c p len r)) :
      (s.conn c).state_ = .kConnected ∧ t = .loop (s.conn c).loop_ := by
    simpa only [SendsHere, head, call] using here
  have none : ∀ c p len k, ¬ (s.after t eff sys).InFlight (.sendInLoop c p len k) := by
    intro c p len k flight
    rcases flight.origin does loops with old | ⟨task, mem, carries⟩
    · exact inv.none _ _ _ _ old
    · cases does.setsOut mem carries with
      | called l f rest here => exact inv.none _ _ _ _ (inFlight_running here)
      | sendInLoop m c p len r user call state => exact state (made user call).1
  rcases does.ran_cases with ⟨ran, sent | ⟨m, c, p, len, r, head, call, sent⟩⟩ |
    ⟨m, c, p, len, r, -, -, up, connected, own, sent, ran⟩ | ⟨c, p, len, call, head, -, -⟩
  · refine ⟨?_, ?_, ?_, none⟩
    all_goals simp only [after_sends, after_runs, sent, ran, List.append_nil]
    · exact calls
    · exact inv.once
    · exact inv.threads
  · -- a call made where it works is executed
    obtain ⟨connected, own⟩ := made head call
    subst call
    rw [head] at does
    cases does with
    | send => cases ran
    | sendElsewhere t m c p len r up connected other => exact absurd own other
    | sendLate t m c p len r up state => exact absurd connected state
  · refine ⟨?_, ?_, ?_, none⟩
    all_goals simp only [after_sends, after_runs, sent, ran]
    · intro call mem
      rcases List.mem_append.mp mem with mem | mem
      · exact calls call mem
      · rw [List.mem_singleton.mp mem]
        have created := confined.created c up
        exact ⟨connected, ext.mono created, by rw [ext.loop _ created]; exact own⟩
    · intro k call at_k
      rw [List.filter_append]
      rcases Nat.lt_trichotomy k s.sends.length with old | rfl | late
      · rw [List.getElem?_append_left old] at at_k
        have other : (s.sends.length == k) = false := beq_eq_false_iff_ne.mpr (Nat.ne_of_gt old)
        simp [inv.once k call at_k, other]
      · rw [List.getElem?_concat_length] at at_k
        cases at_k
        have fresh : s.runs.filter (·.call == s.sends.length) = [] := by
          rw [List.filter_eq_nil_iff]
          intro r' mem same
          obtain ⟨call, at_call, -⟩ := inv.threads r' mem
          rw [beq_iff_eq.mp same] at at_call
          simp at at_call
        simp [fresh]
      · rw [List.getElem?_eq_none (by simp; omega)] at at_k
        cases at_k
    · intro r' mem
      rcases List.mem_append.mp mem with mem | mem
      · obtain ⟨call, at_call, thread⟩ := inv.threads r' mem
        have bound := (List.getElem?_eq_some_iff.mp at_call).1
        exact ⟨call, by rw [List.getElem?_append_left bound, at_call], thread⟩
      · rw [List.mem_singleton.mp mem]
        exact ⟨_, List.getElem?_concat_length, rfl⟩
  · exact absurd (inFlight_head head) (inv.none _ _ _ _)

/-- The call number `k` is not executed and will not be. -/
structure Silent (k : Nat) (s : Server) : Prop where
  made : k < s.sends.length
  runs : ∀ r ∈ s.runs, r.call ≠ k
  inFlight : ∀ c p len, ¬ s.InFlight (.sendInLoop c p len k)

theorem Silent.step {k : Nat} (inv : Silent k s) (h : machine.step s (t, input) = some s') :
    Silent k s' := by
  obtain ⟨eff, sys, does, loops, rfl⟩ := step_does h
  refine ⟨?_, ?_, ?_⟩
  · rw [after_sends, List.length_append]
    exact Nat.lt_of_lt_of_le inv.made (Nat.le_add_right _ _)
  · intro r mem
    rw [after_runs] at mem
    rcases List.mem_append.mp mem with old | new
    · exact inv.runs r old
    · rcases does.ran_cases with ⟨none, -⟩ | ⟨m, c, p, len, w, -, -, -, -, -, -, ran⟩ |
        ⟨c, p, len, call, head, -, ran⟩
      · rw [none] at new
        cases new
      · rw [ran, List.mem_singleton] at new
        rw [new]
        exact Nat.ne_of_gt inv.made
      · rw [ran, List.mem_singleton] at new
        rw [new]
        rintro rfl
        exact inv.inFlight c p len (inFlight_head head)
  · intro c p len flight
    rcases flight.origin does loops with old | ⟨task, mem, carries⟩
    · exact inv.inFlight c p len old
    · generalize hk : k = k' at carries
      cases does.setsOut mem carries with
      | called l f rest here => exact inv.inFlight c p len (hk ▸ inFlight_running here)
      | sendInLoop m c p len r user call state => exact Nat.ne_of_lt inv.made hk

def Owed (k : Nat) (s : Server) : Prop :=
  (∃ c p len, s.InFlight (.sendInLoop c p len k)) ∨ ∃ r ∈ s.runs, r.call = k

theorem Owed.step {k : Nat} (inv : Owed k s) (h : machine.step s (t, input) = some s') :
    Owed k s' := by
  obtain ⟨eff, sys, does, loops, rfl⟩ := step_does h
  rcases inv with ⟨c, p, len, flight⟩ | ⟨r, mem, same⟩
  · rcases flight.step does loops with still | head
    · exact .inl ⟨c, p, len, still⟩
    · rw [head] at does
      cases does with
      | sendInLoop t c p len call r fits =>
        exact .inr ⟨⟨k, t, s.bytes p len⟩, List.mem_append_right _ (List.mem_singleton_self _), rfl⟩
  · exact .inr ⟨r, List.mem_append_left _ mem, same⟩

private theorem sends_step {k : Nat} {call : SendCall} (at_k : s.sends[k]? = some call)
    (h : machine.step s (t, input) = some s') : s'.sends[k]? = some call := by
  obtain ⟨eff, sys, -, -, rfl⟩ := step_does h
  have bound := (List.getElem?_eq_some_iff.mp at_k).1
  rw [after_sends, List.getElem?_append_left bound, at_k]

/-- A call made where it does not work is dropped, or executed although it should not be. -/
def Broken (k : Nat) (s : Server) : Prop :=
  ∃ call, s.sends[k]? = some call ∧
    (call.state = .kConnected ∧ Silent k s ∨ call.state ≠ .kConnected ∧ Owed k s)

theorem Broken.step {k : Nat} (inv : Broken k s) (h : machine.step s (t, input) = some s') :
    Broken k s' := by
  obtain ⟨call, at_k, ⟨state, silent⟩ | ⟨state, owed⟩⟩ := inv
  · exact ⟨call, sends_step at_k h, .inl ⟨state, silent.step h⟩⟩
  · exact ⟨call, sends_step at_k h, .inr ⟨state, owed.step h⟩⟩

private theorem broken_of_not_here (inv : s.Numbered) (here : ¬ s.SendsHere (t, input))
    (h : machine.step s (t, input) = some s') : Broken s.sends.length s' := by
  obtain ⟨eff, sys, does, loops, rfl⟩ := step_does h
  have at_end {call : SendCall} (sent : eff.sent = [call]) :
      (s.after t eff sys).sends[s.sends.length]? = some call := by
    rw [after_sends, sent, List.getElem?_concat_length]
  unfold SendsHere at here
  split at here
  · rename_i m c p len r head call
    dsimp only at call head
    subst call
    have whole := does
    rw [head] at does
    cases does with
    | send t m _ _ _ _ up connected own fits => exact absurd ⟨connected, own⟩ here
    | sendElsewhere t m _ _ _ _ up connected other =>
      refine ⟨_, at_end rfl, .inl ⟨connected, ?_, ?_, ?_⟩⟩
      · simp
      · intro w mem
        rw [after_runs, List.append_nil] at mem
        exact Nat.ne_of_lt (inv.runs w mem)
      · intro _ _ _ flight
        rcases flight.origin whole loops with old | ⟨task, mem, carries⟩
        · exact Nat.lt_irrefl _ (inv.inFlight _ _ _ _ old)
        · rw [List.mem_singleton.mp mem] at carries
          cases carries
    | sendLate t m _ _ _ _ up state =>
      exact ⟨_, at_end rfl, .inr ⟨state, .inl ⟨c, p, len, .inl ⟨t, _,
        pushed_mem_stack _ _ _ _ List.mem_cons_self, runInLoop_carries t (s.conn c).loop_ _⟩⟩⟩⟩
  · exact absurd trivial here

/-- A call made where it does not work stays broken. -/
theorem broken_of_run {pre post : List (Tid × Input)} {i : Tid × Input} {m : Server}
    (before : machine.Run (Server.new config) pre m) (elsewhere : ¬ m.SendsHere i)
    (run : machine.Run (Server.new config) (pre ++ [i] ++ post) s) :
    Broken m.sends.length s := by
  obtain ⟨next, hs, rest⟩ := run.step_at before
  exact rest.reachable.invariant
    (broken_of_not_here (numbered before.reachable) elsewhere hs) fun _ _ _ _ inv hs => inv.step hs

private theorem new_allHere (config : ServerConfig) : (Server.new config).AllHere where
  calls _ mem := by cases mem
  once _ _ at_k := by cases at_k
  threads _ mem := by cases mem
  none _ _ _ _ flight := by cases new_not_inFlight _ flight

private theorem allHere {inputs : List (Tid × Input)}
    (run : machine.Run (Server.new config) inputs s)
    (here : machine.StepsMeet SendsHere (Server.new config) inputs) : s.AllHere := by
  refine run.invariant_of_stepsMeet (I := fun _ s => s.AllHere) here (new_allHere config) ?_
  intro _ m i m' before inv here hs
  exact inv.step (confined before.reachable) here hs

/-- `send` keeps its promises exactly in the runs in which every call is made on a connected
connection and on the thread of its loop. -/
theorem sendsAccepted_iff (config : ServerConfig) (inputs : List (Tid × Input)) (s : Server)
    (run : machine.Run (Server.new config) inputs s) (drained : s.Drained) :
    s.SendsAccepted ↔ machine.StepsMeet SendsHere (Server.new config) inputs := by
  constructor
  · rintro accepted pre i m ⟨post, rfl⟩ before
    by_contra elsewhere
    have broken := broken_of_run before elsewhere run
    obtain ⟨call, at_k, ⟨state, silent⟩ | ⟨state, owed⟩⟩ := broken
    · have once := accepted.connected _ call at_k state
      have mem : (⟨m.sends.length, .loop (s.conn call.conn).loop_, call.data⟩ : SendRun) ∈
          s.runs.filter (·.call == m.sends.length) := by
        rw [once]
        exact List.mem_singleton_self _
      exact silent.runs _ (List.mem_filter.mp mem).1 rfl
    · have none := accepted.others _ call at_k state
      rcases owed with ⟨c, p, len, flight⟩ | ⟨r, mem, same⟩
      · exact drained _ _ _ _ flight
      · rw [List.filter_eq_nil_iff] at none
        exact none r mem (beq_iff_eq.mpr same)
  · exact fun here => (allHere run here).accepted

/-- The sub-loop's own thread sends the five bytes at address 100 from a callback. -/
def ownSend : List (Tid × Input) :=
  establishing.dropLast ++ [(.loop 1, .call (.send 1 100 5 (.wrote 5)))] ++ steps (.loop 1) 1

theorem sendsAccepted_iff_own : ∃ s, machine.Run (Server.new oneLoop) ownSend s ∧
    s.sends = [⟨.loop 1, 1, .kConnected, [0, 0, 0, 0, 0]⟩] ∧ s.SendsAccepted := by
  obtain ⟨s, run, sends⟩ := machine.exists_run (.new oneLoop) ownSend
    (fun s => s.sends = [⟨.loop 1, 1, .kConnected, [0, 0, 0, 0, 0]⟩]) (by decide +kernel)
  have here : machine.StepsMeet SendsHere (Server.new oneLoop) ownSend :=
    Lib.Machine.stepsMeet_of_checks (by decide +kernel)
  exact ⟨s, run, sends,
    (sendsAccepted_iff oneLoop ownSend s run (allHere run here).none).2 here⟩

/-- Another thread sends on the connected connection. -/
def otherSend : Tid × Input := (.user 0, .call (.send 1 100 5 (.wrote 5)))

/-- The message of the other thread is dropped, however long the sub-loop goes on. -/
theorem sendsAccepted_dropped :
    ∃ s, machine.Run (Server.new oneLoop) (establishing ++ [otherSend] ++ steps (.loop 1) 3) s ∧
      s.Drained ∧ s.sends = [⟨.user 0, 1, .kConnected, [0, 0, 0, 0, 0]⟩] ∧ s.runs = [] ∧
      (s.sys 1).loop.position = .polling ∧ ¬ s.SendsAccepted := by
  obtain ⟨m, before, none, elsewhere⟩ := machine.exists_run (.new oneLoop) establishing
    (fun s => s.sends = [] ∧ ¬ s.SendsHere otherSend) (by decide +kernel)
  obtain ⟨s, run, sends, runs, waits⟩ := machine.exists_run (.new oneLoop)
    (establishing ++ [otherSend] ++ steps (.loop 1) 3)
    (fun s => s.sends = [⟨.user 0, 1, .kConnected, [0, 0, 0, 0, 0]⟩] ∧ s.runs = [] ∧
      (s.sys 1).loop.position = .polling) (by decide +kernel)
  have broken := broken_of_run before elsewhere run
  rw [none, List.length_nil] at broken
  obtain ⟨call, at_zero, ⟨-, silent⟩ | ⟨state, -⟩⟩ := broken
  · refine ⟨s, run, ?_, sends, runs, waits, ?_⟩
    · intro c p len k flight
      have made := (numbered run.reachable).inFlight c p len k flight
      rw [sends] at made
      obtain rfl : k = 0 := Nat.lt_one_iff.mp made
      exact silent.inFlight c p len flight
    · intro accepted
      have once := accepted.connected 0 _ (by rw [sends]; rfl) rfl
      rw [runs] at once
      cases once
  · rw [sends] at at_zero
    cases at_zero
    exact absurd rfl state

end Server

end TcpMuduo
