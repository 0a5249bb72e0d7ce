import TcpMuduo.Net.Lifecycle

/-!
The callback protocol of a connection. `disbaleAll` leaves the channel in the
kernel, and until `connectDestroyed` has removed it another report can close the
connection once more or bring it another message.
-/

set_option autoImplicit false
set_option relaxedAutoImplicit false

namespace TcpMuduo

/-- What the callbacks of a connection promise: the first `connectionCallback_` is for UP, at
most one is for DOWN, `closeCallback_` is invoked at most once, and after DOWN neither
`connectionCallback_` nor `messageCallback_` is invoked again. -/
structure Protocol (events : List ConnEvent) : Prop where
  up : ∀ pre connected post, events = pre ++ .connectionCallback connected :: post →
    (∀ b, .connectionCallback b ∉ pre) → connected = true
  down : events.count (.connectionCallback false) ≤ 1
  close : events.count .closeCallback ≤ 1
  final : ∀ pre post, events = pre ++ .connectionCallback false :: post →
    (∀ b, .connectionCallback b ∉ post) ∧ ∀ readable, .messageCallback readable ∉ post

def opened (messages : List (List UInt8)) : List ConnEvent :=
  .connectionCallback true :: messages.map .messageCallback

private theorem count_opened (messages : List (List UInt8)) {event : ConnEvent}
    (up : .connectionCallback true ≠ event) (message : ∀ m, .messageCallback m ≠ event) :
    (opened messages).count event = 0 := by
  refine List.count_eq_zero_of_not_mem ?_
  intro mem
  rcases List.mem_cons.mp mem with same | mem
  · exact up same.symm
  · obtain ⟨m, -, same⟩ := List.mem_map.mp mem
    exact message m same

/-- The stages of a connection, by the callbacks it has invoked. -/
inductive Stage : List ConnEvent → Prop
  | connecting : Stage []
  | up (messages : List (List UInt8)) : Stage (opened messages)
  | down (messages : List (List UInt8)) : Stage (opened messages ++ [.connectionCallback false])
  | closed (messages : List (List UInt8)) :
      Stage (opened messages ++ [.connectionCallback false, .closeCallback])

namespace Stage

variable {events : List ConnEvent}

private theorem up_of (h : Stage events) (up : .connectionCallback true ∈ events)
    (still : .connectionCallback false ∉ events) : ∃ messages, events = opened messages := by
  cases h with
  | connecting => cases up
  | up messages => exact ⟨messages, rfl⟩
  | down messages => simp at still
  | closed messages => simp at still

private theorem down_of (h : Stage events)
    (first : events.count .closeCallback < events.count (.connectionCallback false)) :
    ∃ messages, events = opened messages ++ [.connectionCallback false] := by
  cases h with
  | connecting => cases first
  | up messages => simp [count_opened] at first
  | down messages => exact ⟨messages, rfl⟩
  | closed messages => simp [count_opened] at first

/-- After DOWN comes `closeCallback_` at most. -/
theorem final (h : Stage events) {pre post : List ConnEvent}
    (split : events = pre ++ .connectionCallback false :: post) :
    post = [] ∨ post = [.closeCallback] := by
  have unique {messages : List (List UInt8)} {rest : List ConnEvent}
      (none : .connectionCallback false ∉ rest)
      (same : opened messages ++ .connectionCallback false :: rest =
        pre ++ .connectionCallback false :: post) : post = rest := by
    have first : .connectionCallback false ∉ opened messages :=
      List.count_eq_zero.mp (count_opened messages (by simp) (by simp))
    exact ((List.append_cons_inj_of_notMem first none).mp same).2.2.symm
  cases h with
  | connecting => simp at split
  | up messages =>
    have mem : .connectionCallback false ∈ opened messages := by simp [split]
    exact absurd mem (List.count_eq_zero.mp (count_opened messages (by simp) (by simp)))
  | down messages => exact .inl (unique (by simp) split)
  | closed messages => exact .inr (unique (by simp) split)

theorem head (h : Stage events) {e : ConnEvent} (first : events.head? = some e) :
    e = .connectionCallback true := by
  cases h <;> cases first <;> rfl

private theorem protocol (h : Stage (callbacks events)) : Protocol events := by
  have count {event : ConnEvent} (counts : event.isCallback = true) :
      events.count event = (callbacks events).count event := (List.count_filter counts).symm
  have split {pre post : List ConnEvent} {connected : Bool}
      (whole : events = pre ++ .connectionCallback connected :: post) :
      callbacks events = callbacks pre ++ .connectionCallback connected :: callbacks post := by
    rw [whole, callbacks_append]
    rfl
  refine ⟨?_, ?_, ?_, ?_⟩
  · intro pre connected post whole none
    have whole := split whole
    cases hp : callbacks pre with
    | nil =>
      rw [hp] at whole
      cases h.head (by rw [whole]; rfl)
      rfl
    | cons first rest =>
      rw [hp] at whole
      have up : .connectionCallback true ∈ callbacks pre := by
        obtain rfl := h.head (e := first) (by rw [whole]; rfl)
        rw [hp]
        exact List.mem_cons_self
      exact absurd ((mem_callbacks rfl).mp up) (none true)
  · rw [count rfl]
    generalize callbacks events = told at h
    cases h <;> simp [count_opened]
  · rw [count rfl]
    generalize callbacks events = told at h
    cases h <;> simp [count_opened]
  · intro pre post whole
    have none {event : ConnEvent} (counts : event.isCallback = true)
        (other : event ≠ .closeCallback) : event ∉ post := by
      rw [← mem_callbacks counts]
      rcases h.final (split whole) with empty | empty <;> simp [empty, other]
    exact ⟨fun b => none rfl (by simp), fun m => none rfl (by simp)⟩

end Stage

namespace Server

variable {s s' : Server} {t : Tid} {input : Input} {eff : Effect} {config : ServerConfig}
variable {sys : LoopId → LoopSystem Tid Functor ChannelRef} {c : ConnId}

/-- No handler closes a connection or reads data from it after the user has been told that it is
down. -/
def HandledOpen (s : Server) (i : Tid × Input) : Prop :=
  match (s.stack i.1).head?, i.2 with
  | some (.callback c .close), _ => ¬ s.Down c
  | some (.callback c .read), .read r => 0 < r.ret → ¬ s.Down c
  | _, _ => True

instance (s : Server) (i : Tid × Input) : Decidable (s.HandledOpen i) :=
  decidable_of_bool (match (s.stack i.1).head?, i.2 with
    | some (.callback c .close), _ => decide (¬ s.Down c)
    | some (.callback c .read), .read r => decide (0 < r.ret → ¬ s.Down c)
    | _, _ => true) (by unfold HandledOpen; split <;> simp only [decide_eq_true_eq])

/-- `closeCallback_` is invoked only for an invocation of `connectionCallback_` for DOWN. -/
def ClosesOnce (s : Server) : Prop :=
  ∀ c, s.Up c → (s.stack (.loop (s.conn c).loop_)).count (.closeCallback c) +
    (callbacks (s.events c)).count .closeCallback ≤
      (callbacks (s.events c)).count (.connectionCallback false)

private theorem count_callbacks_close (op : ConnOp) (e : ConnEnv) :
    (op.callbacks e).count .closeCallback = if op = .closeCallback then 1 else 0 := by
  cases op with
  | handleRead r =>
    simp only [ConnOp.callbacks]
    split
    · split <;> simp
    · rfl
  | _ => simp [ConnOp.callbacks]

theorem ClosesOnce.step (confined : s.Confined) (inv : s.ClosesOnce)
    (does : Does s t (s.stack t).head? input eff) : (s.after t eff sys).ClosesOnce := by
  intro c up
  have stack := s.count_after_stack t eff sys
    (.loop (s.conn c).loop_) (.closeCallback c)
  have created : s.Created c := by
    rcases up_after up with old | new
    · exact confined.created c old
    · exact (confined.operates does new).1
  rw [(s.after_extends t eff sys).loop c created]
  have before : (s.stack (.loop (s.conn c).loop_)).count (.closeCallback c) +
      (callbacks (s.events c)).count .closeCallback ≤
        (callbacks (s.events c)).count (.connectionCallback false) := by
    by_cases old : s.Up c
    · exact inv c old
    · have none : (s.stack (.loop (s.conn c).loop_)).count (.closeCallback c) = 0 :=
        List.count_eq_zero_of_not_mem fun mem => old (confined.tasks _ _ mem).1.2
      rw [none, (confined.fresh c old).1]
      simp
  by_cases pushed : .closeCallback c ∈ eff.push
  · cases does.puts pushed with
    | carrying task f carries => cases carries
    | closeCallback c close change push =>
      have once : (if .loop (s.conn c).loop_ = t then eff.push.count (.closeCallback c) else 0) ≤
          1 := by
        rw [push]
        split <;> simp
      rcases s.callbacks_after t eff sys c with ⟨op, here, callbacks, -⟩ | ⟨other, -, -⟩
      · rw [change] at here
        cases here
        rw [callbacks, List.count_append, List.count_append, count_callbacks_close,
          count_callbacks_down, if_neg (by simp), if_pos (.inr rfl)]
        omega
      · exact absurd change (other _)
  · rw [List.count_eq_zero_of_not_mem pushed, ite_self] at stack
    rcases s.callbacks_after t eff sys c with ⟨op, here, callbacks, -⟩ | ⟨-, same, -⟩
    · rw [callbacks, List.count_append, List.count_append, count_callbacks_close]
      split
      · rename_i close
        subst close
        have thread := (confined.operates does here).2.2.resolve_right (by simp)
        have head : (s.stack t).head? = some (.closeCallback c) := by
          generalize (s.stack t).head? = first at does
          cases does.operation here
          rfl
        rw [if_pos ⟨thread.symm, head⟩] at stack
        omega
      · omega
    · rw [same]
      omega

private theorem closesOnce (h : machine.Reachable (Server.new config) s) : s.ClosesOnce := by
  refine h.invariant (I := ClosesOnce) (fun c up => by cases up) ?_
  intro m i m' reach inv hs
  obtain ⟨eff, sys, does, loops, rfl⟩ := step_does (t := i.1) (a := i.2) hs
  exact inv.step (confined reach) does

/-- Along steps whose handlers find the connection up, every connection goes through its stages
in order. -/
theorem stage_step (reach : machine.Reachable (Server.new config) s)
    (inv : ∀ c, Stage (callbacks (s.events c))) (here : s.HandledOpen (t, input))
    (h : machine.step s (t, input) = some s') : ∀ c, Stage (callbacks (s'.events c)) := by
  obtain ⟨eff, sys, does, loops, rfl⟩ := step_does h
  have confined := confined reach
  intro c
  rcases s.callbacks_after t eff sys c with ⟨op, change, callbacks, -⟩ | ⟨-, same, -⟩
  · rw [callbacks]
    have goes_on (up : s.Up c) (still : ¬ s.Down c) :
        ∃ messages, TcpMuduo.callbacks (s.events c) = opened messages :=
      (inv c).up_of ((mem_callbacks rfl).mpr up) fun down => still ((mem_callbacks rfl).mp down)
    have known : ∀ task ∈ (s.stack t).head?, task ∈ s.stack t ∧ task.At s t := fun task head =>
      ⟨List.mem_of_mem_head? head, confined.tasks t task (List.mem_of_mem_head? head)⟩
    have operation := does.operation change
    unfold HandledOpen at here
    generalize (s.stack t).head? = first at operation known here
    cases operation with
    | connectEstablished =>
      have fresh := confined.fresh c (not_up_of_establish reach (known _ rfl).1)
      rw [fresh.1]
      exact .up []
    | connectDestroyedClose =>
      obtain ⟨mem, ⟨-, up⟩, -⟩ := known _ rfl
      obtain ⟨messages, told⟩ := goes_on up ((closing reach).pending t c mem)
      rw [told]
      exact .down messages
    | handleClose =>
      obtain ⟨-, ⟨-, up⟩, -⟩ := known _ rfl
      obtain ⟨messages, told⟩ := goes_on up here
      rw [told]
      exact .down messages
    | closeCallback =>
      obtain ⟨mem, ⟨-, up⟩, rfl⟩ := known _ rfl
      have waiting := List.count_pos_iff.mpr mem
      have once := closesOnce reach c up
      obtain ⟨messages, told⟩ := (inv c).down_of (by omega)
      rw [told, List.append_assoc]
      exact .closed messages
    | handleRead r =>
      obtain ⟨-, ⟨-, up⟩, -⟩ := known _ rfl
      simp only [ConnOp.callbacks]
      split
      · split
        · rename_i some
          obtain ⟨messages, told⟩ := goes_on up (here some)
          rw [told]
          have longer := Stage.up (messages ++
            [((s.env c).conn.inputBuffer_.readFd r ‹_›).content])
          simpa [opened] using longer
        · simpa using inv c
      · simpa using inv c
    | connectDestroyedRemove | handleWriteDrain r | handleWriteEnd | send m p len r up connected own
    | sendInLoop p len call r | shutdownInLoop | shutdownStore | writeCompleteCallback
    | highWaterMarkCallback size | retrieve len => simpa [ConnOp.callbacks] using inv c
  · rw [same]
    exact inv c

/-- A handler that finds the connection down invokes another callback. -/
theorem protocol_broken (here : ¬ s.HandledOpen (t, input))
    (h : machine.step s (t, input) = some s') : ∃ c, ¬ Protocol (s'.events c) := by
  obtain ⟨eff, sys, does, loops, rfl⟩ := step_does h
  have appended {c : ConnId} {op : ConnOp} (change : eff.change = .conn c op) :
      ∃ more, (s.after t eff sys).events c = s.events c ++ more ∧
        callbacks more = op.callbacks (s.env c) := by
    obtain ⟨more, grown⟩ := (s.after_extends t eff sys).events c
    refine ⟨more, grown.symm, ?_⟩
    rcases s.callbacks_after t eff sys c with ⟨op', change', callbacks, -⟩ | ⟨other, -, -⟩
    · rw [change] at change'
      cases change'
      rw [← grown, callbacks_append] at callbacks
      exact List.append_cancel_left callbacks
    · exact absurd change (other op)
  unfold HandledOpen at here
  split at here
  · rename_i c head
    rw [head] at does
    obtain ⟨rfl, change⟩ : input = .run ∧ eff.change = .conn c .handleClose := by
      cases does
      exact ⟨rfl, rfl⟩
    obtain ⟨more, grown, new⟩ := appended change
    refine ⟨c, ?_⟩
    intro protocol
    have first := List.count_pos_iff.mpr (not_not.mp here)
    have second : .connectionCallback false ∈ more := by
      rw [← mem_callbacks rfl, new]
      exact List.mem_singleton_self _
    have twice := protocol.down
    rw [grown, List.count_append] at twice
    have second := List.count_pos_iff.mpr second
    omega
  · rename_i c r head read
    dsimp only at read
    subst read
    obtain ⟨some, down⟩ := Classical.not_imp.mp here
    rw [head] at does
    obtain ⟨change, fits⟩ : eff.change = .conn c (.handleRead r) ∧
        r.Fits (s.conn c).inputBuffer_.iovLen := by
      cases does with
      | handleRead t c r fits => exact ⟨rfl, fits⟩
    obtain ⟨more, grown, new⟩ := appended change
    refine ⟨c, ?_⟩
    intro protocol
    obtain ⟨pre, post, split⟩ := List.append_of_mem (not_not.mp down)
    obtain ⟨-, none⟩ := protocol.final pre (post ++ more) (by rw [grown, split]; simp)
    refine none ((s.env c).conn.inputBuffer_.readFd r fits).content (List.mem_append_right _ ?_)
    have fits : r.Fits (s.env c).conn.inputBuffer_.iovLen := fits
    rw [← mem_callbacks rfl, new]
    simp only [ConnOp.callbacks, dif_pos fits, if_pos some]
    exact List.mem_singleton_self _
  · exact absurd trivial here

/-- The connections of a server keep to the callback protocol exactly in the runs in which no
handler closes a connection or reads data from it after DOWN. -/
theorem protocol_iff (config : ServerConfig) (inputs : List (Tid × Input)) (s : Server)
    (run : machine.Run (Server.new config) inputs s) :
    machine.Throughout (fun _ s => ∀ c, Protocol (s.events c)) (Server.new config) inputs ↔
      machine.StepsMeet HandledOpen (Server.new config) inputs := by
  constructor
  · intro kept
    refine kept.stepsMeet run ?_
    intro pre m i m' _ _ hs after
    by_contra late
    obtain ⟨c, broken⟩ := protocol_broken late hs
    exact broken (after c)
  · intro here pre m hpre before
    have stages : ∀ c, Stage (callbacks (m.events c)) := by
      refine before.invariant_of_stepsMeet
        (I := fun _ s => ∀ c, Stage (callbacks (s.events c))) (here.before hpre) ?_ ?_
      · exact fun c => Stage.connecting
      · intro _ m i m' reach inv here hs
        exact stage_step reach.reachable inv here hs
    exact fun c => (stages c).protocol

/-- The connection is established and the sub-loop waits. -/
def waiting : List (Tid × Input) := establishing ++ steps (.loop 1) 3

/-- The connection is reported as readable and read. -/
def reading (r : ReadvResult) : List (Tid × Input) :=
  [(.loop 1, .poll [(.conn 1, EPOLLIN)]), (.loop 1, .run), (.loop 1, .read r)]

/-- The peer sends a message and closes, and the connection goes through the base loop before
the sub-loop polls again. -/
def closingOnce : List (Tid × Input) :=
  waiting ++ reading (.got [104, 105]) ++ steps (.loop 1) 6 ++ reading (.got []) ++
    steps (.loop 1) 5 ++ steps (.loop 0) 7 ++ steps (.loop 1) 6

theorem protocol_iff_once : ∃ s, machine.Run (Server.new oneLoop) closingOnce s ∧
    s.events 1 = [.connectionCallback true, .messageCallback [104, 105],
      .connectionCallback false, .closeCallback] ∧
    machine.Throughout (fun _ s => ∀ c, Protocol (s.events c)) (Server.new oneLoop)
      closingOnce := by
  obtain ⟨s, run, events⟩ := machine.exists_run (.new oneLoop) closingOnce
    (fun s => s.events 1 = [.connectionCallback true, .messageCallback [104, 105],
      .connectionCallback false, .closeCallback]) (by decide +kernel)
  have here : machine.StepsMeet HandledOpen (Server.new oneLoop) closingOnce :=
    Lib.Machine.stepsMeet_of_checks (by decide +kernel)
  exact ⟨s, run, events, (protocol_iff oneLoop closingOnce s run).2 here⟩

/-- The peer closes, and the sub-loop polls again before the base loop has run. -/
def closingTwice : List (Tid × Input) :=
  waiting ++ reading (.got []) ++ steps (.loop 1) 10 ++ reading (.got []) ++ steps (.loop 1) 1

/-- The user is told twice that the connection is down. -/
theorem protocol_twice : ∃ s, machine.Run (Server.new oneLoop) closingTwice s ∧
    s.events 1 = [.connectionCallback true, .connectionCallback false, .closeCallback,
      .connectionCallback false] ∧ ¬ Protocol (s.events 1) := by
  obtain ⟨s, run, events⟩ := machine.exists_run (.new oneLoop) closingTwice
    (fun s => s.events 1 = [.connectionCallback true, .connectionCallback false, .closeCallback,
      .connectionCallback false]) (by decide +kernel)
  refine ⟨s, run, events, ?_⟩
  intro protocol
  have once := protocol.down
  rw [events] at once
  exact absurd once (by decide)

end Server

end TcpMuduo
