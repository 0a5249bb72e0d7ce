import TcpMuduo.Net.ConnOps
import TcpMuduo.Net.EventQueue

/-!
The steps of the server, one constructor for each, and what every step leaves
alone.
-/

set_option autoImplicit false
set_option relaxedAutoImplicit false

namespace TcpMuduo

namespace Server

variable {s s' : Server} {t : Tid} {input : Input} {eff : Effect}

/-- What the thread `t` does with its first task; a loop's thread without a task goes on in
`loop()`. -/
inductive Does (s : Server) : Tid → Option Task → Input → Effect → Prop
  | poll (l : LoopId) (active : List (ChannelRef × EventMask))
      (here : (s.sys l).loop.position = .polling) (reports : s.Reports l active = true) :
      Does s (.loop l) none (.poll active)
        { loop := some (l, .advance (active.map Prod.fst)), change := .fillActiveChannels active }
  | dispatch (l : LoopId) (channel : ChannelRef) (rest : List ChannelRef)
      (here : (s.sys l).loop.position = .dispatching (channel :: rest)) :
      Does s (.loop l) none .run { loop := some (l, .advance []), push := s.handleEvent channel }
  | call (l : LoopId) (f : Functor) (rest : List Functor)
      (here : (s.sys l).loop.position = .running (f :: rest)) :
      Does s (.loop l) none .run { loop := some (l, .advance []), push := [.functor f] }
  | destroy (order : List ConnId) (may : s.MayDestroy order) :
      Does s (.loop 0) none (.destroy order) { push := s.destructor order, change := .destroy }
  | userDestroy (order : List ConnId) (alone : s.stack (.loop 0) = [.user none])
      (may : s.MayDestroy order) :
      Does s (.loop 0) (some (.user none)) (.destroy order)
        { push := s.destructor order ++ [.user none], change := .destroy }
  | turn (l : LoopId) (waits : (s.sys l).loop.position ≠ .polling)
      (active : ∀ channel rest, (s.sys l).loop.position ≠ .dispatching (channel :: rest))
      (batch : ∀ f rest, (s.sys l).loop.position ≠ .running (f :: rest)) :
      Does s (.loop l) none .run { loop := some (l, .advance []) }
  | send (t : Tid) (m : Option ConnId) (c : ConnId) (p : Address) (len : Nat) (r : WriteResult)
      (up : s.Up c) (connected : (s.conn c).state_ = .kConnected)
      (own : t = .loop (s.conn c).loop_) (fits : r.Fits len) :
      Does s t (some (.user m)) (.call (.send c p len r))
        { change := .conn c (.sendInLoop (s.bytes p len) r),
          push := s.queued c (.sendInLoop (s.bytes p len) r) ++ [.user m],
          sent := [⟨t, c, (s.conn c).state_, s.bytes p len⟩],
          ran := [⟨s.sends.length, t, s.bytes p len⟩] }
  | sendElsewhere (t : Tid) (m : Option ConnId) (c : ConnId) (p : Address) (len : Nat)
      (r : WriteResult) (up : s.Up c) (connected : (s.conn c).state_ = .kConnected)
      (other : t ≠ .loop (s.conn c).loop_) :
      Does s t (some (.user m)) (.call (.send c p len r))
        { push := [.user m], sent := [⟨t, c, (s.conn c).state_, s.bytes p len⟩] }
  | sendLate (t : Tid) (m : Option ConnId) (c : ConnId) (p : Address) (len : Nat)
      (r : WriteResult) (up : s.Up c) (state : (s.conn c).state_ ≠ .kConnected) :
      Does s t (some (.user m)) (.call (.send c p len r))
        { push := [runInLoop t (s.conn c).loop_ (.sendInLoop c p len s.sends.length), .user m],
          sent := [⟨t, c, (s.conn c).state_, s.bytes p len⟩] }
  | shutdown (t : Tid) (m : Option ConnId) (c : ConnId) (up : s.Up c)
      (connected : (s.conn c).state_ = .kConnected) :
      Does s t (some (.user m)) (.call (.shutdown c)) { push := [.shutdownStore c, .user m] }
  | shutdownLate (t : Tid) (m : Option ConnId) (c : ConnId) (up : s.Up c)
      (state : (s.conn c).state_ ≠ .kConnected) :
      Does s t (some (.user m)) (.call (.shutdown c)) { push := [.user m] }
  | userQueue (t : Tid) (m : Option ConnId) (l : LoopId) :
      Does s t (some (.user m)) (.call (.queueInLoop l))
        { push := [.queueInLoop l .user, .user m] }
  | userRun (t : Tid) (m : Option ConnId) (l : LoopId) :
      Does s t (some (.user m)) (.call (.runInLoop l)) { push := [runInLoop t l .user, .user m] }
  | userQuit (t : Tid) (m : Option ConnId) :
      Does s t (some (.user m)) (.call .quit) { push := [.quit 0, .user m] }
  | retrieve (t : Tid) (c : ConnId) (len : Nat) :
      Does s t (some (.user (some c))) (.call (.retrieve len))
        { change := .conn c (.retrieve len), push := [.user (some c)] }
  | store (t : Tid) (m : Option ConnId) (p : Address) (byte : UInt8) :
      Does s t (some (.user m)) (.call (.store p byte))
        { change := .store p byte, push := [.user m] }
  | listen (t : Tid) :
      Does s t (some (.functor .listen)) .run { change := .acceptor .enableReading }
  | connectEstablished (t : Tid) (c : ConnId) :
      Does s t (some (.functor (.connectEstablished c))) .run
        { change := .conn c .connectEstablished, push := [.user none] }
  | connectDestroyed (t : Tid) (c : ConnId) (connected : (s.conn c).state_ = .kConnected) :
      Does s t (some (.functor (.connectDestroyed c))) .run { push := [.connectDestroyedClose c] }
  | connectDestroyedLate (t : Tid) (c : ConnId) (state : (s.conn c).state_ ≠ .kConnected) :
      Does s t (some (.functor (.connectDestroyed c))) .run { push := [.connectDestroyedRemove c] }
  | removeConnectionInLoop (t : Tid) (c : ConnId) :
      Does s t (some (.functor (.removeConnectionInLoop c))) .run
        { change := .erase c, push := [.queueInLoop (s.conn c).loop_ (.connectDestroyed c)] }
  | sendInLoop (t : Tid) (c : ConnId) (p : Address) (len call : Nat) (r : WriteResult)
      (fits : r.Fits len) :
      Does s t (some (.functor (.sendInLoop c p len call))) (.write r)
        { change := .conn c (.sendInLoop (s.bytes p len) r),
          push := s.queued c (.sendInLoop (s.bytes p len) r),
          ran := [⟨call, t, s.bytes p len⟩] }
  | shutdownInLoop (t : Tid) (c : ConnId) :
      Does s t (some (.functor (.shutdownInLoop c))) .run { change := .conn c .shutdownInLoop }
  | writeCompleteCallback (t : Tid) (c : ConnId) :
      Does s t (some (.functor (.writeCompleteCallback c))) .run
        { change := .conn c .writeCompleteCallback, push := [.user none] }
  | highWaterMarkCallback (t : Tid) (c : ConnId) (size : Nat) :
      Does s t (some (.functor (.highWaterMarkCallback c size))) .run
        { change := .conn c (.highWaterMarkCallback size), push := [.user none] }
  | userFunctor (t : Tid) : Does s t (some (.functor .user)) .run { push := [.user none] }
  | queueInLoop (t : Tid) (l : LoopId) (f : Functor) :
      Does s t (some (.queueInLoop l f)) .run
        { loop := some (l, .emplaceBack t f), push := [.queueWakeup l] }
  | queueWakeup (t : Tid) (l : LoopId) :
      Does s t (some (.queueWakeup l)) .run { loop := some (l, .queueWakeup t) }
  | quit (t : Tid) (l : LoopId) :
      Does s t (some (.quit l)) .run { loop := some (l, .storeQuit t), push := [.quitWakeup l] }
  | quitWakeup (t : Tid) (l : LoopId) :
      Does s t (some (.quitWakeup l)) .run { loop := some (l, .quitWakeup t) }
  | accept (t : Tid) (connfd : Nat) (fresh : connfd ∉ s.fds) :
      Does s t (some .accept) (.accept (some connfd))
        { change := .newConnection connfd,
          push := [runInLoop t s.getNextLoop.1 (.connectEstablished s.nextConnId_)] }
  | acceptChannel (t : Tid) (op : ChannelOp) :
      Does s t (some (.acceptChannel op)) .run { change := .acceptor op }
  | handleClose (t : Tid) (c : ConnId) :
      Does s t (some (.callback c .close)) .run
        { change := .conn c .handleClose, push := [.user none, .closeCallback c] }
  | handleRead (t : Tid) (c : ConnId) (r : ReadvResult)
      (fits : r.Fits (s.conn c).inputBuffer_.iovLen) :
      Does s t (some (.callback c .read)) (.read r)
        { change := .conn c (.handleRead r), push := [readTask c r] }
  | handleWrite (t : Tid) (c : ConnId) (r : WriteResult)
      (fits : r.Fits (s.env c).conn.outputBuffer_.readableBytes) :
      Does s t (some (.callback c .write)) (.write r)
        { change := .conn c (.handleWriteDrain r),
          push := s.queued c (.handleWriteDrain r) ++
            if (TcpConnection.handleWriteDrain c r (s.env c)).2 then [.handleWriteEnd c] else [] }
  | handleWriteEnd (t : Tid) (c : ConnId) :
      Does s t (some (.handleWriteEnd c)) .run { change := .conn c .handleWriteEnd }
  | closeCallback (t : Tid) (c : ConnId) :
      Does s t (some (.closeCallback c)) .run
        { change := .conn c .closeCallback, push := [runInLoop t 0 (.removeConnectionInLoop c)] }
  | connectDestroyedClose (t : Tid) (c : ConnId) :
      Does s t (some (.connectDestroyedClose c)) .run
        { change := .conn c .connectDestroyedClose,
          push := [.user none, .connectDestroyedRemove c] }
  | connectDestroyedRemove (t : Tid) (c : ConnId) :
      Does s t (some (.connectDestroyedRemove c)) .run { change := .conn c .connectDestroyedRemove }
  | shutdownStore (t : Tid) (c : ConnId) :
      Does s t (some (.shutdownStore c)) .run
        { change := .conn c .shutdownStore,
          push := [runInLoop t (s.conn c).loop_ (.shutdownInLoop c)] }
  | returns (t : Tid) (m : Option ConnId) : Does s t (some (.user m)) .run {}
  | handleError (t : Tid) (c : ConnId) : Does s t (some (.callback c .error)) .run {}
  | acceptFails (t : Tid) : Does s t (some .accept) (.accept none) {}
  | joined (t : Tid) (l : LoopId) (here : (s.sys l).loop.position = .stopped) :
      Does s t (some (.join l)) .run {}
  | started (t : Tid) (l : LoopId) (published : s.Published l) :
      Does s t (some (.startLoop l)) .run {}

theorem mem_destructor {order : List ConnId} {task : Task} (mem : task ∈ s.destructor order) :
    (∃ c ∈ order, task = runInLoop (.loop 0) (s.conn c).loop_ (.connectDestroyed c)) ∨
      (∃ l, task = .quit l ∨ task = .join l) ∨ ∃ op, task = .acceptChannel op := by
  simp only [destructor, List.mem_append, List.mem_map, List.mem_flatMap, List.mem_cons,
    List.not_mem_nil, or_false] at mem
  rcases mem with (⟨c, listed, rfl⟩ | ⟨l, -, same⟩) | same | same
  · exact .inl ⟨c, listed, rfl⟩
  · exact .inr (.inl ⟨l, same⟩)
  · exact .inr (.inr ⟨_, same⟩)
  · exact .inr (.inr ⟨_, same⟩)

private theorem loopEffect_does {l : LoopId} (h : s.loopEffect l input = some eff) :
    Does s (.loop l) none input eff := by
  unfold loopEffect at h
  split at h
  · split at h
    · rename_i here
      split at h
      · rename_i reports
        cases h
        exact .poll l _ here reports
      · cases h
    · cases h
    · rename_i here
      cases h
      exact .dispatch l _ _ here
    · rename_i here
      cases h
      exact .call l _ _ here
    · rename_i here
      split at h
      · rename_i may
        cases h
        obtain ⟨rfl, may⟩ := may
        exact .destroy _ may
      · cases h
    · rename_i waits active batch
      cases h
      exact .turn l waits active batch
    · cases h
  · cases h

private theorem functorEffect_does {f : Functor} (h : s.functorEffect t f input = some eff) :
    Does s t (some (.functor f)) input eff := by
  unfold functorEffect at h
  split at h
  · cases h
    exact .listen t
  · cases h
    exact .connectEstablished t _
  · split at h
    · rename_i connected
      cases h
      exact .connectDestroyed t _ connected
    · rename_i state
      cases h
      exact .connectDestroyedLate t _ state
  · cases h
    exact .removeConnectionInLoop t _
  · split at h
    · rename_i fits
      cases h
      exact .sendInLoop t _ _ _ _ _ fits
    · cases h
  · cases h
    exact .shutdownInLoop t _
  · cases h
    exact .writeCompleteCallback t _
  · cases h
    exact .highWaterMarkCallback t _ _
  · cases h
    exact .userFunctor t
  · cases h

private theorem callEffect_does {m : Option ConnId} {u : UserCall}
    (h : s.callEffect t m u = some eff) :
    Does s t (some (.user m)) (.call u) { eff with push := eff.push ++ [.user m] } := by
  unfold callEffect at h
  split at h
  · split at h
    · rename_i up
      unfold sendEffect at h
      dsimp only at h
      split at h
      · rename_i connected
        split at h
        · rename_i own
          split at h
          · rename_i fits
            cases h
            exact .send t m _ _ _ _ up connected own fits
          · cases h
        · rename_i other
          cases h
          exact .sendElsewhere t m _ _ _ _ up connected other
      · rename_i state
        cases h
        exact .sendLate t m _ _ _ _ up state
    · cases h
  · split at h
    · rename_i up
      split at h
      · rename_i connected
        cases h
        exact .shutdown t m _ up connected
      · rename_i state
        cases h
        exact .shutdownLate t m _ up state
    · cases h
  · split at h
    · cases h
      exact .userQueue t m _
    · cases h
  · split at h
    · cases h
      exact .userRun t m _
    · cases h
  · cases h
    exact .userQuit t m
  · cases m with
    | none => cases h
    | some c =>
      cases h
      exact .retrieve t c _
  · cases h
    exact .store t m _ _

private theorem taskEffect_does {task : Task} (h : s.taskEffect t task input = some eff) :
    Does s t (some task) input eff := by
  unfold taskEffect at h
  split at h
  · obtain ⟨eff, he, rfl⟩ := Option.map_eq_some_iff.mp h
    exact callEffect_does he
  · split at h
    · rename_i may
      cases h
      obtain ⟨rfl, alone, may⟩ := may
      exact .userDestroy _ alone may
    · cases h
  · cases h
    exact .returns t _
  · exact functorEffect_does h
  · cases h
    exact .queueInLoop t _ _
  · cases h
    exact .queueWakeup t _
  · cases h
    exact .quit t _
  · cases h
    exact .quitWakeup t _
  · split at h
    · rename_i here
      cases h
      exact .joined t _ here
    · cases h
  · split at h
    · rename_i published
      cases h
      exact .started t _ published
    · cases h
  · split at h
    · cases h
    · rename_i fresh
      cases h
      exact .accept t _ fresh
  · cases h
    exact .acceptFails t
  · cases h
    exact .acceptChannel t _
  · cases h
    exact .handleClose t _
  · cases h
    exact .handleError t _
  · split at h
    · rename_i fits
      cases h
      exact .handleRead t _ _ fits
    · cases h
  · split at h
    · rename_i fits
      cases h
      exact .handleWrite t _ _ fits
    · cases h
  · cases h
    exact .handleWriteEnd t _
  · cases h
    exact .closeCallback t _
  · cases h
    exact .connectDestroyedClose t _
  · cases h
    exact .connectDestroyedRemove t _
  · cases h
    exact .shutdownStore t _
  · cases h

theorem effect_does (h : s.effect t input = some eff) :
    Does s t (s.stack t).head? input eff := by
  unfold effect at h
  split at h
  · rename_i stack
    rw [stack]
    exact taskEffect_does h
  · rename_i stack
    rw [stack]
    exact loopEffect_does h
  · cases h

/-- A step is something the thread does, together with its step of a loop. -/
theorem step_does {a : Input} (h : machine.step s (t, a) = some s') :
    ∃ eff sys, Does s t (s.stack t).head? a eff ∧ s.loopStep eff.loop = some sys ∧
      s' = s.after t eff sys := by
  simp only [machine, step] at h
  obtain ⟨eff, he, h⟩ := Option.bind_eq_some_iff.mp h
  obtain ⟨sys, hsys, rfl⟩ := Option.map_eq_some_iff.mp h
  exact ⟨eff, sys, effect_does he, hsys, rfl⟩

/-- The first task and the input of a step that operates on the connection `c`. -/
inductive Operation (s : Server) (t : Tid) (c : ConnId) : ConnOp → Option Task → Input → Prop
  | connectEstablished :
      Operation s t c .connectEstablished (some (.functor (.connectEstablished c))) .run
  | connectDestroyedClose :
      Operation s t c .connectDestroyedClose (some (.connectDestroyedClose c)) .run
  | connectDestroyedRemove :
      Operation s t c .connectDestroyedRemove (some (.connectDestroyedRemove c)) .run
  | handleRead (r : ReadvResult) :
      Operation s t c (.handleRead r) (some (.callback c .read)) (.read r)
  | handleWriteDrain (r : WriteResult) :
      Operation s t c (.handleWriteDrain r) (some (.callback c .write)) (.write r)
  | handleWriteEnd : Operation s t c .handleWriteEnd (some (.handleWriteEnd c)) .run
  | handleClose : Operation s t c .handleClose (some (.callback c .close)) .run
  | send (m : Option ConnId) (p : Address) (len : Nat) (r : WriteResult) (up : s.Up c)
      (connected : (s.conn c).state_ = .kConnected) (own : t = .loop (s.conn c).loop_) :
      Operation s t c (.sendInLoop (s.bytes p len) r) (some (.user m)) (.call (.send c p len r))
  | sendInLoop (p : Address) (len call : Nat) (r : WriteResult) :
      Operation s t c (.sendInLoop (s.bytes p len) r) (some (.functor (.sendInLoop c p len call)))
        (.write r)
  | shutdownInLoop :
      Operation s t c .shutdownInLoop (some (.functor (.shutdownInLoop c))) .run
  | shutdownStore : Operation s t c .shutdownStore (some (.shutdownStore c)) .run
  | closeCallback : Operation s t c .closeCallback (some (.closeCallback c)) .run
  | writeCompleteCallback :
      Operation s t c .writeCompleteCallback (some (.functor (.writeCompleteCallback c))) .run
  | highWaterMarkCallback (size : Nat) :
      Operation s t c (.highWaterMarkCallback size)
        (some (.functor (.highWaterMarkCallback c size))) .run
  | retrieve (len : Nat) :
      Operation s t c (.retrieve len) (some (.user (some c))) (.call (.retrieve len))

theorem Does.operation {head : Option Task} {c : ConnId} {op : ConnOp}
    (does : Does s t head input eff) (h : eff.change = .conn c op) :
    Operation s t c op head input := by
  cases does with
  | send t m c' p len r up connected own fits =>
    cases h
    exact .send m p len r up connected own
  | sendInLoop t c' p len call r fits =>
    cases h
    exact .sendInLoop p len call r
  | _ => cases h <;> constructor

theorem loopStep_at {sys : LoopId → LoopSystem Tid Functor ChannelRef}
    (h : s.loopStep eff.loop = some sys) (l : LoopId) :
    (sys l = s.sys l ∧ ∀ i, eff.loop ≠ some (l, i)) ∨
      ∃ i, eff.loop = some (l, i) ∧
        (LoopSystem.machine true).step (s.sys l) i = some (sys l) := by
  cases hl : eff.loop with
  | none =>
    rw [hl] at h
    obtain rfl : s.sys = sys := Option.some.inj h
    exact .inl ⟨rfl, by simp⟩
  | some li =>
    obtain ⟨l', i⟩ := li
    rw [hl] at h
    obtain ⟨next, step, rfl⟩ := Option.map_eq_some_iff.mp h
    by_cases same : l = l'
    · subst same
      exact .inr ⟨i, rfl, by rw [step, Function.update_self]⟩
    · refine .inl ⟨Function.update_of_ne same _ _, ?_⟩
      rintro i he
      cases he
      exact same rfl

theorem step_of_loopStep {sys : LoopId → LoopSystem Tid Functor ChannelRef} {l : LoopId}
    {i : LoopInput Tid Functor ChannelRef} (h : s.loopStep eff.loop = some sys)
    (loop : eff.loop = some (l, i)) :
    (LoopSystem.machine true).step (s.sys l) i = some (sys l) := by
  rcases loopStep_at h l with ⟨-, none⟩ | ⟨j, same, step⟩
  · exact absurd loop (none i)
  · rw [loop] at same
    cases same
    exact step

/-- Each loop of a server is a loop that other threads call at any time. -/
theorem loop_simulation (l : LoopId) :
    Lib.Simulation machine (LoopSystem.machine true) (fun s : Server => s.sys l) := by
  rintro s ⟨t, input⟩ s' h
  obtain ⟨eff, sys, does, loops, rfl⟩ := step_does h
  rcases loopStep_at loops l with ⟨same, -⟩ | ⟨i, -, step⟩
  · exact .inl same
  · exact .inr ⟨i, step⟩

theorem loops_reachable {config : ServerConfig} (h : machine.Reachable (Server.new config) s)
    (l : LoopId) :
    (LoopSystem.machine true).Reachable (LoopSystem.new (.loop l) .wakeup) (s.sys l) :=
  (loop_simulation l).reachable h

section After

variable (s) (t) (eff) (sys : LoopId → LoopSystem Tid Functor ChannelRef)

@[simp] theorem after_stack :
    (s.after t eff sys).stack = Function.update s.stack t (eff.push ++ (s.stack t).tail) := rfl
@[simp] theorem after_sys : (s.after t eff sys).sys = sys := rfl
@[simp] theorem after_sends : (s.after t eff sys).sends = s.sends ++ eff.sent := rfl
@[simp] theorem after_runs : (s.after t eff sys).runs = s.runs ++ eff.ran := rfl
@[simp] theorem after_config : (s.after t eff sys).config = (s.act eff.change).config := rfl
@[simp] theorem after_conn : (s.after t eff sys).conn = (s.act eff.change).conn := rfl
@[simp] theorem after_events : (s.after t eff sys).events = (s.act eff.change).events := rfl
@[simp] theorem after_poller : (s.after t eff sys).poller = (s.act eff.change).poller := rfl
@[simp] theorem after_nextConnId :
    (s.after t eff sys).nextConnId_ = (s.act eff.change).nextConnId_ := rfl
@[simp] theorem after_connections :
    (s.after t eff sys).connections_ = (s.act eff.change).connections_ := rfl

theorem stack_cases {u : Tid} {task : Task} (h : task ∈ (s.after t eff sys).stack u) :
    u = t ∧ task ∈ eff.push ∨ u = t ∧ task ∈ (s.stack t).tail ∨ u ≠ t ∧ task ∈ s.stack u := by
  rw [after_stack, Function.update_apply] at h
  split at h
  · rename_i same
    exact (List.mem_append.mp h).imp (⟨same, ·⟩) fun left => .inl ⟨same, left⟩
  · rename_i other
    exact .inr (.inr ⟨other, h⟩)

theorem mem_after_stack {u : Tid} {task : Task} (h : task ∈ (s.after t eff sys).stack u) :
    u = t ∧ task ∈ eff.push ∨ task ∈ s.stack u := by
  rcases stack_cases s t eff sys h with pushed | ⟨rfl, left⟩ | ⟨-, old⟩
  · exact .inl pushed
  · exact .inr (List.mem_of_mem_tail left)
  · exact .inr old

theorem mem_tail_after {u : Tid} {task : Task} (h : task ∈ ((s.after t eff sys).stack u).tail) :
    u = t ∧ task ∈ eff.push.tail ∨ task ∈ (s.stack u).tail := by
  rw [after_stack, Function.update_apply] at h
  split at h
  · rename_i same
    subst same
    cases hp : eff.push with
    | nil =>
      rw [hp] at h
      exact .inr (List.mem_of_mem_tail h)
    | cons first rest =>
      rw [hp] at h
      exact (List.mem_append.mp h).imp_left (⟨rfl, ·⟩)
  · exact .inr h

theorem pushed_mem_stack {task : Task} (h : task ∈ eff.push) :
    task ∈ (s.after t eff sys).stack t := by
  rw [after_stack, Function.update_self]
  exact List.mem_append_left _ h

end After

/-- What a change does to the connection `c`: an operation on it, its creation, or nothing but
`set_revents`. -/
inductive Touches (s : Server) (change : Change) (c : ConnId) (s' : Server) : Prop
  | op (op : ConnOp) (here : change = .conn c op)
      (conn : s'.conn c = (op.apply c (s.env c)).conn)
      (events : s'.events c = (op.apply c (s.env c)).events)
  | new (connfd : Nat) (here : change = .newConnection connfd) (this : c = s.nextConnId_)
      (conn : s'.conn c =
        TcpConnection.new s.getNextLoop.1 s.connName connfd s.config.writeCompleteCallback_)
      (events : s'.events c = s.events c)
  | idle (other : ∀ op, change ≠ .conn c op) (revents : EventMask)
      (conn : s'.conn c =
        { s.conn c with channel_ := { (s.conn c).channel_ with revents_ := revents } })
      (events : s'.events c = s.events c)

theorem act_touches (s : Server) (change : Change) (c : ConnId) :
    Touches s change c (s.act change) := by
  cases change with
  | conn c' op =>
    by_cases same : c = c'
    · subst same
      exact .op op rfl (Function.update_self ..) (Function.update_self ..)
    · exact .idle (fun op he => by cases he; exact same rfl) _ (Function.update_of_ne same _ _)
        (Function.update_of_ne same _ _)
  | newConnection connfd =>
    by_cases this : c = s.nextConnId_
    · subst this
      exact .new connfd rfl rfl (Function.update_self ..) rfl
    · exact .idle (by simp) _ (Function.update_of_ne this _ _) rfl
  | fillActiveChannels active =>
    cases hl : active.lookup (ChannelRef.conn c) with
    | none => exact .idle (by simp) _ (by simp only [act, fillActiveChannels, hl]; rfl) rfl
    | some revents =>
      exact .idle (by simp) revents (by simp only [act, fillActiveChannels, hl]) rfl
  | nothing | acceptor op | erase c' | store p byte | destroy => exact .idle (by simp) _ rfl rfl

theorem act_interest {change : Change} {l : LoopId} {fd : Nat} {event : EventMask × ChannelRef}
    (h : ((s.act change).poller l).interest fd = some event) :
    (s.poller l).interest fd = some event ∨
      (∃ op, change = .acceptor op ∧ l = 0 ∧ event.2 = .acceptor) ∨
      ∃ c op, change = .conn c op ∧ l = (s.conn c).loop_ ∧ event.2 = .conn c ∧
        op ≠ .connectDestroyedRemove := by
  cases change with
  | conn c op =>
    simp only [act, put, Function.update_apply] at h
    split at h
    · rename_i own
      subst own
      cases (op.spec c (s.env c)).registers with
      | same channel poller =>
        rw [poller] at h
        exact .inl h
      | op chop tied mem channel poller =>
        rw [poller] at h
        rcases Channel.apply_interest _ h with old | ⟨own, other⟩
        · exact .inl old
        · refine .inr (.inr ⟨c, op, rfl, rfl, own, ?_⟩)
          rintro rfl
          cases mem
          exact other rfl
    · exact .inl h
  | acceptor op =>
    simp only [act, Function.update_apply] at h
    split at h
    · rename_i base
      subst base
      exact (Channel.apply_interest _ h).imp_right fun own => .inl ⟨op, rfl, rfl, own.1⟩
    · exact .inl h
  | nothing | fillActiveChannels active | newConnection connfd | erase c | store p byte
  | destroy => exact .inl h

def Created (s : Server) (c : ConnId) : Prop := 0 < c ∧ c < s.nextConnId_

/-- What no step takes back. -/
structure Extends (s s' : Server) : Prop where
  config : s'.config = s.config
  created : s.nextConnId_ ≤ s'.nextConnId_
  loop : ∀ c, s.Created c → (s'.conn c).loop_ = (s.conn c).loop_
  name : ∀ c, s.Created c → (s'.conn c).name_ = (s.conn c).name_
  fd : ∀ c, s.Created c → (s'.conn c).channel_.fd_ = (s.conn c).channel_.fd_
  events : ∀ c, s.events c <+: s'.events c

theorem Extends.mono {c : ConnId} (ext : s.Extends s') (h : s.Created c) : s'.Created c :=
  ⟨h.1, Nat.lt_of_lt_of_le h.2 ext.created⟩

theorem Extends.up {c : ConnId} (ext : s.Extends s') (h : s.Up c) : s'.Up c :=
  (ext.events c).subset h

private theorem put_env (s : Server) (c : ConnId) (op : ConnOp) :
    s.Extends (s.act (.conn c op)) := by
  have frame := op.frame c (s.env c)
  refine ⟨rfl, Nat.le_refl _, ?_, ?_, ?_, ?_⟩
  all_goals
    intro c'
    simp only [act, put, Function.update_apply]
    split
    · rename_i same
      subst same
      first
      | exact fun _ => frame.loop
      | exact fun _ => frame.name
      | exact fun _ => frame.fd
      | exact frame.events
    · simp

private theorem act_extends (s : Server) (change : Change) : s.Extends (s.act change) := by
  cases change with
  | conn c op => exact s.put_env c op
  | newConnection connfd =>
    have kept (c : ConnId) (h : s.Created c) : (s.newConnection connfd).conn c = s.conn c :=
      Function.update_of_ne (Nat.ne_of_lt h.2) _ _
    exact ⟨rfl, Nat.le_succ _, fun c h => by rw [act, kept c h], fun c h => by rw [act, kept c h],
      fun c h => by rw [act, kept c h], fun _ => List.prefix_refl _⟩
  | fillActiveChannels active =>
    refine ⟨rfl, Nat.le_refl _, fun _ _ => rfl, fun _ _ => rfl, ?_,
      fun _ => List.prefix_refl _⟩
    intro c _
    simp only [act, fillActiveChannels]
    split <;> rfl
  | nothing | acceptor op | erase c | store p byte | destroy =>
    exact ⟨rfl, Nat.le_refl _, fun _ _ => rfl, fun _ _ => rfl, fun _ _ => rfl,
      fun _ => List.prefix_refl _⟩

theorem after_extends (s : Server) (t : Tid) (eff : Effect)
    (sys : LoopId → LoopSystem Tid Functor ChannelRef) : s.Extends (s.after t eff sys) :=
  have ext := s.act_extends eff.change
  ⟨ext.config, ext.created, ext.loop, ext.name, ext.fd, ext.events⟩

theorem created_after {t : Tid} {eff : Effect} {c : ConnId}
    {sys : LoopId → LoopSystem Tid Functor ChannelRef} (created : (s.after t eff sys).Created c) :
    s.Created c ∨ c = s.nextConnId_ ∧ ∃ connfd, eff.change = .newConnection connfd := by
  obtain ⟨positive, bound⟩ := created
  rw [after_nextConnId] at bound
  cases hc : eff.change with
  | newConnection connfd =>
    rw [hc] at bound
    rcases Nat.lt_succ_iff_lt_or_eq.mp bound with old | this
    · exact .inl ⟨positive, old⟩
    · exact .inr ⟨this, connfd, rfl⟩
  | nothing | conn c' op | acceptor op | fillActiveChannels active | erase c' | store p byte
  | destroy =>
    rw [hc] at bound
    exact .inl ⟨positive, bound⟩

end Server

end TcpMuduo
