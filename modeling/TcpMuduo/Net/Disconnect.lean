import TcpMuduo.Net.HalfClose
import TcpMuduo.Net.Pollers
import TcpMuduo.Net.Protocol

/-!
What is left of a connection after it has been disconnected. `sendInLoop` logs
that it gives up writing and goes on, and `handleWrite` does not ask: late data
is written, and a partial write registers a removed channel again.
-/

set_option autoImplicit false
set_option relaxedAutoImplicit false

namespace TcpMuduo

/-- Nothing of the connection's output side moves: nothing is written, the buffer and the events
stay the same, and a channel out of the poller stays out of it. -/
structure ConnEnv.Still (e e' : ConnEnv) : Prop where
  writes : ∃ more, e'.events = e.events ++ more ∧
    ∀ offered r, .write offered r ∈ more → offered = []
  buffer : e'.conn.outputBuffer_ = e.conn.outputBuffer_
  events : e'.conn.channel_.events_ = e.conn.channel_.events_
  removed : e.conn.channel_.index_ = kNew → e'.conn.channel_.index_ = kNew

namespace ConnEnv.Still

variable {e e' e'' : ConnEnv}

private theorem of_events {more : List ConnEvent} (events : e'.events = e.events ++ more)
    (none : ∀ offered r, .write offered r ∈ more → offered = [])
    (buffer : e'.conn.outputBuffer_ = e.conn.outputBuffer_)
    (channel : e'.conn.channel_ = e.conn.channel_) : e.Still e' :=
  ⟨⟨more, events, none⟩, buffer, by rw [channel], fun index => by rw [channel]; exact index⟩

theorem congr (h : e.Still e') (conn : e''.conn = e'.conn) (events : e''.events = e'.events) :
    e.Still e'' := by
  obtain ⟨writes, buffer, mask, removed⟩ := h
  refine ⟨?_, ?_, ?_, ?_⟩
  · rw [events]
    exact writes
  · rw [conn]
    exact buffer
  · rw [conn]
    exact mask
  · intro index
    rw [conn]
    exact removed index

theorem refl (e : ConnEnv) : e.Still e :=
  of_events (List.append_nil _).symm (fun _ _ mem => by cases mem) rfl rfl

theorem trans (h : e.Still e') (h' : e'.Still e'') : e.Still e'' := by
  obtain ⟨more, events, none⟩ := h.writes
  obtain ⟨more', events', none'⟩ := h'.writes
  refine ⟨⟨more ++ more', by rw [events', events, List.append_assoc], ?_⟩,
    h'.buffer.trans h.buffer, h'.events.trans h.events, fun index => h'.removed (h.removed index)⟩
  intro offered r mem
  rcases List.mem_append.mp mem with mem | mem
  · exact none offered r mem
  · exact none' offered r mem

end ConnEnv.Still

/-- An operation offers no bytes to the kernel. -/
def ConnOp.GivesUp (e : ConnEnv) : ConnOp → Prop
  | .handleWriteDrain _ => e.conn.channel_.isWriting = false
  | .sendInLoop data _ => data = [] ∨ ¬ e.Direct
  | _ => True

instance (e : ConnEnv) (op : ConnOp) : Decidable (op.GivesUp e) := by
  unfold ConnOp.GivesUp
  split <;> infer_instance

theorem ConnOp.still {c : ConnId} {e : ConnEnv} {op : ConnOp} (gives_up : op.GivesUp e)
    (old : op ≠ .connectEstablished)
    (registered : op = .connectDestroyedClose ∨ op = .handleClose →
      e.conn.channel_.index_ ≠ kNew) : e.Still (op.apply c e) := by
  have emits (event : ConnEvent) {e' : ConnEnv} (events : e'.events = e.events ++ [event])
      (none : ∀ offered r, event = .write offered r → offered = [])
      (buffer : e'.conn.outputBuffer_ = e.conn.outputBuffer_)
      (channel : e'.conn.channel_ = e.conn.channel_) : e.Still e' := by
    refine .of_events events ?_ buffer channel
    intro offered r mem
    exact none offered r (List.mem_singleton.mp mem).symm
  have shut : e.Still (TcpConnection.shutdownInLoop e) := by
    rcases TcpConnection.shutdownInLoop_cases e with ⟨_, same⟩ | ⟨_, same⟩
    · rw [same]
      exact emits _ rfl (by simp) rfl rfl
    · rw [same]
      exact .refl e
  have close (index : e.conn.channel_.index_ ≠ kNew) : e.Still (ConnOp.handleClose.apply c e) :=
    ⟨⟨_, rfl, by simp⟩, rfl, Channel.apply_events .disbaleAll, fun new => absurd new index⟩
  cases op with
  | connectEstablished => exact absurd rfl old
  | connectDestroyedClose => exact close (registered (.inl rfl))
  | handleClose => exact close (registered (.inr rfl))
  | connectDestroyedRemove =>
    exact ⟨⟨[], (List.append_nil _).symm, by simp⟩, rfl, rfl, fun _ => rfl⟩
  | handleRead r =>
    simp only [apply]
    split
    · simp only [TcpConnection.handleRead]
      split
      · exact emits _ rfl (by simp) rfl rfl
      · exact .of_events (List.append_nil _).symm (by simp) rfl rfl
    · exact .refl e
  | handleWriteDrain r =>
    have outcome := TcpConnection.handleWriteDrain_outcome c r e
    simp only [apply]
    generalize (TcpConnection.handleWriteDrain c r e).1 = e',
      (TcpConnection.handleWriteDrain c r e).2 = drained at outcome ⊢
    cases outcome with
    | idle r off => exact .refl e
    | stuck r on none | part n on some | drained n test on all =>
      rw [show e.conn.channel_.isWriting = false from gives_up] at on
      cases on
  | handleWriteEnd =>
    rcases TcpConnection.handleWriteEnd_cases e with ⟨_, same⟩ | ⟨_, same⟩
    · simp only [apply, same]
      exact shut
    · simp only [apply, same]
      exact .refl e
  | sendInLoop data r =>
    have empty (direct : e.Direct) : data = [] := gives_up.resolve_right (not_not.mpr direct)
    have outcome := TcpConnection.sendInLoop_outcome c data r e
    simp only [apply]
    generalize TcpConnection.sendInLoop c data r e = e' at outcome ⊢
    cases outcome with
    | blocked r busy => exact .refl e
    | failed errno direct =>
      obtain rfl := empty direct
      exact emits _ rfl (by simp) rfl rfl
    | whole n test direct all =>
      obtain rfl := empty direct
      exact emits (.write [] (.wrote n)) (by simp) (by simp) (by simp) (by simp)
    | part n test direct some =>
      obtain rfl := empty direct
      cases some
  | shutdownInLoop => exact shut
  | shutdownStore | retrieve len =>
    exact .of_events (List.append_nil _).symm (by simp) rfl rfl
  | closeCallback | writeCompleteCallback | highWaterMarkCallback size =>
    exact emits _ rfl (by simp) rfl rfl

theorem ConnOp.offers {c : ConnId} {e : ConnEnv} {op : ConnOp} (armed : e.Armed)
    (goes_on : ¬ op.GivesUp e) : ∃ offered r, (op.apply c e).events =
      e.events ++ [.write offered r] ∧ offered ≠ [] := by
  cases op with
  | handleWriteDrain r =>
    have on : e.conn.channel_.isWriting = true := by simpa [GivesUp] using goes_on
    have outcome := TcpConnection.handleWriteDrain_outcome c r e
    simp only [apply]
    generalize (TcpConnection.handleWriteDrain c r e).1 = e',
      (TcpConnection.handleWriteDrain c r e).2 = drained at outcome ⊢
    cases outcome with
    | idle r off =>
      rw [off] at on
      cases on
    | stuck r on none => exact ⟨e.backlog, r, rfl, armed.mp on⟩
    | part n on some => exact ⟨e.backlog, _, rfl, armed.mp on⟩
    | drained n test on all => exact ⟨e.backlog, .wrote n, by simp, armed.mp on⟩
  | sendInLoop data r =>
    obtain ⟨some, direct⟩ : data ≠ [] ∧ e.Direct := by simpa [GivesUp, not_or] using goes_on
    have outcome := TcpConnection.sendInLoop_outcome c data r e
    simp only [apply]
    generalize TcpConnection.sendInLoop c data r e = e' at outcome ⊢
    cases outcome with
    | blocked r busy => exact absurd direct busy
    | failed errno direct => exact ⟨data, _, rfl, some⟩
    | whole n test direct all => exact ⟨data, .wrote n, by simp, some⟩
    | part n test direct left => exact ⟨data, .wrote n, by simp, some⟩
  | _ => exact absurd trivial goes_on

namespace Server

variable {s s' : Server} {t : Tid} {input : Input} {eff : Effect} {config : ServerConfig}
variable {sys : LoopId → LoopSystem Tid Functor ChannelRef} {c : ConnId}

/-- What is final about a disconnection: no byte is passed to `::write` any more, the buffer is
unchanged, the interest is not enlarged, and a removed channel does not come back. -/
structure Final (c : ConnId) (s s' : Server) : Prop where
  writes : ∃ more, s'.events c = s.events c ++ more ∧
    ∀ offered r, .write offered r ∈ more → offered = []
  buffer : (s'.conn c).outputBuffer_ = (s.conn c).outputBuffer_
  interest : (s'.conn c).channel_.events_ &&& ~~~(s.conn c).channel_.events_ = 0
  removed : (s.conn c).channel_.index_ = kNew →
    (s'.poller (s'.conn c).loop_).channels_ (s'.conn c).channel_.fd_ = none ∧
      (s'.poller (s'.conn c).loop_).interest (s'.conn c).channel_.fd_ = none

/-- Along a run every disconnection is final. -/
def DisconnectsForGood (s₀ : Server) (inputs : List (Tid × Input)) : Prop :=
  ∀ before after m s c, before ++ after <+: inputs → machine.Run s₀ before m →
    machine.Run m after s → (m.conn c).state_ = .kDisconnected → Final c m s

/-- After the user has been told that the connection is down, neither `sendInLoop` nor
`handleWrite` finds bytes to pass to `::write`. -/
def GivesUp (s : Server) (i : Tid × Input) : Prop :=
  match (s.stack i.1).head?, i.2 with
  | some (.functor (.sendInLoop c p len _)), .write r =>
    s.Down c → (ConnOp.sendInLoop (s.bytes p len) r).GivesUp (s.env c)
  | some (.callback c .write), .write r =>
    s.Down c → (ConnOp.handleWriteDrain r).GivesUp (s.env c)
  | _, _ => True

instance (s : Server) (i : Tid × Input) : Decidable (s.GivesUp i) :=
  decidable_of_bool (match (s.stack i.1).head?, i.2 with
    | some (.functor (.sendInLoop c p len _)), .write r =>
      decide (s.Down c → (ConnOp.sendInLoop (s.bytes p len) r).GivesUp (s.env c))
    | some (.callback c .write), .write r =>
      decide (s.Down c → (ConnOp.handleWriteDrain r).GivesUp (s.env c))
    | _, _ => true) (by unfold GivesUp; split <;> simp only [decide_eq_true_eq])

/-- A connection that is down stays as it is over a step that gives up. -/
theorem still_step (reach : machine.Reachable (Server.new config) s) (down : s.Down c)
    (gives_up : s.GivesUp (t, input)) (h : machine.step s (t, input) = some s') :
    (s.env c).Still (s'.env c) := by
  obtain ⟨eff, sys, does, loops, rfl⟩ := step_does h
  obtain ⟨created, up⟩ := (confined reach).down_known down
  have touches := s.act_touches eff.change c
  cases touches with
  | op op change conn events =>
    have known : ∀ task ∈ (s.stack t).head?, task ∈ s.stack t := fun _ => List.mem_of_mem_head?
    have operation := does.operation change
    unfold GivesUp at gives_up
    generalize (s.stack t).head? = first at operation known gives_up
    have quiet : op.GivesUp (s.env c) := by
      cases operation with
      | handleWriteDrain r => exact gives_up down
      | sendInLoop p len call r => exact gives_up down
      | send m p len r up connected own => exact absurd connected ((closing reach).state c down)
      | _ => trivial
    refine (ConnOp.still quiet ?_ ?_).congr conn events
    · rintro rfl
      cases operation
      exact not_up_of_establish reach (known _ rfl) up
    · rintro (rfl | rfl)
      · cases operation
        exact absurd down ((closing reach).pending t c (known _ rfl))
      · cases operation
        exact index_of_callback reach (known _ rfl)
  | new connfd change this conn events => exact absurd this (Nat.ne_of_lt created.2)
  | idle other revents conn events =>
    have conn : ((s.after t eff sys).env c).conn =
        { s.conn c with channel_ := { (s.conn c).channel_ with revents_ := revents } } := conn
    refine ⟨⟨[], by rw [List.append_nil]; exact events, by simp⟩, ?_, ?_, ?_⟩
    · rw [conn]
      rfl
    · rw [conn]
      rfl
    · intro index
      rw [conn]
      exact index

theorem state_of_close (close : eff.change = .conn c .handleClose ∨
    eff.change = .conn c .connectDestroyedClose) :
    ((s.after t eff sys).conn c).state_ = .kDisconnected := by
  rcases s.callbacks_after t eff sys c with ⟨op, here, -, state⟩ | ⟨other, -, -⟩
  · rw [state]
    rcases close with close | close <;> rw [close] at here <;> cases here <;> rfl
  · exact (close.elim (other _) (other _)).elim

theorem down_of_disconnected (h : machine.Reachable (Server.new config) s) :
    ∀ c, (s.conn c).state_ = .kDisconnected → s.Down c := by
  refine h.invariant (I := fun s => ∀ c, (s.conn c).state_ = .kDisconnected → s.Down c)
    (fun c state => by cases state) ?_
  intro m i m' _ inv hs c state
  obtain ⟨eff, sys, does, -, rfl⟩ := step_does (t := i.1) (a := i.2) hs
  have touches := m.act_touches eff.change c
  have ext := m.after_extends i.1 eff sys
  rw [after_conn] at state
  cases touches with
  | op op here conn events =>
    have spec := op.spec c (m.env c)
    rw [conn, spec.state] at state
    have told (close : ConnOp.callbacks (m.env c) op = [.connectionCallback false]) :
        (m.after i.1 eff sys).Down c := by
      unfold Down
      rw [after_events, events, ← mem_callbacks rfl, spec.callbacks, close]
      exact List.mem_append_right _ (List.mem_singleton_self _)
    cases op with
    | connectDestroyedClose | handleClose => exact told rfl
    | connectEstablished | shutdownStore => cases state
    | _ => exact ext.down (inv c state)
  | new connfd here this conn events =>
    rw [conn] at state
    cases state
  | idle other revents conn events =>
    rw [conn] at state
    exact ext.down (inv c state)

private theorem disconnected_of_down {inputs : List (Tid × Input)}
    (run : machine.Run (Server.new config) inputs s) (down : s.Down c) :
    ∃ before after m, inputs = before ++ after ∧ machine.Run (Server.new config) before m ∧
      machine.Run m after s ∧ (m.conn c).state_ = .kDisconnected := by
  induction run with
  | nil => cases down
  | snoc hr hs ih =>
    rename_i is m m' i
    have step := hs
    obtain ⟨eff, sys, -, -, rfl⟩ := step_does (t := i.1) (a := i.2) hs
    rcases down_after down with old | close
    · obtain ⟨before, after, m₀, rfl, first, rest, state⟩ := ih old
      exact ⟨before, after ++ [i], m₀, by simp, first, rest.snoc step, state⟩
    · exact ⟨is ++ [i], [], _, (List.append_nil _).symm, hr.snoc step, .nil, state_of_close close⟩

private theorem final_of_still (reach : machine.Reachable (Server.new config) s')
    (created : s'.Created c)
    (still : (s.env c).Still (s'.env c)) : Final c s s' where
  writes := still.writes
  buffer := still.buffer
  interest := by
    rw [show (s'.conn c).channel_.events_ = (s.conn c).channel_.events_ from still.events]
    simp
  removed index := ((registered reach).conns c created).index_iff.1.mp (still.removed index)

private theorem still_run {before after : List (Tid × Input)} {m : Server}
    (first : machine.Run (Server.new config) before m) (rest : machine.Run m after s)
    (down : m.Down c) (gives_up : machine.StepsMeet GivesUp m after) :
    (m.env c).Still (s.env c) ∧ s.Down c := by
  refine rest.invariant_of_stepsMeet
    (I := fun _ s => (m.env c).Still (s.env c) ∧ s.Down c) gives_up ⟨.refl _, down⟩ ?_
  intro js s i s' hr inv gives_up hs
  obtain ⟨eff, sys, -, -, same⟩ := step_does (t := i.1) (a := i.2) hs
  refine ⟨inv.1.trans (still_step (first.append hr).reachable inv.2 gives_up hs), ?_⟩
  rw [same]
  exact (s.after_extends i.1 eff sys).down inv.2

/-- A step that does not give up passes bytes to `::write` for a connection that is down. -/
theorem offers_step (armed : ∀ c, (s.env c).Armed) (goes_on : ¬ s.GivesUp (t, input))
    (h : machine.step s (t, input) = some s') :
    ∃ c, s.Down c ∧ ∃ offered r, s'.events c = s.events c ++ [.write offered r] ∧
      offered ≠ [] := by
  obtain ⟨eff, sys, does, loops, rfl⟩ := step_does h
  have offers {c : ConnId} {op : ConnOp} (change : eff.change = .conn c op)
      (goes_on : ¬ op.GivesUp (s.env c)) : ∃ offered r,
        (s.after t eff sys).events c = s.events c ++ [.write offered r] ∧ offered ≠ [] := by
    obtain ⟨offered, r, events, some⟩ := ConnOp.offers (c := c) (armed c) goes_on
    refine ⟨offered, r, ?_, some⟩
    rw [after_events, change, ← show _ = s.events c ++ _ from events]
    exact Function.update_self ..
  unfold GivesUp at goes_on
  split at goes_on
  · rename_i c p len call r head write
    obtain ⟨down, goes_on⟩ := Classical.not_imp.mp goes_on
    refine ⟨c, down, offers ?_ goes_on⟩
    rw [head] at does
    dsimp only at write
    subst write
    cases does
    rfl
  · rename_i c r head write
    obtain ⟨down, goes_on⟩ := Classical.not_imp.mp goes_on
    refine ⟨c, down, offers ?_ goes_on⟩
    rw [head] at does
    dsimp only at write
    subst write
    cases does
    rfl
  · exact absurd trivial goes_on

/-- Every disconnection of a run is final exactly if no `sendInLoop` and no `handleWrite` finds
bytes to pass to `::write` for a connection that is down. -/
theorem disconnectsForGood_iff (config : ServerConfig) (inputs : List (Tid × Input)) (s : Server)
    (run : machine.Run (Server.new config) inputs s) :
    DisconnectsForGood (Server.new config) inputs ↔
      machine.StepsMeet GivesUp (Server.new config) inputs := by
  constructor
  · rintro final pre i m ⟨post, rfl⟩ before
    by_contra goes_on
    obtain ⟨next, hs, -⟩ := run.step_at before
    obtain ⟨c, down, offered, r, events, some⟩ :=
      offers_step (halfClosing before.reachable).armed goes_on hs
    obtain ⟨first, rest, m₀, rfl, run₀, since, state⟩ := disconnected_of_down before down
    have whole : first ++ (rest ++ [i]) <+: first ++ rest ++ [i] ++ post := by
      rw [← List.append_assoc]
      exact List.prefix_append _ _
    obtain ⟨more, grown, none⟩ := (final _ _ _ _ c whole run₀ (since.snoc hs) state).writes
    have part : first ++ rest <+: first ++ rest ++ [i] ++ post := by
      rw [List.append_assoc _ [i]]
      exact List.prefix_append _ _
    obtain ⟨more', grown', -⟩ := (final _ _ _ _ c part run₀ since state).writes
    rw [events, grown', List.append_assoc] at grown
    have last := List.append_cancel_left grown
    exact some (none offered r (last ▸ List.mem_append_right _ (List.mem_singleton_self _)))
  · intro gives_up before after m s' c hpre first rest state
    have down := down_of_disconnected first.reachable c state
    obtain ⟨still, down'⟩ := still_run first rest down ((gives_up.before hpre).after first)
    have reach := (first.append rest).reachable
    exact final_of_still reach ((confined reach).down_known down').1 still

/-- The peer closes while three bytes of an answer wait. -/
def closingBehindBacklog : List (Tid × Input) :=
  waiting ++ reading (.got [104, 105]) ++ [(.loop 1, .call (.send 1 100 5 (.wrote 2)))] ++
    steps (.loop 1) 6 ++ reading (.got []) ++ steps (.loop 1) 5 ++ steps (.loop 0) 7 ++
    steps (.loop 1) 6

/-- A thread that still holds the pointer sends five bytes, and the kernel takes two. -/
def lateSend : List (Tid × Input) :=
  [(.user 0, .call (.send 1 100 5 (.wrote 0)))] ++ steps (.user 0) 2 ++ steps (.loop 1) 3 ++
    [(.loop 1, .poll [(.wakeup, EPOLLIN)])] ++ steps (.loop 1) 4 ++ [(.loop 1, .write (.wrote 2))]

/-- Behind the backlog the late message is given up. -/
theorem disconnectsForGood_iff_late : ∃ m s,
    machine.Run (Server.new oneLoop) closingBehindBacklog m ∧
    (m.conn 1).state_ = .kDisconnected ∧ (m.conn 1).channel_.index_ = kNew ∧
    m.runs.length = 1 ∧ machine.Run m lateSend s ∧ s.runs.length = 2 ∧
      DisconnectsForGood (Server.new oneLoop) (closingBehindBacklog ++ lateSend) := by
  obtain ⟨s, run, ran⟩ := machine.exists_run (.new oneLoop) (closingBehindBacklog ++ lateSend)
    (fun s => s.runs.length = 2) (by decide +kernel)
  obtain ⟨m, before, state, index, once⟩ := machine.exists_run (.new oneLoop) closingBehindBacklog
    (fun s => (s.conn 1).state_ = .kDisconnected ∧ (s.conn 1).channel_.index_ = kNew ∧
      s.runs.length = 1) (by decide +kernel)
  have gives_up : machine.StepsMeet GivesUp (Server.new oneLoop)
      (closingBehindBacklog ++ lateSend) :=
    Lib.Machine.stepsMeet_of_checks (by decide +kernel)
  exact ⟨m, s, before, state, index, once, run.rest before, ran,
    (disconnectsForGood_iff oneLoop _ s run).2 gives_up⟩

/-- The removed channel of a closed connection is back in the poller and in the kernel. -/
theorem disconnectsForGood_resurrected :
    ∃ m s, machine.Run (Server.new oneLoop) closingOnce m ∧ machine.Run m lateSend s ∧
      (m.conn 1).state_ = .kDisconnected ∧ (m.poller 1).channels_ 9 = none ∧
      (s.poller 1).channels_ 9 = some (.conn 1) ∧
      (s.poller 1).interest 9 = some (7, .conn 1) ∧
      ¬ DisconnectsForGood (Server.new oneLoop) (closingOnce ++ lateSend) := by
  obtain ⟨s, run, listed, kernel, loop, fd⟩ := machine.exists_run (.new oneLoop)
    (closingOnce ++ lateSend) (fun s => (s.poller 1).channels_ 9 = some (.conn 1) ∧
      (s.poller 1).interest 9 = some (7, .conn 1) ∧ (s.conn 1).loop_ = 1 ∧
      (s.conn 1).channel_.fd_ = 9) (by decide +kernel)
  obtain ⟨m, closed, state, index, unlisted⟩ := machine.exists_run (.new oneLoop) closingOnce
    (fun s => (s.conn 1).state_ = .kDisconnected ∧ (s.conn 1).channel_.index_ = kNew ∧
      (s.poller 1).channels_ 9 = none) (by decide +kernel)
  have late := run.rest closed
  refine ⟨m, s, closed, late, state, unlisted, listed, kernel, ?_⟩
  intro final
  have gone := (final _ _ m s 1 (List.prefix_refl _) closed late state).removed index
  rw [loop, fd, listed] at gone
  cases gone.1

end Server

end TcpMuduo
