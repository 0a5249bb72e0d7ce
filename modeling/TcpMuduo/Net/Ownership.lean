import TcpMuduo.Net.Dispatch
import TcpMuduo.Net.Registry

/-!
The data without a lock and the threads they belong to. A step accesses a datum
if it does not commute with overwriting it, and then it is a step of the
owner's thread.
-/

set_option autoImplicit false
set_option relaxedAutoImplicit false

namespace TcpMuduo

/-- The data of a connection that no mutex protects. -/
inductive ConnDatum
  | outputBuffer_
  | inputBuffer_
  | events_
  | index_

def ConnDatum.Value : ConnDatum → Type
  | .outputBuffer_ | .inputBuffer_ => ValidBuffer
  | .events_ => EventMask
  | .index_ => Int

def ConnDatum.write : (d : ConnDatum) → d.Value → TcpConnection → TcpConnection
  | .outputBuffer_, v, conn => { conn with outputBuffer_ := v }
  | .inputBuffer_, v, conn => { conn with inputBuffer_ := v }
  | .events_, v, conn => { conn with channel_ := { conn.channel_ with events_ := v } }
  | .index_, v, conn => { conn with channel_ := { conn.channel_ with index_ := v } }

/-- The data of a server that no mutex protects. -/
inductive Datum
  | conn (c : ConnId) (d : ConnDatum)
  | connections_
  | nextConnId_
  | next_
  | poller (l : LoopId)

def Datum.Value : Datum → Type
  | .conn _ d => d.Value
  | .connections_ => List (String × ConnId)
  | .nextConnId_ | .next_ => Nat
  | .poller _ => EpollPoller ChannelRef

namespace ConnDatum

variable (d : ConnDatum) (v : d.Value) (conn : TcpConnection)

@[simp] theorem write_loop : (d.write v conn).loop_ = conn.loop_ := by cases d <;> rfl

@[simp] theorem write_name : (d.write v conn).name_ = conn.name_ := by cases d <;> rfl

@[simp] theorem write_state : (d.write v conn).state_ = conn.state_ := by cases d <;> rfl

@[simp] theorem write_fd : (d.write v conn).channel_.fd_ = conn.channel_.fd_ := by
  cases d <;> rfl

@[simp] theorem write_revents : (d.write v conn).channel_.revents_ = conn.channel_.revents_ := by
  cases d <;> rfl

@[simp] theorem write_tied : (d.write v conn).channel_.tied_ = conn.channel_.tied_ := by
  cases d <;> rfl

private theorem write_setState (state : StateE) :
    d.write v { conn with state_ := state } = { d.write v conn with state_ := state } := by
  cases d <;> rfl

private theorem write_setRevents (revents : EventMask) :
    d.write v { conn with channel_ := { conn.channel_ with revents_ := revents } } =
      { d.write v conn with
        channel_ := { (d.write v conn).channel_ with revents_ := revents } } := by
  cases d <;> rfl

end ConnDatum

namespace Server

variable {s s₁ : Server} {t : Tid} {input : Input} {eff : Effect} {config : ServerConfig}
variable {c : ConnId}

def mapConn (s : Server) (c : ConnId) (w : TcpConnection → TcpConnection) : Server :=
  { s with conn := Function.update s.conn c (w (s.conn c)) }

/-- The state with another value of the datum. -/
def set (s : Server) : (d : Datum) → d.Value → Server
  | .conn c d, v => s.mapConn c (d.write v)
  | .connections_, v => { s with connections_ := v }
  | .nextConnId_, v => { s with nextConnId_ := v }
  | .next_, v => { s with next_ := v }
  | .poller l, v => { s with poller := Function.update s.poller l v }

/-- The thread that a datum belongs to. -/
def owner (s : Server) : Datum → Tid
  | .conn c _ => .loop (s.conn c).loop_
  | .connections_ | .nextConnId_ | .next_ => .loop 0
  | .poller l => .loop l

/-- A connection's data belong to its loop once `newConnection` has made it. -/
def HandedOff (s : Server) : Datum → Prop
  | .conn c _ => s.Created c
  | .connections_ | .nextConnId_ | .next_ | .poller _ => True

/-- The step reads or writes the datum: it does not commute with overwriting it. -/
def Accesses (s : Server) (i : Tid × Input) (d : Datum) : Prop :=
  ∃ v, machine.step (s.set d v) i ≠ (machine.step s i).map (·.set d v)

/-- The step is part of an execution of `connectEstablished`, `connectDestroyed`, `handleRead`,
`handleWrite`, `handleClose`, `sendInLoop` or `shutdownInLoop` of the connection. -/
def Executes (s : Server) (i : Tid × Input) (c : ConnId) : Prop :=
  (s.stack i.1).head? = some (.functor (.connectDestroyed c)) ∨
    ∃ eff op, s.effect i.1 i.2 = some eff ∧ eff.change = .conn c op ∧ op ≠ .shutdownStore

/-- The step works on a channel, and may call `updateChannel` or `removeChannel`, in the poller of
`l`. -/
def UpdatesPoller (s : Server) (i : Tid × Input) (l : LoopId) : Prop :=
  ∃ eff, s.effect i.1 i.2 = some eff ∧
    ((∃ c op chop, eff.change = .conn c op ∧ chop ∈ op.channelOp ∧ l = (s.conn c).loop_) ∨
      ∃ op, eff.change = .acceptor op ∧ l = 0)

/-- Two states that a step of the thread `t` cannot tell apart. -/
structure Alike (t : Tid) (s s₁ : Server) : Prop where
  config : s₁.config = s.config
  destroyed : s₁.destroyed = s.destroyed
  acceptChannel : s₁.acceptChannel_ = s.acceptChannel_
  fds : s₁.fds = s.fds
  mem : s₁.mem = s.mem
  sys : s₁.sys = s.sys
  stack : s₁.stack = s.stack
  events : s₁.events = s.events
  sends : s₁.sends = s.sends
  runs : s₁.runs = s.runs
  loop : ∀ c, (s₁.conn c).loop_ = (s.conn c).loop_
  state : ∀ c, (s₁.conn c).state_ = (s.conn c).state_
  fd : ∀ c, (s₁.conn c).channel_.fd_ = (s.conn c).channel_.fd_
  revents : ∀ c, (s₁.conn c).channel_.revents_ = (s.conn c).channel_.revents_
  tied : ∀ c, (s₁.conn c).channel_.tied_ = (s.conn c).channel_.tied_
  own : ∀ c, t = .loop (s.conn c).loop_ → s₁.env c = s.env c
  poller : ∀ l, t = .loop l → s₁.poller l = s.poller l
  base : t = .loop 0 → s₁.connections_ = s.connections_ ∧ s₁.nextConnId_ = s.nextConnId_ ∧
    s₁.next_ = s.next_

@[simp] theorem mapConn_self {w : TcpConnection → TcpConnection} :
    (s.mapConn c w).conn c = w (s.conn c) :=
  Function.update_self ..

@[simp] theorem mapConn_of_ne {w : TcpConnection → TcpConnection} {c' : ConnId}
    (other : c' ≠ c) : (s.mapConn c w).conn c' = s.conn c' :=
  Function.update_of_ne other _ _

theorem Alike.refl (t : Tid) (s : Server) : Alike t s s :=
  ⟨rfl, rfl, rfl, rfl, rfl, rfl, rfl, rfl, rfl, rfl, fun _ => rfl, fun _ => rfl, fun _ => rfl,
    fun _ => rfl, fun _ => rfl, fun _ _ => rfl, fun _ _ => rfl, fun _ => ⟨rfl, rfl, rfl⟩⟩

private theorem alike_write (d : ConnDatum) (v : d.Value) (other : t ≠ .loop (s.conn c).loop_) :
    Alike t s (s.mapConn c (d.write v)) := by
  have at_conn {α : Type} (f : TcpConnection → α) (same : ∀ conn, f (d.write v conn) = f conn)
      (c' : ConnId) : f ((s.mapConn c (d.write v)).conn c') = f (s.conn c') := by
    by_cases here : c' = c
    · subst here
      rw [mapConn_self]
      exact same _
    · rw [mapConn_of_ne here]
  refine { Alike.refl t s with
    loop := at_conn (·.loop_) (d.write_loop v)
    state := at_conn (·.state_) (d.write_state v)
    fd := at_conn (·.channel_.fd_) (d.write_fd v)
    revents := at_conn (·.channel_.revents_) (d.write_revents v)
    tied := at_conn (·.channel_.tied_) (d.write_tied v)
    own := ?_ }
  intro c' own
  have apart : c' ≠ c := by
    rintro rfl
    exact other own
  simp only [env, mapConn_of_ne apart]
  rfl

private theorem alike_set {d : Datum} (other : t ≠ s.owner d) (v : d.Value) : Alike t s
    (s.set d v) := by
  cases d with
  | conn c d => exact alike_write d v other
  | connections_ | nextConnId_ | next_ =>
    exact { Alike.refl t s with base := fun base => absurd base other }
  | poller l =>
    have away {l' : LoopId} (own : t = .loop l') :
        (s.set (.poller l) v).poller l' = s.poller l' := by
      refine Function.update_of_ne ?_ _ _
      rintro rfl
      exact other own
    refine { Alike.refl t s with poller := fun l' own => away own, own := ?_ }
    intro c own
    have same := away own
    simp only [env, set] at same ⊢
    rw [same]

namespace Alike

theorem up (same : Alike t s s₁) (c : ConnId) : s₁.Up c ↔ s.Up c := by
  rw [Up, Up, same.events]

theorem bytes (same : Alike t s s₁) (p : Address) (len : Nat) : s₁.bytes p len = s.bytes p len := by
  rw [Server.bytes, Server.bytes, same.mem]

theorem queued (same : Alike t s s₁) {c : ConnId} (own : t = .loop (s.conn c).loop_)
    (op : ConnOp) : s₁.queued c op = s.queued c op := by
  rw [Server.queued, Server.queued, same.own c own, same.loop]

theorem reports (same : Alike t s s₁) {l : LoopId} (own : t = .loop l)
    (active : List (ChannelRef × EventMask)) : s₁.Reports l active = s.Reports l active := by
  simp only [Reports, same.poller l own, same.acceptChannel, same.fd]

theorem handleEvent (same : Alike t s s₁) (ref : ChannelRef) :
    s₁.handleEvent ref = s.handleEvent ref := by
  cases ref with
  | wakeup => rfl
  | acceptor => simp only [Server.handleEvent, same.acceptChannel]
  | conn c =>
    simp only [Server.handleEvent, Channel.handleEvent, Channel.handleEventWithGuard, same.tied,
      same.revents]

theorem destructor (same : Alike t s s₁) (order : List ConnId) :
    s₁.destructor order = s.destructor order := by
  simp only [Server.destructor, same.loop, same.config]

private theorem mayDestroy (same : Alike t s s₁) (base : t = .loop 0) (order : List ConnId) :
    s₁.MayDestroy order ↔ s.MayDestroy order := by
  simp only [MayDestroy, same.sys, same.destroyed, (same.base base).1]

theorem loopEffect (same : Alike t s s₁) {l : LoopId} (own : t = .loop l) (input : Input) :
    s₁.loopEffect l input = s.loopEffect l input := by
  have may (order : List ConnId) : l = 0 ∧ s₁.MayDestroy order ↔ l = 0 ∧ s.MayDestroy order := by
    refine and_congr_right fun base => same.mayDestroy ?_ order
    rw [own, base]
  simp only [Server.loopEffect, same.config, same.sys, same.reports own, same.handleEvent,
    same.destructor, may]

theorem callEffect (same : Alike t s s₁) {m : Option ConnId} (u : UserCall) :
    s₁.callEffect t m u = s.callEffect t m u := by
  cases u with
  | send c p len r =>
    have queued : t = .loop (s.conn c).loop_ → s₁.queued c (.sendInLoop (s.bytes p len) r) =
        s.queued c (.sendInLoop (s.bytes p len) r) := fun own => same.queued own _
    simp only [Server.callEffect, sendEffect, same.up, same.bytes, same.loop, same.state,
      same.sends]
    split
    · split
      · split
        · rename_i own
          rw [queued own]
        · rfl
      · rfl
    · rfl
  | shutdown c => simp only [Server.callEffect, same.up, same.state]
  | queueInLoop l | runInLoop l => simp only [Server.callEffect, same.config]
  | quit | retrieve len | store p byte => rfl

theorem functorEffect (same : Alike t s s₁) {f : Functor} (here : (Task.functor f).At s t)
    (input : Input) : s₁.functorEffect t f input = s.functorEffect t f input := by
  obtain ⟨l, own, at_loop⟩ := here
  cases f with
  | sendInLoop c p len call =>
    obtain ⟨-, rfl⟩ := at_loop
    cases input with
    | write r => simp only [Server.functorEffect, same.bytes, same.queued own]
    | _ => rfl
  | connectDestroyed c =>
    cases input with
    | run => simp only [Server.functorEffect, same.state]
    | _ => rfl
  | removeConnectionInLoop c =>
    cases input with
    | run => simp only [Server.functorEffect, same.loop]
    | _ => rfl
  | listen | connectEstablished c | shutdownInLoop c | writeCompleteCallback c
  | highWaterMarkCallback c size | user =>
    cases input <;> rfl

theorem getNextLoop (same : Alike t s s₁) (base : t = .loop 0) :
    s₁.getNextLoop = s.getNextLoop := by
  simp only [Server.getNextLoop, same.config, (same.base base).2.2]

theorem taskEffect (same : Alike t s s₁) {task : Task} (here : task.At s t) (input : Input) :
    s₁.taskEffect t task input = s.taskEffect t task input := by
  cases task with
  | user m =>
    cases input with
    | call u => simp only [Server.taskEffect, same.callEffect]
    | destroy order =>
      cases m with
      | none =>
        have may : t = .loop 0 ∧ s₁.stack t = [.user none] ∧ s₁.MayDestroy order ↔
            t = .loop 0 ∧ s.stack t = [.user none] ∧ s.MayDestroy order := by
          rw [same.stack]
          refine and_congr_right fun base => and_congr_right fun _ => same.mayDestroy base order
        simp only [Server.taskEffect, may, same.destructor]
      | some c => rfl
    | run | poll active | accept connfd | read r | write r => cases m <;> rfl
  | functor f => exact same.functorEffect here input
  | join l =>
    cases input with
    | run => simp only [Server.taskEffect, same.sys]
    | _ => rfl
  | startLoop l =>
    cases input with
    | run =>
      have published : s₁.Published l ↔ s.Published l := by
        simp only [Published, same.stack, same.sys]
      simp only [Server.taskEffect, published]
    | _ => rfl
  | accept =>
    cases input with
    | accept connfd =>
      cases connfd with
      | none => rfl
      | some connfd =>
        simp only [Server.taskEffect, same.fds, same.getNextLoop here, (same.base here).2.1]
    | _ => rfl
  | callback c k =>
    obtain ⟨-, own⟩ := here
    have conn : s₁.conn c = s.conn c := congrArg ConnEnv.conn (same.own c own)
    cases k with
    | read =>
      cases input with
      | read r => simp only [Server.taskEffect, conn]
      | _ => rfl
    | write =>
      cases input with
      | write r => simp only [Server.taskEffect, same.own c own, same.queued own]
      | _ => rfl
    | close | error => cases input <;> rfl
  | shutdownStore c =>
    cases input with
    | run => simp only [Server.taskEffect, same.loop]
    | _ => rfl
  | queueInLoop l f | queueWakeup l | quit l | quitWakeup l | acceptChannel op | handleWriteEnd c
  | closeCallback c | connectDestroyedClose c | connectDestroyedRemove c =>
    cases input <;> rfl

theorem effect (same : Alike t s s₁) (inv : s.Confined) (input : Input) :
    s₁.effect t input = s.effect t input := by
  unfold Server.effect
  rw [same.stack]
  cases stack : s.stack t with
  | nil =>
    cases t with
    | loop l => exact same.loopEffect rfl input
    | user n => rfl
  | cons task rest =>
    refine same.taskEffect (inv.tasks t task ?_) input
    rw [stack]
    exact List.mem_cons_self

end Alike

private theorem act_mapConn_other {c' : ConnId} (apart : c' ≠ c) (w : TcpConnection → TcpConnection)
    (op : ConnOp) : (s.mapConn c' w).act (.conn c op) = (s.act (.conn c op)).mapConn c' w := by
  have env : (s.mapConn c' w).env c = s.env c := by
    simp only [Server.env, mapConn_of_ne apart.symm]
    rfl
  have loop : ((s.mapConn c' w).conn c).loop_ = (s.conn c).loop_ := by
    rw [mapConn_of_ne apart.symm]
  simp only [act, put, env, loop]
  simp only [mapConn, Function.update_of_ne apart, Function.update_comm apart]

private theorem mapConn_comm {w w' : TcpConnection → TcpConnection}
    (comm : ∀ conn, w' (w conn) = w (w' conn)) :
    (s.mapConn c w).mapConn c w' = (s.mapConn c w').mapConn c w := by
  simp only [mapConn, Function.update_self, Function.update_idem, comm]

private theorem act_shutdownStore : s.act (.conn c .shutdownStore) =
    s.mapConn c fun conn => { conn with state_ := .kDisconnecting } := by
  simp only [act, put, ConnOp.apply, env, ConnEnv.setState, mapConn, Function.update_eq_self]

private theorem fillActiveChannels_write (d : ConnDatum) (v : d.Value)
    (active : List (ChannelRef × EventMask)) :
    (s.mapConn c (d.write v)).fillActiveChannels active =
      (s.fillActiveChannels active).mapConn c (d.write v) := by
  simp only [fillActiveChannels, mapConn]
  congr 1
  funext c'
  by_cases here : c' = c
  · subst here
    simp only [Function.update_self]
    split
    · exact (d.write_setRevents v _ _).symm
    · rfl
  · simp only [Function.update_of_ne here]

theorem Confined.accepts (inv : s.Confined) (does : Does s t (s.stack t).head? input eff)
    {op : ChannelOp} (h : eff.change = .acceptor op) : t = .loop 0 := by
  rcases does.accepts h with ⟨head, -⟩ | head
  · obtain ⟨l, own, rfl⟩ := inv.tasks t _ (List.mem_of_mem_head? head)
    exact own
  · exact inv.tasks t _ (List.mem_of_mem_head? head)

private theorem act_conn_set {op : ConnOp} (own : t = .loop (s.conn c).loop_ ∨ op = .shutdownStore)
    {d : Datum} (other : t ≠ s.owner d) (v : d.Value) :
    (s.set d v).act (.conn c op) = (s.act (.conn c op)).set d v := by
  cases d with
  | conn c' d =>
    by_cases here : c' = c
    · subst here
      obtain rfl := own.resolve_left other
      rw [act_shutdownStore, act_shutdownStore]
      exact mapConn_comm fun conn => (d.write_setState v conn _).symm
    · exact act_mapConn_other here _ op
  | connections_ | nextConnId_ | next_ => rfl
  | poller l =>
    change EpollPoller ChannelRef at v
    by_cases same : l = (s.conn c).loop_
    · subst same
      obtain rfl := own.resolve_left other
      rw [act_shutdownStore, act_shutdownStore]
      rfl
    · have env : (s.set (.poller l) v).env c = s.env c := by
        simp only [Server.env, set, Function.update_of_ne (Ne.symm same)]
      simp only [act, put, env]
      simp only [set, Function.update_comm same]

private theorem act_set (inv : s.Confined) (does : Does s t (s.stack t).head? input eff) {d : Datum}
    (handed : s.HandedOff d) (other : t ≠ s.owner d) (v : d.Value) :
    (s.set d v).act eff.change = (s.act eff.change).set d v := by
  cases hc : eff.change with
  | nothing => rfl
  | store p byte => cases d <;> rfl
  | conn c op => exact act_conn_set (inv.operates does hc).2.2 other v
  | acceptor op =>
    have base := inv.accepts does hc
    cases d with
    | conn c d | connections_ | nextConnId_ | next_ => rfl
    | poller l =>
      change EpollPoller ChannelRef at v
      have apart : l ≠ 0 := by
        rintro rfl
        exact other base
      simp only [act, set, Function.update_of_ne apart.symm, Function.update_comm apart]
  | fillActiveChannels active =>
    cases d with
    | conn c d => exact fillActiveChannels_write d v active
    | connections_ | nextConnId_ | next_ | poller l => rfl
  | newConnection connfd =>
    have base : t = .loop 0 := inv.tasks t .accept (List.mem_of_mem_head? (does.newConnection hc).1)
    cases d with
    | conn c d =>
      have apart : c ≠ s.nextConnId_ := Nat.ne_of_lt handed.2
      simp only [act, newConnection, set, mapConn, Function.update_of_ne apart,
        Function.update_comm apart]
      rfl
    | connections_ | nextConnId_ | next_ => exact absurd base other
    | poller l => rfl
  | erase c' =>
    have base : t = .loop 0 := by
      obtain ⟨l, own, -, rfl⟩ :=
        inv.tasks t _ (List.mem_of_mem_head? (does.removes_iff.mpr hc))
      exact own
    cases d with
    | conn c d =>
      have name : ((s.mapConn c (d.write v)).conn c').name_ = (s.conn c').name_ := by
        by_cases here : c' = c
        · subst here
          rw [mapConn_self]
          exact d.write_name v _
        · rw [mapConn_of_ne here]
      simp only [act, set, name]
      rfl
    | connections_ | nextConnId_ | next_ => exact absurd base other
    | poller l => rfl
  | destroy =>
    have base : t = .loop 0 := (does.destroys hc).2.1
    cases d with
    | conn c d | nextConnId_ | next_ | poller l => rfl
    | connections_ => exact absurd base other

/-- A step of a thread that does not own the datum neither reads nor writes it. -/
theorem step_set (inv : s.Confined) {d : Datum} (handed : s.HandedOff d) (other : t ≠ s.owner d)
    (v : d.Value) :
    machine.step (s.set d v) (t, input) = (machine.step s (t, input)).map (·.set d v) := by
  have same := alike_set other v
  have loopStep : (s.set d v).loopStep = s.loopStep := by
    funext i
    simp only [Server.loopStep, same.sys]
  simp only [machine, step, same.effect inv, loopStep]
  cases he : s.effect t input with
  | none => rfl
  | some eff =>
    simp only [Option.bind_some, Option.map_map]
    congr 1
    funext sys
    have act := act_set inv (effect_does he) handed other v
    have stack : (s.set d v).stack = s.stack := same.stack
    simp only [Server.after, Function.comp, act, same.stack, same.sends, same.runs]
    cases d <;> rfl

private theorem Confined.executes (inv : s.Confined) (h : s.Executes (t, input) c) :
    t = .loop (s.conn c).loop_ := by
  rcases h with head | ⟨eff, op, effect, change, other⟩
  · obtain ⟨l, own, -, rfl⟩ := inv.tasks t _ (List.mem_of_mem_head? head)
    exact own
  · exact (inv.operates (effect_does effect) change).2.2.resolve_right other

private theorem Confined.updatesPoller (inv : s.Confined) {l : LoopId}
    (h : s.UpdatesPoller (t, input) l) : t = .loop l := by
  obtain ⟨eff, effect, ⟨c, op, chop, change, listed, rfl⟩ | ⟨op, change, rfl⟩⟩ := h
  · refine (inv.operates (effect_does effect) change).2.2.resolve_right ?_
    rintro rfl
    cases listed
  · exact inv.accepts (effect_does effect) change

/-- One loop per thread. In every run, with any number of sub-loops and user threads, the functions
of a connection are executed on the thread of its loop, a poller is updated on the thread of its
loop, and whoever reads or writes a datum that no mutex protects is the thread that owns it. -/
theorem one_loop_per_thread (config : ServerConfig) (s : Server)
    (h : machine.Reachable (Server.new config) s) (t : Tid) (input : Input) :
    (∀ c, s.Executes (t, input) c → t = .loop (s.conn c).loop_) ∧
      (∀ l, s.UpdatesPoller (t, input) l → t = .loop l) ∧
      ∀ d, s.HandedOff d → s.Accesses (t, input) d → t = s.owner d := by
  have inv := confined h
  refine ⟨fun c executes => inv.executes executes, fun l updates => inv.updatesPoller updates, ?_⟩
  intro d handed accesses
  by_contra other
  obtain ⟨v, differs⟩ := accesses
  exact differs (step_set inv handed other v)

/-- The sub-loop is about to establish the connection, and no user thread gets at its data. -/
theorem one_loop_per_thread_establishing :
    ∃ s, machine.Run (Server.new oneLoop) (establishing.take 21) s ∧
      s.Executes (.loop 1, .run) 1 ∧ Tid.loop 1 = .loop (s.conn 1).loop_ ∧
      ∀ n input d, ¬ s.Accesses (.user n, input) (.conn 1 d) := by
  obtain ⟨s, run, stack, positive, created⟩ := machine.exists_run (.new oneLoop)
    (establishing.take 21)
    (fun s => s.stack (.loop 1) = [.functor (.connectEstablished 1)] ∧ 0 < 1 ∧
      1 < s.nextConnId_) (by decide +kernel)
  have executes : s.Executes (.loop 1, .run) 1 := by
    refine .inr ⟨{ change := .conn 1 .connectEstablished, push := [.user none] },
      .connectEstablished, ?_, rfl, by simp⟩
    simp only [effect, stack]
    rfl
  refine ⟨s, run, executes, ?_, ?_⟩
  · exact (one_loop_per_thread oneLoop s run.reachable (.loop 1) .run).1 1 executes
  · intro n input d accesses
    have own := (one_loop_per_thread oneLoop s run.reachable (.user n) input).2.2
      (.conn 1 d) ⟨positive, created⟩ accesses
    cases own

end Server

end TcpMuduo
