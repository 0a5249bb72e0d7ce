import TcpMuduo.Net.Delivery

/-!
The bytes that come into a connection, over all runs of the server: what
`handleRead` receives is what the user retrieves and what is left in
`inputBuffer_`, and every invocation of `messageCallback_` shows all of the rest.
-/

set_option autoImplicit false
set_option relaxedAutoImplicit false

namespace TcpMuduo

def ReadvResult.bytes : ReadvResult → List UInt8
  | .got bytes => bytes
  | .failed _ => []

theorem ReadvResult.ret_pos (r : ReadvResult) : r.ret > 0 ↔ r.bytes ≠ [] := by
  cases r with
  | got bytes => simp [ret, ReadvResult.bytes, List.length_pos_iff]
  | failed e => simp [ret, ReadvResult.bytes]

@[simp] theorem ValidBuffer.content_readFd (b : ValidBuffer) (r : ReadvResult)
    (fits : r.Fits b.iovLen) : (b.readFd r fits).content = b.content ++ r.bytes := by
  cases r with
  | got bytes => exact (b.wf.readFd fits).2
  | failed e => exact (List.append_nil _).symm

/-- The readable bytes of `inputBuffer_`. -/
def ConnEnv.unread (e : ConnEnv) : List UInt8 := e.conn.inputBuffer_.content

def ConnEvent.shown : ConnEvent → Option (List UInt8)
  | .messageCallback readable => some readable
  | _ => none

namespace ConnOp

def received (e : ConnEnv) : ConnOp → List UInt8
  | .handleRead r => if r.Fits e.conn.inputBuffer_.iovLen then r.bytes else []
  | _ => []

def retrieved (e : ConnEnv) : ConnOp → List UInt8
  | .retrieve len => e.unread.take len
  | _ => []

/-- What the operation shows to the user: after bytes have come in, all that are unread. -/
def shows (e : ConnEnv) (op : ConnOp) : List (List UInt8) :=
  if op.received e = [] then [] else [e.unread ++ op.received e]

variable {c : ConnId} {e : ConnEnv}

theorem inputBuffer_apply (op : ConnOp) (reads : ∀ r, op ≠ .handleRead r)
    (retrieves : ∀ len, op ≠ .retrieve len) :
    (op.apply c e).conn.inputBuffer_ = e.conn.inputBuffer_ := by
  have shut (e' : ConnEnv) :
      (TcpConnection.shutdownInLoop e').conn.inputBuffer_ = e'.conn.inputBuffer_ := by
    rcases TcpConnection.shutdownInLoop_cases e' with ⟨_, same⟩ | ⟨_, same⟩
    · rw [same]
      rfl
    · rw [same]
  cases op with
  | handleRead r => exact absurd rfl (reads r)
  | retrieve len => exact absurd rfl (retrieves len)
  | handleWriteDrain r =>
    have outcome := TcpConnection.handleWriteDrain_outcome c r e
    simp only [apply]
    generalize (TcpConnection.handleWriteDrain c r e).1 = e',
      (TcpConnection.handleWriteDrain c r e).2 = flag at outcome ⊢
    cases outcome with
    | idle r off | stuck r on none | part n on some => rfl
    | drained n test on all => simp [ConnEnv.channel, ConnEnv.setOutputBuffer]
  | sendInLoop data r =>
    have outcome := TcpConnection.sendInLoop_outcome c data r e
    simp only [apply]
    generalize TcpConnection.sendInLoop c data r e = e' at outcome ⊢
    cases outcome with
    | blocked r busy | failed errno direct => rfl
    | whole n test direct all => simp
    | part n test direct some => simp [ConnEnv.channel, ConnEnv.setOutputBuffer]
  | handleWriteEnd =>
    rcases TcpConnection.handleWriteEnd_cases e with ⟨_, same⟩ | ⟨_, same⟩
    · simp only [apply, same]
      exact shut e
    · simp only [apply, same]
  | shutdownInLoop => exact shut e
  | connectEstablished | connectDestroyedClose | connectDestroyedRemove | handleClose
  | shutdownStore | closeCallback | writeCompleteCallback | highWaterMarkCallback size => rfl

theorem unread_apply (op : ConnOp) :
    op.retrieved e ++ (op.apply c e).unread = e.unread ++ op.received e := by
  cases op with
  | handleRead r =>
    by_cases fits : r.Fits e.conn.inputBuffer_.iovLen
    · simp only [received, retrieved, apply, dif_pos fits, if_pos fits, TcpConnection.handleRead,
        List.nil_append]
      split <;> exact ValidBuffer.content_readFd _ r fits
    · simp only [received, retrieved, apply, dif_neg fits, if_neg fits, List.nil_append,
        List.append_nil]
  | retrieve len =>
    simp only [received, retrieved, List.append_nil]
    simp [apply, ConnEnv.unread]
  | _ =>
    simp only [received, retrieved, List.append_nil, List.nil_append]
    exact congrArg ValidBuffer.content (inputBuffer_apply _ (by simp) (by simp))

private theorem filterMap_shown (events : List ConnEvent) :
    (TcpMuduo.callbacks events).filterMap ConnEvent.shown
      = events.filterMap ConnEvent.shown := by
  unfold TcpMuduo.callbacks
  rw [List.filterMap_filter]
  refine List.filterMap_congr ?_
  intro event _
  cases event <;> rfl

private theorem shown_apply (op : ConnOp) :
    (op.apply c e).events.filterMap ConnEvent.shown
      = e.events.filterMap ConnEvent.shown ++ op.shows e := by
  have last : (op.callbacks e).filterMap ConnEvent.shown = op.shows e := by
    cases op with
    | handleRead r =>
      by_cases fits : r.Fits e.conn.inputBuffer_.iovLen
      · by_cases some : r.ret > 0
        · have bytes := r.ret_pos.mp some
          simp [callbacks, shows, received, fits, some, bytes, ConnEvent.shown, ConnEnv.unread]
        · have bytes : r.bytes = [] := by_contra fun h => some (r.ret_pos.mpr h)
          simp [callbacks, shows, received, fits, some, bytes]
      · simp [callbacks, shows, received, fits]
    | _ => rfl
  rw [← filterMap_shown, (op.spec c e).callbacks, List.filterMap_append, last, filterMap_shown]

end ConnOp

namespace Server

variable {s s' : Server} {i : Tid × Input} {c : ConnId} {config : ServerConfig}
variable {inputs : List (Tid × Input)} {t : Tid} {eff : Effect}

/-- The bytes that a step takes from the socket of `c`. -/
def receivedOn (c : ConnId) (s : Server) (i : Tid × Input) : List UInt8 :=
  (s.opOn c i).elim [] (ConnOp.received (s.env c))

/-- The bytes that the user takes out of the `inputBuffer_` of `c` in a step. -/
def retrievedOn (c : ConnId) (s : Server) (i : Tid × Input) : List UInt8 :=
  (s.opOn c i).elim [] (ConnOp.retrieved (s.env c))

/-- What a step shows to the `messageCallback_` of `c`: the unread bytes and the new ones, if
there are new ones. -/
def showsOn (c : ConnId) (s : Server) (i : Tid × Input) : List (List UInt8) :=
  if s.receivedOn c i = [] then [] else [(s.env c).unread ++ s.receivedOn c i]

theorem silentOn {i : Tid × Input}
    (h : ∀ op, s.opOn c i = some op → op.message = [] ∧ op.received (s.env c) = []) :
    s.messages c i = [] ∧ s.receivedOn c i = [] ∧ s.showsOn c i = [] := by
  have received : s.receivedOn c i = [] := by
    unfold receivedOn
    cases here : s.opOn c i with
    | none => rfl
    | some op => exact (h op here).2
  refine ⟨?_, received, if_pos received⟩
  unfold messages
  cases here : s.opOn c i with
  | none => rfl
  | some op => exact (h op here).1

theorem Sees.unread {i : Tid × Input} (sees : s.Sees c i s') (keeps : s.retrievedOn c i = []) :
    (s'.env c).unread = (s.env c).unread ++ s.receivedOn c i ∨
      ¬ s.Created c ∧ (s'.env c).unread = [] := by
  cases sees with
  | op op here created conn events =>
    have unread : (s'.env c).unread = (op.apply c (s.env c)).unread :=
      congrArg (fun conn => conn.inputBuffer_.content) conn
    have none : op.retrieved (s.env c) = [] := by simpa [retrievedOn, here] using keeps
    have grown := op.unread_apply (c := c) (e := s.env c)
    rw [none, List.nil_append] at grown
    refine .inl ?_
    rw [unread, grown]
    simp [receivedOn, here]
  | new connfd here this conn events =>
    refine .inr ⟨fun created => Nat.ne_of_lt created.2 this, ?_⟩
    simp [env, ConnEnv.unread, conn, TcpConnection.new]
  | idle here revents conn events =>
    refine .inl ?_
    simp [env, ConnEnv.unread, conn, receivedOn, here]

theorem head_of_receivedOn {a : Input} (effect : s.effect t a = some eff)
    (brought : s.receivedOn c (t, a) ≠ []) : (s.stack t).head? = some (.callback c .read) := by
  unfold receivedOn at brought
  cases here : s.opOn c (t, a) with
  | none => exact absurd (by rw [here]; rfl) brought
  | some op =>
    have operation := (effect_does effect).operation (change_of_opOn effect here)
    rw [here] at brought
    generalize (s.stack t).head? = head at operation ⊢
    cases operation with
    | handleRead r => rfl
    | _ => exact absurd rfl brought

theorem retrievedOn_eq_nil {a : Input} (keeps : ∀ len, a ≠ .call (.retrieve len)) :
    s.retrievedOn c (t, a) = [] := by
  unfold retrievedOn
  cases here : s.opOn c (t, a) with
  | none => rfl
  | some op =>
    cases effect : s.effect t a with
    | none =>
      rw [opOn, effect] at here
      cases here
    | some eff =>
      have operation := (effect_does effect).operation (change_of_opOn effect here)
      generalize (s.stack t).head? = head at operation
      cases operation with
      | retrieve len => exact absurd rfl (keeps len)
      | _ => rfl

theorem foreign {a : Input} (confined : s.Confined) (h : machine.step s (t, a) = some s')
    (other : s.Created c → .loop (s.conn c).loop_ ≠ t) :
    (s.messages c (t, a) = [] ∧ s.receivedOn c (t, a) = [] ∧ s.showsOn c (t, a) = []) ∧
      ((s'.env c).unread = (s.env c).unread ∨ ¬ s.Created c ∧ (s'.env c).unread = []) := by
  have only : ∀ op, s.opOn c (t, a) = some op → op = .shutdownStore := by
    intro op here
    obtain ⟨eff, effect, -⟩ := Option.bind_eq_some_iff.mp (show s.step (t, a) = some s' from h)
    obtain ⟨created, -, own⟩ :=
      confined.operates (effect_does effect) (change_of_opOn effect here)
    exact own.resolve_left fun own => other created own.symm
  have silent := silentOn (s := s) (c := c) (i := (t, a)) fun op here => by
    rw [only op here]
    exact ⟨rfl, rfl⟩
  refine ⟨silent, ?_⟩
  have keeps : s.retrievedOn c (t, a) = [] := by
    unfold retrievedOn
    cases here : s.opOn c (t, a) with
    | none => rfl
    | some op =>
      rw [only op here]
      rfl
  have unread := (step_sees confined h c).unread keeps
  rwa [silent.2.1, List.append_nil] at unread

/-- The input side of `c` after a run. -/
structure Receives (received retrieved : List UInt8) (shown : List (List UInt8)) (c : ConnId)
    (s : Server) : Prop where
  stream : received = retrieved ++ (s.env c).unread
  shown : (s.events c).filterMap ConnEvent.shown = shown
  fresh : ¬ s.Created c → (s.env c).unread = []

theorem Receives.step {received retrieved : List UInt8} {shown : List (List UInt8)}
    (run : machine.Run (Server.new config) inputs s) (inv : s.Receives received retrieved shown c)
    (h : machine.step s i = some s') :
    s'.Receives (received ++ s.receivedOn c i) (retrieved ++ s.retrievedOn c i)
      (shown ++ s.showsOn c i) c := by
  have ext : s.Extends s' := by
    obtain ⟨eff, sys, -, -, rfl⟩ := step_does (t := i.1) (a := i.2) h
    exact s.after_extends _ _ _
  cases step_sees (confined run.reachable) h c with
  | op op here created conn events =>
    have received : s.receivedOn c i = op.received (s.env c) := by simp [receivedOn, here]
    have retrieved : s.retrievedOn c i = op.retrieved (s.env c) := by simp [retrievedOn, here]
    have unread : (s'.env c).unread = (op.apply c (s.env c)).unread :=
      congrArg (fun conn => conn.inputBuffer_.content) conn
    refine ⟨?_, ?_, fun new => absurd (ext.mono created) new⟩
    · rw [received, retrieved, unread, inv.stream, List.append_assoc, List.append_assoc,
        op.unread_apply]
    · rw [events, op.shown_apply, ← inv.shown, showsOn, received]
      rfl
  | new connfd here this conn events =>
    have unknown : ¬ s.Created c := fun created => Nat.ne_of_lt created.2 this
    have unread : (s'.env c).unread = [] := by simp [env, ConnEnv.unread, conn, TcpConnection.new]
    have stream := inv.stream
    rw [inv.fresh unknown] at stream
    refine ⟨?_, ?_, fun _ => unread⟩
    · simp [receivedOn, retrievedOn, here, unread, stream]
    · simp [showsOn, receivedOn, here, events, inv.shown]
  | idle here revents conn events =>
    have unread : (s'.env c).unread = (s.env c).unread := by simp [env, ConnEnv.unread, conn]
    refine ⟨?_, ?_, ?_⟩
    · simp [receivedOn, retrievedOn, here, unread, inv.stream]
    · simp [showsOn, receivedOn, here, events, inv.shown]
    · intro unknown
      rw [unread]
      exact inv.fresh fun created => unknown (ext.mono created)

/-- In every run, the bytes that have come in on a connection are those the user has retrieved
followed by the unread ones, and `messageCallback_` has been invoked once for each read that
brought bytes, each time with all bytes that were unread then, the new ones included. -/
theorem reception_exact (config : ServerConfig) (inputs : List (Tid × Input)) (s : Server)
    (run : machine.Run (Server.new config) inputs s) (c : ConnId) :
    machine.collect (receivedOn c) (.new config) inputs
        = machine.collect (retrievedOn c) (.new config) inputs
          ++ (s.conn c).inputBuffer_.content ∧
      (s.events c).filterMap ConnEvent.shown
        = machine.collect (showsOn c) (.new config) inputs := by
  have receives : s.Receives (machine.collect (receivedOn c) (.new config) inputs)
      (machine.collect (retrievedOn c) (.new config) inputs)
      (machine.collect (showsOn c) (.new config) inputs) c := by
    induction run with
    | nil => exact ⟨rfl, rfl, fun _ => rfl⟩
    | snoc run hs ih =>
      rw [run.collect_snoc, run.collect_snoc, run.collect_snoc]
      exact ih.step run hs
  exact ⟨receives.stream, receives.shown⟩

/-- The user takes one of two bytes, and three more come in. -/
def readingTwice : List (Tid × Input) :=
  waiting ++ reading (.got [1, 2]) ++ [(.loop 1, .call (.retrieve 1))] ++ steps (.loop 1) 6 ++
    reading (.got [3, 4, 5])

theorem reception_exact_twice : ∃ s, machine.Run (Server.new oneLoop) readingTwice s ∧
    (s.events 1).filterMap ConnEvent.shown = [[1, 2], [2, 3, 4, 5]] ∧
    machine.collect (receivedOn 1) (.new oneLoop) readingTwice
      = machine.collect (retrievedOn 1) (.new oneLoop) readingTwice
        ++ (s.conn 1).inputBuffer_.content := by
  obtain ⟨s, run, shown⟩ := machine.exists_run (.new oneLoop) readingTwice
    (fun s => (s.events 1).filterMap ConnEvent.shown = [[1, 2], [2, 3, 4, 5]])
    (by decide +kernel)
  exact ⟨s, run, shown, (reception_exact oneLoop readingTwice s run 1).1⟩

end Server

end TcpMuduo
