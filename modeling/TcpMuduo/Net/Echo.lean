import TcpMuduo.Net.Reception

/-!
The echo server: a `TcpServer` whose callbacks are those of `EchoServer`. The
runs are those runs of the server in which the user's code is `main`, two
callbacks that only log, and `onMessage`, statement by statement.
-/

set_option autoImplicit false
set_option relaxedAutoImplicit false

namespace TcpMuduo

namespace Server

variable {s : Server} {t : Tid} {input : Input} {eff : Effect}
variable {sys : LoopId → LoopSystem Tid Functor ChannelRef}

def withMem (s : Server) (mem : Address → UInt8) : Server := { s with mem := mem }

theorem Confined.withMem (inv : s.Confined) (mem : Address → UInt8) : (s.withMem mem).Confined :=
  ⟨inv.ids, inv.created, inv.fresh, inv.tasks, inv.work, inv.channels, inv.interest, inv.registry⟩

theorem Does.mem {head : Option Task} (does : Does s t head input eff)
    (stores : ∀ p byte, input ≠ .call (.store p byte)) : (s.after t eff sys).mem = s.mem := by
  cases does with
  | store t m p byte => exact absurd rfl (stores p byte)
  | _ => rfl

end Server

/-- `msg` in `onMessage`: the bytes of the string, and whether `send` has been called. -/
structure Msg where
  data : Address
  len : Nat
  sent : Bool
  deriving DecidableEq, Repr

/-- The process: `msg l` is the local variable of the `onMessage` on the thread of the loop `l`. -/
structure EchoServer where
  server : Server
  msg : LoopId → Option Msg

/-- What a thread does: a step of the library, of `main` or of `onConnection`, or a statement of
`onMessage`. The string of `retrieveAllAsString` is given an address, `send` comes with the
kernel's answer to a direct write. -/
inductive EchoInput
  | library (a : Input)
  | retrieveAllAsString (p : Address)
  | send (r : WriteResult)
  | returns
  deriving DecidableEq, Repr

namespace EchoServer

def new (config : ServerConfig) : EchoServer where
  server := Server.new config
  msg := fun _ => none

def stores (p : Address) : List UInt8 → List Input
  | [] => []
  | byte :: rest => .call (.store p byte) :: stores (p + 1) rest

/-- The memory is none of the living strings'. -/
def Free (e : EchoServer) (p : Address) (len : Nat) : Prop :=
  ∀ l ≤ e.server.config.numThreads_, ∀ msg ∈ e.msg l,
    msg.data + msg.len ≤ p ∨ p + len ≤ msg.data

instance (e : EchoServer) (p : Address) (len : Nat) : Decidable (e.Free p len) :=
  inferInstanceAs (Decidable (∀ l ≤ _, ∀ msg ∈ e.msg l, _ ∨ _))

/-- `onMessage` for `c`: the calls that its next statement makes, and the string after it. -/
def onMessage (e : EchoServer) (c : ConnId) :
    Option Msg → EchoInput → Option (List Input × Option Msg)
  | none, .retrieveAllAsString p =>
    let str := (e.server.env c).unread
    if e.Free p str.length then
      some (stores p str ++ [.call (.retrieve str.length)], some ⟨p, str.length, false⟩)
    else none
  | some ⟨p, len, false⟩, .send r => some ([.call (.send c p len r)], some ⟨p, len, true⟩)
  | some ⟨_, _, true⟩, .returns => some ([.run], none)
  | _, _ => none

/-- What a thread does next, in steps of the server. `main` and the callbacks that log call
nothing. -/
def calls (e : EchoServer) (t : Tid) (a : EchoInput) :
    Option (List Input × (LoopId → Option Msg)) :=
  match t, e.server.stack t, a with
  | .loop l, .user (some c) :: _, a =>
    (e.onMessage c (e.msg l) a).map fun r => (r.1, Function.update e.msg l r.2)
  | .user _, .user (some _) :: _, _ => none
  | _, .user none :: _, .library .run => some ([.run], e.msg)
  | _, .user none :: _, _ => none
  | _, _, .library a => some ([a], e.msg)
  | _, _, _ => none

/-- The steps of the server that a step of the process consists of. -/
def inputs (e : EchoServer) (i : Tid × EchoInput) : List (Tid × Input) :=
  (e.calls i.1 i.2).elim [] fun r => r.1.map (i.1, ·)

def step (e : EchoServer) (i : Tid × EchoInput) : Option EchoServer :=
  (e.calls i.1 i.2).bind fun r =>
    (Server.machine.exec e.server (r.1.map (i.1, ·))).map fun server => ⟨server, r.2⟩

/-- All interleavings of the loops' threads. A string is made in one step: no other thread has
its address. -/
def machine : Lib.Machine EchoServer (Tid × EchoInput) where
  step := step

variable {e e' : EchoServer} {t : Tid} {i : Tid × EchoInput} {config : ServerConfig}

private theorem step_run (h : machine.step e i = some e') :
    Server.machine.Run e.server (e.inputs i) e'.server := by
  obtain ⟨r, here, h⟩ := Option.bind_eq_some_iff.mp h
  obtain ⟨server, exec, rfl⟩ := Option.map_eq_some_iff.mp h
  rw [inputs, here]
  exact Lib.Machine.run_iff_exec.mpr exec

/-- The steps of the server in a run of the process. -/
def serverInputs (config : ServerConfig) (is : List (Tid × EchoInput)) : List (Tid × Input) :=
  machine.collect inputs (new config) is

theorem server_run {is : List (Tid × EchoInput)} (run : machine.Run (new config) is e) :
    Server.machine.Run (Server.new config) (serverInputs config is) e.server :=
  run.project fun _ _ _ hs => step_run hs

def written (mem : Address → UInt8) (p : Address) : List UInt8 → Address → UInt8
  | [] => mem
  | byte :: rest => written (Function.update mem p byte) (p + 1) rest

theorem written_outside {a p : Nat} {str : List UInt8} (mem : Address → UInt8)
    (outside : a < p ∨ p + str.length ≤ a) : written mem p str a = mem a := by
  induction str generalizing mem p with
  | nil => rfl
  | cons byte rest ih =>
    rw [List.length_cons] at outside
    have other : a ≠ p := by omega
    rw [written, ih _ (by omega), Function.update_of_ne other]

theorem written_inside (mem : Address → UInt8) (p : Nat) (str : List UInt8) :
    (List.range str.length).map (fun k => written mem p str (p + k)) = str := by
  induction str generalizing mem p with
  | nil => rfl
  | cons byte rest ih =>
    have first : written (Function.update mem p byte) (p + 1) rest p = byte := by
      rw [written_outside _ (.inl (Nat.lt_succ_self p)), Function.update_self]
    have others := ih (Function.update mem p byte) (p + 1)
    rw [List.length_cons, List.range_succ_eq_map, List.map_cons, List.map_map]
    refine congrArg₂ List.cons first ((List.map_congr_left ?_).trans others)
    intro k _
    rw [Function.comp_apply, Nat.succ_eq_add_one, ← Nat.add_assoc, Nat.add_right_comm]
    rfl

private theorem step_store {s : Server} {m : Option ConnId} {back : List Task}
    (stack : s.stack t = .user m :: back) (p : Address) (byte : UInt8) :
    Server.machine.step s (t, .call (.store p byte))
      = some (s.withMem (Function.update s.mem p byte)) := by
  have same : Function.update s.stack t (.user m :: back) = s.stack := by
    rw [← stack, Function.update_eq_self]
  simp [Server.machine, Server.step, Server.effect, stack, Server.taskEffect, Server.callEffect,
    Server.loopStep, Server.after, Server.act, Server.withMem, same]

theorem run_stores {s : Server} {m : Option ConnId} {back : List Task}
    (stack : s.stack t = .user m :: back) (p : Address) (str : List UInt8) :
    Server.machine.Run s ((stores p str).map (t, ·)) (s.withMem (written s.mem p str)) := by
  induction str generalizing s p with
  | nil => exact .nil
  | cons byte rest ih =>
    exact .cons (step_store stack p byte)
      (ih (s := s.withMem (Function.update s.mem p byte)) stack (p + 1))

/-- The steps of the process, one constructor for each kind. -/
inductive Does (e : EchoServer) : Tid × EchoInput → EchoServer → Prop
  | library (t : Tid) (a : Input) (server : Server)
      (outside : ∀ c, (e.server.stack t).head? ≠ some (.user (some c)))
      (none : ∀ u, a ≠ .call u) (inputs : e.inputs (t, .library a) = [(t, a)])
      (hs : Server.machine.step e.server (t, a) = some server) :
      Does e (t, .library a) ⟨server, e.msg⟩
  | retrieveAllAsString (l : LoopId) (c : ConnId) (back : List Task) (p : Address)
      (server : Server) (stack : e.server.stack (.loop l) = .user (some c) :: back)
      (none : e.msg l = none) (free : e.Free p (e.server.env c).unread.length)
      (inputs : e.inputs (.loop l, .retrieveAllAsString p)
        = (stores p (e.server.env c).unread).map (.loop l, ·)
          ++ [(.loop l, .call (.retrieve (e.server.env c).unread.length))])
      (hs : Server.machine.step
        (e.server.withMem (written e.server.mem p (e.server.env c).unread))
        (.loop l, .call (.retrieve (e.server.env c).unread.length)) = some server) :
      Does e (.loop l, .retrieveAllAsString p)
        ⟨server, Function.update e.msg l (some ⟨p, (e.server.env c).unread.length, false⟩)⟩
  | send (l : LoopId) (c : ConnId) (back : List Task) (p : Address) (len : Nat) (r : WriteResult)
      (server : Server) (stack : e.server.stack (.loop l) = .user (some c) :: back)
      (msg : e.msg l = some ⟨p, len, false⟩)
      (inputs : e.inputs (.loop l, .send r) = [(.loop l, .call (.send c p len r))])
      (hs : Server.machine.step e.server (.loop l, .call (.send c p len r)) = some server) :
      Does e (.loop l, .send r) ⟨server, Function.update e.msg l (some ⟨p, len, true⟩)⟩
  | returns (l : LoopId) (c : ConnId) (back : List Task) (p : Address) (len : Nat)
      (server : Server) (stack : e.server.stack (.loop l) = .user (some c) :: back)
      (msg : e.msg l = some ⟨p, len, true⟩)
      (inputs : e.inputs (.loop l, .returns) = [(.loop l, .run)])
      (hs : Server.machine.step e.server (.loop l, .run) = some server) :
      Does e (.loop l, .returns) ⟨server, Function.update e.msg l none⟩

private theorem exec_singleton {s s' : Server} {i : Tid × Input}
    (h : Server.machine.exec s [i] = some s') : Server.machine.step s i = some s' := by
  simpa [Lib.Machine.exec] using h

private theorem not_call {s s' : Server} {a : Input} (user : ∀ m back, s.stack t ≠ .user m :: back)
    (h : Server.machine.step s (t, a) = some s') : ∀ u, a ≠ .call u := by
  rintro u rfl
  obtain ⟨eff, sys, does, -, -⟩ := Server.step_does h
  generalize hc : Input.call u = a at does
  generalize hh : (s.stack t).head? = head at does
  cases does with
  | send | sendElsewhere | sendLate | shutdown | shutdownLate | userQueue | userRun | userQuit
  | retrieve | store =>
    obtain ⟨back, stack⟩ := List.head?_eq_some_iff.mp hh
    exact user _ _ stack
  | _ => cases hc

theorem step_does (h : machine.step e i = some e') : e.Does i e' := by
  obtain ⟨t, a⟩ := i
  replace h := Option.bind_eq_some_iff.mp h
  obtain ⟨r, here, h⟩ := h
  replace h := Option.map_eq_some_iff.mp h
  obtain ⟨server, exec, rfl⟩ := h
  have inputs : e.inputs (t, a) = r.1.map (t, ·) := by
    dsimp only at here
    simp only [inputs, here, Option.elim_some]
  dsimp only at here exec
  unfold calls at here
  split at here
  · rename_i a l c back stack
    obtain ⟨r', statement, rfl⟩ := Option.map_eq_some_iff.mp here
    dsimp only at inputs exec
    generalize hm : e.msg l = msg at statement
    unfold onMessage at statement
    split at statement
    · rename_i p
      dsimp only at statement
      split at statement
      · rename_i free
        cases statement
        have written := run_stores stack p (e.server.env c).unread
        rw [List.map_append] at exec inputs
        obtain ⟨m, first, last⟩ := (Lib.Machine.run_iff_exec.mpr exec).split
        obtain rfl := first.unique written
        exact .retrieveAllAsString l c back p server stack hm free inputs
          (exec_singleton (Lib.Machine.run_iff_exec.mp last))
      · cases statement
    · cases statement
      exact .send l c back _ _ _ server stack hm inputs (exec_singleton exec)
    · cases statement
      exact .returns l c back _ _ server stack hm inputs (exec_singleton exec)
    · cases statement
  · cases here
  · rename_i stack
    cases here
    refine .library _ .run server ?_ (by simp) inputs (exec_singleton exec)
    simp [stack]
  · cases here
  · rename_i t _ _ _ a _ silent onLoop onUser
    cases here
    have user : ∀ m back, e.server.stack t ≠ .user m :: back := by
      rintro (_ | c) back stack
      · exact silent back stack
      · cases t with
        | loop l => exact onLoop l c back rfl stack
        | user n => exact onUser n c back rfl stack
    refine .library t a server ?_ (not_call user (exec_singleton exec)) inputs
      (exec_singleton exec)
    intro c head
    obtain ⟨back, stack⟩ := List.head?_eq_some_iff.mp head
    exact user _ _ stack
  · cases here

end EchoServer

end TcpMuduo
