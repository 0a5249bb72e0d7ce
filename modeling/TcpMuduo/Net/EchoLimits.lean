import TcpMuduo.Net.EchoStream
import TcpMuduo.Net.Load
import TcpMuduo.Net.Progress

/-!
What the echo server asks of its process, over all runs: a bounded memory for
each connection, and no thread that its callback keeps from going on.
-/

set_option autoImplicit false
set_option relaxedAutoImplicit false

namespace TcpMuduo

open Buffer (inputBound outputBound)

private theorem Buffer.iovLen_le (b : Buffer) (R : Nat) (size : b.buffer_.length ≤ inputBound R) :
    b.iovLen ≤ inputBound R := by
  unfold iovLen iovcnt inputBound writableBytes at *
  split <;> split at * <;> omega

namespace Server

variable {s : Server} {c : ConnId} {i : Tid × Input}

private theorem length_receivedOn_le :
    (s.receivedOn c i).length ≤ (s.conn c).inputBuffer_.iovLen := by
  unfold receivedOn
  cases s.opOn c i with
  | none => exact Nat.zero_le _
  | some op =>
    cases op with
    | handleRead r =>
      simp only [Option.elim_some, ConnOp.received]
      split
      · rename_i fits
        cases r with
        | got bytes => exact fits
        | failed errno => exact Nat.zero_le _
      · exact Nat.zero_le _
    | _ => exact Nat.zero_le _

end Server

namespace EchoServer

variable {e e' : EchoServer} {c : ConnId} {config : ServerConfig} {is : List (Tid × EchoInput)}

/-- The server shows exactly what has come in. -/
def ShowsAll (c : ConnId) (s : Server) (i : Tid × Input) : Prop :=
  s.receivedOn c i = (s.showsOn c i).flatten

theorem ShowsAll.unread {s : Server} {i : Tid × Input} (all : ShowsAll c s i)
    (brought : s.receivedOn c i ≠ []) : (s.env c).unread = [] := by
  unfold ShowsAll Server.showsOn at all
  rw [if_neg brought, List.flatten_singleton] at all
  exact List.self_eq_append_left.mp all

private theorem showsAll_run (run : machine.Run (new config) is e) (c : ConnId) :
    Server.machine.StepsMeet (ShowsAll c) (.new config) (serverInputs config is) := by
  have less (s : Server) (i : Tid × Input) :
      (s.receivedOn c i).Sublist (s.showsOn c i).flatten := by
    unfold Server.showsOn
    split
    · rename_i none
      rw [none]
      exact List.Sublist.refl _
    · rw [List.flatten_singleton]
      exact List.sublist_append_right _ _
  refine ((server_run run).collect_eq_iff less).mp ?_
  rw [((books run).2 c).received, Lib.Machine.collect_flatten]

private theorem readsBehind_run (run : machine.Run (new config) is e) (c : ConnId) :
    Server.machine.StepsMeet (Server.ReadsBehind 0 c) (.new config) (serverInputs config is) := by
  intro pre i s hpre hs brought
  have none := (showsAll_run run c pre i s hpre hs).unread brought
  exact Nat.le_of_eq (congrArg List.length none)

private theorem messages_short (run : machine.Run (new config) is e) (c : ConnId) :
    ∀ data ∈ Server.machine.collect (Server.messages c) (.new config) (serverInputs config is),
      data.length ≤ inputBound 0 := by
  intro data mem
  have shown : data ∈
      Server.machine.collect (Server.showsOn c) (.new config) (serverInputs config is) := by
    rw [((books run).2 c).chunks]
    exact List.mem_append_left _ mem
  obtain ⟨pre, i, s, hpre, hs, here⟩ := Lib.Machine.occurred_of_mem_collect shown
  have all := showsAll_run run c pre i s hpre hs
  have behind := (readsBehind_run run c).before (List.prefix_append pre [i] |>.trans hpre)
  have size := Server.inputSize_run hs behind
  have whole : data = s.receivedOn c i := by
    unfold ShowsAll at all
    unfold Server.showsOn at here all
    split at here
    · cases here
    · rename_i brought
      rw [if_neg brought, List.flatten_singleton] at all
      rw [List.mem_singleton.mp here, ← all]
  rw [whole]
  exact Nat.le_trans Server.length_receivedOn_le (Buffer.iovLen_le _ 0 size)

/-- A connection of the echo server never takes more than 1 MiB for a buffer, however long it
lives, whatever its peer sends and however slowly it reads. -/
theorem echo_bounded (config : ServerConfig) (is : List (Tid × EchoInput)) (e : EchoServer)
    (run : machine.Run (new config) is e) (c : ConnId) :
    (e.server.conn c).inputBuffer_.buffer_.length < 2 ^ 20 ∧
      (e.server.conn c).outputBuffer_.buffer_.length < 2 ^ 20 := by
  have input := Server.inputSize_run (server_run run) (readsBehind_run run c)
  have output := Server.outputSize_run (server_run run) (messages_short run c)
  exact ⟨Nat.lt_of_le_of_lt input (by decide), Nat.lt_of_le_of_lt output (by decide)⟩

theorem echo_bounded_losing : ∃ e, machine.Run (new Server.oneLoop) losing e ∧
    (e.server.conn 1).outputBuffer_.content = [9] ∧
    (e.server.conn 1).inputBuffer_.buffer_.length < 2 ^ 20 ∧
      (e.server.conn 1).outputBuffer_.buffer_.length < 2 ^ 20 := by
  obtain ⟨e, run, left⟩ := machine.exists_run (new Server.oneLoop) losing
    (fun e => (e.server.conn 1).outputBuffer_.content = [9]) (by decide +kernel)
  exact ⟨e, run, left, echo_bounded Server.oneLoop losing e run 1⟩

/-- The thread can take a step of the process. -/
def CanStep (e : EchoServer) (t : Tid) : Prop := ∃ a e', machine.step e (t, a) = some e'

/-- Behind all living strings there is room for another one. -/
theorem exists_free (e : EchoServer) (len : Nat) : ∃ p, e.Free p len := by
  let limit (l : LoopId) : Nat := (e.msg l).elim 0 fun msg => msg.data + msg.len
  refine ⟨(Finset.range (e.server.config.numThreads_ + 1)).sup limit, ?_⟩
  intro l made msg here
  have below := Finset.le_sup (f := limit) (Finset.mem_range.mpr (Nat.lt_succ_of_le made))
  refine .inl (Nat.le_trans (Nat.le_of_eq ?_) below)
  simp only [limit, Option.mem_def.mp here, Option.elim_some]

section CanStep

variable {t : Tid} {l : LoopId} {back : List Task} {p : Address} {len : Nat}

private theorem canStep_of_statement {a : EchoInput} {b : Input} {msg' : Option Msg}
    {server : Server}
    (stack : e.server.stack (.loop l) = .user (some c) :: back)
    (statement : e.onMessage c (e.msg l) a = some ([b], msg'))
    (hs : Server.machine.step e.server (.loop l, b) = some server) : e.CanStep (.loop l) := by
  refine ⟨a, ⟨server, Function.update e.msg l msg'⟩, ?_⟩
  have calls : e.calls (.loop l) a = some ([b], Function.update e.msg l msg') := by
    simp only [EchoServer.calls, stack, statement, Option.map_some]
  simp [machine, step, calls, Lib.Machine.exec, hs]

private theorem canStep_retrieve (stack : e.server.stack (.loop l) = .user (some c) :: back)
    (msg : e.msg l = none) : e.CanStep (.loop l) := by
  obtain ⟨p, free⟩ := e.exists_free (e.server.env c).unread.length
  have stores := run_stores stack p (e.server.env c).unread
  have behind : (e.server.withMem (written e.server.mem p (e.server.env c).unread)).stack (.loop l)
      = .user (some c) :: back := stack
  obtain ⟨server, last⟩ :=
    Server.step_call (u := .retrieve (e.server.env c).unread.length) behind rfl rfl
  have calls : e.calls (.loop l) (.retrieveAllAsString p)
      = some (EchoServer.stores p (e.server.env c).unread
          ++ [.call (.retrieve (e.server.env c).unread.length)],
        Function.update e.msg l (some ⟨p, (e.server.env c).unread.length, false⟩)) := by
    simp only [EchoServer.calls, stack, msg, onMessage, if_pos free, Option.map_some]
  have exec := Lib.Machine.run_iff_exec.mp (stores.snoc last)
  refine ⟨.retrieveAllAsString p, ⟨server,
    Function.update e.msg l (some ⟨p, (e.server.env c).unread.length, false⟩)⟩, ?_⟩
  simp [machine, step, calls, exec]

private theorem canStep_library (can : e.server.CanStep t)
    (outside : ∀ c, (e.server.stack t).head? ≠ some (.user (some c))) : e.CanStep t := by
  by_cases main : (e.server.stack t).head? = some (.user none)
  · obtain ⟨back, stack⟩ := List.head?_eq_some_iff.mp main
    have effect : e.server.effect t .run = some {} := by
      simp [Server.effect, stack, Server.taskEffect]
    have hs := Server.step_alone effect rfl
    have calls : e.calls t (.library .run) = some ([.run], e.msg) := by
      unfold EchoServer.calls
      rw [stack]
      cases t <;> rfl
    refine ⟨.library .run, ⟨e.server.after t {} e.server.sys, e.msg⟩, ?_⟩
    simp [machine, step, calls, Lib.Machine.exec, hs]
  · obtain ⟨a, server, hs⟩ := can
    have calls : e.calls t (.library a) = some ([a], e.msg) := by
      unfold EchoServer.calls
      cases stack : e.server.stack t with
      | nil => cases t <;> rfl
      | cons task back =>
        rw [stack] at main outside
        cases task with
        | user m =>
          cases m with
          | none => exact absurd rfl main
          | some c => exact absurd rfl (outside c)
        | _ => cases t <;> rfl
    exact ⟨.library a, ⟨server, e.msg⟩, by simp [machine, step, calls, Lib.Machine.exec, hs]⟩

private theorem canStep_onMessage (up : e.server.Up c)
    (stack : e.server.stack (.loop l) = .user (some c) :: back) : e.CanStep (.loop l) := by
  cases msg : e.msg l with
  | none => exact canStep_retrieve stack msg
  | some str =>
    obtain ⟨p, len, sent⟩ := str
    cases sent with
    | false =>
      obtain ⟨server, hs⟩ := Server.step_send stack up p len
      have statement : e.onMessage c (e.msg l) (.send (.failed .EWOULDBLOCK))
          = some ([.call (.send c p len (.failed .EWOULDBLOCK))], some ⟨p, len, true⟩) := by
        rw [msg]
        rfl
      exact canStep_of_statement stack statement hs
    | true =>
      have effect : e.server.effect (.loop l) .run = some {} := by
        simp [Server.effect, stack, Server.taskEffect]
      have statement : e.onMessage c (e.msg l) .returns = some ([.run], none) := by
        rw [msg]
        rfl
      exact canStep_of_statement stack statement (Server.step_alone effect rfl)

private theorem Echoes.canStep (inv : e.Echoes) (confined : e.server.Confined)
    (can : e.server.CanStep t) : e.CanStep t := by
  by_cases user : ∃ c, (e.server.stack t).head? = some (.user (some c))
  · obtain ⟨c, head⟩ := user
    have mem := List.mem_of_mem_head? head
    obtain ⟨back, stack⟩ := List.head?_eq_some_iff.mp head
    cases t with
    | user n => exact absurd trivial (inv.users n _ mem)
    | loop l =>
      have known : e.server.Known c := (confined.tasks (.loop l) (.user (some c)) mem).1
      exact canStep_onMessage known.2 stack
  · exact canStep_library can fun c head => user ⟨c, head⟩

end CanStep

/-- `onMessage` holds no thread up: in every reachable state of the echo server a thread that is
inside of a call or in `loop()` can take a step, or it is the base thread, and the thread of the
pool that it waits for can take one. -/
theorem echo_never_stuck (config : ServerConfig) (e : EchoServer)
    (h : machine.Reachable (new config) e) (t : Tid) (busy : e.server.Busy t) :
    e.CanStep t ∨
      t = .loop 0 ∧ ∃ l ∈ config.loops_, e.server.WaitsFor t l ∧ e.CanStep (.loop l) := by
  obtain ⟨is, run⟩ := h
  have reach := (server_run run).reachable
  have inv := (books run).1
  have confined := Server.confined reach
  rcases Server.canStep_of_busy reach busy with can | ⟨l, waits⟩
  · exact .inl (inv.canStep confined can)
  · obtain ⟨base, pool, can⟩ := waits.resolve reach
    exact .inr ⟨base, l, pool, waits, inv.canStep confined can⟩

/-- The sub-loop is about to enter `onMessage`. -/
theorem echo_never_stuck_entering : ∃ e,
    machine.Run (new Server.oneLoop)
      (library (Server.waiting ++ Server.reading (.got [7, 8, 9]))) e ∧
    (e.server.stack (.loop 1)).head? = some (.user (some 1)) ∧
    (e.CanStep (.loop 1) ∨ Tid.loop 1 = .loop 0 ∧
      ∃ l ∈ Server.oneLoop.loops_, e.server.WaitsFor (.loop 1) l ∧ e.CanStep (.loop l)) := by
  obtain ⟨e, run, entering⟩ := machine.exists_run (new Server.oneLoop)
    (library (Server.waiting ++ Server.reading (.got [7, 8, 9])))
    (fun e => (e.server.stack (.loop 1)).head? = some (.user (some 1))) (by decide +kernel)
  have tasks : e.server.stack (.loop 1) ≠ [] := List.ne_nil_of_mem (List.mem_of_mem_head? entering)
  exact ⟨e, run, entering,
    echo_never_stuck Server.oneLoop e run.reachable (.loop 1) (.inl tasks)⟩

end EchoServer

end TcpMuduo
