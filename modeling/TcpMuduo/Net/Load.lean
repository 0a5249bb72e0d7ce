import TcpMuduo.Net.BufferSpace
import TcpMuduo.Net.Reception

/-!
The memory that a connection takes, over all runs of the server: the vectors of
its two buffers are bounded by what the user leaves unread and by the longest
message, and not by the length of the run.
-/

set_option autoImplicit false
set_option relaxedAutoImplicit false

namespace TcpMuduo

namespace Buffer

variable {b : Buffer} {r : ReadvResult} {R L : Nat}

/-- The size of an input buffer with `R` unread bytes at most. -/
def inputBound (R : Nat) : Nat := kCheapPrepend + R + 4 * extrabufSize

/-- The size of an output buffer for messages of `L` bytes at most. -/
def outputBound (L : Nat) : Nat := kCheapPrepend + kInitialSize + 3 * L

private theorem WF.readFd_size_le (wf : b.WF) (fits : r.Fits b.iovLen)
    (unread : r.bytes ≠ [] → b.readableBytes ≤ R) :
    (b.readFd r).1.buffer_.length ≤ max b.buffer_.length (inputBound R) := by
  rw [readFd_size]
  cases made : b.readFdCall r with
  | none => exact Nat.le_max_left _ _
  | some call =>
    obtain ⟨calls, bytes, rfl, large, rfl⟩ := wf.readFdCall made
    have grown : ((b.filled bytes).makeSpace (b.spilled bytes).length).buffer_.length ≤
        max (b.filled bytes).buffer_.length
          (kCheapPrepend + (b.filled bytes).readableBytes + 2 * (b.spilled bytes).length) :=
      calls.wf.makeSpace_size
    have spilled := b.length_spilled_le bytes
    have some : bytes ≠ [] := by
      rintro rfl
      exact Nat.not_lt_zero _ large
    have unread := unread some
    have small : b.writableBytes < extrabufSize := by
      by_contra wide
      have one : b.iovLen = b.writableBytes := by simp [iovLen, iovcnt, wide]
      exact absurd (one ▸ fits) (Nat.not_le_of_lt large)
    have filled : (b.filled bytes).readableBytes ≤ b.readableBytes + b.writableBytes := by
      simp only [Buffer.filled, readableBytes, writableBytes]
      omega
    rw [calls.size] at grown
    simp only [sizeAfter, Option.elim_some, inputBound]
    omega

private theorem WF.append_size_le (wf : b.WF) (empty : b.readableBytes = 0) {data : List UInt8}
    (short : data.length ≤ L) :
    (b.append data).buffer_.length ≤ max b.buffer_.length (outputBound L) := by
  have after := wf.readableBytes_append data
  have made : b.apply (.append data) = some (b.append data, []) := rfl
  have size := wf.apply_size_le (R := L) (L := L) made (by omega) (by omega) short
  unfold outputBound
  omega

private theorem length_new (initalSize : Nat) :
    (new initalSize).buffer_.length = kCheapPrepend + initalSize :=
  List.length_replicate

private theorem length_new_le (R L : Nat) :
    (new kInitialSize).buffer_.length ≤ inputBound R ∧
      (new kInitialSize).buffer_.length ≤ outputBound L := by
  rw [length_new]
  unfold inputBound outputBound kInitialSize extrabufSize
  omega

@[simp] theorem length_retrieve (len : Nat) :
    (b.retrieve len).buffer_.length = b.buffer_.length := by
  unfold retrieve
  split <;> rfl

end Buffer

namespace ConnEnv

def inputSize (e : ConnEnv) : Nat := e.conn.inputBuffer_.buffer_.length

def outputSize (e : ConnEnv) : Nat := e.conn.outputBuffer_.buffer_.length

end ConnEnv

namespace ConnOp

open Buffer (inputBound outputBound)

variable {c : ConnId} {e : ConnEnv} {R L : Nat}

private theorem inputSize_apply (op : ConnOp) (unread : op.received e ≠ [] → e.unread.length ≤ R) :
    (op.apply c e).inputSize ≤ max e.inputSize (inputBound R) := by
  cases op with
  | handleRead r =>
    by_cases fits : r.Fits e.conn.inputBuffer_.iovLen
    · have taken : (ConnOp.handleRead r).received e = r.bytes := if_pos fits
      have few : r.bytes ≠ [] → e.conn.inputBuffer_.readableBytes ≤ R := by
        intro some
        rw [ValidBuffer.readableBytes_eq]
        exact unread (taken ▸ some)
      have size := e.conn.inputBuffer_.wf.readFd_size_le fits few
      simp only [apply, dif_pos fits, TcpConnection.handleRead]
      split <;> exact size
    · simp only [apply, dif_neg fits]
      exact Nat.le_max_left _ _
  | retrieve len =>
    refine Nat.le_trans (Nat.le_of_eq ?_) (Nat.le_max_left _ _)
    exact Buffer.length_retrieve len
  | _ =>
    refine Nat.le_trans (Nat.le_of_eq ?_) (Nat.le_max_left _ _)
    refine congrArg (fun b : ValidBuffer => b.buffer_.length) ?_
    exact inputBuffer_apply _ (by simp) (by simp)

private theorem outputSize_apply (op : ConnOp) (short : ∀ data ∈ op.message, data.length ≤ L) :
    (op.apply c e).outputSize ≤ max e.outputSize (outputBound L) := by
  have kept {e' : ConnEnv} (same : e'.conn.outputBuffer_ = e.conn.outputBuffer_) :
      e'.outputSize ≤ max e.outputSize (outputBound L) := by
    unfold ConnEnv.outputSize
    rw [same]
    exact Nat.le_max_left _ _
  have shut : (TcpConnection.shutdownInLoop e).conn.outputBuffer_ = e.conn.outputBuffer_ := by
    rcases TcpConnection.shutdownInLoop_cases e with ⟨_, same⟩ | ⟨_, same⟩
    · rw [same]
      rfl
    · rw [same]
  cases op with
  | sendInLoop data r =>
    have outcome := TcpConnection.sendInLoop_outcome c data r e
    simp only [apply]
    generalize TcpConnection.sendInLoop c data r e = e' at outcome ⊢
    cases outcome with
    | blocked r busy | failed errno direct => exact kept rfl
    | whole n test direct all => exact kept (by simp)
    | part n test direct some =>
      have empty : e.conn.outputBuffer_.readableBytes = 0 :=
        e.conn.outputBuffer_.readableBytes_eq_zero.mpr direct.2
      have rest : (data.drop n).length ≤ L := by
        rw [List.length_drop]
        exact Nat.le_trans (Nat.sub_le _ _) (short data (List.mem_singleton_self _))
      exact e.conn.outputBuffer_.wf.append_size_le empty rest
  | handleWriteDrain r =>
    have outcome := TcpConnection.handleWriteDrain_outcome c r e
    simp only [apply]
    generalize (TcpConnection.handleWriteDrain c r e).1 = e',
      (TcpConnection.handleWriteDrain c r e).2 = flag at outcome ⊢
    have taken (n : Nat) : (e.conn.outputBuffer_.retrieve n).buffer_.length
        ≤ max e.outputSize (outputBound L) :=
      Nat.le_trans (Nat.le_of_eq (Buffer.length_retrieve n)) (Nat.le_max_left _ _)
    cases outcome with
    | idle r off | stuck r on none => exact kept rfl
    | part n on some => exact taken n
    | drained n test on all =>
      have last := taken n
      simpa [ConnEnv.outputSize, ConnEnv.channel, ConnEnv.setOutputBuffer] using last
  | handleRead r =>
    simp only [apply]
    split
    · simp only [TcpConnection.handleRead]
      split <;> exact kept rfl
    · exact kept rfl
  | handleWriteEnd =>
    rcases TcpConnection.handleWriteEnd_cases e with ⟨_, same⟩ | ⟨_, same⟩
    · simp only [apply, same]
      exact kept shut
    · simp only [apply, same]
      exact kept rfl
  | shutdownInLoop => exact kept shut
  | _ => exact kept rfl

end ConnOp

namespace Server

open Buffer (inputBound outputBound)

variable {s s' : Server} {i : Tid × Input} {c : ConnId} {config : ServerConfig} {R L : Nat}
variable {inputs : List (Tid × Input)}

/-- Where a read of `c` brings bytes in, the user has left `R` unread at most. -/
def ReadsBehind (R : Nat) (c : ConnId) (s : Server) (i : Tid × Input) : Prop :=
  s.receivedOn c i ≠ [] → (s.env c).unread.length ≤ R

instance (R : Nat) (c : ConnId) (s : Server) (i : Tid × Input) : Decidable (s.ReadsBehind R c i) :=
  inferInstanceAs (Decidable (_ → _))

private theorem inputSize_step (reach : machine.Reachable (Server.new config) s)
    (h : machine.step s i = some s') (reads : s.ReadsBehind R c i) :
    (s'.env c).inputSize ≤ max (s.env c).inputSize (inputBound R) := by
  cases step_sees (confined reach) h c with
  | op op here created conn events =>
    have size := op.inputSize_apply (c := c) (e := s.env c) (R := R) fun some =>
      reads (by simpa [receivedOn, here] using some)
    unfold ConnEnv.inputSize at size ⊢
    rw [← conn] at size
    exact size
  | new connfd here this conn events =>
    refine Nat.le_trans ?_ (Nat.le_max_right _ _)
    have size := (Buffer.length_new_le R 0).1
    unfold ConnEnv.inputSize env
    rw [conn]
    exact size
  | idle here revents conn events =>
    simp [ConnEnv.inputSize, env, conn]

private theorem outputSize_step (reach : machine.Reachable (Server.new config) s)
    (h : machine.step s i = some s') (short : ∀ data ∈ s.messages c i, data.length ≤ L) :
    (s'.env c).outputSize ≤ max (s.env c).outputSize (outputBound L) := by
  cases step_sees (confined reach) h c with
  | op op here created conn events =>
    have size := op.outputSize_apply (c := c) (e := s.env c) (L := L) (by
      simpa [messages, here] using short)
    unfold ConnEnv.outputSize at size ⊢
    rw [← conn] at size
    exact size
  | new connfd here this conn events =>
    refine Nat.le_trans ?_ (Nat.le_max_right _ _)
    have size := (Buffer.length_new_le 0 L).2
    unfold ConnEnv.outputSize env
    rw [conn]
    exact size
  | idle here revents conn events =>
    simp [ConnEnv.outputSize, env, conn]

theorem inputSize_run (run : machine.Run (Server.new config) inputs s)
    (reads : machine.StepsMeet (ReadsBehind R c) (.new config) inputs) :
    (s.env c).inputSize ≤ inputBound R := by
  have init : ((Server.new config).env c).inputSize ≤ inputBound R := (Buffer.length_new_le R 0).1
  refine run.invariant_of_stepsMeet (I := fun _ s => (s.env c).inputSize ≤ inputBound R) reads init
    ?_
  intro _ _ _ _ before bound behind hs
  exact Nat.le_trans (inputSize_step before.reachable hs behind) (Nat.max_le.mpr ⟨bound, le_rfl⟩)

theorem outputSize_run (run : machine.Run (Server.new config) inputs s)
    (short : ∀ data ∈ machine.collect (messages c) (.new config) inputs, data.length ≤ L) :
    (s.env c).outputSize ≤ outputBound L := by
  induction run with
  | nil => exact (Buffer.length_new_le 0 L).2
  | snoc before hs ih =>
    rw [before.collect_snoc] at short
    have bound := ih fun data sent => short data (List.mem_append_left _ sent)
    refine Nat.le_trans (outputSize_step before.reachable hs ?_) (Nat.max_le.mpr ⟨bound, le_rfl⟩)
    exact fun data sent => short data (List.mem_append_right _ sent)

/-- The memory of a connection is bounded by its load. Along every run in which each read that
brings bytes in finds `R` bytes unread at most, and each message has `L` bytes at most, the
vectors of its two buffers stay below bounds in `R` and `L` alone, however long the run, whatever
the peer sends and however slowly it reads. -/
theorem buffers_bounded (config : ServerConfig) (inputs : List (Tid × Input)) (s : Server)
    (run : machine.Run (Server.new config) inputs s) (c : ConnId) (R L : Nat)
    (reads : machine.StepsMeet (ReadsBehind R c) (.new config) inputs)
    (short : ∀ data ∈ machine.collect (messages c) (.new config) inputs, data.length ≤ L) :
    (s.conn c).inputBuffer_.buffer_.length ≤ inputBound R ∧
      (s.conn c).outputBuffer_.buffer_.length ≤ outputBound L := by
  exact ⟨inputSize_run run reads, outputSize_run run short⟩

/-- Five bytes come in in two reads, one is taken out between them, and a message of three bytes
is not written whole. -/
def readingAndSending : List (Tid × Input) :=
  readingTwice ++ [(.loop 1, .call (.send 1 100 3 (.wrote 2)))] ++ steps (.loop 1) 4

theorem buffers_bounded_sending : ∃ s, machine.Run (Server.new oneLoop) readingAndSending s ∧
    (s.conn 1).inputBuffer_.content = [2, 3, 4, 5] ∧ (s.conn 1).outputBuffer_.content = [0] ∧
    (s.conn 1).inputBuffer_.buffer_.length ≤ inputBound 1 ∧
      (s.conn 1).outputBuffer_.buffer_.length ≤ outputBound 3 := by
  obtain ⟨s, run, unread, rest⟩ := machine.exists_run (.new oneLoop) readingAndSending
    (fun s => (s.conn 1).inputBuffer_.content = [2, 3, 4, 5] ∧
      (s.conn 1).outputBuffer_.content = [0])
    (by decide +kernel)
  exact ⟨s, run, unread, rest, buffers_bounded oneLoop readingAndSending s run 1 1 3
    (machine.stepsMeet_of_checks (by decide +kernel)) (by decide +kernel)⟩

end Server

end TcpMuduo
