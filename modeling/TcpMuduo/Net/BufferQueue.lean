import TcpMuduo.Lib.Machine
import TcpMuduo.Net.Buffer

/-!
What a `Buffer` is for: a first-in first-out queue of bytes. The buffer's
operations, driven in any order, do to the readable bytes what the queue's
operations do to its contents.
-/

set_option autoImplicit false
set_option relaxedAutoImplicit false

namespace TcpMuduo

/-- The abstract queue, oldest byte first. -/
abbrev ByteQueue := List UInt8

namespace ByteQueue

def enqueue (q : ByteQueue) (bytes : List UInt8) : ByteQueue := q ++ bytes

def dequeue (q : ByteQueue) (n : Nat) : List UInt8 × ByteQueue := (q.take n, q.drop n)

end ByteQueue

/-- One call on a buffer, with the kernel's answer where it makes a system call. `writeFd`
stands for the call followed by the `retrieve` of the count written. -/
inductive BufferOp
  | append (data : List UInt8)
  | retrieve (len : Nat)
  | retrieveAll
  | retrieveAllAsString
  | retrieveAsString (len : Nat)
  | ensureWritableBytes (len : Nat)
  | readFd (r : ReadvResult)
  | writeFd (r : WriteResult)
  deriving DecidableEq, Repr

/-- Calls that respect the interface, and answers the kernel can give. -/
def BufferOp.Allowed (b : Buffer) : BufferOp → Prop
  | .retrieveAsString len => len ≤ b.readableBytes
  | .readFd r => r.Fits b.iovLen
  | .writeFd r => r.Fits b.readableBytes
  | _ => True

instance (b : Buffer) (op : BufferOp) : Decidable (op.Allowed b) :=
  match op with
  | .retrieveAsString len => inferInstanceAs (Decidable (len ≤ b.readableBytes))
  | .readFd r => inferInstanceAs (Decidable (r.Fits b.iovLen))
  | .writeFd r => inferInstanceAs (Decidable (r.Fits b.readableBytes))
  | .append _ | .retrieve _ | .retrieveAll | .retrieveAllAsString | .ensureWritableBytes _ =>
    inferInstanceAs (Decidable True)

def Buffer.apply (b : Buffer) : BufferOp → Option (Buffer × List UInt8)
  | .append data => some (b.append data, [])
  | .retrieve len => some (b.retrieve len, [])
  | .retrieveAll => some (b.retrieveAll, [])
  | .retrieveAllAsString => b.retrieveAllAsString.map fun r => (r.2, r.1)
  | .retrieveAsString len => (b.retrieveAsString len).map fun r => (r.2, r.1)
  | .ensureWritableBytes len => some (b.ensureWritableBytes len, [])
  | .readFd r => some ((b.readFd r).1, [])
  | .writeFd r =>
    match r with
    | .wrote n => some (b.retrieve n, (b.writeFd r).1)
    | .failed _ => some (b, (b.writeFd r).1)

def ByteQueue.apply (q : ByteQueue) : BufferOp → ByteQueue × List UInt8
  | .append data => (q.enqueue data, [])
  | .retrieve len => ((q.dequeue len).2, [])
  | .retrieveAll => ((q.dequeue q.length).2, [])
  | .retrieveAllAsString => ((q.dequeue q.length).2, (q.dequeue q.length).1)
  | .retrieveAsString len => ((q.dequeue len).2, (q.dequeue len).1)
  | .ensureWritableBytes _ => (q, [])
  | .readFd r =>
    match r with
    | .got bytes => (q.enqueue bytes, [])
    | .failed _ => (q, [])
  | .writeFd r =>
    match r with
    | .wrote n => ((q.dequeue n).2, q)
    | .failed _ => (q, q)

/-- The buffer under arbitrary allowed calls. -/
def bufferMachine : Lib.Machine Buffer BufferOp where
  step b op := if op.Allowed b then (b.apply op).map Prod.fst else none

def queueAfter (ops : List BufferOp) : ByteQueue :=
  ops.foldl (fun q op => (q.apply op).1) []

@[simp] theorem queueAfter_snoc (ops : List BufferOp) (op : BufferOp) :
    queueAfter (ops ++ [op]) = ((queueAfter ops).apply op).1 := by
  simp [queueAfter]

/-- One allowed call keeps the representation in order and does to the readable bytes what the
queue does, with the same bytes handed out. -/
theorem Buffer.WF.apply {b : Buffer} (h : b.WF) {op : BufferOp} (ok : op.Allowed b) :
    ∃ b' out, b.apply op = some (b', out) ∧ b'.WF ∧
      (ByteQueue.apply b.content op) = (b'.content, out) := by
  have size := h.length_content
  cases op with
  | append data =>
    exact ⟨_, _, rfl, (h.append data).1, by simp [ByteQueue.apply, ByteQueue.enqueue, h.append]⟩
  | retrieve len =>
    exact ⟨_, _, rfl, (h.retrieve len).1, by
      simp [ByteQueue.apply, ByteQueue.dequeue, h.retrieve]⟩
  | retrieveAll =>
    exact ⟨_, _, rfl, h.retrieveAll.1, by
      simp [ByteQueue.apply, ByteQueue.dequeue, h.retrieveAll]⟩
  | retrieveAllAsString =>
    refine ⟨b.retrieve b.readableBytes, b.content, ?_, (h.retrieve _).1, ?_⟩
    · simp only [Buffer.apply, Buffer.retrieveAllAsString]
      rw [h.retrieveAsString (Nat.le_refl _), ← size, List.take_length]
      rfl
    · rw [(h.retrieve _).2, ← size]
      simp [ByteQueue.apply, ByteQueue.dequeue]
  | retrieveAsString len =>
    refine ⟨b.retrieve len, b.content.take len, ?_, (h.retrieve _).1, ?_⟩
    · simp only [Buffer.apply, h.retrieveAsString ok, Option.map_some]
    · simp [ByteQueue.apply, ByteQueue.dequeue, h.retrieve]
  | ensureWritableBytes len =>
    obtain ⟨wf, same, _⟩ := h.ensureWritableBytes len
    exact ⟨_, _, rfl, wf, by simp [ByteQueue.apply, same]⟩
  | readFd r =>
    cases r with
    | got bytes =>
      obtain ⟨wf, joined⟩ := h.readFd ok
      exact ⟨_, _, rfl, wf, by simp [ByteQueue.apply, ByteQueue.enqueue, joined]⟩
    | failed e => exact ⟨_, _, rfl, h, rfl⟩
  | writeFd r =>
    cases r with
    | wrote n =>
      exact ⟨_, _, rfl, (h.retrieve n).1, by
        simp [ByteQueue.apply, ByteQueue.dequeue, h.retrieve, h.writeFd]⟩
    | failed e => exact ⟨_, _, rfl, h, by simp [ByteQueue.apply, h.writeFd]⟩

theorem bufferMachine_step {b b' : Buffer} {op : BufferOp}
    (h : bufferMachine.step b op = some b') :
    op.Allowed b ∧ ∃ out, b.apply op = some (b', out) := by
  simp only [bufferMachine] at h
  split at h
  · rename_i ok
    obtain ⟨⟨c, out⟩, happ, rfl⟩ := Option.map_eq_some_iff.mp h
    exact ⟨ok, out, happ⟩
  · cases h

theorem Buffer.WF.step {b b' : Buffer} (h : b.WF) {op : BufferOp}
    (hs : bufferMachine.step b op = some b') :
    b'.WF ∧ (ByteQueue.apply b.content op).1 = b'.content := by
  obtain ⟨ok, out, called⟩ := bufferMachine_step hs
  obtain ⟨c, out', happ, wf, same⟩ := h.apply ok
  obtain ⟨rfl, rfl⟩ := Prod.mk.inj (Option.some.inj (called.symm.trans happ))
  exact ⟨wf, congrArg Prod.fst same⟩

/-- The run lemma: the representation stays in order and the readable bytes are the queue's. -/
theorem bufferMachine_run {initalSize : Nat} {ops : List BufferOp} {b : Buffer}
    (h : bufferMachine.Run (Buffer.new initalSize) ops b) :
    b.WF ∧ b.content = queueAfter ops := by
  induction h with
  | nil => exact ⟨Buffer.new_wf _, by simp [queueAfter]⟩
  | @snoc ops b b' op _ hs ih =>
    obtain ⟨wf, same⟩ := ih
    obtain ⟨wf', next⟩ := wf.step hs
    exact ⟨wf', by rw [queueAfter_snoc, ← same, next]⟩

/-- A buffer refines the byte queue: after any allowed calls its readable bytes are the
queue's, and whatever call comes next is answered with the bytes the queue answers with; a
failed `readFd` leaves the buffer as it was. -/
theorem buffer_refines_queue (initalSize : Nat) (ops : List BufferOp) (b : Buffer)
    (h : bufferMachine.Run (Buffer.new initalSize) ops b) :
    b.content = queueAfter ops ∧
      (∀ op, op.Allowed b → ∃ b', b.apply op = some (b', ((queueAfter ops).apply op).2) ∧
        b'.content = queueAfter (ops ++ [op])) ∧
      ∀ e, b.readFd (.failed e) = (b, -1, some e) := by
  obtain ⟨wf, same⟩ := bufferMachine_run h
  refine ⟨same, ?_, fun e => rfl⟩
  intro op ok
  obtain ⟨b', out, happ, _, hq⟩ := wf.apply ok
  rw [same] at hq
  exact ⟨b', by rw [happ, hq], by rw [queueAfter_snoc, hq]⟩

/-- Two messages with a partial `retrieve` between them; the second one is appended only after
the first has been moved to the front. -/
def compactingCalls : List BufferOp :=
  [.append [1, 2, 3], .retrieve 2, .append [4, 5, 6], .retrieveAsString 3]

theorem buffer_refines_queue_compacting :
    bufferMachine.Run (Buffer.new 4) compactingCalls
        ⟨[0, 0, 0, 0, 0, 0, 0, 0, 3, 4, 5, 6], 11, 12⟩ ∧
      (⟨[0, 0, 0, 0, 0, 0, 0, 0, 3, 4, 5, 6], 11, 12⟩ : Buffer).content
        = queueAfter compactingCalls := by
  have run : bufferMachine.Run (Buffer.new 4) compactingCalls
      ⟨[0, 0, 0, 0, 0, 0, 0, 0, 3, 4, 5, 6], 11, 12⟩ :=
    Lib.Machine.run_iff_exec.mpr (by decide)
  exact ⟨run, (buffer_refines_queue 4 _ _ run).1⟩

/-- A buffer together with the proof that its indices are in order. -/
structure ValidBuffer extends Buffer where
  wf : toBuffer.WF

namespace ValidBuffer

def new (initalSize : Nat := Buffer.kInitialSize) : ValidBuffer :=
  ⟨Buffer.new initalSize, Buffer.new_wf _⟩

def content (b : ValidBuffer) : List UInt8 := b.toBuffer.content

def append (b : ValidBuffer) (data : List UInt8) : ValidBuffer :=
  ⟨b.toBuffer.append data, (b.wf.append data).1⟩

def retrieve (b : ValidBuffer) (len : Nat) : ValidBuffer :=
  ⟨b.toBuffer.retrieve len, (b.wf.retrieve len).1⟩

/-- `readFd` with an answer that fits its areas. -/
def readFd (b : ValidBuffer) (r : ReadvResult) (fits : r.Fits b.iovLen) : ValidBuffer :=
  ⟨(b.toBuffer.readFd r).1, by
    cases r with
    | got bytes => exact (b.wf.readFd fits).1
    | failed e => exact b.wf⟩

@[simp] theorem content_new (initalSize : Nat) : (new initalSize).content = [] :=
  Buffer.content_new _

@[simp] theorem content_append (b : ValidBuffer) (data : List UInt8) :
    (b.append data).content = b.content ++ data :=
  (b.wf.append data).2

@[simp] theorem content_retrieve (b : ValidBuffer) (len : Nat) :
    (b.retrieve len).content = b.content.drop len :=
  (b.wf.retrieve len).2

theorem readableBytes_eq (b : ValidBuffer) : b.readableBytes = b.content.length :=
  b.wf.length_content.symm

theorem readableBytes_eq_zero (b : ValidBuffer) : b.readableBytes = 0 ↔ b.content = [] := by
  rw [readableBytes_eq, List.length_eq_zero_iff]

@[simp] theorem writeFd_offered (b : ValidBuffer) (r : WriteResult) :
    (b.writeFd r).1 = b.content :=
  b.wf.writeFd r

end ValidBuffer

end TcpMuduo
