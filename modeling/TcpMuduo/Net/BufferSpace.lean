import TcpMuduo.Net.BufferAccess
import TcpMuduo.Net.BufferLimits

/-!
`makeSpace` over a whole run. It moves the data when the part in front of them
is large enough, and only strictly to the left; it grows the vector when that
part is small, so that the size is bounded by the load and not by the history.
-/

set_option autoImplicit false
set_option relaxedAutoImplicit false

namespace TcpMuduo

open Lib (copyForward slice)

namespace Buffer

/-- `makeSpace(len)` moves the data instead of growing the vector. -/
def Compacts (b : Buffer) (len : Nat) : Prop :=
  ¬ b.writableBytes + b.prependableBytes < len + kCheapPrepend

instance (b : Buffer) (len : Nat) : Decidable (b.Compacts len) :=
  inferInstanceAs (Decidable (¬ _))

/-- The call of `makeSpace` in `ensureWritableBytes`: the buffer at the call and the argument. -/
def ensureWritableBytesCall (b : Buffer) (len : Nat) : Option (Buffer × Nat) :=
  if b.writableBytes < len then some (b, len) else none

def appendCall (b : Buffer) (data : List UInt8) : Option (Buffer × Nat) :=
  b.ensureWritableBytesCall data.length

def readFdCall (b : Buffer) (r : ReadvResult) : Option (Buffer × Nat) :=
  match r with
  | .failed _ => none
  | .got bytes =>
    if bytes.length ≤ b.writableBytes then none else (b.filled bytes).appendCall (b.spilled bytes)

end Buffer

/-- The call of `makeSpace` that an operation makes. -/
def BufferOp.makeSpaceCall (b : Buffer) : BufferOp → Option (Buffer × Nat)
  | .append data => b.appendCall data
  | .retrieve _ => none
  | .retrieveAll => none
  | .retrieveAllAsString => none
  | .retrieveAsString _ => none
  | .ensureWritableBytes len => b.ensureWritableBytesCall len
  | .readFd r => b.readFdCall r
  | .writeFd _ => none

namespace Buffer

variable {b b' b₀ : Buffer} {len : Nat} {op : BufferOp}

def sizeAfter (b : Buffer) (call : Option (Buffer × Nat)) : Nat :=
  call.elim b.buffer_.length fun call => (call.1.makeSpace call.2).buffer_.length

private theorem ensureWritableBytes_size (b : Buffer) (len : Nat) :
    (b.ensureWritableBytes len).buffer_.length = b.sizeAfter (b.ensureWritableBytesCall len) := by
  unfold ensureWritableBytes ensureWritableBytesCall
  split <;> rfl

private theorem append_size (b : Buffer) (data : List UInt8) :
    (b.append data).buffer_.length = b.sizeAfter (b.appendCall data) := by
  calc (b.append data).buffer_.length
      = (b.ensureWritableBytes data.length).buffer_.length := by
        simp only [append, Lib.length_store]
    _ = b.sizeAfter (b.appendCall data) := b.ensureWritableBytes_size data.length

theorem readFd_size (b : Buffer) (r : ReadvResult) :
    (b.readFd r).1.buffer_.length = b.sizeAfter (b.readFdCall r) := by
  cases r with
  | failed e => rfl
  | got bytes =>
    have same : (b.filled bytes).buffer_.length = b.buffer_.length := by
      simp only [filled, Lib.length_store]
    unfold readFdCall
    simp only
    split
    · rename_i small
      simp only [readFd, if_pos small, Lib.length_store]
      rfl
    · rename_i large
      rw [readFd_large (Nat.lt_of_not_le large), append_size]
      simp only [sizeAfter, same]

private theorem apply_size {out : List UInt8} (h : b.apply op = some (b', out)) :
    b'.buffer_.length = b.sizeAfter (op.makeSpaceCall b) := by
  cases op with
  | append data =>
    obtain ⟨rfl, -⟩ := Prod.mk.inj (Option.some.inj h)
    exact b.append_size data
  | ensureWritableBytes len =>
    obtain ⟨rfl, -⟩ := Prod.mk.inj (Option.some.inj h)
    exact b.ensureWritableBytes_size len
  | readFd r =>
    obtain ⟨rfl, -⟩ := Prod.mk.inj (Option.some.inj h)
    exact b.readFd_size r
  | retrieve len | retrieveAll | retrieveAllAsString | retrieveAsString len | writeFd r =>
    rcases apply_buffer_ h with same | ⟨_, called, -⟩ | ⟨_, called, -⟩ | ⟨_, called, -⟩
    · exact congrArg List.length same
    all_goals cases called

/-- What every call of `makeSpace` meets: the caller has found too little room. -/
structure Calls (b : Buffer) (call : Buffer × Nat) : Prop where
  wf : call.1.WF
  need : call.1.writableBytes < call.2
  size : call.1.buffer_.length = b.buffer_.length

theorem WF.ensureWritableBytesCall (h : b.WF) {call : Buffer × Nat}
    (made : b.ensureWritableBytesCall len = some call) : b.Calls call ∧ call = (b, len) := by
  unfold Buffer.ensureWritableBytesCall at made
  split at made
  · rename_i need
    obtain rfl := Option.some.inj made
    exact ⟨⟨h, need, rfl⟩, rfl⟩
  · cases made

theorem WF.readFdCall (h : b.WF) {r : ReadvResult} {call : Buffer × Nat}
    (made : b.readFdCall r = some call) :
    b.Calls call ∧ ∃ bytes, r = .got bytes ∧ b.writableBytes < bytes.length ∧
      call = (b.filled bytes, (b.spilled bytes).length) := by
  cases r with
  | failed e => cases made
  | got bytes =>
    unfold Buffer.readFdCall at made
    simp only at made
    split at made
    · cases made
    · rename_i large
      obtain ⟨calls, rfl⟩ := (h.filled bytes).ensureWritableBytesCall made
      refine ⟨⟨calls.wf, calls.need, ?_⟩, bytes, rfl, Nat.lt_of_not_le large, rfl⟩
      simp only [Buffer.filled, Lib.length_store]

theorem WF.makeSpaceCall (h : b.WF) {call : Buffer × Nat}
    (made : op.makeSpaceCall b = some call) : b.Calls call := by
  cases op with
  | append data => exact (h.ensureWritableBytesCall made).1
  | ensureWritableBytes len => exact (h.ensureWritableBytesCall made).1
  | readFd r => exact (h.readFdCall made).1
  | retrieve len | retrieveAll | retrieveAllAsString | retrieveAsString len | writeFd r =>
    cases made

/-- The data are moved only from strictly behind the prepend area: else the caller, who has found
too little room, would have made the vector grow. -/
theorem Compacts.left (compacts : b.Compacts len) (need : b.writableBytes < len) :
    kCheapPrepend < b.readerIndex_ := by
  unfold Compacts prependableBytes at compacts
  omega

theorem WF.makeSpace_size (h : b.WF) :
    (b.makeSpace len).buffer_.length ≤
      max b.buffer_.length (kCheapPrepend + b.readableBytes + 2 * len) := by
  have order := h.order
  have inside := h.inside
  unfold Buffer.makeSpace
  split
  · rename_i small
    simp only [writableBytes, prependableBytes, readableBytes, Lib.length_resize] at small ⊢
    omega
  · simp only [Lib.length_copyForward]
    exact Nat.le_max_left _ _

theorem length_spilled_le (b : Buffer) (bytes : List UInt8) :
    (b.spilled bytes).length ≤ extrabufSize := by
  simp only [spilled, List.length_take, Lib.length_store, List.length_replicate]
  exact Nat.min_le_right _ _

theorem WF.readableBytes_append (h : b.WF) (data : List UInt8) :
    (b.append data).readableBytes = b.readableBytes + data.length := by
  obtain ⟨wf, joined⟩ := h.append data
  rw [← wf.length_content, joined, List.length_append, h.length_content]

end Buffer

/-- The bytes that an operation may ask `makeSpace` for; `readFd` appends a part of `extrabuf`. -/
def BufferOp.request : BufferOp → Nat
  | .append data => data.length
  | .retrieve _ => 0
  | .retrieveAll => 0
  | .retrieveAllAsString => 0
  | .retrieveAsString _ => 0
  | .ensureWritableBytes len => len
  | .readFd _ => Buffer.extrabufSize
  | .writeFd _ => 0

namespace Buffer

variable {b b' : Buffer} {op : BufferOp} {out : List UInt8}

private theorem WF.call_le (h : b.WF) (happ : b.apply op = some (b', out)) {call : Buffer × Nat}
    (made : op.makeSpaceCall b = some call) :
    call.2 ≤ op.request ∧ call.1.readableBytes ≤ max b.readableBytes b'.readableBytes := by
  cases op with
  | append data =>
    obtain ⟨-, rfl⟩ := h.ensureWritableBytesCall made
    exact ⟨Nat.le_refl _, Nat.le_max_left _ _⟩
  | ensureWritableBytes len =>
    obtain ⟨-, rfl⟩ := h.ensureWritableBytesCall made
    exact ⟨Nat.le_refl _, Nat.le_max_left _ _⟩
  | readFd r =>
    obtain ⟨-, bytes, rfl, large, rfl⟩ := h.readFdCall made
    obtain ⟨rfl, -⟩ := Prod.mk.inj (Option.some.inj happ)
    refine ⟨b.length_spilled_le bytes, Nat.le_trans ?_ (Nat.le_max_right _ _)⟩
    rw [readFd_large large, (h.filled bytes).readableBytes_append]
    exact Nat.le_add_right _ _
  | retrieve len | retrieveAll | retrieveAllAsString | retrieveAsString len | writeFd r =>
    cases made

/-- The step lemma: an operation that is asked for at most `L` bytes and finds and leaves at most
`R` of them readable makes the vector no larger than these allow. -/
theorem WF.apply_size_le (h : b.WF) {R L : Nat} (happ : b.apply op = some (b', out))
    (before : b.readableBytes ≤ R) (after : b'.readableBytes ≤ R) (request : op.request ≤ L) :
    b'.buffer_.length ≤ max b.buffer_.length (kCheapPrepend + R + 2 * L) := by
  rw [apply_size happ]
  cases made : op.makeSpaceCall b with
  | none => exact Nat.le_max_left _ _
  | some call =>
    obtain ⟨asked, readable⟩ := h.call_le happ made
    have calls := h.makeSpaceCall made
    have grown : (call.1.makeSpace call.2).buffer_.length ≤
        max call.1.buffer_.length (kCheapPrepend + call.1.readableBytes + 2 * call.2) :=
      calls.wf.makeSpace_size
    rw [calls.size] at grown
    simp only [sizeAfter, Option.elim_some]
    omega

end Buffer

private theorem anyCallMachine_step {b b' : Buffer} {op : BufferOp}
    (h : anyCallMachine.step b op = some b') : ∃ out, b.apply op = some (b', out) := by
  simp only [anyCallMachine] at h
  split at h
  · obtain ⟨⟨c, out⟩, happ, rfl⟩ := Option.map_eq_some_iff.mp h
    exact ⟨out, happ⟩
  · cases h

/-- The size of the vector is bounded by the load: by the bytes that are readable at one time and
the largest request, however long the run. -/
theorem capacity_bounded (initalSize R L : Nat) (ops : List BufferOp) (b : Buffer)
    (run : anyCallMachine.Run (Buffer.new initalSize) ops b)
    (load : anyCallMachine.Throughout (fun _ b => b.readableBytes ≤ R) (Buffer.new initalSize) ops)
    (requests : ∀ op ∈ ops, op.request ≤ L) :
    b.buffer_.length ≤
      max (Buffer.kCheapPrepend + initalSize) (Buffer.kCheapPrepend + R + 2 * L) := by
  induction run with
  | nil =>
    simp only [Buffer.new, List.length_replicate]
    exact Nat.le_max_left _ _
  | @snoc ops b b' op run step ih =>
    have earlier := ih (load.before (List.prefix_append _ _))
      fun op mem => requests op (List.mem_append_left _ mem)
    have before := load ops b (List.prefix_append _ _) run
    have after := load (ops ++ [op]) b' (List.prefix_refl _) (run.snoc step)
    have request := requests op (List.mem_append_right _ (List.mem_singleton_self _))
    obtain ⟨out, happ⟩ := anyCallMachine_step step
    have size := (anyCallMachine_run run).apply_size_le happ before after request
    omega

/-- Seven bytes pass through a buffer with room for four; it grows once. -/
def growingCalls : List BufferOp :=
  [.append [1, 2, 3], .retrieve 1, .append [4, 5], .append [6, 7], .retrieve 6]

theorem capacity_bounded_growing :
    ∃ b, anyCallMachine.Run (Buffer.new 4) growingCalls b ∧ b.content = [] ∧
      b.buffer_.length = 14 ∧
      b.buffer_.length ≤ max (Buffer.kCheapPrepend + 4) (Buffer.kCheapPrepend + 6 + 2 * 3) := by
  obtain ⟨b, run, empty, size, last⟩ := anyCallMachine.exists_run (.new 4) growingCalls
    (fun b => b.content = [] ∧ b.buffer_.length = 14 ∧ b.readableBytes ≤ 6) (by decide +kernel)
  have meets : anyCallMachine.StepsMeet (fun b _ => b.readableBytes ≤ 6) (.new 4) growingCalls :=
    Lib.Machine.stepsMeet_of_checks (by decide +kernel)
  have load := Lib.Machine.throughout_of_stepsMeet meets fun b' run' => run.unique run' ▸ last
  exact ⟨b, run, empty, size, capacity_bounded 4 6 3 growingCalls b run load (by decide)⟩

/-- Whenever `makeSpace` moves the data, in `ensureWritableBytes` or in `append`, it moves them
strictly to the left, so that the target of the copy is not inside its source; behind the prepend
area there are then exactly the bytes that were readable, and there is room for `len` more. -/
theorem compaction_faithful (initalSize : Nat) (ops : List BufferOp) (b : Buffer)
    (run : anyCallMachine.Run (Buffer.new initalSize) ops b) (op : BufferOp) (b₀ : Buffer)
    (len : Nat) (call : op.makeSpaceCall b = some (b₀, len)) (compacts : b₀.Compacts len) :
    Buffer.kCheapPrepend < b₀.readerIndex_ ∧
      ¬ (b₀.readerIndex_ ≤ Buffer.kCheapPrepend ∧ Buffer.kCheapPrepend < b₀.writerIndex_) ∧
      (b₀.makeSpace len).buffer_ =
        copyForward b₀.buffer_ b₀.readerIndex_ Buffer.kCheapPrepend b₀.readableBytes ∧
      slice (b₀.makeSpace len).buffer_ Buffer.kCheapPrepend
          (Buffer.kCheapPrepend + b₀.readableBytes) =
        slice b₀.buffer_ b₀.readerIndex_ b₀.writerIndex_ ∧
      (b₀.makeSpace len).content = b₀.content ∧ len ≤ (b₀.makeSpace len).writableBytes := by
  have calls := (anyCallMachine_run run).makeSpaceCall call
  have left := compacts.left calls.need
  obtain ⟨-, same, room⟩ := calls.wf.makeSpace calls.need
  have moved : b₀.makeSpace len =
      ⟨copyForward b₀.buffer_ b₀.readerIndex_ Buffer.kCheapPrepend b₀.readableBytes,
        Buffer.kCheapPrepend, Buffer.kCheapPrepend + b₀.readableBytes⟩ := by
    rw [Buffer.makeSpace, if_neg compacts]
  have placed : slice (b₀.makeSpace len).buffer_ Buffer.kCheapPrepend
      (Buffer.kCheapPrepend + b₀.readableBytes) = (b₀.makeSpace len).content := by
    rw [moved]
    rfl
  refine ⟨left, ?_, by rw [moved], placed.trans same, same, room⟩
  intro inside
  exact absurd inside.1 (Nat.not_le_of_lt left)

/-- Two readable bytes are moved by one cell, onto a range that overlaps theirs. -/
theorem compaction_faithful_overlapping :
    ∃ b, anyCallMachine.Run (Buffer.new 4) [.append [1, 2, 3], .retrieve 1] b ∧
      b.readerIndex_ = 9 ∧ slice (b.makeSpace 2).buffer_ 8 10 = [2, 3] := by
  obtain ⟨b, run, reader, readable, content, call, compacts⟩ := anyCallMachine.exists_run (.new 4)
    [.append [1, 2, 3], .retrieve 1]
    (fun b => b.readerIndex_ = 9 ∧ b.readableBytes = 2 ∧ b.content = [2, 3] ∧
      (BufferOp.append [4, 5]).makeSpaceCall b = some (b, 2) ∧ b.Compacts 2) (by decide +kernel)
  obtain ⟨-, -, -, placed, -, -⟩ := compaction_faithful 4 _ b run (.append [4, 5]) b 2 call compacts
  rw [readable] at placed
  exact ⟨b, run, reader, placed.trans content⟩

end TcpMuduo
