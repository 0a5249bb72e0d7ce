import TcpMuduo.Lib.Memory
import TcpMuduo.Net.Syscall

/-!
`Buffer`: a `std::vector<char>` with a reader and a writer index. Sizes are
natural numbers here, so every statement is about operations whose `size_t`
sums do not wrap and whose `resize` succeeds.
-/

set_option autoImplicit false
set_option relaxedAutoImplicit false

namespace TcpMuduo

open Lib (store copyForward resize slice)

structure Buffer where
  buffer_ : List UInt8
  readerIndex_ : Nat
  writerIndex_ : Nat
  deriving DecidableEq, Repr

namespace Buffer

def kCheapPrepend : Nat := 8
def kInitialSize : Nat := 1024

/-- `sizeof(extrabuf)` in `readFd`. -/
def extrabufSize : Nat := 65536

def new (initalSize : Nat := kInitialSize) : Buffer where
  buffer_ := List.replicate (kCheapPrepend + initalSize) 0
  readerIndex_ := kCheapPrepend
  writerIndex_ := kCheapPrepend

def readableBytes (b : Buffer) : Nat := b.writerIndex_ - b.readerIndex_
def writableBytes (b : Buffer) : Nat := b.buffer_.length - b.writerIndex_
def prependableBytes (b : Buffer) : Nat := b.readerIndex_

/-- The memory from the address `peek()` on. -/
def peek (b : Buffer) : List UInt8 := b.buffer_.drop b.readerIndex_

def retrieveAll (b : Buffer) : Buffer :=
  { b with readerIndex_ := kCheapPrepend, writerIndex_ := kCheapPrepend }

def retrieve (b : Buffer) (len : Nat) : Buffer :=
  if len < b.readableBytes then
    { b with readerIndex_ := b.readerIndex_ + len }
  else
    b.retrieveAll

/-- The string is built from `len` bytes at `peek()`; `none` when that range runs past the end
of `buffer_`, where the code has no defined behaviour. -/
def retrieveAsString (b : Buffer) (len : Nat) : Option (List UInt8 × Buffer) :=
  if b.readerIndex_ + len ≤ b.buffer_.length then
    some (b.peek.take len, b.retrieve len)
  else
    none

def retrieveAllAsString (b : Buffer) : Option (List UInt8 × Buffer) :=
  b.retrieveAsString b.readableBytes

def makeSpace (b : Buffer) (len : Nat) : Buffer :=
  if b.writableBytes + b.prependableBytes < len + kCheapPrepend then
    { b with buffer_ := resize b.buffer_ (b.writerIndex_ + len) 0 }
  else
    let readable := b.readableBytes
    { buffer_ := copyForward b.buffer_ b.readerIndex_ kCheapPrepend readable
      readerIndex_ := kCheapPrepend
      writerIndex_ := kCheapPrepend + readable }

def ensureWritableBytes (b : Buffer) (len : Nat) : Buffer :=
  if b.writableBytes < len then b.makeSpace len else b

def append (b : Buffer) (data : List UInt8) : Buffer :=
  let b := b.ensureWritableBytes data.length
  { b with
    buffer_ := store b.buffer_ b.writerIndex_ data
    writerIndex_ := b.writerIndex_ + data.length }

/-- One area is enough when the writable part is at least as large as `extrabuf`. -/
def iovcnt (b : Buffer) : Nat := if b.writableBytes < extrabufSize then 2 else 1

/-- The total length of the areas given to `::readv`. -/
def iovLen (b : Buffer) : Nat :=
  if b.iovcnt = 2 then b.writableBytes + extrabufSize else b.writableBytes

/-- `readFd`, with the count it returns and the error number it saves. `::readv` fills the
writable part first and the stack area `extrabuf` after it. -/
def readFd (b : Buffer) (r : ReadvResult) : Buffer × Int × Option Errno :=
  match r with
  | .failed e => (b, -1, some e)
  | .got bytes =>
    let n := bytes.length
    let writable := b.writableBytes
    let filled := store b.buffer_ b.writerIndex_ (bytes.take writable)
    let extrabuf := store (List.replicate extrabufSize 0) 0 (bytes.drop writable)
    if n ≤ writable then
      ({ b with buffer_ := filled, writerIndex_ := b.writerIndex_ + n }, n, none)
    else
      let b := { b with buffer_ := filled, writerIndex_ := b.buffer_.length }
      (b.append (extrabuf.take (n - writable)), n, none)

/-- `writeFd` leaves the buffer as it is: the bytes it offers to `::write`, the count it
returns and the error number it saves. -/
def writeFd (b : Buffer) (r : WriteResult) : List UInt8 × Int × Option Errno :=
  (b.peek.take b.readableBytes, r.ret,
    match r with
    | .wrote _ => none
    | .failed e => some e)

/-- The readable bytes. -/
def content (b : Buffer) : List UInt8 := slice b.buffer_ b.readerIndex_ b.writerIndex_

/-- The indices are in order and inside the vector, behind the prepend area. -/
structure WF (b : Buffer) : Prop where
  prepend : kCheapPrepend ≤ b.readerIndex_
  order : b.readerIndex_ ≤ b.writerIndex_
  inside : b.writerIndex_ ≤ b.buffer_.length

theorem new_wf (initalSize : Nat) : (new initalSize).WF :=
  ⟨Nat.le_refl _, Nat.le_refl _, by simp [new]⟩

@[simp] theorem content_new (initalSize : Nat) : (new initalSize).content = [] := by
  simp [new, content]

theorem WF.length_content {b : Buffer} (h : b.WF) : b.content.length = b.readableBytes :=
  Lib.length_slice h.inside

private theorem WF.peek_take {b : Buffer} {len : Nat} (h : len ≤ b.readableBytes) :
    b.peek.take len = b.content.take len := by
  simp only [readableBytes] at h
  simp only [peek, content, slice, List.drop_take, List.take_take]
  rw [Nat.min_eq_left h]

/-- Compaction is chosen only with enough room in front of the data, growth otherwise; both
leave `len` writable bytes. -/
theorem WF.makeSpace {b : Buffer} {len : Nat} (h : b.WF) (need : b.writableBytes < len) :
    (b.makeSpace len).WF ∧ (b.makeSpace len).content = b.content ∧
      len ≤ (b.makeSpace len).writableBytes := by
  have hp := h.prepend
  have ho := h.order
  have hi := h.inside
  simp only [writableBytes] at need
  unfold Buffer.makeSpace
  split
  · have size := Lib.length_resize b.buffer_ (b.writerIndex_ + len) 0
    refine ⟨⟨hp, ho, ?_⟩, ?_, ?_⟩
    · simp only [size]
      omega
    · exact Lib.slice_resize (Nat.le_add_right _ _) hi
    · simp only [Buffer.writableBytes, size]
      omega
  · rename_i room
    simp only [writableBytes, prependableBytes] at room
    refine ⟨⟨Nat.le_refl _, Nat.le_add_right _ _, ?_⟩, ?_, ?_⟩
    · simp only [Lib.length_copyForward, readableBytes]
      omega
    · have whole : b.readerIndex_ + b.readableBytes = b.writerIndex_ := by
        simp only [readableBytes]
        omega
      simp only [content]
      rw [Lib.slice_copyForward hp (by omega), whole]
    · simp only [writableBytes, Lib.length_copyForward, readableBytes]
      omega

theorem WF.ensureWritableBytes {b : Buffer} (h : b.WF) (len : Nat) :
    (b.ensureWritableBytes len).WF ∧ (b.ensureWritableBytes len).content = b.content ∧
      len ≤ (b.ensureWritableBytes len).writableBytes := by
  unfold Buffer.ensureWritableBytes
  split
  · rename_i need
    exact h.makeSpace need
  · rename_i enough
    exact ⟨h, rfl, Nat.le_of_not_lt enough⟩

theorem WF.append {b : Buffer} (h : b.WF) (data : List UInt8) :
    (b.append data).WF ∧ (b.append data).content = b.content ++ data := by
  obtain ⟨wf, same, room⟩ := h.ensureWritableBytes data.length
  have ho := wf.order
  have hi := wf.inside
  simp only [writableBytes] at room
  refine ⟨⟨wf.prepend, ?_, ?_⟩, ?_⟩
  · simp only [Buffer.append]
    omega
  · simp only [Buffer.append, Lib.length_store]
    omega
  · rw [← same]
    simp only [Buffer.append, content]
    exact Lib.slice_store_extend ho (by omega)

theorem WF.retrieve {b : Buffer} (h : b.WF) (len : Nat) :
    (b.retrieve len).WF ∧ (b.retrieve len).content = b.content.drop len := by
  have hp := h.prepend
  have ho := h.order
  have hi := h.inside
  unfold Buffer.retrieve
  split
  · rename_i part
    simp only [readableBytes] at part
    refine ⟨⟨?_, ?_, hi⟩, ?_⟩
    · simp only
      omega
    · simp only
      omega
    · simp only [content, Lib.slice_drop]
  · rename_i all
    refine ⟨⟨Nat.le_refl _, Nat.le_refl _, by simp only [retrieveAll]; omega⟩, ?_⟩
    rw [List.drop_eq_nil_of_le (by rw [h.length_content]; omega)]
    simp [retrieveAll, content]

theorem WF.retrieveAll {b : Buffer} (h : b.WF) :
    b.retrieveAll.WF ∧ b.retrieveAll.content = [] := by
  refine ⟨⟨Nat.le_refl _, Nat.le_refl _, ?_⟩, by simp [Buffer.retrieveAll, content]⟩
  exact Nat.le_trans h.prepend (Nat.le_trans h.order h.inside)

theorem WF.retrieveAsString {b : Buffer} {len : Nat} (h : b.WF) (fits : len ≤ b.readableBytes) :
    b.retrieveAsString len = some (b.content.take len, b.retrieve len) := by
  have ho := h.order
  have hi := h.inside
  unfold Buffer.retrieveAsString
  rw [if_pos (by simp only [readableBytes] at fits; omega), WF.peek_take fits]

/-- More than the writable part arrives only when `extrabuf` was offered as well. -/
theorem spill_le {b : Buffer} {bytes : List UInt8} (fits : (ReadvResult.got bytes).Fits b.iovLen)
    (large : b.writableBytes < bytes.length) :
    (bytes.drop b.writableBytes).length ≤ extrabufSize := by
  rw [List.length_drop]
  simp only [ReadvResult.Fits, iovLen] at fits
  split at fits
  · omega
  · omega

private theorem extrabuf_take (spill : List UInt8) (fits : spill.length ≤ extrabufSize) :
    (store (List.replicate extrabufSize 0) 0 spill).take spill.length = spill := by
  rw [Lib.store_eq _ _ _ (by simpa using fits)]
  simp

theorem WF.readFd {b : Buffer} {bytes : List UInt8} (h : b.WF)
    (fits : (ReadvResult.got bytes).Fits b.iovLen) :
    (b.readFd (.got bytes)).1.WF ∧ (b.readFd (.got bytes)).1.content = b.content ++ bytes := by
  have hp := h.prepend
  have ho := h.order
  have hi := h.inside
  have room : b.writerIndex_ + b.writableBytes = b.buffer_.length := by
    simp only [writableBytes]
    omega
  simp only [Buffer.readFd]
  split
  · rename_i small
    rw [List.take_of_length_le small]
    refine ⟨⟨hp, ?_, ?_⟩, ?_⟩
    · simp only
      omega
    · simp only [Lib.length_store]
      omega
    · simp only [content]
      exact Lib.slice_store_extend ho (by omega)
  · rename_i large
    have first : (bytes.take b.writableBytes).length = b.writableBytes := by
      rw [List.length_take]
      omega
    have spill : (bytes.drop b.writableBytes).length = bytes.length - b.writableBytes :=
      List.length_drop
    have limit := spill_le fits (Nat.lt_of_not_le large)
    have full : WF { b with
        buffer_ := store b.buffer_ b.writerIndex_ (bytes.take b.writableBytes)
        writerIndex_ := b.buffer_.length } :=
      ⟨hp, by simp only; omega, by simp⟩
    have gathered : slice (store b.buffer_ b.writerIndex_ (bytes.take b.writableBytes))
        b.readerIndex_ b.buffer_.length = b.content ++ bytes.take b.writableBytes := by
      have ends : b.writerIndex_ + (bytes.take b.writableBytes).length ≤ b.buffer_.length := by
        rw [first]
        omega
      have extend := Lib.slice_store_extend ho ends
      rw [first, room] at extend
      exact extend
    obtain ⟨wf, joined⟩ := full.append
      ((store (List.replicate extrabufSize 0) 0 (bytes.drop b.writableBytes)).take
        (bytes.length - b.writableBytes))
    refine ⟨wf, ?_⟩
    rw [joined, ← spill, extrabuf_take _ limit]
    simp only [content] at gathered ⊢
    rw [gathered, List.append_assoc, List.take_append_drop]

theorem WF.writeFd {b : Buffer} (h : b.WF) (r : WriteResult) :
    (b.writeFd r).1 = b.content := by
  simp only [Buffer.writeFd]
  rw [WF.peek_take (Nat.le_refl _), ← h.length_content, List.take_length]

end Buffer

end TcpMuduo
