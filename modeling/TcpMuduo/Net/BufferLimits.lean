import TcpMuduo.Net.BufferQueue

/-!
Two calls outside the range the queue view covers: `ensureWritableBytes` with
`size_t` sums that wrap, and `retrieveAsString` asked for more bytes than are
readable.
-/

set_option autoImplicit false
set_option relaxedAutoImplicit false

namespace TcpMuduo

open Lib (copyForward resize)

/-- A call that may throw, with the buffer as it is left. -/
inductive CallResult
  | returned (b : Buffer)
  | threw (b : Buffer)
  deriving DecidableEq, Repr

/-! The buffer's arithmetic in 64-bit `size_t`; `maxSize` is `buffer_.max_size()`. -/

namespace SizeT

def modulus : Nat := 18446744073709551616

/-- The largest `max_size()` of a vector of characters, `2 ^ 63 - 1`. -/
def maxSizeLimit : Nat := 9223372036854775807

def add (m n : Nat) : Nat := (m + n) % modulus
def sub (m n : Nat) : Nat := (m + modulus - n) % modulus

def readableBytes (b : Buffer) : Nat := sub b.writerIndex_ b.readerIndex_
def writableBytes (b : Buffer) : Nat := sub b.buffer_.length b.writerIndex_
def prependableBytes (b : Buffer) : Nat := b.readerIndex_

/-- `buffer_.resize(n)` throws before it has changed anything, or succeeds. -/
def resizeTo (maxSize : Nat) (b : Buffer) (n : Nat) : CallResult :=
  if maxSize < n then .threw b else .returned { b with buffer_ := resize b.buffer_ n 0 }

def makeSpace (maxSize : Nat) (b : Buffer) (len : Nat) : CallResult :=
  if add (writableBytes b) (prependableBytes b) < add len Buffer.kCheapPrepend then
    resizeTo maxSize b (add b.writerIndex_ len)
  else
    let readable := readableBytes b
    .returned {
      buffer_ := copyForward b.buffer_ b.readerIndex_ Buffer.kCheapPrepend readable
      readerIndex_ := Buffer.kCheapPrepend
      writerIndex_ := add Buffer.kCheapPrepend readable }

def ensureWritableBytes (maxSize : Nat) (b : Buffer) (len : Nat) : CallResult :=
  if writableBytes b < len then makeSpace maxSize b len else .returned b

private theorem add_eq {m n : Nat} (small : m + n < modulus) : add m n = m + n :=
  Nat.mod_eq_of_lt small

private theorem add_eq_sub {m n : Nat} (large : modulus ≤ m + n) (hm : m < modulus)
    (hn : n < modulus) :
    add m n = m + n - modulus := by
  rw [add, Nat.mod_eq_sub_mod large, Nat.mod_eq_of_lt]
  omega

private theorem sub_eq {m n : Nat} (order : n ≤ m) (hm : m < modulus) : sub m n = m - n := by
  have shift : m + modulus - n = m - n + modulus := by omega
  rw [sub, shift, Nat.add_mod_right, Nat.mod_eq_of_lt]
  omega

end SizeT

/-- What a caller of `ensureWritableBytes(len)` on `b` may rely on. -/
def CallResult.Sound (b : Buffer) (len : Nat) : CallResult → Prop
  | .threw b' =>
    b'.readerIndex_ = b.readerIndex_ ∧ b'.writerIndex_ = b.writerIndex_ ∧ b'.content = b.content
  | .returned b' =>
    len ≤ SizeT.writableBytes b' ∧ b'.readerIndex_ ≤ b'.writerIndex_ ∧
      b'.writerIndex_ ≤ b'.buffer_.length ∧ b'.content = b.content

instance (b : Buffer) (len : Nat) (r : CallResult) : Decidable (r.Sound b len) :=
  match r with
  | .threw b' => inferInstanceAs (Decidable (b'.readerIndex_ = b.readerIndex_ ∧
      b'.writerIndex_ = b.writerIndex_ ∧ b'.content = b.content))
  | .returned b' => inferInstanceAs (Decidable (len ≤ SizeT.writableBytes b' ∧
      b'.readerIndex_ ≤ b'.writerIndex_ ∧ b'.writerIndex_ ≤ b'.buffer_.length ∧
      b'.content = b.content))

/-- The buffer under allowed calls for which the vector stays within `max_size()`. -/
def inRangeMachine (maxSize : Nat) : Lib.Machine Buffer BufferOp where
  step b op := (bufferMachine.step b op).filter (·.buffer_.length ≤ maxSize)

namespace SizeT

/-- A buffer that fits the machine: in order, and within `max_size()`. -/
structure InRange (maxSize : Nat) (b : Buffer) : Prop where
  wf : b.WF
  size : b.buffer_.length ≤ maxSize
  limit : maxSize ≤ maxSizeLimit

variable {maxSize len : Nat} {b : Buffer}

theorem InRange.sizes (h : InRange maxSize b) :
    readableBytes b = b.readableBytes ∧ writableBytes b = b.writableBytes ∧
      b.writerIndex_ < modulus := by
  have order := h.wf.order
  have inside := h.wf.inside
  have size := h.size
  have limit := h.limit
  simp only [maxSizeLimit] at limit
  have small : b.buffer_.length < modulus := by
    simp only [modulus]
    omega
  have readable : readableBytes b = b.readableBytes := sub_eq order (by omega)
  have writable : writableBytes b = b.writableBytes := sub_eq inside small
  exact ⟨readable, writable, by omega⟩

theorem InRange.free (h : InRange maxSize b) :
    add (writableBytes b) (prependableBytes b) = b.writableBytes + b.prependableBytes := by
  have order := h.wf.order
  have inside := h.wf.inside
  have size := h.size
  have limit := h.limit
  rw [h.sizes.2.1]
  refine add_eq ?_
  simp only [maxSizeLimit] at limit
  simp only [Buffer.writableBytes, prependableBytes, modulus]
  omega

private theorem InRange.compacted (h : InRange maxSize b) :
    add Buffer.kCheapPrepend b.readableBytes = Buffer.kCheapPrepend + b.readableBytes := by
  have prepend := h.wf.prepend
  have order := h.wf.order
  have index := h.sizes.2.2
  refine add_eq ?_
  simp only [Buffer.readableBytes]
  omega

/-- As long as `writerIndex_ + len` does not wrap, the machine computes what the natural
numbers give, or throws. -/
theorem InRange.ensureWritableBytes_eq (h : InRange maxSize b)
    (nowrap : b.writerIndex_ + len < modulus) :
    ensureWritableBytes maxSize b len
      = if (b.ensureWritableBytes len).buffer_.length ≤ maxSize then
          .returned (b.ensureWritableBytes len)
        else
          .threw b := by
  have prepend := h.wf.prepend
  have order := h.wf.order
  simp only [Buffer.kCheapPrepend] at prepend
  have tested : add len Buffer.kCheapPrepend = len + Buffer.kCheapPrepend := by
    refine add_eq ?_
    simp only [Buffer.kCheapPrepend]
    omega
  unfold ensureWritableBytes Buffer.ensureWritableBytes
  rw [h.sizes.2.1]
  split
  · unfold makeSpace Buffer.makeSpace
    rw [h.free, tested]
    split
    · rw [add_eq nowrap, resizeTo]
      simp only [Lib.length_resize]
      split
      · rw [if_neg (by omega)]
      · rw [if_pos (by omega)]
    · simp only [h.sizes.1, h.compacted, Lib.length_copyForward]
      rw [if_pos h.size]
  · rw [if_pos h.size]

theorem InRange.sound (h : InRange maxSize b) (nowrap : b.writerIndex_ + len < modulus) :
    (ensureWritableBytes maxSize b len).Sound b len := by
  obtain ⟨wf, same, room⟩ := h.wf.ensureWritableBytes len
  rw [h.ensureWritableBytes_eq nowrap]
  split
  · rename_i fits
    have range : InRange maxSize (b.ensureWritableBytes len) := ⟨wf, fits, h.limit⟩
    refine ⟨?_, wf.order, wf.inside, same⟩
    rw [range.sizes.2.1]
    exact room
  · exact ⟨rfl, rfl, rfl⟩

/-- Where `writerIndex_ + len` wraps, the buffer is either shrunk below `writerIndex_` or, when
`len + kCheapPrepend` wraps as well, compacted without the room asked for. -/
theorem InRange.not_sound (h : InRange maxSize b) (word : len < modulus)
    (wrap : modulus ≤ b.writerIndex_ + len) :
    ¬ (ensureWritableBytes maxSize b len).Sound b len := by
  obtain ⟨-, writable, index⟩ := h.sizes
  have prepend := h.wf.prepend
  have order := h.wf.order
  have inside := h.wf.inside
  have size := h.size
  have limit := h.limit
  have room : b.writableBytes = b.buffer_.length - b.writerIndex_ := rfl
  have wrapped := add_eq_sub wrap index word
  have large : modulus = 18446744073709551616 := rfl
  simp only [maxSizeLimit] at limit
  simp only [Buffer.kCheapPrepend] at prepend
  intro sound
  unfold ensureWritableBytes at sound
  rw [writable, if_pos (by omega), makeSpace] at sound
  split at sound
  · rw [wrapped, resizeTo, if_neg (by omega)] at sound
    have fits := sound.2.2.1
    simp only [Lib.length_resize] at fits
    omega
  · have enough := sound.1
    simp only [writableBytes, Lib.length_copyForward, h.sizes.1, h.compacted] at enough
    rw [sub_eq (by simp only [Buffer.kCheapPrepend, Buffer.readableBytes]; omega) (by omega)]
      at enough
    omega

end SizeT

private theorem inRangeMachine_run {maxSize initalSize : Nat} {ops : List BufferOp} {b : Buffer}
    (limit : maxSize ≤ SizeT.maxSizeLimit)
    (constructed : Buffer.kCheapPrepend + initalSize ≤ maxSize)
    (h : (inRangeMachine maxSize).Run (Buffer.new initalSize) ops b) : SizeT.InRange maxSize b := by
  induction h with
  | nil => exact ⟨Buffer.new_wf _, by simpa [Buffer.new] using constructed, limit⟩
  | @snoc ops b b' op _ hs ih =>
    obtain ⟨called, fits⟩ := Option.filter_eq_some_iff.mp hs
    exact ⟨(ih.wf.step called).1, of_decide_eq_true fits, limit⟩

/-- For every buffer reached in range and every `size_t`, `ensureWritableBytes` keeps its promise
exactly when `writerIndex_ + len` does not wrap. -/
theorem ensureWritableBytes_sound_iff (maxSize initalSize : Nat) (ops : List BufferOp)
    (b : Buffer) (limit : maxSize ≤ SizeT.maxSizeLimit)
    (constructed : Buffer.kCheapPrepend + initalSize ≤ maxSize)
    (h : (inRangeMachine maxSize).Run (Buffer.new initalSize) ops b) (len : Nat)
    (word : len < SizeT.modulus) :
    (SizeT.ensureWritableBytes maxSize b len).Sound b len
      ↔ b.writerIndex_ + len < SizeT.modulus := by
  have range := inRangeMachine_run limit constructed h
  constructor
  · intro sound
    by_contra wrap
    exact range.not_sound word (Nat.le_of_not_lt wrap) sound
  · intro nowrap
    exact range.sound nowrap

/-- One of three bytes has been retrieved: room for six is made by compaction, room for twenty by
a larger vector, and no room of `2 ^ 64 - 11` bytes. -/
theorem ensureWritableBytes_sound_iff_partly :
    ∃ b, (inRangeMachine SizeT.maxSizeLimit).Run (Buffer.new 8)
        [.append [1, 2, 3], .retrieve 1] b ∧
      b.content = [2, 3] ∧ b.readerIndex_ = 9 ∧ b.writerIndex_ = 11 ∧
      (SizeT.ensureWritableBytes SizeT.maxSizeLimit b 6).Sound b 6 ∧
      (SizeT.ensureWritableBytes SizeT.maxSizeLimit b 20).Sound b 20 ∧
      ¬ (SizeT.ensureWritableBytes SizeT.maxSizeLimit b 0xfffffffffffffff5).Sound b
        0xfffffffffffffff5 := by
  obtain ⟨b, run, content, reader, writer⟩ := (inRangeMachine SizeT.maxSizeLimit).exists_run
    (.new 8) [.append [1, 2, 3], .retrieve 1]
    (fun b => b.content = [2, 3] ∧ b.readerIndex_ = 9 ∧ b.writerIndex_ = 11) (by decide +kernel)
  have sound_iff := ensureWritableBytes_sound_iff SizeT.maxSizeLimit 8 _ b (Nat.le_refl _)
    (by decide) run
  rw [writer] at sound_iff
  exact ⟨b, run, content, reader, writer, (sound_iff 6 (by decide)).mpr (by decide),
    (sound_iff 20 (by decide)).mpr (by decide), (sound_iff _ (by decide)).not.mpr (by decide)⟩

/-- With three bytes in the buffer, the largest `size_t` makes `len + kCheapPrepend` wrap to 7:
the data is moved to where it is, and the call returns with five writable bytes. The largest one
for which that sum does not wrap makes `writerIndex_ + len` wrap to 2, the new size of the
vector. -/
theorem ensureWritableBytes_wraps :
    ∃ b, (inRangeMachine SizeT.maxSizeLimit).Run (Buffer.new 8) [.append [1, 2, 3]] b ∧
      SizeT.ensureWritableBytes SizeT.maxSizeLimit b 0xffffffffffffffff = .returned b ∧
      SizeT.writableBytes b = 5 ∧
      ¬ (SizeT.ensureWritableBytes SizeT.maxSizeLimit b 0xffffffffffffffff).Sound b
        0xffffffffffffffff ∧
      SizeT.ensureWritableBytes SizeT.maxSizeLimit b 0xfffffffffffffff7
        = .returned { b with buffer_ := [0, 0] } ∧
      ¬ (SizeT.ensureWritableBytes SizeT.maxSizeLimit b 0xfffffffffffffff7).Sound b
        0xfffffffffffffff7 :=
  (inRangeMachine SizeT.maxSizeLimit).exists_run (.new 8) [.append [1, 2, 3]] _
    (by decide +kernel)

/-! Calls of `retrieveAsString` with any length. -/

/-- The kernel's answers are possible ones; the caller may ask for anything. -/
def BufferOp.Answered (b : Buffer) : BufferOp → Prop
  | .readFd r => r.Fits b.iovLen
  | .writeFd r => r.Fits b.readableBytes
  | _ => True

instance (b : Buffer) (op : BufferOp) : Decidable (op.Answered b) :=
  match op with
  | .readFd r => inferInstanceAs (Decidable (r.Fits b.iovLen))
  | .writeFd r => inferInstanceAs (Decidable (r.Fits b.readableBytes))
  | .append _ | .retrieve _ | .retrieveAll | .retrieveAllAsString | .retrieveAsString _
  | .ensureWritableBytes _ => inferInstanceAs (Decidable True)

/-- The buffer under arbitrary calls; there is no step where the code has no defined
behaviour. -/
def anyCallMachine : Lib.Machine Buffer BufferOp where
  step b op := if op.Answered b then (b.apply op).map Prod.fst else none

private theorem Buffer.WF.anyCall {b b' : Buffer} (h : b.WF) {op : BufferOp}
    (hs : anyCallMachine.step b op = some b') : b'.WF := by
  simp only [anyCallMachine] at hs
  split at hs
  · rename_i answered
    by_cases ok : op.Allowed b
    · have allowed : bufferMachine.step b op = some b' := by
        simp only [bufferMachine, if_pos ok]
        exact hs
      exact (h.step allowed).1
    · cases op with
      | retrieveAsString len =>
        obtain ⟨⟨c, out⟩, happ, rfl⟩ := Option.map_eq_some_iff.mp hs
        obtain ⟨r, taken, same⟩ := Option.map_eq_some_iff.mp happ
        obtain ⟨rfl, -⟩ := Prod.mk.inj same
        unfold Buffer.retrieveAsString at taken
        split at taken
        · obtain rfl := Option.some.inj taken
          exact (h.retrieve len).1
        · cases taken
      | append _ | retrieve _ | retrieveAll | retrieveAllAsString | ensureWritableBytes _ =>
        exact absurd trivial ok
      | readFd _ | writeFd _ => exact absurd answered ok
  · cases hs

theorem anyCallMachine_run {initalSize : Nat} {ops : List BufferOp} {b : Buffer}
    (h : anyCallMachine.Run (Buffer.new initalSize) ops b) : b.WF :=
  h.reachable.invariant (I := Buffer.WF) (Buffer.new_wf _)
    fun _ _ _ _ wf hs => wf.anyCall hs

/-- `retrieveAsString` hands out exactly the readable bytes asked for, as many as there are,
when no more are asked for than there are, and never otherwise. -/
theorem retrieveAsString_exact_iff (initalSize : Nat) (ops : List BufferOp) (b : Buffer)
    (h : anyCallMachine.Run (Buffer.new initalSize) ops b) (len : Nat) :
    (b.retrieveAsString len).map Prod.fst = some (b.content.take (min len b.readableBytes))
      ↔ len ≤ b.readableBytes := by
  have wf := anyCallMachine_run h
  constructor
  · intro exact
    obtain ⟨r, result, same⟩ := Option.map_eq_some_iff.mp exact
    unfold Buffer.retrieveAsString at result
    split at result
    · rename_i inside
      obtain rfl := Option.some.inj result
      have bytes := congrArg List.length same
      simp only [Buffer.peek, List.length_take, List.length_drop, wf.length_content] at bytes
      omega
    · cases result
  · intro fits
    rw [wf.retrieveAsString fits, Nat.min_eq_left fits]
    rfl

/-- Three bytes have been retrieved and one new byte is readable: a request for one returns it. -/
theorem retrieveAsString_exact_iff_reused :
    ∃ b, anyCallMachine.Run (Buffer.new 4) [.append [1, 2, 3], .retrieveAll, .append [9]] b ∧
      b.content = [9] ∧ (b.retrieveAsString 1).map Prod.fst = some [9] := by
  obtain ⟨b, run, content, size⟩ := anyCallMachine.exists_run (.new 4)
    [.append [1, 2, 3], .retrieveAll, .append [9]]
    (fun b => b.content = [9] ∧ b.readableBytes = 1) (by decide +kernel)
  have taken := (retrieveAsString_exact_iff 4 _ b run 1).mpr (Nat.le_of_eq size.symm)
  rw [content, size] at taken
  exact ⟨b, run, content, taken⟩

/-- From the same buffer a request for three returns that byte and two of the old ones; a request
that ends behind the vector has no defined result. -/
theorem retrieveAsString_discloses :
    ∃ b, anyCallMachine.Run (Buffer.new 4) [.append [1, 2, 3], .retrieveAll, .append [9]] b ∧
      b.content = [9] ∧ (b.retrieveAsString 3).map Prod.fst = some [9, 2, 3] ∧
      (b.retrieveAsString 3).map Prod.fst ≠ some (b.content.take (min 3 b.readableBytes)) ∧
      b.retrieveAsString 5 = none :=
  anyCallMachine.exists_run (.new 4) [.append [1, 2, 3], .retrieveAll, .append [9]] _
    (by decide +kernel)

end TcpMuduo
