import TcpMuduo.Net.BufferQueue

/-!
Where a `Buffer` uses raw pointers into its vector. Every call is given the
ranges of cells it copies from or to, or hands to the kernel, with the buffer as
it is at that moment; over every run these ranges lie inside the vector.
-/

set_option autoImplicit false
set_option relaxedAutoImplicit false

namespace TcpMuduo

open Lib (store)

/-- The places that use a pointer into `buffer_`. -/
inductive CopySite
  /-- the target of `std::copy` in `append` -/
  | append
  /-- the source and the target of `std::copy` in `makeSpace` -/
  | compactFrom
  | compactTo
  /-- the source of the string in `retrieveAsString` -/
  | string
  /-- the first area given to `::readv` -/
  | iovec
  /-- what `writeFd` offers to `::write` -/
  | write
  deriving DecidableEq, Repr

def CopySite.Stores : CopySite → Prop
  | .append | .compactTo | .iovec => True
  | .compactFrom | .string | .write => False

def CopySite.Writes : CopySite → Prop
  | .append | .iovec => True
  | .compactFrom | .compactTo | .string | .write => False

/-- The cells from `first` up to, not including, `last`, used at `site` while the buffer is
`buffer`. -/
structure Access where
  site : CopySite
  buffer : Buffer
  first : Nat
  last : Nat
  deriving DecidableEq, Repr

namespace Access

def Covers (a : Access) (i : Nat) : Prop := a.first ≤ i ∧ i < a.last

/-- The range is one of the vector, and a write is not in front of `writerIndex_`. -/
structure InBounds (a : Access) : Prop where
  order : a.first ≤ a.last
  inside : a.last ≤ a.buffer.buffer_.length
  after : a.site.Writes → a.buffer.writerIndex_ ≤ a.first

end Access

namespace Buffer

def makeSpaceAccesses (b : Buffer) (len : Nat) : List Access :=
  if b.writableBytes + b.prependableBytes < len + kCheapPrepend then
    []
  else
    [⟨.compactFrom, b, b.readerIndex_, b.writerIndex_⟩,
      ⟨.compactTo, b, kCheapPrepend, kCheapPrepend + b.readableBytes⟩]

def ensureWritableBytesAccesses (b : Buffer) (len : Nat) : List Access :=
  if b.writableBytes < len then b.makeSpaceAccesses len else []

def appendAccesses (b : Buffer) (data : List UInt8) : List Access :=
  let roomy := b.ensureWritableBytes data.length
  b.ensureWritableBytesAccesses data.length ++
    [⟨.append, roomy, roomy.writerIndex_, roomy.writerIndex_ + data.length⟩]

def retrieveAsStringAccesses (b : Buffer) (len : Nat) : List Access :=
  [⟨.string, b, b.readerIndex_, b.readerIndex_ + len⟩]

/-- The buffer in `readFd` after `::readv` has filled the whole writable part. -/
def filled (b : Buffer) (bytes : List UInt8) : Buffer :=
  { b with
    buffer_ := store b.buffer_ b.writerIndex_ (bytes.take b.writableBytes)
    writerIndex_ := b.buffer_.length }

def spilled (b : Buffer) (bytes : List UInt8) : List UInt8 :=
  (store (List.replicate extrabufSize 0) 0 (bytes.drop b.writableBytes)).take
    (bytes.length - b.writableBytes)

/-- The kernel may write to all of the area it is given. -/
def readFdAccesses (b : Buffer) (r : ReadvResult) : List Access :=
  ⟨.iovec, b, b.writerIndex_, b.writerIndex_ + b.writableBytes⟩ ::
    match r with
    | .failed _ => []
    | .got bytes =>
      if bytes.length ≤ b.writableBytes then
        []
      else
        (b.filled bytes).appendAccesses (b.spilled bytes)

def writeFdAccesses (b : Buffer) : List Access :=
  [⟨.write, b, b.readerIndex_, b.readerIndex_ + b.readableBytes⟩]

end Buffer

/-- The accesses of one call; the index updates alone make none. -/
def BufferOp.accesses (b : Buffer) : BufferOp → List Access
  | .append data => b.appendAccesses data
  | .retrieve _ => []
  | .retrieveAll => []
  | .retrieveAllAsString => b.retrieveAsStringAccesses b.readableBytes
  | .retrieveAsString len => b.retrieveAsStringAccesses len
  | .ensureWritableBytes len => b.ensureWritableBytesAccesses len
  | .readFd r => b.readFdAccesses r
  | .writeFd _ => b.writeFdAccesses

namespace Buffer

@[simp] theorem retrieve_buffer_ (b : Buffer) (len : Nat) :
    (b.retrieve len).buffer_ = b.buffer_ := by
  unfold retrieve retrieveAll
  split <;> rfl

theorem readFd_large {b : Buffer} {bytes : List UInt8} (large : b.writableBytes < bytes.length) :
    (b.readFd (.got bytes)).1 = (b.filled bytes).append (b.spilled bytes) := by
  simp only [readFd]
  rw [if_neg (Nat.not_le_of_lt large)]
  rfl

private theorem retrieveAsString_buffer_ {b : Buffer} {len : Nat} {r : List UInt8 × Buffer}
    (h : b.retrieveAsString len = some r) : r.2.buffer_ = b.buffer_ := by
  unfold retrieveAsString at h
  split at h
  · obtain rfl := Option.some.inj h
    simp
  · cases h

end Buffer

def Untouched (i : Nat) (accesses : List Access) : Prop :=
  ∀ a ∈ accesses, a.site.Stores → ¬ a.Covers i

namespace Untouched

variable {i : Nat} {as as' : List Access}

theorem left (h : Untouched i (as ++ as')) : Untouched i as :=
  fun a ha => h a (List.mem_append_left _ ha)

private theorem right (h : Untouched i (as ++ as')) : Untouched i as' :=
  fun a ha => h a (List.mem_append_right _ ha)

theorem head {a : Access} (h : Untouched i (a :: as)) (stores : a.site.Stores) :
    i < a.first ∨ a.last ≤ i := by
  have uncovered := h a List.mem_cons_self stores
  simp only [Access.Covers] at uncovered
  omega

theorem tail {a : Access} (h : Untouched i (a :: as)) : Untouched i as :=
  fun a ha => h a (List.mem_cons_of_mem _ ha)

end Untouched

namespace Buffer

variable {b : Buffer} {i : Nat}

private theorem makeSpace_untouched {len : Nat} (need : b.writableBytes < len)
    (inside : i < b.buffer_.length) (h : Untouched i (b.makeSpaceAccesses len)) :
    (b.makeSpace len).buffer_[i]? = b.buffer_[i]? := by
  unfold makeSpaceAccesses at h
  unfold makeSpace
  simp only [writableBytes] at need
  split
  · exact Lib.getElem?_resize (by omega) inside
  · rename_i room
    rw [if_neg room] at h
    exact Lib.getElem?_copyForward_outside (h.tail.head trivial)

private theorem ensureWritableBytes_untouched {len : Nat} (inside : i < b.buffer_.length)
    (h : Untouched i (b.ensureWritableBytesAccesses len)) :
    (b.ensureWritableBytes len).buffer_[i]? = b.buffer_[i]? := by
  unfold ensureWritableBytesAccesses at h
  unfold ensureWritableBytes
  split
  · rename_i need
    rw [if_pos need] at h
    exact makeSpace_untouched need inside h
  · rfl

private theorem append_untouched {data : List UInt8} (inside : i < b.buffer_.length)
    (h : Untouched i (b.appendAccesses data)) :
    (b.append data).buffer_[i]? = b.buffer_[i]? := by
  have copied : (b.append data).buffer_[i]? =
      (b.ensureWritableBytes data.length).buffer_[i]? :=
    Lib.getElem?_store_outside (h.right.head trivial)
  calc (b.append data).buffer_[i]?
      = (b.ensureWritableBytes data.length).buffer_[i]? := copied
    _ = b.buffer_[i]? := ensureWritableBytes_untouched inside h.left

private theorem readFd_untouched {r : ReadvResult} (inside : i < b.buffer_.length)
    (h : Untouched i (b.readFdAccesses r)) :
    (b.readFd r).1.buffer_[i]? = b.buffer_[i]? := by
  have area := h.head trivial
  simp only [writableBytes] at area
  cases r with
  | failed e => rfl
  | got bytes =>
    have stored : (store b.buffer_ b.writerIndex_ (bytes.take b.writableBytes))[i]?
        = b.buffer_[i]? := by
      refine Lib.getElem?_store_outside ?_
      simp only [List.length_take, writableBytes]
      omega
    have spill := h.tail
    simp only at spill
    split at spill
    · rename_i small
      simp only [readFd, if_pos small]
      exact stored
    · rename_i large
      have inside' : i < (b.filled bytes).buffer_.length := by
        simpa only [filled, Lib.length_store] using inside
      rw [readFd_large (Nat.lt_of_not_le large), append_untouched inside' spill]
      exact stored

end Buffer

theorem Buffer.apply_buffer_ {b b' : Buffer} {op : BufferOp} {out : List UInt8}
    (h : b.apply op = some (b', out)) :
    b'.buffer_ = b.buffer_ ∨
    (∃ data, op = .append data ∧ b' = b.append data) ∨
    (∃ len, op = .ensureWritableBytes len ∧ b' = b.ensureWritableBytes len) ∨
    (∃ r, op = .readFd r ∧ b' = (b.readFd r).1) := by
  cases op with
  | append data =>
    obtain ⟨rfl, -⟩ := Prod.mk.inj (Option.some.inj h)
    exact .inr (.inl ⟨data, rfl, rfl⟩)
  | retrieve len =>
    obtain ⟨rfl, -⟩ := Prod.mk.inj (Option.some.inj h)
    exact .inl (b.retrieve_buffer_ len)
  | retrieveAll =>
    obtain ⟨rfl, -⟩ := Prod.mk.inj (Option.some.inj h)
    exact .inl rfl
  | retrieveAllAsString =>
    obtain ⟨r, taken, rest⟩ := Option.map_eq_some_iff.mp h
    obtain ⟨rfl, -⟩ := Prod.mk.inj rest
    exact .inl (retrieveAsString_buffer_ taken)
  | retrieveAsString len =>
    obtain ⟨r, taken, rest⟩ := Option.map_eq_some_iff.mp h
    obtain ⟨rfl, -⟩ := Prod.mk.inj rest
    exact .inl (retrieveAsString_buffer_ taken)
  | ensureWritableBytes len =>
    obtain ⟨rfl, -⟩ := Prod.mk.inj (Option.some.inj h)
    exact .inr (.inr (.inl ⟨len, rfl, rfl⟩))
  | readFd r =>
    obtain ⟨rfl, -⟩ := Prod.mk.inj (Option.some.inj h)
    exact .inr (.inr (.inr ⟨r, rfl, rfl⟩))
  | writeFd r =>
    cases r with
    | wrote n =>
      obtain ⟨rfl, -⟩ := Prod.mk.inj (Option.some.inj h)
      exact .inl (b.retrieve_buffer_ n)
    | failed e =>
      obtain ⟨rfl, -⟩ := Prod.mk.inj (Option.some.inj h)
      exact .inl rfl

/-- The accesses tell all: a call leaves every cell alone that no access of it covers for
writing. -/
theorem Buffer.apply_untouched {b b' : Buffer} {op : BufferOp} {out : List UInt8} {i : Nat}
    (h : b.apply op = some (b', out)) (inside : i < b.buffer_.length)
    (untouched : Untouched i (op.accesses b)) : b'.buffer_[i]? = b.buffer_[i]? := by
  rcases apply_buffer_ h with same | ⟨data, rfl, rfl⟩ | ⟨len, rfl, rfl⟩ | ⟨r, rfl, rfl⟩
  · rw [same]
  · exact append_untouched inside untouched
  · exact ensureWritableBytes_untouched inside untouched
  · exact readFd_untouched inside untouched

namespace Buffer

variable {b : Buffer}

private theorem WF.makeSpaceAccesses_inBounds (h : b.WF) (len : Nat) :
    ∀ a ∈ b.makeSpaceAccesses len, a.InBounds := by
  have hp := h.prepend
  have ho := h.order
  have hi := h.inside
  intro a ha
  unfold makeSpaceAccesses at ha
  split at ha
  · simp at ha
  · simp only [List.mem_cons, List.not_mem_nil, or_false] at ha
    rcases ha with rfl | rfl
    · exact ⟨ho, hi, False.elim⟩
    · refine ⟨Nat.le_add_right _ _, ?_, False.elim⟩
      simp only [readableBytes]
      omega

private theorem WF.ensureWritableBytesAccesses_inBounds (h : b.WF) (len : Nat) :
    ∀ a ∈ b.ensureWritableBytesAccesses len, a.InBounds := by
  intro a ha
  unfold ensureWritableBytesAccesses at ha
  split at ha
  · exact h.makeSpaceAccesses_inBounds len a ha
  · simp at ha

private theorem WF.appendAccesses_inBounds (h : b.WF) (data : List UInt8) :
    ∀ a ∈ b.appendAccesses data, a.InBounds := by
  obtain ⟨wf, -, room⟩ := h.ensureWritableBytes data.length
  have hi := wf.inside
  simp only [writableBytes] at room
  intro a ha
  rcases List.mem_append.mp ha with made | copied
  · exact h.ensureWritableBytesAccesses_inBounds _ a made
  · obtain rfl := List.mem_singleton.mp copied
    exact ⟨Nat.le_add_right _ _, by simp only; omega, fun _ => Nat.le_refl _⟩

private theorem WF.retrieveAsStringAccesses_inBounds (h : b.WF) {len : Nat}
    (fits : len ≤ b.readableBytes) : ∀ a ∈ b.retrieveAsStringAccesses len, a.InBounds := by
  have ho := h.order
  have hi := h.inside
  simp only [readableBytes] at fits
  intro a ha
  obtain rfl := List.mem_singleton.mp ha
  exact ⟨Nat.le_add_right _ _, by simp only; omega, False.elim⟩

theorem WF.filled (h : b.WF) (bytes : List UInt8) : (b.filled bytes).WF := by
  have ho := h.order
  have hi := h.inside
  refine ⟨h.prepend, ?_, ?_⟩
  · simp only [Buffer.filled]
    omega
  · simp only [Buffer.filled, Lib.length_store, Nat.le_refl]

private theorem WF.readFdAccesses_inBounds (h : b.WF) (r : ReadvResult) :
    ∀ a ∈ b.readFdAccesses r, a.InBounds := by
  have hi := h.inside
  intro a ha
  rcases List.mem_cons.mp ha with rfl | spill
  · refine ⟨Nat.le_add_right _ _, ?_, fun _ => Nat.le_refl _⟩
    simp only [writableBytes]
    omega
  · cases r with
    | failed e => simp at spill
    | got bytes =>
      simp only at spill
      split at spill
      · simp at spill
      · exact (h.filled bytes).appendAccesses_inBounds _ a spill

private theorem WF.writeFdAccesses_inBounds (h : b.WF) : ∀ a ∈ b.writeFdAccesses, a.InBounds := by
  have ho := h.order
  have hi := h.inside
  intro a ha
  obtain rfl := List.mem_singleton.mp ha
  refine ⟨Nat.le_add_right _ _, ?_, False.elim⟩
  simp only [readableBytes]
  omega

private theorem WF.accesses_inBounds (h : b.WF) {op : BufferOp} (ok : op.Allowed b) :
    ∀ a ∈ op.accesses b, a.InBounds := by
  cases op with
  | append data => exact h.appendAccesses_inBounds data
  | retrieve len => simp [BufferOp.accesses]
  | retrieveAll => simp [BufferOp.accesses]
  | retrieveAllAsString => exact h.retrieveAsStringAccesses_inBounds (Nat.le_refl _)
  | retrieveAsString len => exact h.retrieveAsStringAccesses_inBounds ok
  | ensureWritableBytes len => exact h.ensureWritableBytesAccesses_inBounds len
  | readFd r => exact h.readFdAccesses_inBounds r
  | writeFd r => exact h.writeFdAccesses_inBounds

private theorem ensureWritableBytes_grows (b : Buffer) (len : Nat) :
    b.buffer_.length ≤ (b.ensureWritableBytes len).buffer_.length := by
  unfold ensureWritableBytes makeSpace
  split
  · rename_i need
    simp only [writableBytes] at need
    split
    · simp only [Lib.length_resize]
      omega
    · simp only [Lib.length_copyForward, Nat.le_refl]
  · exact Nat.le_refl _

private theorem append_grows (b : Buffer) (data : List UInt8) :
    b.buffer_.length ≤ (b.append data).buffer_.length := by
  have ensured := b.ensureWritableBytes_grows data.length
  simpa only [append, Lib.length_store] using ensured

private theorem readFd_grows (b : Buffer) (r : ReadvResult) :
    b.buffer_.length ≤ (b.readFd r).1.buffer_.length := by
  cases r with
  | failed e => exact Nat.le_refl _
  | got bytes =>
    rcases Nat.lt_or_ge b.writableBytes bytes.length with large | small
    · rw [readFd_large large]
      have appended := (b.filled bytes).append_grows (b.spilled bytes)
      simpa only [filled, Lib.length_store] using appended
    · simp only [readFd, if_pos small, Lib.length_store, Nat.le_refl]

private theorem apply_grows {b b' : Buffer} {op : BufferOp} {out : List UInt8}
    (h : b.apply op = some (b', out)) : b.buffer_.length ≤ b'.buffer_.length := by
  rcases apply_buffer_ h with same | ⟨data, -, rfl⟩ | ⟨len, -, rfl⟩ | ⟨r, -, rfl⟩
  · exact Nat.le_of_eq (congrArg List.length same.symm)
  · exact b.append_grows data
  · exact b.ensureWritableBytes_grows len
  · exact b.readFd_grows r

end Buffer

/-- Whatever calls a buffer has seen: its indices are in order behind the prepend area and
inside the vector; the vector does not shrink; `ensureWritableBytes` makes the room asked for;
every access of every further call lies inside the vector, those of `append` and `::readv`
behind the data, and reaches every cell the call changes; and what `::readv` puts into
`extrabuf` fits there. -/
theorem buffer_in_bounds (initalSize : Nat) (ops : List BufferOp) (b : Buffer)
    (h : bufferMachine.Run (Buffer.new initalSize) ops b) :
    (Buffer.kCheapPrepend = 8 ∧ Buffer.kCheapPrepend ≤ b.readerIndex_ ∧
      b.readerIndex_ ≤ b.writerIndex_ ∧ b.writerIndex_ ≤ b.buffer_.length) ∧
    (∀ op b', bufferMachine.step b op = some b' → b.buffer_.length ≤ b'.buffer_.length) ∧
    (∀ len, len ≤ (b.ensureWritableBytes len).writableBytes) ∧
    (∀ op : BufferOp, op.Allowed b → ∀ a ∈ op.accesses b, a.InBounds) ∧
    (∀ (op : BufferOp) b' i, bufferMachine.step b op = some b' → i < b.buffer_.length →
      b'.buffer_[i]? ≠ b.buffer_[i]? → ∃ a ∈ op.accesses b, a.site.Stores ∧ a.Covers i) ∧
    (∀ bytes, (ReadvResult.got bytes).Fits b.iovLen → b.writableBytes < bytes.length →
      bytes.length - b.writableBytes ≤ Buffer.extrabufSize) := by
  have wf : b.WF := (bufferMachine_run h).1
  refine ⟨⟨rfl, wf.prepend, wf.order, wf.inside⟩, ?_, ?_, ?_, ?_, ?_⟩
  · intro op b' step
    obtain ⟨-, out, happ⟩ := bufferMachine_step step
    exact Buffer.apply_grows happ
  · intro len
    exact (wf.ensureWritableBytes len).2.2
  · intro op ok
    exact wf.accesses_inBounds ok
  · intro op b' i step inside changed
    obtain ⟨-, out, happ⟩ := bufferMachine_step step
    by_contra none
    have untouched : Untouched i (op.accesses b) := by
      intro a ha stores covers
      exact none ⟨a, ha, stores, covers⟩
    exact changed (Buffer.apply_untouched happ inside untouched)
  · intro bytes fits large
    have spill := Buffer.spill_le fits large
    rwa [List.length_drop] at spill

/-- Three bytes arrive by `::readv` with room for one; the other two are appended after the
readable byte has been moved to the front. -/
def spillingCalls : List BufferOp :=
  [.append [1, 2, 3], .retrieve 2, .readFd (.got [4, 5, 6])]

theorem buffer_in_bounds_spilling :
    bufferMachine.Run (Buffer.new 4) spillingCalls
        ⟨[0, 0, 0, 0, 0, 0, 0, 0, 3, 4, 5, 6], 8, 12⟩ ∧
      ∀ len, len ≤ ((⟨[0, 0, 0, 0, 0, 0, 0, 0, 3, 4, 5, 6], 8, 12⟩ : Buffer).ensureWritableBytes
        len).writableBytes := by
  have run : bufferMachine.Run (Buffer.new 4) spillingCalls
      ⟨[0, 0, 0, 0, 0, 0, 0, 0, 3, 4, 5, 6], 8, 12⟩ :=
    Lib.Machine.run_iff_exec.mpr (by decide +kernel)
  exact ⟨run, (buffer_in_bounds 4 _ _ run).2.2.1⟩

end TcpMuduo
