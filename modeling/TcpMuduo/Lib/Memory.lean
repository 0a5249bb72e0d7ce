import Mathlib.Data.List.Basic
import Mathlib.Data.List.TakeDrop

/-!
A block of memory as a list of cells: storing foreign data at an offset, copying
one range onto another in place, growing the block, and the cells of a range.
-/

set_option autoImplicit false
set_option relaxedAutoImplicit false

namespace TcpMuduo.Lib

universe u

variable {α : Type u}

/-- Store `xs` cell by cell at `offset`, `offset + 1`, and so on. -/
def store (mem : List α) (offset : Nat) : List α → List α
  | [] => mem
  | x :: xs => store (mem.set offset x) (offset + 1) xs

/-- Copy `n` cells from `src` to `dst` inside one block, in increasing order; each read sees
what the earlier writes left. -/
def copyForward (mem : List α) (src dst : Nat) : Nat → List α
  | 0 => mem
  | n + 1 =>
    match mem[src]? with
    | some x => copyForward (mem.set dst x) (src + 1) (dst + 1) n
    | none => mem

/-- Set the size of the block to `n`: cut its end off, or append copies of `fill`. -/
def resize (mem : List α) (n : Nat) (fill : α) : List α :=
  mem.take n ++ List.replicate (n - mem.length) fill

/-- The cells from `i` up to, not including, `j`. -/
def slice (mem : List α) (i j : Nat) : List α := (mem.take j).drop i

theorem store_eq (mem xs : List α) (offset : Nat) (fits : offset + xs.length ≤ mem.length) :
    store mem offset xs = mem.take offset ++ xs ++ mem.drop (offset + xs.length) := by
  induction xs generalizing mem offset with
  | nil => simp [store]
  | cons x xs ih =>
    simp only [List.length_cons] at fits
    have inside : offset < mem.length := by omega
    have head : (mem.set offset x).take (offset + 1) = mem.take offset ++ [x] := by
      rw [List.take_add_one, List.take_set_of_le (Nat.le_refl offset)]
      simp [inside]
    have tail : (mem.set offset x).drop (offset + 1 + xs.length)
        = mem.drop (offset + (x :: xs).length) := by
      rw [List.drop_set_of_lt (by omega)]
      congr 1
      simp only [List.length_cons]
      omega
    rw [store, ih _ _ (by simp only [List.length_set]; omega), head, tail]
    simp

@[simp] theorem length_store (mem xs : List α) (offset : Nat) :
    (store mem offset xs).length = mem.length := by
  induction xs generalizing mem offset with
  | nil => rfl
  | cons x xs ih => simp [store, ih]

/-- A forward copy to a lower or equal position moves the old cells of the source range, even
where the two ranges overlap: a cell is overwritten only after it has been read. -/
theorem copyForward_eq (mem : List α) (src dst n : Nat) (down : dst ≤ src)
    (fits : src + n ≤ mem.length) :
    copyForward mem src dst n = mem.take dst ++ slice mem src (src + n) ++ mem.drop (dst + n) := by
  induction n generalizing mem src dst with
  | zero => simp [copyForward, slice]
  | succ n ih =>
    have inside : src < mem.length := by omega
    have head : (mem.set dst mem[src]).take (dst + 1) = mem.take dst ++ [mem[src]] := by
      rw [List.take_add_one, List.take_set_of_le (Nat.le_refl dst)]
      simp [show dst < mem.length by omega]
    have unread : slice (mem.set dst mem[src]) (src + 1) (src + 1 + n)
        = slice mem (src + 1) (src + 1 + n) := by
      simp only [slice, List.drop_take]
      rw [List.drop_set_of_lt (by omega)]
    have tail : (mem.set dst mem[src]).drop (dst + 1 + n) = mem.drop (dst + (n + 1)) := by
      rw [List.drop_set_of_lt (by omega)]
      congr 1
      omega
    have range : slice mem src (src + (n + 1)) = mem[src] :: slice mem (src + 1) (src + 1 + n) := by
      simp only [slice]
      rw [List.drop_eq_getElem_cons (by simp; omega)]
      simp [Nat.add_comm, Nat.add_left_comm]
    rw [copyForward, List.getElem?_eq_getElem inside]
    simp only
    rw [ih _ _ _ (by omega) (by simp only [List.length_set]; omega), head, unread, tail, range]
    simp

@[simp] theorem length_copyForward (mem : List α) (src dst n : Nat) :
    (copyForward mem src dst n).length = mem.length := by
  induction n generalizing mem src dst with
  | zero => rfl
  | succ n ih =>
    rw [copyForward]
    split
    · rw [ih, List.length_set]
    · rfl

theorem length_resize (mem : List α) (n : Nat) (fill : α) : (resize mem n fill).length = n := by
  simp only [resize, List.length_append, List.length_take, List.length_replicate]
  omega

theorem length_slice {mem : List α} {i j : Nat} (fits : j ≤ mem.length) :
    (slice mem i j).length = j - i := by
  simp [slice, Nat.min_eq_left fits]

@[simp] theorem slice_self (mem : List α) (i : Nat) : slice mem i i = [] := by
  simp [slice]

theorem slice_drop (mem : List α) (i j n : Nat) : (slice mem i j).drop n = slice mem (i + n) j := by
  simp [slice]

theorem slice_store_extend {mem xs : List α} {i j : Nat} (order : i ≤ j)
    (fits : j + xs.length ≤ mem.length) :
    slice (store mem j xs) i (j + xs.length) = slice mem i j ++ xs := by
  have whole : (mem.take j ++ xs).length = j + xs.length := by
    simp only [List.length_append, List.length_take]
    omega
  rw [store_eq _ _ _ fits]
  simp only [slice]
  rw [← whole, List.take_left, List.drop_append_of_le_length]
  simp only [List.length_take]
  omega

theorem slice_resize {mem : List α} {i j n : Nat} {fill : α} (kept : j ≤ n)
    (fits : j ≤ mem.length) : slice (resize mem n fill) i j = slice mem i j := by
  simp only [slice, resize]
  rw [List.take_append_of_le_length (by simp; omega), List.take_take, Nat.min_eq_left kept]

theorem slice_copyForward {mem : List α} {src dst n : Nat} (down : dst ≤ src)
    (fits : src + n ≤ mem.length) :
    slice (copyForward mem src dst n) dst (dst + n) = slice mem src (src + n) := by
  have left : (mem.take dst).length = dst := by simp; omega
  have both : (mem.take dst ++ slice mem src (src + n)).length = dst + n := by
    rw [List.length_append, left, length_slice fits]
    omega
  rw [copyForward_eq _ _ _ _ down fits]
  rw [show slice (mem.take dst ++ slice mem src (src + n) ++ mem.drop (dst + n)) dst (dst + n)
      = ((mem.take dst ++ slice mem src (src + n) ++ mem.drop (dst + n)).take (dst + n)).drop dst
      from rfl]
  rw [← both, List.take_left]
  conv_lhs => arg 1; rw [← left]
  exact List.drop_left

theorem getElem?_store_outside {mem xs : List α} {offset i : Nat}
    (outside : i < offset ∨ offset + xs.length ≤ i) : (store mem offset xs)[i]? = mem[i]? := by
  induction xs generalizing mem offset with
  | nil => rfl
  | cons x xs ih =>
    simp only [List.length_cons] at outside
    have other : offset ≠ i := by omega
    rw [store, ih (by omega), List.getElem?_set_ne other]

theorem getElem?_copyForward_outside {mem : List α} {src dst n i : Nat}
    (outside : i < dst ∨ dst + n ≤ i) : (copyForward mem src dst n)[i]? = mem[i]? := by
  induction n generalizing mem src dst with
  | zero => rfl
  | succ n ih =>
    have other : dst ≠ i := by omega
    rw [copyForward]
    split
    · rw [ih (by omega), List.getElem?_set_ne other]
    · rfl

theorem getElem?_resize {mem : List α} {n i : Nat} {fill : α} (kept : i < n)
    (inside : i < mem.length) : (resize mem n fill)[i]? = mem[i]? := by
  have left : i < (mem.take n).length := by
    simp only [List.length_take]
    omega
  rw [resize, List.getElem?_append_left left, List.getElem?_take_of_lt kept]

end TcpMuduo.Lib
