import Mathlib.Data.Int.CardIntervalMod

/-!
Taking turns: the entries of a list are handed out one after the other, and from
the first one on again at its end.
-/

set_option autoImplicit false
set_option relaxedAutoImplicit false

namespace TcpMuduo.Lib

universe u

variable {α : Type u}

def nextIndex (n i : Nat) : Nat := if i + 1 ≥ n then 0 else i + 1

/-- The entries handed out in the first `k` turns. -/
def turns (xs : List α) (k : Nat) : List α :=
  (List.range k).filterMap fun i => xs[i % xs.length]?

theorem nextIndex_mod {n : Nat} (pos : 0 < n) (k : Nat) :
    nextIndex n (k % n) = (k + 1) % n := by
  have inside : k % n < n := Nat.mod_lt k pos
  have wrapped : (k + 1) % n = (k % n + 1) % n := (Nat.mod_add_mod k n 1).symm
  unfold nextIndex
  rw [wrapped]
  split
  · rename_i last
    have whole : k % n + 1 = n := by omega
    rw [whole, Nat.mod_self]
  · rename_i more
    exact (Nat.mod_eq_of_lt (by omega)).symm

theorem turns_succ (xs : List α) (k : Nat) :
    turns xs (k + 1) = turns xs k ++ (xs[k % xs.length]?).toList := by
  unfold turns
  rw [List.range_succ, List.filterMap_append]
  congr 1

theorem mem_of_mem_turns {xs : List α} {k : Nat} {x : α} (h : x ∈ turns xs k) : x ∈ xs := by
  obtain ⟨i, -, entry⟩ := List.mem_filterMap.mp h
  exact List.mem_of_getElem? entry

section Some

variable {xs : List α} (some : xs ≠ [])
include some

theorem mod_length_lt (k : Nat) : k % xs.length < xs.length :=
  Nat.mod_lt k (List.length_pos_iff.mpr some)

theorem length_turns (k : Nat) : (turns xs k).length = k := by
  induction k with
  | zero => rfl
  | succ k ih =>
    rw [turns_succ, List.length_append, ih, List.getElem?_eq_getElem (mod_length_lt some k)]
    rfl

/-- Turn number `k`, counted from zero, is that of the entry `k` modulo the length. -/
theorem getElem?_turns {k i : Nat} (done : i < k) : (turns xs k)[i]? = xs[i % xs.length]? := by
  induction k with
  | zero => cases done
  | succ k ih =>
    rw [turns_succ]
    have size := length_turns some k
    rcases Nat.lt_succ_iff_lt_or_eq.mp done with before | rfl
    · rw [List.getElem?_append_left (by omega), ih before]
    · rw [List.getElem?_append_right (by omega), size, Nat.sub_self,
        List.getElem?_eq_getElem (mod_length_lt some i)]
      rfl

theorem count_turns [DecidableEq α] (distinct : xs.Nodup) {j : Nat} (inside : j < xs.length)
    (k : Nat) : (turns xs k).count xs[j] = k / xs.length + if j < k % xs.length then 1 else 0 := by
  have mine (i : Nat) : xs[i % xs.length]? = Option.some xs[j] ↔ i ≡ j [MOD xs.length] := by
    rw [List.getElem?_eq_getElem (mod_length_lt some i), Option.some_inj,
      distinct.getElem_inj_iff, Nat.ModEq, Nat.mod_eq_of_lt inside]
  have counted : (turns xs k).count xs[j] = k.count (· ≡ j [MOD xs.length]) := by
    unfold turns Nat.count
    rw [List.count_filterMap]
    refine List.countP_congr ?_
    intro i _
    rw [beq_iff_eq, mine, decide_eq_true_iff]
  rw [counted, Nat.count_modEq_card _ (List.length_pos_iff.mpr some), Nat.mod_eq_of_lt inside]

/-- No entry gets more than one turn ahead of another one. -/
theorem turns_balanced [DecidableEq α] (distinct : xs.Nodup) {x y : α} (hx : x ∈ xs)
    (hy : y ∈ xs) (k : Nat) : (turns xs k).count x ≤ (turns xs k).count y + 1 := by
  obtain ⟨i, inside, rfl⟩ := List.getElem_of_mem hx
  obtain ⟨j, inside', rfl⟩ := List.getElem_of_mem hy
  rw [count_turns some distinct inside, count_turns some distinct inside']
  split
  · omega
  · omega

end Some

end TcpMuduo.Lib
