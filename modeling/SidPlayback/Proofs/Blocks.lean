/-
  Lists in blocks of one size.

  From its beginning a list is split into full blocks; what is left over is the open block.

  * `fullBlocks` and `openBlock` are the two parts;
  * `blocks_append`: the full blocks stay when elements follow;
  * `blocks_snoc`: one element more stays in the open block, or completes it.
-/
import Mathlib.Data.List.Basic

namespace SidPlayback

variable {α : Type}

/-- The full blocks of `size` elements from the beginning of a list. -/
def fullBlocks (size : ℕ) (xs : List α) : List (List α) :=
  (List.range (xs.length / size)).map fun i => (xs.drop (size * i)).take size

/-- The elements that are in no full block. -/
def openBlock (size : ℕ) (xs : List α) : List α := xs.drop (size * (xs.length / size))

@[simp] theorem length_fullBlocks (size : ℕ) (xs : List α) :
    (fullBlocks size xs).length = xs.length / size := by
  simp [fullBlocks]

@[simp] theorem length_openBlock (size : ℕ) (xs : List α) :
    (openBlock size xs).length = xs.length % size := by
  rw [openBlock, List.length_drop]
  exact Nat.sub_eq_of_eq_add (Nat.mod_add_div _ _).symm

/-- So many full blocks stay when elements follow. -/
theorem blocks_append {size n : ℕ} {xs more : List α} (hn : n ≤ xs.length / size) :
    (List.range n).map (fun i => ((xs ++ more).drop (size * i)).take size) =
      (List.range n).map fun i => (xs.drop (size * i)).take size := by
  refine List.map_congr_left fun i hi => ?_
  have hblock : size * i + size ≤ xs.length := by
    calc size * i + size = size * (i + 1) := (Nat.mul_succ _ _).symm
      _ ≤ size * (xs.length / size) :=
        Nat.mul_le_mul_left size (Nat.le_trans (List.mem_range.1 hi) hn)
      _ ≤ xs.length := Nat.mul_div_le _ _
  rw [List.drop_append_of_le_length (by omega),
    List.take_append_of_le_length (by rw [List.length_drop]; omega)]

/-- **One element more** stays in the open block, or completes it. -/
theorem blocks_snoc {size : ℕ} (hsize : 0 < size) (xs : List α) (x : α) :
    ((openBlock size xs).length + 1 < size ∧ fullBlocks size (xs ++ [x]) = fullBlocks size xs ∧
        openBlock size (xs ++ [x]) = openBlock size xs ++ [x]) ∨
      ((openBlock size xs).length + 1 = size ∧
        fullBlocks size (xs ++ [x]) = fullBlocks size xs ++ [openBlock size xs ++ [x]] ∧
        openBlock size (xs ++ [x]) = []) := by
  have hlength : (xs ++ [x]).length = xs.length + 1 := List.length_append
  have hdrop : (xs ++ [x]).drop (size * (xs.length / size)) = openBlock size xs ++ [x] :=
    List.drop_append_of_le_length (Nat.mul_div_le _ _)
  have hmod := Nat.mod_lt xs.length hsize
  have hsplit := Nat.mod_add_div xs.length size
  rw [length_openBlock]
  rcases Nat.lt_or_ge (xs.length % size + 1) size with hless | hfull
  · have hcount : (xs.length + 1) / size = xs.length / size := by
      rw [Nat.div_eq_iff hsize, Nat.mul_comm]
      omega
    refine .inl ⟨hless, ?_, ?_⟩
    · rw [fullBlocks, fullBlocks, hlength, hcount, blocks_append (Nat.le_refl _)]
    · rw [openBlock, hlength, hcount, hdrop]
  · have hcount : (xs.length + 1) / size = xs.length / size + 1 := by
      rw [Nat.div_eq_iff hsize, Nat.add_mul, Nat.mul_comm _ size]
      omega
    refine .inr ⟨by omega, ?_, ?_⟩
    · rw [fullBlocks, hlength, hcount, List.range_succ, List.map_append, blocks_append (Nat.le_refl _),
        List.map_singleton, hdrop, List.take_of_length_le]
      · rfl
      · rw [List.length_append, length_openBlock, List.length_singleton]
        omega
    · rw [openBlock, hlength, hcount, List.drop_eq_nil_iff, hlength, Nat.mul_succ]
      omega

end SidPlayback
