import Mathlib.Algebra.BigOperators.Group.List.Basic
import Mathlib.Algebra.Order.Floor.Div
import Mathlib.Data.List.SplitLengths
import Mathlib.GroupTheory.GroupAction.Ring

/-! # Data cut into pieces

A block of data that passes through a queue of elements of a fixed size is cut into full pieces and
a last one with the rest.  A reader that knows the length of the block cuts it in the same way.
-/
namespace Capio.Lib.Pieces

open List

variable {α : Type*} {size : Nat}

def sizes (size n : Nat) : List Nat :=
  replicate (n / size) size ++ if n % size = 0 then [] else [n % size]

def pieces (size : Nat) (data : List α) : List (List α) :=
  (sizes size data.length).splitLengths data

@[simp] theorem sizes_zero (size : Nat) : sizes size 0 = [] := by simp [sizes]

@[simp] theorem pieces_nil (size : Nat) : pieces size ([] : List α) = [] := by simp [pieces]

theorem sizes_of_le {n : Nat} (hSize : 0 < size) (hn : 0 < n) (hLe : n ≤ size) : sizes size n = [n] := by
  obtain hLt | rfl := Nat.lt_or_eq_of_le hLe
  · rw [sizes, Nat.div_eq_of_lt hLt, Nat.mod_eq_of_lt hLt, if_neg (Nat.ne_of_gt hn)]
    rfl
  · simp [sizes, Nat.div_self hSize]

theorem sizes_add (hSize : 0 < size) (n : Nat) : sizes size (size + n) = size :: sizes size n := by
  rw [sizes, sizes, Nat.add_div_left n hSize, Nat.add_mod_left, replicate_succ, cons_append]

theorem pieces_of_le (hSize : 0 < size) {data : List α} (hData : data ≠ []) (hLe : data.length ≤ size) :
    pieces size data = [data] := by
  rw [pieces, sizes_of_le hSize (length_pos_iff.mpr hData) hLe]
  simp

theorem pieces_cons (hSize : 0 < size) {data : List α} (hData : data ≠ []) :
    pieces size data = data.take size :: pieces size (data.drop size) := by
  obtain hLe | hLt := Nat.lt_or_ge size data.length |>.symm
  · rw [pieces_of_le hSize hData hLe, take_of_length_le hLe, drop_of_length_le hLe, pieces_nil]
  · have hLength : data.length = size + (data.drop size).length := by
      rw [length_drop]
      omega
    rw [pieces, hLength, sizes_add hSize, splitLengths_cons]
    rfl

theorem pieces_of_flatten (hSize : 0 < size) {L : List (List α)} (hL : ∀ piece ∈ L, piece.length = size) :
    pieces size L.flatten = L := by
  induction L with
  | nil => exact pieces_nil size
  | cons piece L ih =>
    have hLength := hL piece mem_cons_self
    have hData : (piece :: L).flatten ≠ [] := by
      exact append_ne_nil_of_left_ne_nil (ne_nil_of_length_pos (hLength ▸ hSize)) _
    rw [pieces_cons hSize hData, flatten_cons, take_left' hLength, drop_left' hLength,
      ih fun p hp => hL p (mem_cons_of_mem _ hp)]

theorem sum_sizes (size n : Nat) : (sizes size n).sum = n := by
  rw [sizes, sum_append, sum_replicate, smul_eq_mul]
  split
  · rename_i hRest
    exact Nat.div_mul_cancel (Nat.dvd_of_mod_eq_zero hRest)
  · rw [sum_singleton, Nat.mul_comm]
    exact Nat.div_add_mod n size

theorem length_sizes (hSize : 0 < size) (n : Nat) : (sizes size n).length = n ⌈/⌉ size := by
  rw [sizes, length_append, length_replicate, Nat.ceilDiv_eq_add_pred_div]
  have hDiv : n / size * size + n % size = n := Nat.div_add_mod' n size
  have hMod := Nat.mod_lt n hSize
  symm
  split
  · rw [length_nil, Nat.add_zero]
    apply Nat.div_eq_of_lt_le
    · omega
    · rw [Nat.add_mul, Nat.one_mul]
      omega
  · rw [length_singleton]
    apply Nat.div_eq_of_lt_le
    · rw [Nat.add_mul, Nat.one_mul]
      omega
    · rw [Nat.add_mul, Nat.add_mul, Nat.one_mul]
      omega

@[simp] theorem flatten_pieces (size : Nat) (data : List α) : (pieces size data).flatten = data :=
  flatten_splitLengths _ _ (Nat.le_of_eq (sum_sizes size data.length).symm)

theorem length_pieces (hSize : 0 < size) (data : List α) :
    (pieces size data).length = data.length ⌈/⌉ size := by
  rw [pieces, length_splitLengths, length_sizes hSize]

theorem mem_pieces (hSize : 0 < size) {data piece : List α} (h : piece ∈ pieces size data) :
    piece ≠ [] ∧ piece.length ≤ size := by
  induction hLength : data.length using Nat.strong_induction_on generalizing data with
  | h n ih =>
    by_cases hData : data = []
    · rw [hData, pieces_nil] at h
      cases h
    · have hPos : 0 < data.length := length_pos_iff.mpr hData
      rw [pieces_cons hSize hData] at h
      obtain rfl | hRest := mem_cons.mp h
      · grind
      · grind

end Capio.Lib.Pieces
