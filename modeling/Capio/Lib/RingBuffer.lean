import Mathlib.Data.List.Basic
import Mathlib.Logic.Function.Basic
import Mathlib.Tactic.WLOG

/-! # Ring buffers

A ring of slots with the positions of the oldest element and of the next free slot.  A slot can be
reserved before it is filled, and its content can be changed as long as one holds its position.
The elements in use, from the oldest to the newest, are a queue.
-/
namespace Capio.Lib

open List

variable {α : Type*}

structure RingBuffer (α : Type*) where
  slots : Nat → α
  size : Nat
  first : Nat
  last : Nat
  used : Nat
  first_lt : first < size
  used_le : used ≤ size
  last_eq : last = (first + used) % size

namespace RingBuffer

def position (r : RingBuffer α) (i : Nat) : Nat := (r.first + i) % r.size

def toList (r : RingBuffer α) : List α := (range r.used).map fun i => r.slots (r.position i)

@[simp] theorem length_toList (r : RingBuffer α) : r.toList.length = r.used := by simp [toList]

theorem size_pos (r : RingBuffer α) : 0 < r.size := Nat.zero_lt_of_lt r.first_lt

def empty (size : Nat) (hSize : 0 < size) (slots : Nat → α) : RingBuffer α where
  slots := slots
  size := size
  first := 0
  last := 0
  used := 0
  first_lt := hSize
  used_le := Nat.zero_le size
  last_eq := (Nat.zero_mod size).symm

def reserve (r : RingBuffer α) (h : r.used < r.size) : RingBuffer α where
  slots := r.slots
  size := r.size
  first := r.first
  last := (r.last + 1) % r.size
  used := r.used + 1
  first_lt := r.first_lt
  used_le := h
  last_eq := by rw [r.last_eq, Nat.mod_add_mod, Nat.add_assoc]

def release (r : RingBuffer α) (h : 0 < r.used) : RingBuffer α where
  slots := r.slots
  size := r.size
  first := (r.first + 1) % r.size
  last := r.last
  used := r.used - 1
  first_lt := Nat.mod_lt _ r.size_pos
  used_le := Nat.le_trans (Nat.sub_le _ _) r.used_le
  last_eq := by
    rw [r.last_eq, Nat.mod_add_mod]
    congr 1
    omega

def set (r : RingBuffer α) (position : Nat) (a : α) : RingBuffer α :=
  { r with slots := Function.update r.slots position a }

section

variable (r : RingBuffer α)

theorem toList_reserve (h : r.used < r.size) : (r.reserve h).toList = r.toList ++ [r.slots r.last] := by
  have hLast : r.slots r.last = r.slots (r.position r.used) := by rw [r.last_eq, position]
  rw [hLast, toList, toList, reserve, range_succ, map_append, map_singleton]
  rfl

theorem toList_release (h : 0 < r.used) : r.toList = r.slots r.first :: (r.release h).toList := by
  obtain ⟨n, hn⟩ : ∃ n, r.used = n + 1 := ⟨r.used - 1, by omega⟩
  have hFirst : r.position 0 = r.first := Nat.mod_eq_of_lt r.first_lt
  have hRest : ∀ i, r.position (i + 1) = (r.release h).position i := by
    intro i
    simp only [position, release, Nat.mod_add_mod]
    congr 1
    omega
  have hUsed : (r.release h).used = n := by simp [release, hn]
  rw [toList, toList, hn, hUsed, range_succ_eq_map, map_cons, hFirst, map_map]
  congr 1
  apply map_congr_left
  intro i _
  rw [Function.comp_apply, hRest]
  rfl

theorem position_inj {i j : Nat} (hi : i < r.used) (hj : j < r.used)
    (h : r.position i = r.position j) : i = j := by
  wlog hLe : i ≤ j generalizing i j
  · exact (this hj hi h.symm (by omega)).symm
  have hDvd : r.size ∣ j - i := by
    have := Nat.sub_mod_eq_zero_of_mod_eq h.symm
    rw [Nat.add_sub_add_left] at this
    exact Nat.dvd_of_mod_eq_zero this
  have hUsed := r.used_le
  have := Nat.eq_zero_of_dvd_of_lt hDvd (by omega)
  omega

theorem toList_set {i : Nat} (hi : i < r.used) (a : α) :
    (r.set (r.position i) a).toList = r.toList.set i a := by
  apply ext_getElem
  · simp [set]
  · intro j hj hj'
    rw [length_toList] at hj
    have hUsed : j < r.used := hj
    simp only [toList, set, getElem_map, getElem_range, getElem_set]
    grind [position, Function.update_of_ne, r.position_inj]

theorem toList_set_last (h : r.used < r.size) (a : α) : (r.set r.last a).toList = r.toList := by
  apply map_congr_left
  intro i hi
  have hUsed : i < r.used := mem_range.mp hi
  refine Function.update_of_ne ?_ _ _
  intro hEq
  have hSame : (r.reserve h).position i = (r.reserve h).position r.used := hEq.trans r.last_eq
  have := (r.reserve h).position_inj (Nat.lt_succ_of_lt hUsed) (Nat.lt_succ_self r.used) hSame
  omega

end

end RingBuffer

end Capio.Lib
