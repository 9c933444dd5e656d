import Mathlib.Data.List.Basic

/-! # Blocks of memory

A block is the list of its cells.  Loads and stores name an offset and a length and fail when they
leave the block, so that a computation that succeeds has stayed inside the blocks it used.
-/
namespace Capio.Lib.Memory

variable {α : Type*}

def load (block : List α) (offset n : Nat) : Option (List α) :=
  if offset + n ≤ block.length then some ((block.drop offset).take n) else none

def store (block : List α) (offset : Nat) (cells : List α) : Option (List α) :=
  if offset + cells.length ≤ block.length then
    some (block.take offset ++ cells ++ block.drop (offset + cells.length))
  else none

def fresh (junk : Nat → α) (n : Nat) : List α :=
  (List.range n).map junk

@[simp] theorem length_fresh (junk : Nat → α) (n : Nat) : (fresh junk n).length = n := by
  simp [fresh]

variable {block cells : List α} {offset n : Nat}

theorem load_eq_some (h : offset + n ≤ block.length) :
    load block offset n = some ((block.drop offset).take n) := if_pos h

theorem length_of_load (h : load block offset n = some cells) : cells.length = n := by grind [load]

theorem getElem?_of_load (h : load block offset n = some cells) {i : Nat} (hi : i < n) :
    cells[i]? = block[offset + i]? := by grind [load]

theorem exists_store (h : offset + cells.length ≤ block.length) :
    ∃ block', store block offset cells = some block' :=
  ⟨_, if_pos h⟩

theorem length_of_store {block' : List α} (h : store block offset cells = some block') :
    block'.length = block.length := by grind [store]

theorem getElem?_of_store {block' : List α} (h : store block offset cells = some block') (i : Nat) :
    block'[i]? = if offset ≤ i ∧ i < offset + cells.length then cells[i - offset]? else block[i]? := by
  unfold store at h
  split at h
  · cases h
    rcases Nat.lt_or_ge i offset with hi | hi
    · grind
    · grind
  · cases h

end Capio.Lib.Memory
