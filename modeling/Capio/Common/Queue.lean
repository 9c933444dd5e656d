import Capio.Common.Types
import Capio.Lib.Memory
import Capio.Lib.Pieces
import Capio.Lib.RingBuffer

/-! # Queues in shared memory

The slots of `Queue<char, Mutex>` hold `_elem_size` bytes each.  The two semaphores count the used
and the free slots; an operation that has to wait for one of them is not possible.
-/
namespace Capio.Common

open Lib

abbrev Queue := RingBuffer (List Byte)

variable {q q' : Queue}

namespace Queue

/-- `memcpy` into a slot; what it held before stays behind the bytes. -/
def overlay (slot : List Byte) (offset : Nat) (bytes : List Byte) : List Byte :=
  slot.take offset ++ bytes ++ slot.drop (offset + bytes.length)

def reserve (q : Queue) : Option (Nat × Queue) :=
  if h : q.used < q.size then some (q.last, RingBuffer.reserve q h) else none

def write (q : Queue) (bytes : List Byte) : Option Queue :=
  if h : q.used < q.size then
    some (RingBuffer.set (RingBuffer.reserve q h) q.last (overlay (q.slots q.last) 0 bytes))
  else none

def read (q : Queue) (numBytes : Nat) : Option (List Byte × Queue) :=
  if h : 0 < q.used then some ((q.slots q.first).take numBytes, RingBuffer.release q h) else none

def store (q : Queue) (position offset : Nat) (bytes : List Byte) : Queue :=
  RingBuffer.set q position (overlay (q.slots position) offset bytes)

theorem reserve_spec (h : q.reserve = some (position, q')) :
    (∃ slot, q'.toList = q.toList ++ [slot]) ∧ position = q'.position (q'.used - 1) := by
  unfold reserve at h
  split at h
  · cases h
    exact ⟨⟨_, q.toList_reserve _⟩, q.last_eq⟩
  · cases h

theorem toList_write (h : q.write bytes = some q') :
    ∃ slot, q'.toList = q.toList ++ [overlay slot 0 bytes] := by
  unfold write at h
  split at h
  · rename_i hRoom
    cases h
    refine ⟨q.slots q.last, ?_⟩
    have hLast : q.last = (RingBuffer.reserve q hRoom).position q.used := q.last_eq
    have hUsed : q.used < (RingBuffer.reserve q hRoom).used := Nat.lt_succ_self q.used
    nth_rewrite 1 [hLast]
    rw [RingBuffer.toList_set _ hUsed, q.toList_reserve]
    simp
  · cases h

theorem read_spec (h : q.read numBytes = some (bytes, q')) :
    (∃ slot, q.toList = slot :: q'.toList ∧ bytes = slot.take numBytes) ∧
      q'.used = q.used - 1 ∧ ∀ i, q'.position i = q.position (i + 1) := by
  unfold read at h
  split at h
  · rename_i hUsed
    grind [RingBuffer.position, RingBuffer.release, Nat.mod_add_mod, q.toList_release]
  · cases h

theorem toList_store (h : q.toList = slots ++ [slot]) (offset : Nat) (bytes : List Byte) :
    (q.store (q.position (q.used - 1)) offset bytes).toList = slots ++ [overlay slot offset bytes] := by
  have hLength : q.used = slots.length + 1 := by
    rw [← q.length_toList, h, List.length_append, List.length_singleton]
  have hSlot : q.slots (q.position (q.used - 1)) = slot := by
    have hGet : q.toList[slots.length]? = some slot := by simp [h]
    simpa [RingBuffer.toList, hLength] using hGet
  rw [store, hSlot, RingBuffer.toList_set q (by omega), h, hLength]
  simp

theorem write_of_room (h : q.used < q.size) (bytes : List Byte) : ∃ q', q.write bytes = some q' :=
  ⟨_, dif_pos h⟩

theorem reserve_of_room (h : q.used < q.size) : ∃ r, q.reserve = some r := ⟨_, dif_pos h⟩

theorem read_of_used (h : 0 < q.used) (numBytes : Nat) : ∃ r, q.read numBytes = some r := ⟨_, dif_pos h⟩

end Queue

end Capio.Common
