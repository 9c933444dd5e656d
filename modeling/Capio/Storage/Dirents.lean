import Capio.Lib.Pieces
import Capio.Storage.ByteStore

/-! # The records of a directory

`addDirectoryEntry` appends records of one length to the buffer of a directory.  The buffer then holds
these records and nothing else, whatever the memory quota makes of its allocations.
-/
namespace Capio.Storage.Dirents

open Common Lib.Memory Lib.Outcome Lib.Pieces Lib.Segments
open Storage Storage.Sectors Storage.Coverage Storage.ByteStore List

def DT_DIR : Byte := 4

def NAME_MAX : Nat := 255

structure Dirent where
  name : List Byte
  type : Byte
  deriving DecidableEq

def decode (record : List Byte) : Dirent :=
  ⟨(record.drop 19).takeWhile (· != 0), record.getD 18 0⟩

def dirents (f : CapioFile) : List Dirent :=
  (pieces DIRENT_SIZE (f.buffer.bytes.take f.getStoredSize)).map decode

structure Fits (name : List Byte) : Prop where
  terminated : 0 ∉ name
  short : name.length ≤ NAME_MAX

structure Contains (f : CapioFile) (L : List (List Byte)) : Prop where
  represents : Represents f fun b => L.flatten[b]?
  size : f.getStoredSize = L.flatten.length
  sized : ∀ record ∈ L, record.length = DIRENT_SIZE

theorem Contains.congr (h : Contains f L) (hBuffer : f'.buffer = f.buffer)
    (hSectors : f'.sectors = f.sectors) : Contains f' L := by
  obtain ⟨⟨hSeparated, hSized, hFits, hCovered, hAgrees⟩, hSize, hRecords⟩ := h
  unfold CapioFile.getBufSize at hFits
  unfold CapioFile.getStoredSize at hSize
  rw [← hBuffer] at hSized hFits hAgrees
  rw [← hSectors] at hSeparated hFits hCovered hSize
  exact ⟨⟨hSeparated, hSized, hFits, hCovered, hAgrees⟩, hSize, hRecords⟩

theorem Contains.bytes (h : Contains f L) : f.buffer.bytes.take f.getStoredSize = L.flatten := by
  rw [h.size]
  apply ext_getElem?
  grind [getElem?_take_of_lt, h.represents.agrees]

theorem Contains.pieces (h : Contains f L) :
    pieces DIRENT_SIZE (f.buffer.bytes.take f.getStoredSize) = L := by
  rw [h.bytes, pieces_of_flatten (by decide) h.sized]

theorem Contains.dirents (h : Contains f L) : dirents f = L.map decode := by
  unfold Dirents.dirents
  rw [h.pieces]

theorem contains_nil (hBuffer : f.buffer = {}) (hSectors : f.sectors = []) : Contains f [] := by
  have hNew : Contains (.new false 0 false 0 0) [] :=
    ⟨represents_new false 0 false 0 0, rfl, fun _ h => absurd h not_mem_nil⟩
  exact hNew.congr hBuffer hSectors

theorem length_fieldBytes (width n : Nat) : (CapioFile.fieldBytes width n).length = width := by
  unfold CapioFile.fieldBytes
  rw [length_map, length_range]

theorem decode_fields (junk : Nat → Byte) (hFields : fields.length = 18) (type : Byte) (h : Fits name) :
    decode ((fields ++ [type] ++ name ++ [0] ++ fresh junk DIRENT_SIZE).take DIRENT_SIZE) = ⟨name, type⟩ := by
  have hText : fields ++ [type] ++ name ++ [0] ++ fresh junk DIRENT_SIZE =
      (fields ++ [type]) ++ (name ++ 0 :: fresh junk DIRENT_SIZE) := by
    simp
  have hLength : (fields ++ [type]).length = 19 := by
    rw [length_append, hFields, length_singleton]
  rw [hText]
  unfold decode
  congr 1
  · rw [drop_take, drop_left' hLength]
    obtain ⟨k, hk⟩ : ∃ k, DIRENT_SIZE - 19 = name.length + (k + 1) := ⟨260 - name.length, by
        have := h.short
        unfold NAME_MAX at this
        unfold DIRENT_SIZE
        omega⟩
    rw [hk, take_length_add_append, take_succ_cons, takeWhile_append_of_pos,
      takeWhile_cons_of_neg (by decide), append_nil]
    intro b hb
    rw [bne_iff_ne]
    rintro rfl
    exact h.terminated hb
  · rw [getD_eq_getElem?_getD, getElem?_take_of_lt (by decide),
      getElem?_append_left (by rw [hLength]; decide), getElem?_append_right (by rw [hFields]), hFields]
    rfl

theorem decode_linuxDirent64 (os : Os) (ino off : Nat) (directory : Bool) (h : Fits name) :
    decode (CapioFile.linuxDirent64 os ino off directory name) =
      ⟨name, if directory then DT_DIR else 8⟩ := by
  refine decode_fields os.junk ?_ _ h
  rw [length_append, length_append, length_fieldBytes, length_fieldBytes, length_fieldBytes]

theorem Contains.append (h : Contains f L) (os osGrow : Os) (ino : Nat) (name : List Byte) :
    Yields (f.appendEntry os osGrow ino name) (fun r => Contains r.2 (L ++ [r.1]) ∧
      ∃ off, r.1 = CapioFile.linuxDirent64 os ino off f.directory name) := by
  refine ((appendEntry_represents os osGrow h.represents ino name).weaken.and
    (CapioFile.appendEntry_rebuffers os osGrow f ino name)).imp ?_
  rintro ⟨record, f'⟩ ⟨⟨hEntry, hRepresents, -⟩, f1, ⟨buffer, homeNode, rfl⟩, rfl⟩
  dsimp only at hEntry
  have hLength : record.length = DIRENT_SIZE := by
    rw [hEntry, CapioFile.length_linuxDirent64]
  have hFlatten : (L ++ [record]).flatten = L.flatten ++ record := by simp
  have hMap : SparseMap.put (fun b => L.flatten[b]?) f.getStoredSize record =
      fun b => (L ++ [record]).flatten[b]? := by grind [SparseMap.put, h.size]
  refine ⟨⟨hMap ▸ hRepresents, ?_, fun r hr => ?_⟩, _, hEntry⟩
  · rw [hFlatten, length_append, hLength, ← h.size]
    exact (getFileSize_insertSector h.represents.separated (Nat.le_add_right _ _)).trans
      (max_eq_right (Nat.le_add_right _ _))
  · rw [mem_append, mem_singleton] at hr
    exact hr.elim (h.sized r) fun hEq => hEq ▸ hLength

end Capio.Storage.Dirents
