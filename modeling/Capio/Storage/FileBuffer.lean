import Capio.Common.Types
import Capio.Lib.Memory
import Capio.Storage.Sectors

/-! # The data buffer behind a file

A buffer lives in the heap or maps a file on disk.  Growing a heap buffer moves the recorded
sectors, and nothing else, into a new block; growing a mapped one keeps every byte.
-/
namespace Capio.Storage

open Common Lib.Memory Lib.Segments Sectors List

def computeAllocableMemQuota (os : Os) (requested : Nat) : Nat :=
  if requested ≤ os.memAvailable then requested else os.memAvailable

/-- The strategy of a buffer, with the state it keeps.  `fd = none` stands for a descriptor of
`-1`, and `mapLen` is the length of the mapping. -/
inductive StorageInterface
  | heap
  | mapped (fd : Option Nat) (mapLen : Nat)
  deriving DecidableEq

structure FileBuffer where
  data : Option (List Byte) := none
  size : Nat := 0
  storage : StorageInterface := .heap
  deriving DecidableEq

def FileBuffer.empty (b : FileBuffer) : Bool := b.data.isNone

def FileBuffer.bytes (b : FileBuffer) : List Byte := b.data.getD []

def allocateHeap (os : Os) (requested : Nat) : FileBuffer :=
  let size := computeAllocableMemQuota os requested
  { data := some (fresh os.junk size), size := size, storage := .heap }

/-- `MappedStorageInterface::allocate`.  The file on disk may hold anything; `mmap` refuses a
length of zero, and the other calls are taken to succeed. -/
def allocateMapped (os : Os) (requested : Nat) : Option FileBuffer :=
  let size := computeAllocableMemQuota os requested
  if size = 0 then none
  else some { data := some (fresh os.junk size), size := size, storage := .mapped (some os.fd) size }

/-- The loop of `HeapStorageInterface::grow` over the sectors; a copy of no bytes touches nothing. -/
def copySectors (data : List Byte) (sectors : List Sector) (block : List Byte) : Option (List Byte) :=
  sectors.foldlM (fun nb t =>
    if t.2 = t.1 then some nb else (load data t.1 (t.2 - t.1)).bind (store nb t.1)) block

def FileBuffer.grownSize (os : Os) (b : FileBuffer) (dataSize : Nat) : Nat :=
  max dataSize (computeAllocableMemQuota os (b.size * 2))

/-- `none` is a null result: the mapping was committed and its descriptor is closed. -/
def FileBuffer.grow (os : Os) (b : FileBuffer) (dataSize : Nat) (sectors : List Sector) :
    Except Failure (Option FileBuffer) :=
  let newSize := b.grownSize os dataSize
  match b.storage with
  | .heap =>
    match copySectors b.bytes sectors (fresh os.junk newSize) with
    | some nb => .ok (some { data := some nb, size := newSize, storage := .heap })
    | none => .error .outOfBounds
  | .mapped none _ => .ok none
  | .mapped (some fd) _ =>
    -- `ftruncate` fills the file with zeros and `mremap` keeps what was mapped
    .ok (some
      { data := some (b.bytes.take newSize ++ replicate (newSize - b.bytes.length) 0),
        size := newSize, storage := .mapped (some fd) newSize })

/-- `MappedStorageInterface::commit`: `none` when the descriptor is closed already, since
`ftruncate` refuses `-1`.  The bytes the file is cut to are those that may still be used. -/
def FileBuffer.commit (b : FileBuffer) (committed : Nat) : Option FileBuffer :=
  match b.storage with
  | .mapped (some _) len =>
    some { data := b.data.map (List.take committed), size := committed, storage := .mapped none len }
  | _ => none

theorem copySectors_spec (data : List Byte) (block : List Byte) (hOrdered : ∀ t ∈ sectors, t.1 ≤ t.2)
    (hData : ∀ t ∈ sectors, t.1 < t.2 → t.2 ≤ data.length)
    (hBlock : ∀ t ∈ sectors, t.1 < t.2 → t.2 ≤ block.length) :
    ∃ block', copySectors data sectors block = some block' ∧ block'.length = block.length ∧
      (∀ b, Covers sectors b → block'[b]? = data[b]?) ∧
      (∀ b, ¬ Covers sectors b → block'[b]? = block[b]?) := by
  induction sectors generalizing block with
  | nil => exact ⟨block, rfl, rfl, fun b hb => absurd hb (covers_nil b), fun _ _ => rfl⟩
  | cons t sectors ih =>
    have hLe := hOrdered t mem_cons_self
    have hOrdered' : ∀ u ∈ sectors, u.1 ≤ u.2 := fun u hu => hOrdered u (mem_cons_of_mem _ hu)
    have hData' : ∀ u ∈ sectors, u.1 < u.2 → u.2 ≤ data.length :=
      fun u hu => hData u (mem_cons_of_mem _ hu)
    have hBlock' : ∀ u ∈ sectors, u.1 < u.2 → u.2 ≤ block.length :=
      fun u hu => hBlock u (mem_cons_of_mem _ hu)
    rcases hLe.eq_or_lt with hEmpty | hLt
    · obtain ⟨block', hRun, hLen, hIn, hOut⟩ := ih block hOrdered' hData' hBlock'
      have hCovers : ∀ b, Covers (t :: sectors) b ↔ Covers sectors b := by
        intro b
        rw [covers_cons, or_iff_right]
        omega
      refine ⟨block', ?_, hLen, fun b hb => hIn b ((hCovers b).mp hb), fun b hb => hOut b ?_⟩
      · grind [copySectors]
      · exact fun hc => hb ((hCovers b).mpr hc)
    have hFits := hData t mem_cons_self hLt
    have hRoom := hBlock t mem_cons_self hLt
    have hLoad : load data t.1 (t.2 - t.1) = some ((data.drop t.1).take (t.2 - t.1)) :=
      load_eq_some (by omega)
    have hCells := length_of_load hLoad
    obtain ⟨nb, hStore⟩ : ∃ nb, store block t.1 ((data.drop t.1).take (t.2 - t.1)) = some nb :=
      exists_store (by omega)
    have hLen := length_of_store hStore
    obtain ⟨block', hRun, hLen', hIn, hOut⟩ := ih nb hOrdered' hData' (by rwa [hLen])
    refine ⟨block', ?_, hLen'.trans hLen, ?_, ?_⟩
    · grind [copySectors]
    · intro b hb
      by_cases hRest : Covers sectors b
      · exact hIn b hRest
      · have hbt : t.1 ≤ b ∧ b < t.2 := ((covers_cons t sectors b).mp hb).resolve_right hRest
        rw [hOut b hRest, getElem?_of_store hStore, if_pos (by omega), getElem?_of_load hLoad (by omega)]
        congr 1
        omega
    · intro b hb
      rw [covers_cons, not_or] at hb
      rw [hOut b hb.2, getElem?_of_store hStore, if_neg (by omega)]

/-- The block has the size the buffer reports, and only a heap buffer may be without a block. -/
def FileBuffer.Sized (b : FileBuffer) : Prop :=
  match b.data with
  | none => b.size = 0 ∧ b.storage = .heap
  | some d => d.length = b.size

def FileBuffer.Closed (b : FileBuffer) : Prop :=
  ∃ len, b.storage = .mapped none len

variable {b : FileBuffer}

theorem FileBuffer.not_closed_of_heap (h : b.storage = .heap) : ¬ b.Closed := by
  rintro ⟨len, hLen⟩
  rw [h] at hLen
  cases hLen

theorem FileBuffer.not_closed_of_open (h : b.storage = .mapped (some fd) len) : ¬ b.Closed := by
  rintro ⟨len', hLen⟩
  rw [h] at hLen
  cases hLen

theorem FileBuffer.Sized.length_bytes (h : b.Sized) : b.bytes.length = b.size := by
  unfold FileBuffer.Sized at h
  grind [FileBuffer.bytes]

structure FileBuffer.Allocated (b : FileBuffer) : Prop where
  sized : b.Sized
  block : b.data ≠ none
  not_closed : ¬ b.Closed

theorem allocateHeap_allocated (os : Os) (requested : Nat) : (allocateHeap os requested).Allocated where
  sized := by simp [allocateHeap, FileBuffer.Sized]
  block := by simp [allocateHeap]
  not_closed := by simp [allocateHeap, FileBuffer.Closed]

theorem allocateMapped_allocated (h : allocateMapped os requested = some b) : b.Allocated := by
  simp only [allocateMapped] at h
  split at h
  · cases h
  · cases h
    exact ⟨by simp [FileBuffer.Sized], by simp, by simp [FileBuffer.Closed]⟩

theorem FileBuffer.Sized.grow (h : b.Sized) (os : Os) (hSectors : Separated sectors)
    (hFits : ∀ t ∈ sectors, t.1 < t.2 → t.2 ≤ b.size) (hSize : b.size < dataSize) :
    (∃ b', b.grow os dataSize sectors = .ok (some b') ∧ b'.Allocated ∧ dataSize ≤ b'.size ∧
      ∀ i, Covers sectors i → b'.bytes[i]? = b.bytes[i]?) ∨
    (b.grow os dataSize sectors = .ok none ∧ b.Closed) := by
  have hLen := h.length_bytes
  cases hStorage : b.storage with
  | heap =>
    obtain ⟨nb, hRun, hNb, hIn, _⟩ := copySectors_spec b.bytes
      (fresh os.junk (b.grownSize os dataSize)) hSectors.ordered
      (fun t ht hLt => hLen ▸ hFits t ht hLt) (fun t ht hLt => by
        rw [length_fresh]
        exact (hFits t ht hLt).trans (hSize.le.trans (le_max_left _ _)))
    refine .inl ⟨⟨some nb, b.grownSize os dataSize, .heap⟩,
      by simp only [FileBuffer.grow, hStorage, hRun], ⟨?_, by simp, by simp [FileBuffer.Closed]⟩,
      le_max_left _ _, hIn⟩
    rw [length_fresh] at hNb
    exact hNb
  | mapped fd mapLen =>
    cases fd with
    | none => exact .inr ⟨by simp only [FileBuffer.grow, hStorage], mapLen, hStorage⟩
    | some fd =>
      have hMax : b.bytes.length < b.grownSize os dataSize :=
        lt_of_lt_of_le (hLen ▸ hSize) (le_max_left _ _)
      refine .inl ⟨_, by simp only [FileBuffer.grow, hStorage]; rfl,
        ⟨?_, by simp, by simp [FileBuffer.Closed]⟩, le_max_left _ _, ?_⟩
      · grind [FileBuffer.Sized]
      · rintro i ⟨t, ht, hti, hit⟩
        grind [FileBuffer.bytes, take_of_length_le, getElem?_append_left]

theorem FileBuffer.Sized.commit (h : b.Sized) (hSize : committed ≤ b.size)
    (hCommit : b.commit committed = some b') :
    b'.Sized ∧ b'.Closed ∧ b'.size = committed ∧ ∀ i < committed, b'.bytes[i]? = b.bytes[i]? := by
  unfold FileBuffer.commit at hCommit
  unfold FileBuffer.Sized at h
  split at hCommit
  · rename_i fd len hStorage
    cases hCommit
    cases hd : b.data with
    | none => simp [hd, hStorage] at h
    | some d =>
      refine ⟨?_, ⟨len, rfl⟩, rfl, fun i hi => ?_⟩
      · grind [FileBuffer.Sized]
      · grind [FileBuffer.bytes]
  · cases hCommit

end Capio.Storage
