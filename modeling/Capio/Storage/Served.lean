import Capio.Storage.ByteStore
import Capio.Storage.Service

/-! # The bytes that an object serves

The data of an object are the bytes of its buffer that its sectors cover.  A read of a complete file
is answered with the data from its offset to the end of the sector there, and what is stored at a
range without closing a hole is added to the data.
-/
namespace Capio.Storage

open Common Lib.Memory Lib.Outcome Lib.Segments Sectors Coverage ByteStore List Option

def CapioFile.contents (f : CapioFile) : SparseMap := fun b =>
  if Covers f.sectors b then f.buffer.bytes[b]? else none

/-- The sectors that hold a byte are in the buffer; an empty one may lie behind its end. -/
structure CapioFile.Sound (f : CapioFile) : Prop where
  separated : Separated f.sectors
  sized : f.buffer.Sized
  inBuffer : ∀ b, Covers f.sectors b → b < f.buffer.bytes.length

structure CapioFile.Kept (f f' : CapioFile) : Prop where
  sound : f'.Sound
  contents : f'.contents = f.contents
  sectors : f'.sectors = f.sectors
  committed : f'.committed = f.committed
  realFileSize : f'.realFileSize = f.realFileSize
  closed : f'.buffer.Closed → f.buffer.Closed

section

variable {f f' f'' : CapioFile} {m : SparseMap} {offset count n b : Nat} {v : Byte}
  {data data' : List Byte}

theorem contents_of_covers (h : Covers f.sectors b) : f.contents b = f.buffer.bytes[b]? := if_pos h

theorem contents_of_not_covers (h : ¬ Covers f.sectors b) : f.contents b = none := if_neg h

theorem CapioFile.Sound.contents_ne_none (h : f.Sound) (hb : Covers f.sectors b) : f.contents b ≠ none := by
  rw [contents_of_covers hb, getElem?_eq_getElem (h.inBuffer b hb)]
  exact some_ne_none _

theorem ByteStore.Represents.sound (h : Represents f m) : f.Sound := by
  refine ⟨h.separated, h.sized, ?_⟩
  rintro b ⟨t, ht, -, hbt⟩
  rw [h.sized.length_bytes]
  exact hbt.trans_le (h.fits t ht)

theorem ByteStore.Represents.contents (h : Represents f m) (hv : m b = some v) : f.contents b = some v :=
  (contents_of_covers (h.covered b v hv)).trans (h.agrees b v hv)

theorem represents_contents (hS : Separated f.sectors) (hSized : f.buffer.Sized)
    (hFits : ∀ t ∈ f.sectors, t.2 ≤ f.getBufSize) : Represents f f.contents := by
  have hOnly : ∀ b v, f.contents b = some v → Covers f.sectors b ∧ f.buffer.bytes[b]? = some v := by
    intro b v hv
    by_cases hb : Covers f.sectors b
    · exact ⟨hb, contents_of_covers hb ▸ hv⟩
    · cases (contents_of_not_covers hb).symm.trans hv
  exact ⟨hS, hSized, hFits, fun b v hv => (hOnly b v hv).1, fun b v hv => (hOnly b v hv).2⟩

theorem covers_lt_getStoredSize (hS : Separated f.sectors) (hb : Covers f.sectors b) :
    b < f.getStoredSize := by
  obtain ⟨t, ht, -, hbt⟩ := hb
  exact hbt.trans_le (le_getFileSize hS ht)

theorem ByteStore.Copied.mono (h : Copied m offset n data) (hLe : ∀ b v, m' b = some v → m b = some v) :
    Copied m' offset n data :=
  ⟨h.1, fun k hk v hv => h.2 k hk v (hLe _ v hv)⟩

theorem ByteStore.copied_nil (m : SparseMap) (offset : Nat) : Copied m offset 0 [] :=
  ⟨rfl, fun k hk => absurd hk (Nat.not_lt_zero k)⟩

theorem ByteStore.Copied.append (h : Copied m offset n data) (h' : Copied m (offset + n) k data') :
    Copied m offset (n + k) (data ++ data') := by
  refine ⟨by rw [length_append, h.1, h'.1], fun i hi v hv => ?_⟩
  rcases Nat.lt_or_ge i n with hin | hin
  · rw [getElem?_append_left (h.1.symm ▸ hin)]
    exact h.2 i hin v hv
  · rw [getElem?_append_right (h.1.symm ▸ hin), h.1]
    refine h'.2 (i - n) (by omega) v ?_
    rw [← hv]
    congr 1
    omega

theorem ByteStore.Copied.eq (h : Copied m offset n data) (h' : Copied m offset n data')
    (hDefined : ∀ k < n, m (offset + k) ≠ none) : data = data' := by
  refine ext_getElem? fun k => ?_
  rcases Nat.lt_or_ge k n with hk | hk
  · obtain ⟨v, hv⟩ := ne_none_iff_exists'.mp (hDefined k hk)
    rw [h.2 k hk v hv, h'.2 k hk v hv]
  · rw [getElem?_eq_none (h.1.trans_le hk), getElem?_eq_none (h'.1.trans_le hk)]

end

section

variable {f : CapioFile} {offset count b : Nat}

theorem sectorEnd_eq (f : CapioFile) (offset : Nat) :
    sectorEnd f offset = ((getSectorEnd f.sectors offset).map Int.ofNat).getD (-1) := by grind [sectorEnd]

theorem sectorEnd_of_mem (hS : Separated f.sectors) (ht : t ∈ f.sectors) (hStart : t.1 ≤ offset)
    (hStop : offset ≤ t.2) : sectorEnd f offset = t.2 := by
  rw [sectorEnd_eq, getSectorEnd_of_mem hS ht hStart hStop]
  rfl

theorem sectorEnd_cases (f : CapioFile) (offset count : Nat) :
    (sectorEnd f offset = -1 ∧ f.bytesCopied offset count = 0) ∨
      ∃ t ∈ f.sectors, t.1 ≤ offset ∧ offset ≤ t.2 ∧ sectorEnd f offset = t.2 ∧
        f.bytesCopied offset count = min count (t.2 - offset) := by
  unfold CapioFile.bytesCopied
  rw [sectorEnd_eq]
  grind [getSectorEnd_eq_some]

theorem bytesCopied_covered (hStart : offset ≤ b) (hStop : b < offset + f.bytesCopied offset count) :
    Covers f.sectors b := by
  obtain ⟨-, hNone⟩ | ⟨t, ht, hLe, -, -, hSome⟩ := sectorEnd_cases f offset count
  · omega
  · exact ⟨t, ht, hLe.trans hStart, by omega⟩

theorem bytesCopied_le (f : CapioFile) (offset count : Nat) : f.bytesCopied offset count ≤ count := by
  obtain ⟨-, hNone⟩ | ⟨t, -, -, -, -, hSome⟩ := sectorEnd_cases f offset count
  · omega
  · omega

theorem bytesCopied_of_mem (hS : Separated f.sectors) (ht : t ∈ f.sectors) (hStart : t.1 ≤ offset)
    (hStop : offset ≤ t.2) (count : Nat) : f.bytesCopied offset count = min count (t.2 - offset) := by
  unfold CapioFile.bytesCopied
  rw [getSectorEnd_of_mem hS ht hStart hStop]

theorem bytesCopied_pos_iff (hS : Separated f.sectors) (hCount : 0 < count) :
    0 < f.bytesCopied offset count ↔ Covers f.sectors offset := by
  constructor
  · intro hPos
    exact bytesCopied_covered (Nat.le_refl _) (Nat.lt_add_of_pos_right hPos)
  · rintro ⟨t, ht, hStart, hStop⟩
    rw [bytesCopied_of_mem hS ht hStart hStop.le]
    exact lt_min hCount (Nat.sub_pos_of_lt hStop)

theorem localRead_complete (firable : Bool) (hComplete : (f.committed || isProd) = true)
    (offset count : Nat) :
    (localRead firable f offset count isProd = .endOfFile ∧ f.bytesCopied offset count = 0) ∨
      localRead firable f offset count isProd = .send (f.bytesCopied offset count) := by
  unfold localRead
  simp only [hComplete, Bool.true_or, Bool.not_true, Bool.false_eq_true, if_false, and_true, and_false]
  obtain ⟨hEnd, hNone⟩ | ⟨t, -, -, hLe, hEnd, hSome⟩ := sectorEnd_cases f offset count
  · exact .inl ⟨if_pos hEnd, hNone⟩
  · right
    rw [hEnd, hSome, if_neg (by omega)]
    congr 1
    omega

end

namespace CapioFile

variable {f f' f'' : CapioFile} {offset n : Nat} {data : List Byte}

theorem Kept.trans (h : Kept f f') (h' : Kept f' f'') : Kept f f'' :=
  ⟨h'.sound, h'.contents.trans h.contents, h'.sectors.trans h.sectors, h'.committed.trans h.committed,
    h'.realFileSize.trans h.realFileSize, h.closed ∘ h'.closed⟩

theorem Sound.kept (h : f.Sound) : Kept f f := ⟨h, rfl, rfl, rfl, rfl, id⟩

theorem Sound.setBuffer (h : f.Sound) {buffer : FileBuffer} (hSized : buffer.Sized) (homeNode : Bool)
    (hBytes : ∀ b, Covers f.sectors b → buffer.bytes[b]? = f.buffer.bytes[b]?)
    (hClosed : buffer.Closed → f.buffer.Closed) :
    Kept f { f with homeNode := homeNode, buffer := buffer } := by
  refine ⟨⟨h.separated, hSized, fun b hb => ?_⟩, funext fun b => ?_, rfl, rfl, rfl, hClosed⟩
  · have hIn := hBytes b hb
    rw [getElem?_eq_getElem (h.inBuffer b hb)] at hIn
    exact (List.getElem?_eq_some_iff.mp hIn).1
  · by_cases hb : Covers f.sectors b
    · rw [contents_of_covers hb, ← hBytes b hb]
      exact contents_of_covers (f := { f with homeNode := homeNode, buffer := buffer }) hb
    · rw [contents_of_not_covers hb]
      exact contents_of_not_covers (f := { f with homeNode := homeNode, buffer := buffer }) hb

theorem Sound.createBuffer (h : f.Sound) (os : Os) :
    ∃ f', f.createBuffer os false = .ok f' ∧ Kept f f' ∧ f'.buffer.data ≠ none := by
  unfold CapioFile.createBuffer
  split
  · rename_i hEmpty
    have hNone : f.buffer.data = none := isNone_iff_eq_none.mp hEmpty
    have hAllocated := allocateHeap_allocated os f.requestedSize
    grind [h.setBuffer, hAllocated.sized, hAllocated.not_closed, hAllocated.block, h.inBuffer, FileBuffer.bytes]
  · rename_i hFull
    refine ⟨f, rfl, h.kept, ?_⟩
    rwa [FileBuffer.empty, isNone_iff_eq_none] at hFull

theorem Sound.expandBuffer (h : f.Sound) (os : Os) (hOpen : ¬ f.buffer.Closed) (hStop : f.getBufSize < stop) :
    ∃ f', f.expandBuffer os stop = .ok f' ∧ Kept f f' ∧ f'.buffer.data ≠ none ∧ stop ≤ f'.getBufSize := by
  have hFits : ∀ t ∈ f.sectors, t.1 < t.2 → t.2 ≤ f.buffer.size := by
    intro t ht hLt
    have := h.inBuffer (t.2 - 1) ⟨t, ht, by omega, by omega⟩
    rw [h.sized.length_bytes] at this
    omega
  rcases h.sized.grow os h.separated hFits hStop with ⟨buffer, hGrow, hAllocated, hSize, hKeep⟩ |
    ⟨-, hClosed⟩
  · refine ⟨{ f with buffer := buffer }, ?_, h.setBuffer hAllocated.sized f.homeNode hKeep
      (fun hc => absurd hc hAllocated.not_closed), hAllocated.block, hSize⟩
    unfold CapioFile.expandBuffer
    rw [hGrow]
  · exact absurd hClosed hOpen

theorem sendBytes_inside (hSized : f.buffer.Sized) (offset n : Nat)
    (hRoom : 0 < n → offset + n ≤ f.getBufSize) :
    ∃ data, f.sendBytes offset n = .ok data ∧ Copied (fun b => f.buffer.bytes[b]?) offset n data := by
  unfold CapioFile.sendBytes
  rcases Nat.eq_zero_or_pos n with rfl | hPos
  · exact ⟨[], rfl, copied_nil _ _⟩
  · have hLen := hSized.length_bytes
    obtain ⟨d, hd, hBytes⟩ : ∃ d, f.buffer.data = some d ∧ f.buffer.bytes = d := by
      cases hData : f.buffer.data with
      | none => grind [getBufSize, FileBuffer.bytes]
      | some d => exact ⟨d, rfl, by rw [FileBuffer.bytes, hData, getD_some]⟩
    have hLoad : load d offset n = some ((d.drop offset).take n) :=
      load_eq_some (by rw [← hBytes, hLen]; exact hRoom hPos)
    refine ⟨_, ?_, length_of_load hLoad, fun k hk v hv => ?_⟩
    · grind [loadBytes]
    · rw [getElem?_of_load hLoad hk, ← hBytes, ← hv]

theorem Sound.sendBytes (h : f.Sound) (offset n : Nat)
    (hCovered : ∀ b, offset ≤ b → b < offset + n → Covers f.sectors b) :
    ∃ data, f.sendBytes offset n = .ok data ∧ Copied f.contents offset n data := by
  have hRoom : 0 < n → offset + n ≤ f.getBufSize := by
    intro hPos
    have := h.inBuffer (offset + n - 1) (hCovered _ (by omega) (by omega))
    rw [h.sized.length_bytes] at this
    unfold getBufSize
    omega
  obtain ⟨data, hSend, hData⟩ := sendBytes_inside h.sized offset n hRoom
  grind [contents, hData.mono]

theorem Sound.insertSector (h : f.Sound) {buffer : FileBuffer} (hSized : buffer.Sized)
    (hNone : ∀ g, ¬ Swallowed f.sectors offset (offset + data.length) g)
    (hBytes : ∀ b, Covers f.sectors b ∨ (offset ≤ b ∧ b < offset + data.length) →
      buffer.bytes[b]? = f.contents.put offset data b) :
    (CapioFile.insertSector { f with buffer := buffer } offset (offset + data.length)).Sound ∧
      (CapioFile.insertSector { f with buffer := buffer } offset (offset + data.length)).contents =
        f.contents.put offset data := by
  have hCovers : ∀ b, Covers (Sectors.insertSector f.sectors offset (offset + data.length)) b ↔
      Covers f.sectors b ∨ (offset ≤ b ∧ b < offset + data.length) := by
    intro b
    rw [covers_insertSector_iff h.separated (Nat.le_add_right _ _)]
    tauto
  have hPut : ∀ b, ¬ (Covers f.sectors b ∨ (offset ≤ b ∧ b < offset + data.length)) →
      f.contents.put offset data b = none := by
    grind [SparseMap.put, contents_of_not_covers]
  refine ⟨⟨insertSector_separated h.separated (Nat.le_add_right _ _), hSized, fun b hb => ?_⟩,
    funext fun b => ?_⟩
  · have hIn := hBytes b ((hCovers b).mp hb)
    have hSome : f.contents.put offset data b ≠ none := by
      unfold SparseMap.put
      split
      · grind
      · exact h.contents_ne_none (((hCovers b).mp hb).resolve_right ‹_›)
    by_contra hOut
    exact hSome (hIn ▸ getElem?_eq_none (Nat.not_lt.mp hOut))
  · by_cases hb : Covers f.sectors b ∨ (offset ≤ b ∧ b < offset + data.length)
    · rw [← hBytes b hb]
      exact contents_of_covers ((hCovers b).mpr hb)
    · rw [hPut b hb]
      exact contents_of_not_covers fun hIn => hb ((hCovers b).mp hIn)

theorem Sound.storeBytes (h : f.Sound) (hBlock : f.buffer.data ≠ none)
    (hRoom : offset + data.length ≤ f.getBufSize)
    (hNone : ∀ g, ¬ Swallowed f.sectors offset (offset + data.length) g) :
    ∃ buffer, f.storeBytes offset data = .ok { f with buffer := buffer } ∧
      buffer.storage = f.buffer.storage ∧ buffer.size = f.buffer.size ∧
      (CapioFile.insertSector { f with buffer := buffer } offset (offset + data.length)).Sound ∧
      (CapioFile.insertSector { f with buffer := buffer } offset (offset + data.length)).contents =
        f.contents.put offset data := by
  obtain ⟨d, hd⟩ := ne_none_iff_exists'.mp hBlock
  have hBytes : f.buffer.bytes = d := by rw [FileBuffer.bytes, hd, getD_some]
  have hLen : d.length = f.getBufSize := hBytes ▸ h.sized.length_bytes
  obtain ⟨d', hStore⟩ : ∃ d', store d offset data = some d' := exists_store (hLen ▸ hRoom)
  refine ⟨{ f.buffer with data := some d' }, ?_, rfl, rfl, h.insertSector ?_ hNone fun b hb => ?_⟩
  · simp only [CapioFile.storeBytes, hd, hStore]
  · exact (length_of_store hStore).trans hLen
  · change d'[b]? = _
    rw [getElem?_of_store hStore, SparseMap.put]
    grind [contents_of_covers]

end CapioFile

end Capio.Storage
