import Mathlib.Logic.Function.Basic
import Capio.Storage.CapioFile
import Capio.Storage.Coverage

/-! # The file store refines a sparse byte map

The abstract file is a partial map from offsets to bytes.  `Represents` relates it to a
`CapioFile`; each method that moves bytes keeps the relation or ends the server, and it never
leaves the memory of a buffer.  The store at the end runs these methods on any number of files.
-/
namespace Capio.Storage.ByteStore

open Function Common Lib.Memory Lib.Outcome Lib.Segments
open Storage Storage.Sectors Storage.Coverage

abbrev SparseMap := Nat → Option Byte

def SparseMap.put (m : SparseMap) (offset : Nat) (bytes : List Byte) : SparseMap := fun b =>
  if offset ≤ b ∧ b < offset + bytes.length then bytes[b - offset]? else m b

/-- The bytes of the map are in the sectors and in the buffer, and the sectors are in the buffer. -/
structure Represents (f : CapioFile) (m : SparseMap) : Prop where
  separated : Separated f.sectors
  sized : f.buffer.Sized
  fits : ∀ t ∈ f.sectors, t.2 ≤ f.getBufSize
  covered : ∀ b v, m b = some v → Covers f.sectors b
  agrees : ∀ b v, m b = some v → f.buffer.bytes[b]? = some v

theorem represents_new (directory : Bool) (nFilesExpected : Nat) (permanent : Bool)
    (initSize nCloseExpected : Nat) :
    Represents (.new directory nFilesExpected permanent initSize nCloseExpected) fun _ => none where
  separated := separated_nil
  sized := ⟨rfl, rfl⟩
  fits t ht := absurd ht List.not_mem_nil
  covered b v h := by cases h
  agrees b v h := by cases h

theorem Represents.not_covers (h : Represents f m) (hSize : f.getBufSize = 0) (b : Nat) :
    ¬ Covers f.sectors b := by
  rintro ⟨t, ht, _, hbt⟩
  have := h.fits t ht
  omega

structure Reserved (f f' : CapioFile) (m : SparseMap) : Prop where
  represents : Represents f' m
  sectors : f'.sectors = f.sectors
  block : f'.buffer.data ≠ none
  closed : f'.buffer.Closed → f.buffer.Closed

theorem Represents.withBuffer (h : Represents f m) (hSize : f.getBufSize = 0) (hb : b.Allocated)
    (homeNode : Bool) : Reserved f { f with homeNode := homeNode, buffer := b } m := by
  refine ⟨⟨h.separated, hb.sized, fun t ht => ?_, h.covered, fun i v hv => ?_⟩, rfl, hb.block,
    fun hClosed => absurd hClosed hb.not_closed⟩
  · exact (hSize ▸ h.fits t ht).trans (Nat.zero_le _)
  · exact absurd (h.covered i v hv) (h.not_covers hSize i)

theorem Represents.getBufSize_of_empty (h : Represents f m) (hEmpty : f.buffer.empty = true) :
    f.getBufSize = 0 := by
  have hSized := h.sized
  unfold FileBuffer.Sized at hSized
  rw [FileBuffer.empty, Option.isNone_iff_eq_none] at hEmpty
  simp only [hEmpty] at hSized
  exact hSized.1

/-- No file can be mapped when there is no memory for it. -/
def Unmappable (os : Os) (f : CapioFile) (e : Failure) : Prop :=
  e = .mmapBuffer ∧ f.permanent = true ∧ computeAllocableMemQuota os f.requestedSize = 0

theorem createBuffer_represents (os : Os) (h : Represents f m) (homeNode : Bool) :
    Ends (f.createBuffer os homeNode) (fun f' => Reserved f f' m) (Unmappable os f) := by
  refine .ite (fun hEmpty => ?_) fun hFull => ?_
  · have hSize := h.getBufSize_of_empty hEmpty
    refine .ite (fun hMapped => ?_) fun _ => ?_
    · cases hAlloc : allocateMapped os f.requestedSize with
      | none =>
        rw [Bool.and_assoc, Bool.and_eq_true] at hMapped
        refine ⟨rfl, hMapped.1, ?_⟩
        dsimp only [allocateMapped] at hAlloc
        split at hAlloc
        · assumption
        · cases hAlloc
      | some b => exact h.withBuffer hSize (allocateMapped_allocated hAlloc) homeNode
    · exact h.withBuffer hSize (allocateHeap_allocated os _) homeNode
  · refine ⟨h, rfl, ?_, id⟩
    rwa [FileBuffer.empty, Option.isNone_iff_eq_none] at hFull

theorem expandBuffer_represents (os : Os) (h : Represents f m) (hStop : f.getBufSize < stop) :
    Ends (f.expandBuffer os stop) (fun f' => Reserved f f' m ∧ stop ≤ f'.getBufSize)
      (fun e => e = .growBuffer ∧ f.buffer.Closed) := by
  unfold CapioFile.expandBuffer
  rcases h.sized.grow os h.separated (fun t ht _ => h.fits t ht) hStop with ⟨b, hGrow, hb, hSize, hKeep⟩ |
    ⟨hGrow, hClosed⟩
  · rw [hGrow]
    refine ⟨⟨⟨h.separated, hb.sized, ?_, h.covered, ?_⟩, rfl, hb.block, ?_⟩, hSize⟩
    · exact fun t ht => (h.fits t ht).trans (hStop.le.trans hSize)
    · intro i v hv
      exact (hKeep i (h.covered i v hv)).trans (h.agrees i v hv)
    · exact fun hClosed => absurd hClosed hb.not_closed
  · rw [hGrow]
    exact ⟨rfl, hClosed⟩

/-- The ways a method ends the server: the first mapping of a file fails, or a mapping that was
closed by a commit cannot grow. -/
def Refused (os : Os) (f : CapioFile) (e : Failure) : Prop :=
  Unmappable os f e ∨ (e = .growBuffer ∧ f.buffer.Closed)

theorem makeRoom_represents (os osGrow : Os) (h : Represents f m) (stop : Nat) :
    Ends (f.makeRoom os osGrow stop) (fun f' => Reserved f f' m ∧ stop ≤ f'.getBufSize)
      (Refused os f) := by
  refine .bind ((createBuffer_represents os h true).mono (fun _ => id) fun e => Or.inl) ?_
  intro f1 h1
  refine .ite (fun hGrow => ?_) fun hRoom => ⟨h1, not_lt.mp hRoom⟩
  refine (expandBuffer_represents osGrow h1.represents hGrow).mono ?_ ?_
  · rintro f2 ⟨h2, hStop⟩
    exact ⟨⟨h2.represents, h2.sectors.trans h1.sectors, h2.block, h1.closed ∘ h2.closed⟩, hStop⟩
  · rintro e ⟨rfl, hClosed⟩
    exact .inr ⟨rfl, h1.closed hClosed⟩

theorem Represents.block (h : Represents f m) (hBlock : f.buffer.data ≠ none) :
    ∃ d, f.buffer.data = some d ∧ f.buffer.bytes = d ∧ d.length = f.getBufSize := by
  obtain ⟨d, hd⟩ := Option.ne_none_iff_exists'.mp hBlock
  have hBytes : f.buffer.bytes = d := by rw [FileBuffer.bytes, hd, Option.getD_some]
  exact ⟨d, hd, hBytes, hBytes ▸ h.sized.length_bytes⟩

/-- The bytes a copy moves: as many as asked for, and the last ones written where it reads. -/
def Copied (m : SparseMap) (offset n : Nat) (bytes : List Byte) : Prop :=
  bytes.length = n ∧ ∀ k < n, ∀ v, m (offset + k) = some v → bytes[k]? = some v

theorem loadBytes_represents (h : Represents f m) (hBlock : f.buffer.data ≠ none)
    (hRoom : offset + n ≤ f.getBufSize) :
    ∃ bytes, f.loadBytes offset n = .ok bytes ∧ Copied m offset n bytes := by
  obtain ⟨d, hd, hBytes, hLen⟩ := h.block hBlock
  have hLoad : load d offset n = some ((d.drop offset).take n) := load_eq_some (hLen ▸ hRoom)
  refine ⟨_, by simp only [CapioFile.loadBytes, hd, hLoad], length_of_load hLoad, ?_⟩
  grind [getElem?_of_load, h.agrees]

theorem storeBytes_represents (h : Represents f m) (hBlock : f.buffer.data ≠ none)
    (hRoom : offset + bytes.length ≤ f.getBufSize) : ∃ f', f.storeBytes offset bytes = .ok f' ∧
      Represents (f'.insertSector offset (offset + bytes.length)) (SparseMap.put m offset bytes) ∧
      f'.buffer.storage = f.buffer.storage := by
  obtain ⟨d, hd, hBytes, hLen⟩ := h.block hBlock
  obtain ⟨d', hStore⟩ : ∃ d', store d offset bytes = some d' := exists_store (hLen ▸ hRoom)
  have hle : offset ≤ offset + bytes.length := Nat.le_add_right _ _
  refine ⟨{ f with buffer := { f.buffer with data := some d' } },
    by simp only [CapioFile.storeBytes, hd, hStore], ⟨?_, ?_, ?_, ?_, ?_⟩, rfl⟩
  · exact insertSector_separated h.separated hle
  · exact (length_of_store hStore).trans hLen
  · exact insertSector_le h.separated hle h.fits hRoom
  · intro b v hv
    refine (covers_insertSector_iff h.separated hle b).mpr ?_
    grind [SparseMap.put, h.covered]
  · intro b v hv
    simp only [SparseMap.put] at hv
    simp only [CapioFile.insertSector, FileBuffer.bytes, Option.getD_some]
    rw [getElem?_of_store hStore]
    grind [h.agrees]

theorem writeData_represents (os osGrow : Os) (h : Represents f m) (offset : Nat) (data : List Byte) :
    Ends (f.writeData os osGrow offset data)
      (fun f' => Represents f' (SparseMap.put m offset data) ∧ (f'.buffer.Closed → f.buffer.Closed))
      (Refused os f) := by
  refine (makeRoom_represents os osGrow h (offset + data.length)).bind ?_
  rintro f1 ⟨h1, hRoom⟩
  obtain ⟨f2, hStore, h2, hStorage⟩ := storeBytes_represents h1.represents h1.block hRoom
  rw [hStore]
  exact ⟨h2, fun ⟨len, hClosed⟩ => h1.closed ⟨len, hStorage.symm.trans hClosed⟩⟩

theorem appendEntry_represents (os osGrow : Os) (h : Represents f m) (ino : Nat) (name : List Byte) :
    Ends (f.appendEntry os osGrow ino name)
      (fun r => r.1 = CapioFile.linuxDirent64 os ino (f.getStoredSize + DIRENT_SIZE) f.directory name ∧
        Represents r.2 (SparseMap.put m f.getStoredSize r.1) ∧ (r.2.buffer.Closed → f.buffer.Closed))
      (Refused os f) := by
  refine ((makeRoom_represents os osGrow h (f.getStoredSize + DIRENT_SIZE)).and
    (CapioFile.makeRoom_rebuffers os osGrow f _)).bind ?_
  rintro f1 ⟨⟨h1, hRoom⟩, hRebuffered⟩
  have hDirectory : f1.directory = f.directory := by
    obtain ⟨_, _, rfl⟩ := hRebuffered
    rfl
  rw [← CapioFile.length_linuxDirent64 os ino (f.getStoredSize + DIRENT_SIZE) f1.directory name]
    at hRoom
  obtain ⟨f2, hStore, h2, hStorage⟩ := storeBytes_represents h1.represents h1.block hRoom
  rw [CapioFile.length_linuxDirent64] at h2
  simp only [hStore]
  refine ⟨by rw [hDirectory], ?_, fun ⟨len, hClosed⟩ => h1.closed ⟨len, hStorage.symm.trans hClosed⟩⟩
  exact ⟨h2.separated, h2.sized, h2.fits, h2.covered, h2.agrees⟩

theorem Represents.bytesCopied_room (h : Represents f m) (hPos : 0 < f.bytesCopied offset count) :
    offset + f.bytesCopied offset count ≤ f.getBufSize ∧ f.buffer.data ≠ none := by
  unfold CapioFile.bytesCopied at hPos ⊢
  cases hEnd : getSectorEnd f.sectors offset with
  | none => simp [hEnd] at hPos
  | some stop =>
    obtain ⟨t, ht, _, hle, rfl⟩ := getSectorEnd_eq_some hEnd
    have hFits := h.fits t ht
    simp only [hEnd] at hPos ⊢
    refine ⟨by omega, fun hNone => ?_⟩
    have hEmpty : f.getBufSize = 0 := h.getBufSize_of_empty (by simp [FileBuffer.empty, hNone])
    omega

theorem copyData_represents (os osGrow : Os) (hSrc : Represents src mIn) (hDst : Represents dst mOut)
    (hSame : same = true → src = dst ∧ mIn = mOut) (offsetOut : Nat)
    (hPos : 0 < src.bytesCopied offsetIn count) :
    Ends (src.copyData os osGrow same dst offsetIn offsetOut (src.bytesCopied offsetIn count))
      (fun r => Copied mIn offsetIn (src.bytesCopied offsetIn count) r.1 ∧
        Represents r.2 (SparseMap.put mOut offsetOut r.1) ∧ (r.2.buffer.Closed → dst.buffer.Closed))
      (Refused os dst) := by
  refine (makeRoom_represents os osGrow hDst (offsetOut + src.bytesCopied offsetIn count)).bind ?_
  rintro dst1 ⟨h1, hRoom⟩
  obtain ⟨bytes, hLoad, hCopied⟩ : ∃ bytes, (if same then dst1 else src).loadBytes offsetIn
      (src.bytesCopied offsetIn count) = .ok bytes ∧
      Copied mIn offsetIn (src.bytesCopied offsetIn count) bytes := by
    cases same with
    | false =>
      obtain ⟨hIn, hBlock⟩ := hSrc.bytesCopied_room hPos
      exact loadBytes_represents hSrc hBlock hIn
    | true =>
      -- the input has moved with the output's buffer, but its sectors are the same
      obtain ⟨rfl, rfl⟩ := hSame rfl
      have hEq : dst1.bytesCopied offsetIn count = src.bytesCopied offsetIn count := by
        rw [CapioFile.bytesCopied, h1.sectors, CapioFile.bytesCopied]
      obtain ⟨hIn, hBlock⟩ := h1.represents.bytesCopied_room (hEq ▸ hPos)
      exact loadBytes_represents h1.represents hBlock (hEq ▸ hIn)
  rw [← hCopied.1] at hRoom
  obtain ⟨dst2, hStore, h2, hStorage⟩ := storeBytes_represents h1.represents h1.block hRoom
  rw [hCopied.1] at h2
  rw [hLoad]
  simp only [bind, Except.bind, hStore]
  exact ⟨hCopied, h2, fun ⟨len, hClosed⟩ => h1.closed ⟨len, hStorage.symm.trans hClosed⟩⟩

theorem dump_represents (h : Represents f m) :
    Ends f.dump (fun f' => Represents f' m) (fun e => e = .commitBuffer ∧ f.buffer.Closed) := by
  refine .ite (fun _ => ?_) fun _ => h
  have hSize : f.getStoredSize ≤ f.buffer.size := getFileSize_le h.fits
  cases hStorage : f.buffer.storage with
  | heap => exact h
  | mapped fd len =>
    cases hCommit : f.buffer.commit f.getStoredSize with
    | none =>
      cases fd with
      | none => exact ⟨rfl, len, hStorage⟩
      | some fd => simp [FileBuffer.commit, hStorage] at hCommit
    | some b =>
      obtain ⟨hSized, _, hEnd, hKeep⟩ := h.sized.commit hSize hCommit
      refine ⟨h.separated, hSized, fun t ht => ?_, h.covered, fun i v hv => ?_⟩
      · exact (le_getFileSize h.separated ht).trans hEnd.ge
      · obtain ⟨t, ht, _, hit⟩ := h.covered i v hv
        exact (hKeep i (hit.trans_le (le_getFileSize h.separated ht))).trans (h.agrees i v hv)

/-! ## Runs of requests -/

inductive Op
  | write (file offset : Nat) (data : List Byte)
  | copyFileRange (src dst offsetIn offsetOut count : Nat)
  | appendEntry (dir ino : Nat) (name : List Byte)
  | readBuffer (file : Nat) (homeNode : Bool)
  | dump (file : Nat)

/-- The file whose object the request changes. -/
def Op.file : Op → Nat
  | .write file _ _ | .copyFileRange _ file _ _ _ | .appendEntry file _ _ | .readBuffer file _
  | .dump file => file

structure Request where
  op : Op
  os : Os
  osGrow : Os

def handle (s : Nat → CapioFile) (r : Request) : Except Failure CapioFile :=
  match r.op with
  | .write i offset data => (s i).writeData r.os r.osGrow offset data
  | .copyFileRange src dst offsetIn offsetOut count =>
    let n := (s src).bytesCopied offsetIn count
    if 0 < n then
      Prod.snd <$> (s src).copyData r.os r.osGrow (src == dst) (s dst) offsetIn offsetOut n
    else pure (s dst)
  | .appendEntry dir ino name => Prod.snd <$> (s dir).appendEntry r.os r.osGrow ino name
  | .readBuffer i homeNode => (s i).createBuffer r.os homeNode
  | .dump i => (s i).dump

def step (s : Nat → CapioFile) (r : Request) : Except Failure (Nat → CapioFile) := do
  let f ← handle s r
  pure (update s r.op.file f)

structure NewFile where
  directory : Bool
  nFilesExpected : Nat
  permanent : Bool
  initSize : Nat
  nCloseExpected : Nat

def NewFile.make (file : NewFile) : CapioFile :=
  .new file.directory file.nFilesExpected file.permanent file.initSize file.nCloseExpected

/-- A file as the requests describe it: the last value written at each offset, and the sectors, which
say how much a copy moves. -/
structure Content where
  bytes : SparseMap := fun _ => none
  sectors : List Sector := []

def Content.put (c : Content) (offset : Nat) (bytes : List Byte) : Content where
  bytes := c.bytes.put offset bytes
  sectors := insertSector c.sectors offset (offset + bytes.length)

/-- What was not written in the input is not known in the output. -/
def Content.copy (c src : Content) (offsetIn offsetOut n : Nat) : Content where
  bytes b := if offsetOut ≤ b ∧ b < offsetOut + n then src.bytes (offsetIn + (b - offsetOut)) else c.bytes b
  sectors := insertSector c.sectors offsetOut (offsetOut + n)

def recorded (files : Nat → NewFile) (c : Nat → Content) (r : Request) : Content :=
  match r.op with
  | .write i offset data => (c i).put offset data
  | .copyFileRange src dst offsetIn offsetOut count =>
    let n := CapioFile.bytesCopied { sectors := (c src).sectors } offsetIn count
    if 0 < n then (c dst).copy (c src) offsetIn offsetOut n else c dst
  | .appendEntry dir ino name =>
    let size := getFileSize (c dir).sectors
    (c dir).put size (CapioFile.linuxDirent64 r.os ino (size + DIRENT_SIZE) (files dir).directory name)
  | .readBuffer i _ | .dump i => c i

def record (files : Nat → NewFile) (c : Nat → Content) (r : Request) : Nat → Content :=
  update c r.op.file (recorded files c r)

def lastWritten (files : Nat → NewFile) (ops : List Request) : Nat → Content :=
  ops.foldl (record files) fun _ => {}

structure Keeps (file : NewFile) (c : Content) (f : CapioFile) : Prop where
  represents : Represents f c.bytes
  sectors : f.sectors = c.sectors
  permanent : f.permanent = file.permanent
  requestedSize : f.requestedSize = file.initSize
  directory : f.directory = file.directory

structure Refines (files : Nat → NewFile) (ops : List Request) (c : Nat → Content) (s : Nat → CapioFile) :
    Prop where
  keeps : ∀ i, Keeps (files i) (c i) (s i)
  closed : ∀ i, (s i).buffer.Closed → ∃ r ∈ ops, r.op = .dump i

/-- The server ends only when there is no memory for the first mapping of a file that is kept on disk, or
at a growth or a commit if some request commits a file to disk. -/
def Stopped (files : Nat → NewFile) (ops : List Request) (e : Failure) : Prop :=
  (e = .mmapBuffer ∧ ∃ r ∈ ops, (files r.op.file).permanent = true ∧
    computeAllocableMemQuota r.os (files r.op.file).initSize = 0) ∨
  ((e = .growBuffer ∨ e = .commitBuffer) ∧ ∃ i, ∃ r ∈ ops, r.op = .dump i)

theorem Keeps.rebuffered (h : Keeps file c f) (hf : CapioFile.Rebuffered f f') (h' : Represents f' c.bytes) :
    Keeps file c f' := by
  obtain ⟨_, _, rfl⟩ := hf
  exact ⟨h', h.sectors, h.permanent, h.requestedSize, h.directory⟩

theorem Keeps.inserted (h : Keeps file c f) (hf : CapioFile.Rebuffered f f1)
    (h' : Represents (f1.insertSector a b) m) :
    Keeps file ⟨m, insertSector c.sectors a b⟩ (f1.insertSector a b) := by
  obtain ⟨_, _, rfl⟩ := hf
  exact ⟨h', congrArg (insertSector · a b) h.sectors, h.permanent, h.requestedSize, h.directory⟩

theorem Represents.copied {c src : Content} (h : Represents f (c.bytes.put offsetOut bytes))
    (hCopied : Copied src.bytes offsetIn n bytes) :
    Represents f (c.copy src offsetIn offsetOut n).bytes := by
  have hPut : ∀ b v, (c.copy src offsetIn offsetOut n).bytes b = some v →
      c.bytes.put offsetOut bytes b = some v := by
    intro b v hv
    unfold Content.copy at hv
    unfold SparseMap.put
    rw [hCopied.1]
    dsimp only at hv
    split at hv
    · next hIn =>
      rw [if_pos hIn]
      exact hCopied.2 _ (by omega) v hv
    · next hOut => rwa [if_neg hOut]
  exact ⟨h.separated, h.sized, h.fits, fun b v hv => h.covered b v (hPut b v hv),
    fun b v hv => h.agrees b v (hPut b v hv)⟩

section

variable (h : Refines files ops c s) (hr : r ∈ ops)
include h hr

theorem Refines.unmappable (he : Unmappable r.os (s r.op.file) e) : Stopped files ops e := by
  obtain ⟨rfl, hPermanent, hQuota⟩ := he
  rw [(h.keeps _).permanent] at hPermanent
  rw [(h.keeps _).requestedSize] at hQuota
  exact .inl ⟨rfl, r, hr, hPermanent, hQuota⟩

theorem Refines.refused (he : Refused r.os (s r.op.file) e) : Stopped files ops e := by
  obtain hMap | ⟨hGrow, hClosed⟩ := he
  · exact h.unmappable hr hMap
  · exact .inr ⟨.inl hGrow, _, h.closed _ hClosed⟩

theorem handle_refines : Ends (handle s r) (fun f => Keeps (files r.op.file) (recorded files c r) f ∧
    (f.buffer.Closed → ∃ r' ∈ ops, r'.op = .dump r.op.file)) (Stopped files ops) := by
  have hRefused : ∀ e, Refused r.os (s r.op.file) e → Stopped files ops e := fun e => h.refused hr
  have hUnmappable : ∀ e, Unmappable r.os (s r.op.file) e → Stopped files ops e := fun e => h.unmappable hr
  obtain ⟨op, os, osGrow⟩ := r
  cases op with
  | write i offset data =>
    have hi := h.keeps i
    refine ((writeData_represents os osGrow hi.represents offset data).and
      (CapioFile.writeData_rebuffers os osGrow (s i) offset data)).mono ?_ hRefused
    rintro f ⟨⟨hf, hClosed⟩, f1, hf1, rfl⟩
    exact ⟨hi.inserted hf1 hf, fun hc => h.closed i (hClosed hc)⟩
  | copyFileRange src dst offsetIn offsetOut count =>
    have hDst := h.keeps dst
    have hSectors : CapioFile.bytesCopied { sectors := (c src).sectors } offsetIn count =
        (s src).bytesCopied offsetIn count := by
      rw [CapioFile.bytesCopied, CapioFile.bytesCopied, (h.keeps src).sectors]
    simp only [handle, recorded, hSectors]
    split
    · next hPos =>
      have hSame : (src == dst) = true → s src = s dst ∧ (c src).bytes = (c dst).bytes := by grind
      refine .map (((copyData_represents os osGrow (h.keeps src).represents hDst.represents hSame offsetOut
        hPos).and (CapioFile.copyData_rebuffers os osGrow (src == dst) _ _ _ _ _)).mono ?_ hRefused)
      rintro ⟨bytes, _⟩ ⟨⟨hCopied, hf, hClosed⟩, f1, hf1, rfl⟩
      exact ⟨hDst.inserted hf1 (hf.copied hCopied), fun hc => h.closed dst (hClosed hc)⟩
    · exact ⟨hDst, h.closed dst⟩
  | appendEntry dir ino name =>
    have hDir := h.keeps dir
    have hRecorded : recorded files c ⟨.appendEntry dir ino name, os, osGrow⟩ = (c dir).put (s dir).getStoredSize
        (CapioFile.linuxDirent64 os ino ((s dir).getStoredSize + DIRENT_SIZE) (s dir).directory name) := by
      rw [CapioFile.getStoredSize, hDir.sectors, hDir.directory]
      rfl
    rw [hRecorded]
    refine .map (((appendEntry_represents os osGrow hDir.represents ino name).and
      (CapioFile.appendEntry_rebuffers os osGrow (s dir) ino name)).mono ?_ hRefused)
    rintro ⟨_, _⟩ ⟨⟨rfl, hf, hClosed⟩, f1, ⟨_, _, rfl⟩, rfl⟩
    refine ⟨⟨hf, ?_, hDir.permanent, hDir.requestedSize, hDir.directory⟩,
      fun hc => h.closed dir (hClosed hc)⟩
    rw [Content.put, CapioFile.length_linuxDirent64, ← hDir.sectors]
    rfl
  | readBuffer i homeNode =>
    refine ((createBuffer_represents os (h.keeps i).represents homeNode).and
      (CapioFile.createBuffer_rebuffers os (s i) homeNode)).mono ?_ hUnmappable
    rintro f ⟨hf, hRebuffered⟩
    exact ⟨(h.keeps i).rebuffered hRebuffered hf.represents, fun hc => h.closed i (hf.closed hc)⟩
  | dump i =>
    refine ((dump_represents (h.keeps i).represents).and (CapioFile.dump_rebuffers (s i))).mono ?_ ?_
    · rintro f ⟨hf, hRebuffered⟩
      exact ⟨(h.keeps i).rebuffered hRebuffered hf, fun _ => ⟨_, hr, rfl⟩⟩
    · rintro e ⟨rfl, hClosed⟩
      exact .inr ⟨.inr rfl, i, h.closed i hClosed⟩

theorem step_refines : Ends (step s r) (Refines files ops (record files c r)) (Stopped files ops) := by
  refine (handle_refines h hr).bind ?_
  rintro f ⟨hf, hClosed⟩
  constructor
  · intro i
    unfold record
    by_cases hi : i = r.op.file
    · subst hi
      rwa [update_self, update_self]
    · rw [update_of_ne hi, update_of_ne hi]
      exact h.keeps i
  · intro i
    by_cases hi : i = r.op.file
    · subst hi
      rwa [update_self]
    · rw [update_of_ne hi]
      exact h.closed i

end

theorem run_refines (h : Refines files ops c s) (hSub : l ⊆ ops) :
    Ends (l.foldlM step s) (Refines files ops (l.foldl (record files) c)) (Stopped files ops) := by
  induction l generalizing s c with
  | nil => exact h
  | cons r l ih =>
    refine (step_refines h (hSub List.mem_cons_self)).bind fun s' hs' => ?_
    exact ih hs' fun r' hr' => hSub (List.mem_cons_of_mem r hr')

theorem refines_new (files : Nat → NewFile) (ops : List Request) :
    Refines files ops (fun _ => {}) fun i => (files i).make where
  keeps i := ⟨represents_new .., rfl, rfl, rfl, rfl⟩
  closed i := by
    rintro ⟨len, hClosed⟩
    cases hClosed

end Capio.Storage.ByteStore
