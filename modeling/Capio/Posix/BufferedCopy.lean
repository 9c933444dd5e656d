import Capio.Lib.BufferedCopy
import Capio.Posix.CopyFileRange
import Capio.Posix.ReadTransparency
import Capio.Posix.StoredBytes

/-! # `copy_file_range` through a buffer

A copy between a descriptor of CAPIO and one of the kernel.  Each chunk is read from one end and written to
the other, through the caches of the thread or by calls of the kernel, which may move fewer bytes than they
are asked to and may fail.  The offsets behind the pointers of the caller are in its memory.
-/
namespace Capio.Posix.BufferedCopy

open Common Lib.BufferedCopy Lib.Outcome Storage.ByteStore Storage.CopyLoop
open Session StoredBytes Function Option

/-- A transfer of the kernel moves at most so many bytes, or it fails. -/
inductive Transfer
  | moves (most : Nat)
  | fails (errno : Fin 4095)

structure Kernel where
  transfers : Nat → Transfer
  maps : Bool

/-- A descriptor of the kernel with its file.  Bytes below the size that were not written are zeros. -/
structure KernelFile where
  data : SparseMap
  size : Nat
  offset : Nat := 0
  isOpen : Bool := true
  flags : BitVec 32 := CopyFileRange.O_RDWR
  isDir : Bool := false
  isRegular : Bool := true

/-- `memory` has the offsets of the caller by their addresses; the transfers of the kernel and the mappings that
failed are counted. -/
structure World where
  client : StoredBytes.Client
  kernel : KernelFile
  memory : Nat → Int
  calls : Nat := 0
  unmapped : Nat := 0

namespace KernelFile

def content (f : KernelFile) : List Byte := (List.range f.size).map fun b => (f.data b).getD 0

def store (f : KernelFile) (position : Nat) (bytes : List Byte) : KernelFile :=
  if bytes.isEmpty then f
  else { f with data := f.data.put position bytes, size := max f.size (position + bytes.length) }

def moved (f : KernelFile) (n : Nat) : KernelFile := { f with offset := f.offset + n }

def movedBack (f : KernelFile) (count : Nat) : KernelFile :=
  if count ≤ f.offset then { f with offset := f.offset - count } else f

end KernelFile

section

variable (k : Kernel)

def code (errno : Fin 4095) : Int := -(errno.val + 1 : Nat)

def pread64 (w : World) (count position : Nat) : Int × List Byte × World :=
  let w' := { w with calls := w.calls + 1 }
  match k.transfers w.calls with
  | .fails errno => (code errno, [], w')
  | .moves most =>
    let bytes := (w.kernel.content.drop position).take (min most count)
    (bytes.length, bytes, w')

def read (w : World) (count : Nat) : Int × List Byte × World :=
  let (n, bytes, w) := pread64 k w count w.kernel.offset
  (n, bytes, { w with kernel := w.kernel.moved n.toNat })

def pwrite64 (w : World) (bytes : List Byte) (position : Nat) : Int × World :=
  let w' := { w with calls := w.calls + 1 }
  match k.transfers w.calls with
  | .fails errno => (code errno, w')
  | .moves most => ((bytes.take most).length, { w' with kernel := w.kernel.store position (bytes.take most) })

def write (w : World) (bytes : List Byte) : Int × World :=
  let (n, w) := pwrite64 k w bytes w.kernel.offset
  (n, { w with kernel := w.kernel.moved n.toNat })

end

structure PointedEnd extends CopyFileRange.CopyEnd where
  pointer : Option Nat := none

structure Attributes where
  flags : BitVec 32
  isDir : Bool
  fileSize : Int

structure Copying where
  copyIn : PointedEnd
  copyOut : PointedEnd
  world : World

structure Call where
  fdIn : Fd
  offIn : Option Nat
  fdOut : Fd
  offOut : Option Nat
  len : Nat
  flags : BitVec 32 := 0

section

variable (g : Setting) (k : Kernel) (attributes : Fd → Attributes)

def capioEnd (a : Attributes) (fd : Fd) (pointer : Option Nat) (memory : Nat → Int) (saved : Int) : PointedEnd where
  fd := fd
  offset := pointer.map memory
  isCapio := true
  isOpen := true
  flags := a.flags
  isDir := a.isDir
  isRegular := !a.isDir
  size := if a.fileSize < 0 then 0 else a.fileSize
  position := (pointer.map memory).getD saved
  savedFdOffset := saved
  pointer := pointer

def kernelEnd (f : KernelFile) (fd : Fd) (pointer : Option Nat) (memory : Nat → Int) : PointedEnd :=
  let e : PointedEnd := { fd := fd, offset := pointer.map memory, pointer := pointer }
  if f.isOpen then
    { e with
      isOpen := true
      flags := f.flags
      isDir := f.isDir
      isRegular := f.isRegular
      size := f.size
      position := (pointer.map memory).getD f.offset }
  else e

def capioCopyFileRangeEnd (w : World) (fd : Fd) (pointer : Option Nat) : Except Stop (PointedEnd × World) :=
  if (w.client.session.files fd).isSome then do
    let client ← w.client.flushWrite g
    let saved ← client.session.offset fd
    pure (capioEnd (attributes fd) fd pointer w.memory saved, { w with client := client })
  else pure (kernelEnd w.kernel fd pointer w.memory, w)

def capioCopyFileRangeSeek (w : World) (e : PointedEnd) : Except Stop World := do
  let offset ← w.client.session.offset e.fd
  if offset ≠ e.position then do
    let client ← w.client.setFdOffset g e.fd e.position
    pure { w with client := client }
  else pure w

def capioCopyFileRangeRead (s : Copying) (count : Nat) : Except Stop (Int × List Byte × Copying) :=
  let e := s.copyIn
  if e.isCapio then do
    let w ← capioCopyFileRangeSeek g s.world e
    let (n, bytes, client) ← w.client.cachedRead g e.fd count
    pure (n, bytes, { s with
      copyIn := { e with position := e.position + n }
      world := { w with client := client } })
  else if e.pointer.isSome then
    let (n, bytes, w) := pread64 k s.world count e.position.toNat
    let e := if n > 0 then { e with position := e.position + n } else e
    pure (n, bytes, { s with copyIn := e, world := w })
  else
    let (n, bytes, w) := read k s.world count
    pure (n, bytes, { s with world := w })

def capioCopyFileRangeWrite (s : Copying) (bytes : List Byte) : Except Stop (Int × Copying) :=
  let e := s.copyOut
  if e.isCapio then do
    let w ← capioCopyFileRangeSeek g s.world e
    let client ← w.client.cachedWrite g e.fd bytes
    pure (bytes.length, { s with
      copyOut := { e with position := e.position + bytes.length }
      world := { w with client := client } })
  else if e.pointer.isSome then
    let (n, w) := pwrite64 k s.world bytes e.position.toNat
    let e := if n > 0 then { e with position := e.position + n } else e
    pure (n, { s with copyOut := e, world := w })
  else
    let (n, w) := write k s.world bytes
    pure (n, { s with world := w })

def capioCopyFileRangeUnread (s : Copying) (count : Nat) : Copying :=
  let e := s.copyIn
  if e.isCapio || e.pointer.isSome then { s with copyIn := { e with position := e.position - count } }
  else { s with world := { s.world with kernel := s.world.kernel.movedBack count } }

def capioCopyFileRangeFinish (w : World) (e : PointedEnd) (copied : Nat) : Except Stop World :=
  match e.pointer with
  | some a =>
    let w := { w with memory := update w.memory a (w.memory a + copied) }
    if e.isCapio then capioCopyFileRangeSeek g w { e with position := e.savedFdOffset } else pure w
  | none => if e.isCapio then capioCopyFileRangeSeek g w e else pure w

def ENOMEM : Int := 12

/-- `EIO`. -/
def ioError : Int := 5

/-- `capio_copy_file_range_write_all` is the loop over the writes in here. -/
def capioCopyFileRangeThroughBuffer (s : Copying) (count : Nat) : Except Stop (Nat × Int × Copying) :=
  let chunkSize := min count g.maxLineSize
  -- a mapping without bytes is refused
  if !k.maps || chunkSize == 0 then
    pure (0, -ENOMEM, { s with world := { s.world with unmapped := s.world.unmapped + 1 } })
  else
    copyThrough (capioCopyFileRangeRead g k) (capioCopyFileRangeWrite g k) capioCopyFileRangeUnread (-ioError)
      chunkSize count s count

def errnoOf (error : Int) : CopyFileRange.Errno :=
  if error = -ENOMEM then .ENOMEM else if error = -ioError then CopyFileRange.Errno.EIO else .kernel (-error)

def finishBoth (s : Copying) (copied : Nat) : Except Stop World :=
  if s.copyIn.pointer.isNone then do
    let w ← capioCopyFileRangeFinish g s.world s.copyOut copied
    capioCopyFileRangeFinish g w s.copyIn copied
  else do
    let w ← capioCopyFileRangeFinish g s.world s.copyIn copied
    capioCopyFileRangeFinish g w s.copyOut copied

def copyAndFinish (pageSize : Nat) (copyIn copyOut : PointedEnd) (len : Nat) (w : World) :
    Except Stop (CopyFileRange.Answer × World) :=
  if len = 0 then pure (.copied 0, w)
  else do
    let count := min len (CopyFileRange.capioMaxRwCount pageSize)
    let (copied, error, s) ← capioCopyFileRangeThroughBuffer g k ⟨copyIn, copyOut, w⟩ count
    let w ← finishBoth g s copied
    if copied = 0 ∧ error < 0 then pure (.failed (errnoOf error), w) else pure (.copied copied, w)

def checkAndCopy (pageSize : Nat) (copyIn copyOut : PointedEnd) (len : Nat) (flags : BitVec 32) (w : World) :
    Except Stop (CopyFileRange.Answer × World) :=
  match CopyFileRange.refusal copyIn.toCopyEnd copyOut.toCopyEnd len flags with
  | some e => pure (.failed e, w)
  | none => copyAndFinish g k pageSize copyIn copyOut len w

/-- `capio_copy_file_range` for one descriptor of CAPIO and one of the kernel. -/
def capioCopyFileRange (pageSize : Nat) (c : Call) (w : World) :
    Except Stop (CopyFileRange.Answer × World) :=
  if c.flags ≠ 0 then pure (.failed .EINVAL, w)
  else do
    let (copyIn, w) ← capioCopyFileRangeEnd g attributes w c.fdIn c.offIn
    if !copyIn.isOpen then pure (.failed .EBADF, w)
    else do
      let (copyOut, w) ← capioCopyFileRangeEnd g attributes w c.fdOut c.offOut
      checkAndCopy g k pageSize copyIn copyOut c.len c.flags w

end

def World.isCapio (w : World) (fd : Fd) : Bool := (w.client.session.files fd).isSome

def World.fdOffset (w : World) (fd : Fd) : Int :=
  if w.isCapio fd then (w.client.session.offset fd).toOption.getD 0 else w.kernel.offset

def World.position (w : World) (fd : Fd) (pointer : Option Nat) : Int :=
  (pointer.map w.memory).getD (w.fdOffset fd)

section

variable (g : Setting) (content : Fd → List Byte) (attributes : Fd → Attributes) (pageSize : Nat)

def source (c : Call) (w : World) : List Byte :=
  (if w.isCapio c.fdIn then content c.fdIn else w.kernel.content).drop (w.position c.fdIn c.offIn).toNat

def kernelOutput (c : Call) (w : World) (bytes : List Byte) : KernelFile :=
  if w.isCapio c.fdOut then w.kernel else w.kernel.store (w.position c.fdOut c.offOut).toNat bytes

def capioOutput (c : Call) (w : World) (bytes : List Byte) : Path → SparseMap :=
  if w.isCapio c.fdOut then
    let path := pathOf g.tid w.client.session c.fdOut
    update (w.client.content g.tid) path
      ((w.client.content g.tid path).put (w.position c.fdOut c.offOut).toNat bytes)
  else w.client.content g.tid

def EndMoved (fd : Fd) (pointer : Option Nat) (n : Nat) (w w' : World) : Prop :=
  match pointer with
  | some a => w'.memory a = w.memory a + n ∧ w'.fdOffset fd = w.fdOffset fd
  | none => w'.fdOffset fd = w.fdOffset fd + n

/-- The next `n` bytes of the input are in the output, nothing else has changed, and the offsets have moved.
The offset of the server is that of the client up to what the caches hold. -/
structure MovesExactly (c : Call) (w : World) (n : Nat) (w' : World) : Prop where
  bytes : n ≤ (source content c w).length
  client : w'.client.content g.tid = capioOutput g c w ((source content c w).take n)
  kernel : w'.kernel = { kernelOutput c w ((source content c w).take n) with offset := w'.kernel.offset }
  offsetIn : EndMoved c.fdIn c.offIn n w w'
  offsetOut : EndMoved c.fdOut c.offOut n w w'
  memory : ∀ a, c.offIn ≠ some a → c.offOut ≠ some a → w'.memory a = w.memory a
  agrees : Agrees g.tid w'.client.session

/-- A transfer of the kernel failed; a write that moves nothing is one that fails. -/
def TransferFailed (k : Kernel) (c : Call) (w w' : World) : Prop :=
  ∃ i, w.calls ≤ i ∧ i < w'.calls ∧
    ((∃ errno, k.transfers i = .fails errno) ∨ w.isCapio c.fdIn = true ∧ k.transfers i = .moves 0)

def SomethingFailed (k : Kernel) (c : Call) (w w' : World) : Prop :=
  w.unmapped < w'.unmapped ∨ TransferFailed k c w w'

def Right (k : Kernel) (c : Call) (w : World) (r : CopyFileRange.Answer × World) : Prop :=
  match r.1 with
  | .copied n => MovesExactly g content c w n r.2
  | .failed _ => MovesExactly g content c w 0 r.2 ∧ SomethingFailed k c w r.2

def endOf (w : World) (fd : Fd) (pointer : Option Nat) : PointedEnd :=
  if w.isCapio fd then capioEnd (attributes fd) fd pointer w.memory (w.fdOffset fd)
  else kernelEnd w.kernel fd pointer w.memory

def Accepted (c : Call) (w : World) : Prop :=
  CopyFileRange.refusal (endOf attributes w c.fdIn c.offIn).toCopyEnd (endOf attributes w c.fdOut c.offOut).toCopyEnd
    c.len c.flags = none

def chunkOf (c : Call) : Nat := min (min c.len (CopyFileRange.capioMaxRwCount pageSize)) g.maxLineSize

structure Prior (c : Call) (w : World) : Prop where
  -- a transfer is at most a line, and the queue takes its size as an `int`
  line : g.maxLineSize ≤ INT_MAX
  sound : Sound (g.serving content) w.client
  queue : w.client.session.queue = []
  natural : ∀ (i : Nat) v, w.client.session.offsets[i]? = some v → 0 ≤ v
  start : 0 ≤ w.client.session.read.cacheOffset
  caching : ∀ o, w.client.session.offset w.client.session.read.lastFd = .ok o →
    Caching w.client.session ((content w.client.session.read.lastFd).drop o.toNat)
  one : w.isCapio c.fdIn ≠ w.isCapio c.fdOut

end

section

variable {k : Kernel} {w : World}

section

variable (f : KernelFile)

theorem store_cons (p : Nat) (b : Byte) (l : List Byte) : f.store p (b :: l) =
    { f with data := f.data.put p (b :: l), size := max f.size (p + (b :: l).length) } := rfl

theorem store_store (p : Nat) (l l' : List Byte) :
    (f.store p l).store (p + l.length) l' = f.store p (l ++ l') := by
  cases l with
  | nil => rfl
  | cons b l =>
    cases l' with
    | nil => rw [List.append_nil]; rfl
    | cons b' l' => grind [store_cons, put_append]

theorem store_moved (p n : Nat) (bytes : List Byte) :
    (f.store p bytes).moved n = (f.moved n).store p bytes := by
  cases bytes with
  | nil => rfl
  | cons b bytes => rfl

theorem moved_offset (p n : Nat) (bytes : List Byte) :
    ((f.store p bytes).moved n).offset = f.offset + n := by
  cases bytes with
  | nil => rfl
  | cons b bytes => rfl

theorem moved_moved (m n : Nat) : (f.moved m).moved n = f.moved (m + n) := by
  unfold KernelFile.moved
  rw [Nat.add_assoc]

end

def World.next (w : World) : World := { w with calls := w.calls + 1 }

theorem pread64_cases (count position : Nat) :
    (∃ errno, k.transfers w.calls = .fails errno ∧ pread64 k w count position = (code errno, [], w.next)) ∨
      ∃ n : Nat, n ≤ count ∧ n ≤ (w.kernel.content.drop position).length ∧
        pread64 k w count position = ((n : Int), (w.kernel.content.drop position).take n, w.next) ∧
        (n = 0 → 0 < count → k.transfers w.calls = .moves 0 ∨ w.kernel.content.length ≤ position) := by
  unfold pread64
  cases hTransfer : k.transfers w.calls with
  | fails errno => exact .inl ⟨errno, rfl, rfl⟩
  | moves most =>
    have hLength := List.length_take (i := min most count) (l := w.kernel.content.drop position)
    refine .inr ⟨((w.kernel.content.drop position).take (min most count)).length, by omega, by omega, ?_, ?_⟩
    · simp [World.next]
    · grind

theorem pwrite64_cases (bytes : List Byte) (position : Nat) :
    (∃ errno, k.transfers w.calls = .fails errno ∧ pwrite64 k w bytes position = (code errno, w.next)) ∨
      ∃ n : Nat, n ≤ bytes.length ∧ pwrite64 k w bytes position =
          ((n : Int), { w.next with kernel := w.kernel.store position (bytes.take n) }) ∧
        (n = 0 → bytes ≠ [] → k.transfers w.calls = .moves 0) := by
  unfold pwrite64
  cases hTransfer : k.transfers w.calls with
  | fails errno => exact .inl ⟨errno, rfl, rfl⟩
  | moves most =>
    have hLength := List.length_take (i := most) (l := bytes)
    refine .inr ⟨(bytes.take most).length, by omega, ?_, ?_⟩
    · dsimp only
      rw [hLength, ← List.take_eq_take_min, World.next]
    · intro hZero hBytes
      have := List.length_pos_iff.mpr hBytes
      obtain rfl : most = 0 := by omega
      rfl

theorem code_neg (errno : Fin 4095) : code errno < 0 := by
  unfold code
  omega

end

section

variable {g : Setting} {fd : Fd} {f : File} {c0 c : StoredBytes.Client} {m : Path → SparseMap} {w : World} {e : PointedEnd}

structure Tracks (g : Setting) (fd : Fd) (f : File) (c0 : StoredBytes.Client) (m : Path → SparseMap)
    (c : StoredBytes.Client) : Prop where
  sound : Sound g c
  file : c.session.files fd = some f
  turn : c.session.write.actualSize = 0 ∨ c.session.write.fd = fd
  files : c.session.files = c0.session.files
  path : pathOf g.tid c.session fd = pathOf g.tid c0.session fd
  content : c.content g.tid = m

theorem seek_tracks (h : Tracks g fd f c0 m w.client) (hFd : e.fd = fd) :
    Ends (capioCopyFileRangeSeek g w e) (fun w' => w' = { w with client := w'.client } ∧
      Tracks g fd f c0 m w'.client ∧ w'.client.session.offset fd = .ok e.position) fun _ => False := by
  subst hFd
  obtain ⟨cell, client, hAt⟩ := h.sound.agrees.at h.file
  unfold capioCopyFileRangeSeek
  rw [offset_eq hAt, ends_ok_bind]
  refine .ite (fun _ => ?_) fun hSame => ?_
  · refine (setFdOffset_sought h.sound h.file e.position).bind fun c' hc' => ?_
    have hFile : c'.session.files e.fd = some f := hc'.session.files ▸ h.file
    refine ⟨rfl, ⟨hc'.sound, hFile, .inl hc'.session.actualSize, hc'.session.files.trans h.files, ?_,
      hc'.content.trans h.content⟩, ?_⟩
    · exact (pathOf_congr hc'.map e.fd).trans h.path
    · have hSet : c'.session.offsets[f.cell]? = some e.position := by
        rw [hc'.session.offsets, List.getElem?_set_self (List.getElem?_eq_some_iff.mp hAt.clientAt).1]
      unfold Session.offset
      rw [hFile, bind_some, hSet]
  · rw [ne_eq, not_not] at hSame
    exact ⟨rfl, h, hSame ▸ offset_eq hAt⟩

theorem seek_faithful (h : Faithful g.tid content w.client.session)
    (hFile : w.client.session.files e.fd = some f) (hPosition : 0 ≤ e.position) :
    Yields (capioCopyFileRangeSeek g w e) (fun w' => Faithful g.tid content w'.client.session) := by
  refine .skip fun offset => ?_
  refine .ite (fun _ => ?_) fun _ => h
  have hSession := setFdOffset_faithful (g := g) h hFile e.position.toNat
  rw [Int.toNat_of_nonneg hPosition] at hSession
  refine ((ends_session (setFdOffset_session w.client e.fd e.position) hSession).mono (fun c hc => ?_)
    fun _ _ => trivial).bind fun c hc => hc
  exact hc.1

theorem flushed_reads (hFlushed : c.session.write.actualSize = 0) (fd : Fd) (count : Int) :
    c.session.cachedRead g fd count = c.session.readThrough g fd count false ∧
      c.cachedRead g fd count = (fun r => (r.1, r.2.1, { c with session := r.2.2 })) <$>
        c.session.readThrough g fd count false := by
  have hFlush : c.session.write.flush = (c.session.write, []) := if_neg (not_not.mpr hFlushed)
  constructor
  · unfold Session.cachedRead Session.flushWrite Session.applyWrite
    rw [hFlush]
    rfl
  · unfold StoredBytes.Client.cachedRead StoredBytes.Client.flushWrite StoredBytes.Client.applyWrite
    rw [hFlush, map_eq_pure_bind]
    rfl

theorem read_tracks (h : Tracks (g.serving content) fd f c0 m c)
    (hFaithful : Faithful g.tid content c.session) (hOffset : c.session.offset fd = .ok o)
    (hCount : 0 < count) (hLine : count ≤ g.maxLineSize) :
    Returns (c.cachedRead (g.serving content) fd count) (fun r => ∃ n : Nat, r.1 = n ∧ n ≤ count ∧
      r.2.1 = ((content fd).drop o.toNat).take n ∧ n ≤ ((content fd).drop o.toNat).length ∧
      Tracks (g.serving content) fd f c0 m r.2.2 ∧ Faithful g.tid content r.2.2.session ∧
      (n = 0 → (content fd).length ≤ o.toNat)) := by
  obtain ⟨hSession, hClient⟩ := flushed_reads (g := g.serving content) hFaithful.flushed fd count
  have hNonneg := hFaithful.agrees.caches.leftover_nonneg
  have hFits : c.session.Fits g.maxLineSize fd count := by
    refine ⟨Int.natCast_nonneg count, .inr ?_⟩
    unfold remaining
    split <;> omega
  have hRead := ((cachedRead_transparent hFaithful (hCount.trans_le hLine) h.file hFits).and
    (cachedRead_nothing hFaithful (hCount.trans_le hLine) h.file (Int.natCast_pos.mpr hCount)
      (Int.ofNat_le.mpr hLine)))
  rw [hSession] at hRead
  rw [hClient]
  refine .map ((hRead.and (readThrough_leaves c.session fd count false)).imp ?_)
  rintro ⟨n, bytes, s⟩ ⟨⟨⟨hs, hFiles, hMost, ⟨o', ho', hBytes, hLength, -⟩, -⟩, hNothing⟩, hLeaves⟩
  dsimp only at hs hFiles hMost hBytes hLength hNothing hLeaves
  cases hOffset.symm.trans ho'
  have hEmpty := (line_eq_nil_iff h.sound).mpr hFaithful.flushed
  have hTake := congrArg List.length hBytes
  rw [List.length_take] at hTake
  refine ⟨bytes.length, hLength.symm, by omega, ?_, by omega, ⟨⟨hs.agrees, ?_, fun hNe => absurd hEmpty hNe⟩, ?_,
    .inl hs.flushed, hFiles.trans h.files, ?_, ?_⟩, hs, fun hZero => hNothing (by omega) o hOffset⟩
  · rw [← hLength] at hBytes
    exact hBytes
  · exact hLeaves.write ▸ h.sound.line
  · exact hFiles ▸ h.file
  · exact (pathOf_congr hLeaves.map fd).trans h.path
  · exact (content_of_line (c := { c with session := s }) hEmpty).trans
      ((content_of_line hEmpty).symm.trans h.content)

end

def PointedEnd.advanced (e : PointedEnd) (n : Nat) : PointedEnd :=
  if e.isCapio || e.pointer.isSome then { e with position := e.position + n } else e

def PointedEnd.own (e : PointedEnd) (n : Nat) : Nat := if e.pointer.isSome then 0 else n

section

variable {k : Kernel} {e : PointedEnd}

theorem advanced_capio (h : e.isCapio = true) (n : Nat) : e.advanced n = { e with position := e.position + n } := by
  unfold PointedEnd.advanced
  rw [h, Bool.true_or, if_pos rfl]

section

variable (e : PointedEnd)

theorem advanced_advanced (m n : Nat) : (e.advanced m).advanced n = e.advanced (m + n) := by
  grind [PointedEnd.advanced]

theorem advanced_zero : e.advanced 0 = e := by
  unfold PointedEnd.advanced
  rw [Nat.cast_zero, Int.add_zero, ite_self]

@[simp] theorem advanced_isCapio (n : Nat) : (e.advanced n).isCapio = e.isCapio := by
  unfold PointedEnd.advanced
  split <;> rfl

@[simp] theorem advanced_pointer (n : Nat) : (e.advanced n).pointer = e.pointer := by
  unfold PointedEnd.advanced
  split <;> rfl

@[simp] theorem advanced_fd (n : Nat) : (e.advanced n).fd = e.fd := by
  unfold PointedEnd.advanced
  split <;> rfl

@[simp] theorem advanced_saved (n : Nat) : (e.advanced n).savedFdOffset = e.savedFdOffset := by
  unfold PointedEnd.advanced
  split <;> rfl

end

def PointedEnd.at (e : PointedEnd) (f : KernelFile) : Nat := if e.pointer.isSome then e.position.toNat else f.offset

theorem pointed (h : e.pointer.isSome = true) (f : KernelFile) (n : Nat) : e.at f = e.position.toNat ∧
    e.own n = 0 ∧ e.advanced n = { e with position := e.position + n } :=
  ⟨if_pos h, if_pos h, if_pos (by rw [h, Bool.or_true])⟩

theorem unpointed (hKernel : e.isCapio = false) (h : ¬ e.pointer.isSome = true) (f : KernelFile) (n : Nat) :
    e.at f = f.offset ∧ e.own n = n ∧ e.advanced n = e :=
  ⟨if_neg h, if_neg h, if_neg (by simp [hKernel, h])⟩

theorem read_end (hIn : s.copyIn.isCapio = false) (hCount : 0 < count) :
    Returns (capioCopyFileRangeRead g k s count) (fun r =>
      r.1 < 0 ∧ r.2.2 = { s with world := s.world.next } ∧
        (∃ errno, k.transfers s.world.calls = .fails errno) ∨
      ∃ n : Nat, r.1 = n ∧ n ≤ count ∧
        r.2.1 = (s.world.kernel.content.drop (s.copyIn.at s.world.kernel)).take n ∧
        n ≤ (s.world.kernel.content.drop (s.copyIn.at s.world.kernel)).length ∧
        r.2.2 = { s with
          copyIn := s.copyIn.advanced n
          world := { s.world.next with kernel := s.world.kernel.moved (s.copyIn.own n) } } ∧
        (n = 0 → k.transfers s.world.calls = .moves 0 ∨
          s.world.kernel.content.length ≤ s.copyIn.at s.world.kernel)) := by
  unfold capioCopyFileRangeRead
  rw [if_neg (Bool.eq_false_iff.mp hIn)]
  by_cases hPointer : s.copyIn.pointer.isSome = true
  · obtain ⟨hAt, -, -⟩ := pointed hPointer s.world.kernel 0
    rw [if_pos hPointer, hAt]
    rcases pread64_cases (k := k) (w := s.world) count s.copyIn.position.toNat with
      ⟨errno, hFails, hCall⟩ | ⟨n, hn, hLength, hCall, hZero⟩
    · have hNeg := code_neg errno
      rw [hCall]
      exact .inl ⟨hNeg, rfl, errno, hFails⟩
    · obtain ⟨-, hOwn, hAdvanced⟩ := pointed hPointer s.world.kernel n
      rw [hCall]
      refine .inr ⟨n, rfl, hn, rfl, hLength, ?_, fun hNone => hZero hNone hCount⟩
      rw [hOwn, hAdvanced]
      rcases Nat.eq_zero_or_pos n with rfl | hPos
      · rw [if_neg (by simp), Nat.cast_zero, Int.add_zero]
        rfl
      · rw [if_pos (Int.natCast_pos.mpr hPos)]
        rfl
  · obtain ⟨hAt, -, -⟩ := unpointed hIn hPointer s.world.kernel 0
    rw [if_neg hPointer, hAt]
    unfold read
    rcases pread64_cases (k := k) (w := s.world) count s.world.kernel.offset with
      ⟨errno, hFails, hCall⟩ | ⟨n, hn, hLength, hCall, hZero⟩
    · have hNeg := code_neg errno
      rw [hCall]
      dsimp only
      exact .inl ⟨hNeg, rfl, errno, hFails⟩
    · obtain ⟨-, hOwn, hAdvanced⟩ := unpointed hIn hPointer s.world.kernel n
      rw [hCall]
      refine .inr ⟨n, rfl, hn, rfl, hLength, ?_, fun hNone => hZero hNone hCount⟩
      dsimp only
      rw [hOwn, hAdvanced, Int.toNat_natCast]
      rfl

theorem write_end (hOut : s.copyOut.isCapio = false) (hBytes : bytes ≠ []) :
    Returns (capioCopyFileRangeWrite g k s bytes) (fun r =>
      r.1 ≤ 0 ∧ r.2 = { s with world := s.world.next } ∧
        ((∃ errno, k.transfers s.world.calls = .fails errno) ∨ k.transfers s.world.calls = .moves 0) ∨
      ∃ n : Nat, r.1 = n ∧ 0 < n ∧ n ≤ bytes.length ∧ r.2 = { s with
        copyOut := s.copyOut.advanced n
        world := { s.world.next with
          kernel := (s.world.kernel.store (s.copyOut.at s.world.kernel) (bytes.take n)).moved (s.copyOut.own n) } }) := by
  unfold capioCopyFileRangeWrite
  rw [if_neg (Bool.eq_false_iff.mp hOut)]
  by_cases hPointer : s.copyOut.pointer.isSome = true
  · obtain ⟨hAt, -, -⟩ := pointed hPointer s.world.kernel 0
    rw [if_pos hPointer, hAt]
    rcases pwrite64_cases (k := k) (w := s.world) bytes s.copyOut.position.toNat with
      ⟨errno, hFails, hCall⟩ | ⟨n, hn, hCall, hZero⟩
    · have hNeg := code_neg errno
      rw [hCall]
      dsimp only
      exact .inl ⟨hNeg.le, rfl, .inl ⟨errno, hFails⟩⟩
    · obtain ⟨-, hOwn, hAdvanced⟩ := pointed hPointer s.world.kernel n
      rw [hCall]
      dsimp only
      rcases Nat.eq_zero_or_pos n with rfl | hPos
      · exact .inl ⟨Int.le_refl 0, rfl, .inr (hZero rfl hBytes)⟩
      · rw [if_pos (Int.natCast_pos.mpr hPos)]
        refine .inr ⟨n, rfl, hPos, hn, ?_⟩
        rw [hOwn, hAdvanced]
        rfl
  · obtain ⟨hAt, -, -⟩ := unpointed hOut hPointer s.world.kernel 0
    rw [if_neg hPointer, hAt]
    unfold write
    rcases pwrite64_cases (k := k) (w := s.world) bytes s.world.kernel.offset with
      ⟨errno, hFails, hCall⟩ | ⟨n, hn, hCall, hZero⟩
    · have hNeg := code_neg errno
      rw [hCall]
      dsimp only
      exact .inl ⟨hNeg.le, rfl, .inl ⟨errno, hFails⟩⟩
    · obtain ⟨-, hOwn, hAdvanced⟩ := unpointed hOut hPointer s.world.kernel n
      rw [hCall]
      dsimp only
      rw [Int.toNat_natCast]
      rcases Nat.eq_zero_or_pos n with rfl | hPos
      · exact .inl ⟨Int.le_refl 0, rfl, .inr (hZero rfl hBytes)⟩
      · refine .inr ⟨n, rfl, hPos, hn, ?_⟩
        rw [hOwn, hAdvanced]

theorem own_add (e : PointedEnd) (m n : Nat) : e.own (m + n) = e.own m + e.own n := by
  unfold PointedEnd.own
  split <;> rfl

theorem at_advanced {f f0 : KernelFile} (hKernel : e.isCapio = false) (hPosition : 0 ≤ e.position)
    (hOffset : e.pointer = none → e.position = f0.offset) (hMoved : f.offset = f0.offset + e.own n) :
    (e.advanced n).at f = e.position.toNat + n := by
  by_cases hPointer : e.pointer.isSome = true
  · obtain ⟨-, -, hAdvanced⟩ := pointed hPointer f n
    rw [hAdvanced, PointedEnd.at, if_pos hPointer]
    dsimp only
    omega
  · obtain ⟨hAt, hOwn, hAdvanced⟩ := unpointed hKernel hPointer f n
    simp_all

end

section

variable {k : Kernel} {w : World} {i j : Nat}

structure IsEnd (w : World) (fd : Fd) (pointer : Option Nat) (e : PointedEnd) : Prop where
  sameFd : e.fd = fd
  isCapio : e.isCapio = w.isCapio fd
  samePointer : e.pointer = pointer
  position : e.position = w.position fd pointer
  saved : e.isCapio = true → e.savedFdOffset = w.fdOffset fd

structure Between (c : Call) (w : World) (a b : PointedEnd) : Prop where
  copyIn : IsEnd w c.fdIn c.offIn a
  copyOut : IsEnd w c.fdOut c.offOut b
  positionIn : 0 ≤ a.position
  positionOut : 0 ≤ b.position
  one : w.isCapio c.fdIn ≠ w.isCapio c.fdOut

theorem Between.kernelOut (h : Between c w a b) (hRole : w.isCapio c.fdIn = true) : w.isCapio c.fdOut = false := by
  have hOne := h.one
  rw [hRole] at hOne
  exact Bool.eq_false_iff.mpr hOne.symm

theorem Between.capioOut (h : Between c w a b) (hRole : w.isCapio c.fdIn = false) : w.isCapio c.fdOut = true := by
  have hOne := h.one
  rw [hRole] at hOne
  exact (Bool.not_eq_false _).mp hOne.symm

def Call.capioFd (c : Call) (w : World) : Fd := if w.isCapio c.fdIn then c.fdIn else c.fdOut

def Call.kernelMove (c : Call) (w : World) (a b : PointedEnd) (i j : Nat) : Nat :=
  if w.isCapio c.fdIn then b.own j else a.own i

structure Progress (g : Setting) (content : Fd → List Byte) (f : File) (c : Call) (w : World) (a b : PointedEnd)
    (i j : Nat) (s : Copying) : Prop where
  copyIn : s.copyIn = a.advanced i
  copyOut : s.copyOut = b.advanced j
  memory : s.world.memory = w.memory
  calls : w.calls ≤ s.world.calls
  tracks : Tracks (g.serving content) (c.capioFd w) f w.client (capioOutput g c w ((source content c w).take j))
    s.world.client
  faithful : w.isCapio c.fdIn = true → Faithful g.tid content s.world.client.session
  kernel : s.world.kernel = (kernelOutput c w ((source content c w).take j)).moved (c.kernelMove w a b i j)

theorem fdOffset_kernel (h : w.isCapio fd = false) : w.fdOffset fd = w.kernel.offset :=
  if_neg (Bool.eq_false_iff.mp h)

theorem IsEnd.start (h : IsEnd w fd pointer e) (hKernel : w.isCapio fd = false)
    (hPointer : e.pointer = none) : e.position = w.kernel.offset := by
  rw [h.position, ← h.samePointer, hPointer]
  exact fdOffset_kernel hKernel

theorem kernelOutput_kernel (h : Between c w a b) (hRole : w.isCapio c.fdIn = true) (bytes : List Byte) :
    kernelOutput c w bytes = w.kernel.store b.position.toNat bytes := by
  unfold kernelOutput
  rw [h.kernelOut hRole, if_neg Bool.false_ne_true, h.copyOut.position]

theorem kernelOutput_capio (h : Between c w a b) (hRole : w.isCapio c.fdIn = false) (bytes : List Byte) :
    kernelOutput c w bytes = w.kernel := if_pos (h.capioOut hRole)

theorem take_drop_length {l : List Byte} (hj : j < i) (hi : i ≤ l.length) : ((l.drop j).take (i - j)).length = i - j := by
  rw [List.length_take, List.length_drop]
  omega

section

variable (h0 : Between c w a b)
include h0

theorem Progress.read_capio (h : Progress g content f c w a b i i s) (hRole : w.isCapio c.fdIn = true)
    (hi : i ≤ (source content c w).length) (hCount : 0 < count) (hLine : count ≤ g.maxLineSize) :
    Returns (capioCopyFileRangeRead (g.serving content) k s count) (fun r => ∃ n : Nat, r.1 = n ∧ n ≤ count ∧
      r.2.1 = ((source content c w).drop i).take n ∧ i + n ≤ (source content c w).length ∧
      Progress g content f c w a b (i + n) i r.2.2 ∧ (n = 0 → (source content c w).length ≤ i)) := by
  have hEnd : a.isCapio = true := h0.copyIn.isCapio.trans hRole
  have hCapio : s.copyIn.isCapio = true := by rw [h.copyIn, advanced_isCapio, hEnd]
  have hFd : s.copyIn.fd = c.capioFd w := by
    rw [h.copyIn, advanced_fd, h0.copyIn.sameFd, Call.capioFd, if_pos hRole]
  have hPosition : s.copyIn.position = a.position + i := by rw [h.copyIn, advanced_capio hEnd]
  have hNonneg := h0.positionIn
  have hSource : source content c w = (content s.copyIn.fd).drop a.position.toNat := by
    rw [source, if_pos hRole, h.copyIn, advanced_fd, h0.copyIn.sameFd, h0.copyIn.position]
  have hDrop : (content s.copyIn.fd).drop s.copyIn.position.toNat = (source content c w).drop i := by
    rw [hSource, List.drop_drop, hPosition]
    congr 1
    omega
  have hTracks := h.tracks
  rw [← hFd] at hTracks
  unfold capioCopyFileRangeRead
  rw [if_pos hCapio]
  have hSeek := (seek_tracks hTracks rfl).and (seek_faithful (g := g.serving content) (h.faithful hRole)
    hTracks.file (by omega))
  refine hSeek.bind fun w1 ⟨⟨hw1, hTracks1, hOffset⟩, hFaithful⟩ => ?_
  refine (read_tracks hTracks1 hFaithful hOffset hCount hLine).bind ?_
  rintro ⟨_, bytes, client⟩ ⟨n, hn, hLe, hBytes, hLength, hTracks2, hFaithful2, hStop⟩
  subst hn
  rw [hDrop] at hBytes hLength
  rw [List.length_drop] at hLength
  have hWorld : { w1 with client := client } = { s.world with client := client } := by rw [hw1]
  dsimp only
  rw [hWorld]
  refine ⟨n, rfl, hLe, hBytes, by omega, ⟨?_, h.copyOut, h.memory, h.calls, hFd ▸ hTracks2, fun _ => hFaithful2, ?_⟩,
    fun hZero => ?_⟩
  · rw [← advanced_advanced, ← h.copyIn, advanced_capio hCapio]
  · have hKernel := h.kernel
    grind [Call.kernelMove]
  · rw [hSource, List.length_drop]
    omega

theorem Progress.read_kernel (h : Progress g content f c w a b i i s)
    (hRole : w.isCapio c.fdIn = false) (hi : i ≤ (source content c w).length) (hCount : 0 < count) :
    Returns (capioCopyFileRangeRead (g.serving content) k s count) (fun r =>
      r.1 < 0 ∧ Progress g content f c w a b i i r.2.2 ∧ TransferFailed k c w r.2.2.world ∨
      ∃ n : Nat, r.1 = n ∧ n ≤ count ∧ r.2.1 = ((source content c w).drop i).take n ∧
        i + n ≤ (source content c w).length ∧ Progress g content f c w a b (i + n) i r.2.2 ∧
        (n = 0 → (source content c w).length ≤ i ∨ ∃ m, k.transfers m = .moves 0)) := by
  have hEnd : a.isCapio = false := h0.copyIn.isCapio.trans hRole
  have hIn : s.copyIn.isCapio = false := by rw [h.copyIn, advanced_isCapio, hEnd]
  have hNot : ¬ w.isCapio c.fdIn = true := Bool.eq_false_iff.mp hRole
  have hKernel : s.world.kernel = w.kernel.moved (a.own i) := by
    rw [h.kernel, kernelOutput_capio h0 hRole, Call.kernelMove, if_neg hNot]
  have hSource : source content c w = w.kernel.content.drop a.position.toNat := by
    rw [source, if_neg hNot, h0.copyIn.position]
  have hAt : s.copyIn.at s.world.kernel = a.position.toNat + i := by
    rw [h.copyIn]
    exact at_advanced hEnd h0.positionIn (h0.copyIn.start hRole) (hKernel ▸ rfl)
  have hContent : s.world.kernel.content = w.kernel.content := by
    rw [hKernel]
    rfl
  have hDrop : s.world.kernel.content.drop (s.copyIn.at s.world.kernel) = (source content c w).drop i := by
    rw [hAt, hContent, hSource, List.drop_drop]
  have hCalls := h.calls.trans (Nat.le_succ _)
  refine (read_end hIn hCount).imp ?_
  rintro ⟨_, bytes, s'⟩ (⟨hRes, hs', hFails⟩ | ⟨n, hRes, hn, hBytes, hLength, hs', hZero⟩)
  · subst hs'
    exact .inl ⟨hRes, ⟨h.copyIn, h.copyOut, h.memory, hCalls, h.tracks, h.faithful, h.kernel⟩,
      s.world.calls, h.calls, Nat.lt_succ_self _, .inl hFails⟩
  · subst hs'
    rw [hDrop] at hBytes hLength
    rw [List.length_drop] at hLength
    refine .inr ⟨n, hRes, hn, hBytes, by omega, ⟨?_, h.copyOut, h.memory, hCalls, h.tracks, h.faithful, ?_⟩,
      fun hNone => ?_⟩
    · rw [h.copyIn, advanced_advanced]
    · have hOwn : s.copyIn.own n = a.own n := by
        rw [h.copyIn, PointedEnd.own, advanced_pointer, ← PointedEnd.own]
      rw [hOwn, hKernel, moved_moved, ← own_add, kernelOutput_capio h0 hRole, Call.kernelMove, if_neg hNot]
    · rcases hZero hNone with hMoves | hStop
      · exact .inr ⟨_, hMoves⟩
      · rw [hAt, hContent] at hStop
        rw [hSource, List.length_drop]
        exact .inl (by omega)

theorem Progress.write_kernel (h : Progress g content f c w a b i j s)
    (hRole : w.isCapio c.fdIn = true) (hj : j < i) (hi : i ≤ (source content c w).length) :
    Returns (capioCopyFileRangeWrite (g.serving content) k s (((source content c w).drop j).take (i - j))) (fun r =>
      r.1 ≤ 0 ∧ Progress g content f c w a b i j r.2 ∧ TransferFailed k c w r.2.world ∨
      ∃ n : Nat, r.1 = n ∧ 0 < n ∧ j + n ≤ i ∧ Progress g content f c w a b i (j + n) r.2) := by
  have hEnd : b.isCapio = false := h0.copyOut.isCapio.trans (h0.kernelOut hRole)
  have hOut : s.copyOut.isCapio = false := by rw [h.copyOut, advanced_isCapio, hEnd]
  have hLength := take_drop_length hj hi
  have hBytes : ((source content c w).drop j).take (i - j) ≠ [] := by
    rw [← List.length_pos_iff, hLength]
    omega
  have hKernel : s.world.kernel = (w.kernel.store b.position.toNat ((source content c w).take j)).moved (b.own j) := by
    rw [h.kernel, kernelOutput_kernel h0 hRole, Call.kernelMove, if_pos hRole]
  have hAt : s.copyOut.at s.world.kernel = b.position.toNat + j := by
    rw [h.copyOut]
    refine at_advanced hEnd h0.positionOut (h0.copyOut.start (h0.kernelOut hRole)) ?_
    rw [hKernel, moved_offset]
  have hCalls := h.calls.trans (Nat.le_succ _)
  refine (write_end hOut hBytes).imp ?_
  rintro ⟨_, s'⟩ (⟨hRes, hs', hFails⟩ | ⟨n, hRes, hPos, hn, hs'⟩)
  · subst hs'
    exact .inl ⟨hRes, ⟨h.copyIn, h.copyOut, h.memory, hCalls, h.tracks, h.faithful, h.kernel⟩,
      s.world.calls, h.calls, Nat.lt_succ_self _, hFails.imp id fun hZero => ⟨hRole, hZero⟩⟩
  · subst hs'
    have hTracks := h.tracks
    have hSame : ∀ bytes, capioOutput g c w bytes = w.client.content g.tid := fun bytes =>
      if_neg (Bool.eq_false_iff.mp (h0.kernelOut hRole))
    rw [hSame] at hTracks
    refine .inr ⟨n, hRes, hPos, by omega, ⟨h.copyIn, ?_, h.memory, hCalls, (hSame _).symm ▸ hTracks, h.faithful, ?_⟩⟩
    · rw [h.copyOut, advanced_advanced]
    · have hTake : (source content c w).take j ++ (((source content c w).drop j).take (i - j)).take n =
          (source content c w).take (j + n) := by
        rw [List.take_take, Nat.min_eq_left (by omega), ← List.take_add]
      have hPrefix : ((source content c w).take j).length = j := by
        rw [List.length_take]
        omega
      have hJoin := store_store w.kernel b.position.toNat ((source content c w).take j)
        ((((source content c w).drop j).take (i - j)).take n)
      rw [hPrefix, hTake] at hJoin
      have hOwn : s.copyOut.own n = b.own n := by
        rw [h.copyOut, PointedEnd.own, advanced_pointer, ← PointedEnd.own]
      rw [hAt, hOwn, hKernel, ← store_moved, hJoin, moved_moved, ← own_add, kernelOutput_kernel h0 hRole,
        Call.kernelMove, if_pos hRole]

theorem Progress.write_capio (h : Progress g content f c w a b i j s)
    (hRole : w.isCapio c.fdIn = false) (hj : j < i) (hi : i ≤ (source content c w).length) :
    Returns (capioCopyFileRangeWrite (g.serving content) k s (((source content c w).drop j).take (i - j))) (fun r =>
      ∃ n : Nat, r.1 = n ∧ 0 < n ∧ j + n ≤ i ∧ Progress g content f c w a b i (j + n) r.2) := by
  have hNot : ¬ w.isCapio c.fdIn = true := Bool.eq_false_iff.mp hRole
  have hEnd : b.isCapio = true := h0.copyOut.isCapio.trans (h0.capioOut hRole)
  have hCapio : s.copyOut.isCapio = true := by rw [h.copyOut, advanced_isCapio, hEnd]
  have hFd : s.copyOut.fd = c.capioFd w := by
    rw [h.copyOut, advanced_fd, h0.copyOut.sameFd, Call.capioFd, if_neg hNot]
  have hPosition : s.copyOut.position = b.position + j := by rw [h.copyOut, advanced_capio hEnd]
  have hNonneg := h0.positionOut
  have hLength := take_drop_length hj hi
  have hTracks := h.tracks
  rw [← hFd] at hTracks
  unfold capioCopyFileRangeWrite
  rw [if_pos hCapio]
  refine (seek_tracks hTracks rfl).bind fun w1 ⟨hw1, hTracks1, hOffset⟩ => ?_
  refine (cachedWrite_wrote hTracks1.sound hTracks1.file hTracks1.turn hOffset (by omega)).bind fun client hClient => ?_
  have hWorld : { w1 with client := client } = { s.world with client := client } := by rw [hw1]
  rw [hWorld, hLength]
  obtain ⟨hSound, hContent, hMoved, hLast, hFiles, hMap⟩ := hClient
  have hPath := (pathOf_congr hMap s.copyOut.fd).trans hTracks1.path
  refine ⟨i - j, rfl, by omega, by omega, ⟨h.copyIn, ?_, h.memory, h.calls, hFd ▸ ⟨hSound, hFiles ▸ hTracks1.file,
    .inr hLast, hFiles.trans hTracks1.files, hPath, ?_⟩, fun hNow => absurd hNow hNot, ?_⟩⟩
  · rw [← advanced_advanced, ← h.copyOut, advanced_capio hCapio]
  · have hOutput : ∀ bytes, capioOutput g c w bytes = update (w.client.content g.tid)
        (pathOf g.tid w.client.session s.copyOut.fd)
        ((w.client.content g.tid (pathOf g.tid w.client.session s.copyOut.fd)).put b.position.toNat bytes) := by
      intro bytes
      rw [capioOutput, if_pos (h0.capioOut hRole), h.copyOut, advanced_fd, h0.copyOut.sameFd, h0.copyOut.position]
    have hPrefix : ((source content c w).take j).length = j := by
      rw [List.length_take]
      omega
    have hStart : s.copyOut.position.toNat = b.position.toNat + ((source content c w).take j).length := by omega
    rw [hContent, hTracks1.content, hTracks1.path, hOutput, hOutput]
    dsimp only [Setting.serving]
    rw [update_self, update_idem, hStart, put_append, ← List.take_add]
  · have hKernel := h.kernel
    rw [kernelOutput_capio h0 hRole] at hKernel ⊢
    unfold Call.kernelMove at hKernel ⊢
    rw [if_neg hNot] at hKernel ⊢
    exact hKernel

theorem Progress.unread (h : Progress g content f c w a b i j s) (hj : j < i) :
    Progress g content f c w a b j j (capioCopyFileRangeUnread s (i - j)) ∧
      (TransferFailed k c w s.world → TransferFailed k c w (capioCopyFileRangeUnread s (i - j)).world) := by
  have hKernel := h.kernel
  unfold Call.kernelMove at hKernel
  by_cases hPositioned : (a.isCapio || a.pointer.isSome) = true
  · have hUnread : capioCopyFileRangeUnread s (i - j) = { s with copyIn := a.advanced j } := by
      grind [capioCopyFileRangeUnread, PointedEnd.advanced, h.copyIn]
    rw [hUnread]
    refine ⟨⟨rfl, h.copyOut, h.memory, h.calls, h.tracks, h.faithful, ?_⟩, id⟩
    unfold Call.kernelMove
    split at hKernel
    · next hRole => exact hKernel.trans (if_pos hRole ▸ rfl)
    · next hRole =>
      have hPointer : a.pointer.isSome = true := by
        rw [h0.copyIn.isCapio, Bool.eq_false_iff.mpr hRole, Bool.false_or] at hPositioned
        exact hPositioned
      grind [PointedEnd.own]
  · have hRole : ¬ w.isCapio c.fdIn = true := by
      grind [h0.copyIn.isCapio]
    have hPointer : ¬ a.pointer.isSome = true := fun hSome => hPositioned (by rw [hSome, Bool.or_true])
    have hStays : ∀ n, a.advanced n = a := fun n => if_neg hPositioned
    have hIn := h.copyIn
    rw [hStays] at hIn
    rw [if_neg hRole, PointedEnd.own, if_neg hPointer] at hKernel
    unfold capioCopyFileRangeUnread
    rw [hIn, if_neg hPositioned]
    refine ⟨⟨(hStays j).symm, h.copyOut, h.memory, h.calls, h.tracks, h.faithful, ?_⟩, id⟩
    grind [KernelFile.movedBack, KernelFile.moved, Call.kernelMove, PointedEnd.own]

theorem progress_moves (hChunk : chunk ≤ g.maxLineSize) :
    Moves (capioCopyFileRangeRead (g.serving content) k) (capioCopyFileRangeWrite (g.serving content) k)
      capioCopyFileRangeUnread chunk (source content c w) (Progress g content f c w a b)
      (fun s => TransferFailed k c w s.world)
      (fun i => (source content c w).length ≤ i ∨ ∃ m, k.transfers m = .moves 0) fun _ => False where
  read _ _ _ h hi hCount hLe := by
    cases hRole : w.isCapio c.fdIn with
    | true =>
      refine (h.read_capio h0 hRole hi hCount (hLe.trans hChunk)).imp ?_
      grind
    | false => exact h.read_kernel h0 hRole hi hCount
  write _ _ _ h hj hi := by
    cases hRole : w.isCapio c.fdIn with
    | true => exact h.write_kernel h0 hRole hj hi
    | false => exact (h.write_capio h0 hRole hj hi).imp fun _ => .inr
  unread _ _ _ h hj := h.unread h0 hj

end

theorem throughBuffer_ends {Failed : Copying → Prop} {Ended : Nat → Prop} {source : List Byte}
    {s0 : Copying}
    (hMoves : Moves (capioCopyFileRangeRead g k) (capioCopyFileRangeWrite g k) capioCopyFileRangeUnread
      (min count g.maxLineSize) source I Failed Ended fun _ => False) (hStart : I 0 0 s0)
    (hUnmapped : I 0 0 { s0 with world := { s0.world with unmapped := s0.world.unmapped + 1 } }) :
    Returns (capioCopyFileRangeThroughBuffer g k s0 count) (fun r => r.1 ≤ count ∧ r.1 ≤ source.length ∧
      I r.1 r.1 r.2.2 ∧ (r.2.1 < 0 → s0.world.unmapped < r.2.2.world.unmapped ∨ Failed r.2.2) ∧
      (min count g.maxLineSize = 0 → r.1 = 0) ∧
      (k.maps = true → 0 < min count g.maxLineSize → r.1 < count → Failed r.2.2 ∨ Ended r.1)) := by
  unfold capioCopyFileRangeThroughBuffer
  refine .ite (fun hNone => ?_) fun hSome => ?_
  · refine ⟨Nat.zero_le _, Nat.zero_le _, hUnmapped, fun _ => .inl (Nat.lt_succ_self _), fun _ => rfl,
      fun hMaps hChunk => ?_⟩
    simp only [hMaps, Bool.not_true, Bool.false_or, beq_iff_eq] at hNone
    omega
  · have hChunk : 0 < min count g.maxLineSize := by
      simp only [Bool.or_eq_true, beq_iff_eq, not_or] at hSome
      omega
    refine (copyThrough_ends hMoves (by decide) hChunk hStart (Nat.zero_le _) (Nat.le_refl count)).imp ?_
    grind

end

def bumped (memory : Nat → Int) (pointer : Option Nat) (n : Nat) : Nat → Int :=
  match pointer with
  | some a => update memory a (memory a + n)
  | none => memory

section

variable {fd : Fd} {w : World}

def PointedEnd.target (e : PointedEnd) : Int := if e.pointer.isSome then e.savedFdOffset else e.position

variable {fd : Fd} {client : StoredBytes.Client}

theorem finish_kernel (hKernel : e.isCapio = false) (n : Nat) :
    capioCopyFileRangeFinish g w e n = .ok { w with memory := bumped w.memory e.pointer n } := by
  unfold capioCopyFileRangeFinish
  rw [hKernel]
  cases e.pointer with
  | none => rfl
  | some a => rfl

theorem finish_capio (h : Tracks g fd f c0 m w.client) (hFd : e.fd = fd) (hCapio : e.isCapio = true) (n : Nat) :
    Returns (capioCopyFileRangeFinish g w e n) (fun w' =>
      w' = { w with memory := bumped w.memory e.pointer n, client := w'.client } ∧
        Tracks g fd f c0 m w'.client ∧ w'.client.session.offset fd = .ok e.target) := by
  unfold capioCopyFileRangeFinish PointedEnd.target
  cases hPointer : e.pointer with
  | none =>
    rw [if_pos hCapio, isSome_none, if_neg Bool.false_ne_true]
    exact seek_tracks h hFd
  | some a =>
    dsimp only
    rw [if_pos hCapio, isSome_some, if_pos rfl]
    exact seek_tracks (w := { w with memory := update w.memory a (w.memory a + n) })
      (e := { e with position := e.savedFdOffset }) h hFd

theorem finishBoth_ends (h : Tracks g fd f c0 m s.world.client)
    (hEnd : s.copyIn.isCapio = true ∧ s.copyOut.isCapio = false ∧ e = s.copyIn ∨
      s.copyIn.isCapio = false ∧ s.copyOut.isCapio = true ∧ e = s.copyOut) (hFd : e.fd = fd) (n : Nat) :
    Returns (finishBoth g s n) (fun w' => w' = { s.world with
        memory := bumped (bumped s.world.memory s.copyIn.pointer n) s.copyOut.pointer n
        client := w'.client } ∧
      Tracks g fd f c0 m w'.client ∧ w'.client.session.offset fd = .ok e.target) := by
  rcases hEnd with ⟨hIn, hOut, rfl⟩ | ⟨hIn, hOut, rfl⟩
  · refine .ite (fun hNone => ?_) fun _ => ?_
    · rw [finish_kernel hOut, ends_ok_bind]
      rw [isNone_iff_eq_none] at hNone
      have hFinish := finish_capio (w := { s.world with memory := bumped s.world.memory s.copyOut.pointer n }) h hFd hIn n
      rwa [hNone] at hFinish ⊢
    · refine (finish_capio h hFd hIn n).bind fun w hw => ?_
      rw [finish_kernel hOut]
      obtain ⟨hEq, hTracks, hOffset⟩ := hw
      refine ⟨?_, hTracks, hOffset⟩
      rw [hEq]
  · refine .ite (fun hNone => ?_) fun _ => ?_
    · refine (finish_capio h hFd hOut n).bind fun w hw => ?_
      rw [finish_kernel hIn]
      obtain ⟨hEq, hTracks, hOffset⟩ := hw
      rw [isNone_iff_eq_none] at hNone
      refine ⟨?_, hTracks, hOffset⟩
      rw [hNone, hEq]
      rfl
    · rw [finish_kernel hIn, ends_ok_bind]
      exact finish_capio (w := { s.world with memory := bumped s.world.memory s.copyIn.pointer n }) h hFd hOut n

end

section

variable {k : Kernel} {w : World}

theorem refusal_none (h : CopyFileRange.refusal a b len flags = none) :
    flags = 0 ∧ a.isOpen = true ∧ b.isOpen = true ∧ 0 ≤ a.position ∧ 0 ≤ b.position := by
  unfold CopyFileRange.refusal at h
  split_ifs at h with hFlags hIn hOut hDir hRegular hReadable hWritable hWraps hNegative
  grind

theorem end_kernel (hKernel : w.isCapio fd = false) (pointer : Option Nat) :
    capioCopyFileRangeEnd g attributes w fd pointer = .ok (endOf attributes w fd pointer, w) := by
  unfold World.isCapio at hKernel
  unfold capioCopyFileRangeEnd endOf World.isCapio
  rw [hKernel, if_neg Bool.false_ne_true, if_neg Bool.false_ne_true]
  rfl

theorem end_capio (h : Sound g w.client) (hCapio : w.isCapio fd = true) (pointer : Option Nat) :
    Returns (capioCopyFileRangeEnd g attributes w fd pointer) (fun r => r.1 = endOf attributes w fd pointer ∧
      r.2 = { w with client := r.2.client } ∧ Flushed g w.client r.2.client) := by
  obtain ⟨f, hf⟩ := isSome_iff_exists.mp hCapio
  have hSome : (w.client.session.files fd).isSome = true := hCapio
  unfold capioCopyFileRangeEnd endOf World.fdOffset
  rw [if_pos hCapio, if_pos hCapio, if_pos hSome]
  refine (flushWrite_flushed h).bind fun client hClient => ?_
  have hSame : client.session.offset fd = w.client.session.offset fd := by
    unfold Session.offset
    rw [hClient.session.files, hClient.session.offsets]
  obtain ⟨cell, o, hAt⟩ := h.agrees.at hf
  rw [hSame, offset_eq hAt, ends_ok_bind]
  exact ⟨rfl, rfl, hClient⟩

theorem endOf_isEnd (hOpen : (endOf attributes w fd pointer).isOpen = true) :
    IsEnd w fd pointer (endOf attributes w fd pointer) := by
  unfold endOf at hOpen ⊢
  by_cases hCapio : w.isCapio fd = true
  · rw [if_pos hCapio]
    exact ⟨rfl, hCapio.symm, rfl, rfl, fun _ => rfl⟩
  · rw [if_neg hCapio] at hOpen ⊢
    unfold kernelEnd at hOpen ⊢
    by_cases hKernel : w.kernel.isOpen = true
    · rw [if_pos hKernel]
      refine ⟨rfl, (Bool.not_eq_true _ ▸ hCapio).symm, rfl, ?_, fun hNot => absurd hNot Bool.false_ne_true⟩
      unfold World.position World.fdOffset
      rw [if_neg hCapio]
    · rw [if_neg hKernel] at hOpen
      cases hOpen

structure Moved (g : Setting) (content : Fd → List Byte) (c : Call) (w : World) (n : Nat) (w' : World) : Prop where
  bytes : n ≤ (source content c w).length
  client : w'.client.content g.tid = capioOutput g c w ((source content c w).take n)
  kernel : w'.kernel = { kernelOutput c w ((source content c w).take n) with offset := w'.kernel.offset }
  offsetIn : w'.fdOffset c.fdIn = w.fdOffset c.fdIn + (if c.offIn.isSome then 0 else n : Nat)
  offsetOut : w'.fdOffset c.fdOut = w.fdOffset c.fdOut + (if c.offOut.isSome then 0 else n : Nat)
  memory : w'.memory = bumped (bumped w.memory c.offIn n) c.offOut n
  agrees : Agrees g.tid w'.client.session

theorem bumped_zero (memory : Nat → Int) (pointer : Option Nat) : bumped memory pointer 0 = memory := by
  cases pointer with
  | none => rfl
  | some a => simp [bumped]

theorem bumped_self (memory : Nat → Int) (a n : Nat) : bumped memory (some a) n a = memory a + n :=
  update_self a _ memory

theorem bumped_of_ne (memory : Nat → Int) (h : pointer ≠ some a) (n : Nat) :
    bumped memory pointer n a = memory a := by
  cases pointer with
  | none => rfl
  | some b => exact update_of_ne (fun hEq => h (congrArg some hEq.symm)) _ memory

theorem Moved.exactly (h : Moved g content c w n w') (hApart : c.offIn = c.offOut → c.offIn = none ∨ n = 0) :
    MovesExactly g content c w n w' := by
  have hMemory := h.memory
  have hIn := h.offsetIn
  have hOut := h.offsetOut
  refine ⟨h.bytes, h.client, h.kernel, ?_, ?_, fun a hNotIn hNotOut => ?_, h.agrees⟩
  · cases hPointer : c.offIn with
    | none =>
      rw [hPointer] at hIn
      exact hIn
    | some a =>
      rw [hPointer] at hIn hMemory hApart
      refine ⟨?_, hIn.trans (Int.add_zero _)⟩
      by_cases hSame : c.offOut = some a
      · grind [bumped_zero]
      · rw [hMemory, bumped_of_ne _ hSame, bumped_self]
  · cases hPointer : c.offOut with
    | none =>
      rw [hPointer] at hOut
      exact hOut
    | some a =>
      rw [hPointer] at hOut hMemory hApart
      refine ⟨?_, hOut.trans (Int.add_zero _)⟩
      rw [hMemory, bumped_self]
      by_cases hSame : c.offIn = some a
      · obtain hNone | rfl := hApart hSame
        · rw [hSame] at hNone
          cases hNone
        · rw [bumped_zero]
      · rw [bumped_of_ne _ hSame]
  · rw [hMemory, bumped_of_ne _ hNotOut, bumped_of_ne _ hNotIn]

theorem Moved.twice (h : Moved g content c w n w') (hIn : c.offIn = some a) (hOut : c.offOut = some a) :
    w'.memory a = w.memory a + n + n := by
  rw [h.memory, hIn, hOut, bumped_self, bumped_self]

def Kernel.Unlimited (k : Kernel) : Prop := k.maps = true ∧ ∀ i, ∃ most, k.transfers i = .moves (most + 1)

def Copies (g : Setting) (content : Fd → List Byte) (pageSize : Nat) (k : Kernel) (c : Call) (w : World)
    (r : CopyFileRange.Answer × World) : Prop :=
  ∃ n, Moved g content c w n r.2 ∧
    (r.1 = .copied n ∨ n = 0 ∧ (∃ e, r.1 = .failed e) ∧ SomethingFailed k c w r.2) ∧
    (chunkOf g pageSize c = 0 → n = 0) ∧
    (k.Unlimited → 0 < chunkOf g pageSize c → n = 0 → source content c w = [])

theorem own_zero (e : PointedEnd) : e.own 0 = 0 := by
  unfold PointedEnd.own
  rw [ite_self]

theorem flushed_faithful (hPrior : Prior g content c w)
    (h : Flushed (g.serving content) w.client client) : Faithful g.tid content client.session := by
  have hRead := h.session.read
  have hLeft : client.session.leftover = w.client.session.leftover := by
    unfold Session.leftover
    rw [hRead]
  have hOffset : ∀ fd, client.session.offset fd = w.client.session.offset fd := by
    intro fd
    unfold Session.offset
    rw [h.session.files, h.session.offsets]
  refine ⟨h.sound.agrees, h.session.actualSize, h.session.queue.trans hPrior.queue, ?_, hRead ▸ hPrior.start, ?_⟩
  · rw [h.session.offsets]
    exact hPrior.natural
  · intro o ho
    rw [hRead, hOffset] at ho
    obtain ⟨hStart, hLength, hBytes⟩ := hPrior.caching o ho
    rw [hRead]
    exact ⟨hRead ▸ hStart, hLeft ▸ hLength, hLeft ▸ hRead ▸ hBytes⟩

theorem IsEnd.target (h : IsEnd w fd pointer e) (hCapio : w.isCapio fd = true) (n : Nat) :
    (e.advanced n).target = w.fdOffset fd + (if pointer.isSome then 0 else n : Nat) := by
  have hIs : e.isCapio = true := h.isCapio.trans hCapio
  unfold PointedEnd.target
  rw [advanced_pointer, h.samePointer, advanced_saved, h.saved hIs, advanced_capio hIs, h.position]
  cases pointer with
  | none => rfl
  | some a => exact (Int.add_zero _).symm

theorem fdOffset_capio (hCapio : w.isCapio fd = true) (hOffset : w.client.session.offset fd = .ok o) :
    w.fdOffset fd = o := by
  unfold World.fdOffset
  rw [if_pos hCapio, hOffset]
  rfl

theorem Progress.finish (h0 : Between c w a b) (h : Progress g content f c w a b n n s)
    (hn : n ≤ (source content c w).length) :
    Returns (finishBoth (g.serving content) s n) (fun w' => Moved g content c w n w' ∧
      w'.calls = s.world.calls ∧ w'.unmapped = s.world.unmapped) := by
  have hMemory : s.world.memory = w.memory ∧ s.copyIn.pointer = c.offIn ∧ s.copyOut.pointer = c.offOut := by
    rw [h.copyIn, h.copyOut, advanced_pointer, advanced_pointer]
    exact ⟨h.memory, h0.copyIn.samePointer, h0.copyOut.samePointer⟩
  -- the offset of the descriptor of CAPIO is that of the end, and the other one is in the file of the kernel
  have hFinish : ∀ e, (s.copyIn.isCapio = true ∧ s.copyOut.isCapio = false ∧ e = s.copyIn ∨
      s.copyIn.isCapio = false ∧ s.copyOut.isCapio = true ∧ e = s.copyOut) → e.fd = c.capioFd w →
      (∀ w' : World, w'.kernel = s.world.kernel → w'.client.session.files = w.client.session.files →
        w'.client.session.offset (c.capioFd w) = .ok e.target →
        w'.fdOffset c.fdIn = w.fdOffset c.fdIn + (if c.offIn.isSome then 0 else n : Nat) ∧
        w'.fdOffset c.fdOut = w.fdOffset c.fdOut + (if c.offOut.isSome then 0 else n : Nat)) →
      Returns (finishBoth (g.serving content) s n) (fun w' => Moved g content c w n w' ∧
        w'.calls = s.world.calls ∧ w'.unmapped = s.world.unmapped) := by
    intro e hEnds hFd hOffsets
    refine (finishBoth_ends h.tracks hEnds hFd n).imp ?_
    rintro w' ⟨hw', hTracks, hOffset⟩
    have hKernel : w'.kernel = s.world.kernel := by rw [hw']
    obtain ⟨hIn, hOut⟩ := hOffsets w' hKernel hTracks.files hOffset
    refine ⟨⟨hn, hTracks.content, ?_, hIn, hOut, ?_, hTracks.sound.agrees⟩, by rw [hw'], by rw [hw']⟩
    · rw [hKernel, h.kernel]
      rfl
    · rw [hw', hMemory.1, hMemory.2.1, hMemory.2.2]
  have hSame : ∀ {w' : World} {fd : Fd}, w'.client.session.files = w.client.session.files →
      w'.isCapio fd = w.isCapio fd := fun hFiles => by rw [World.isCapio, hFiles, ← World.isCapio]
  have hMove := h.kernel
  unfold Call.kernelMove at hMove
  cases hRole : w.isCapio c.fdIn with
  | true =>
    have hOut := h0.kernelOut hRole
    have hFd : c.capioFd w = c.fdIn := if_pos hRole
    rw [if_pos hRole, kernelOutput_kernel h0 hRole] at hMove
    refine hFinish s.copyIn (.inl ⟨?_, ?_, rfl⟩) ?_ fun w' hKernel hFiles hOffset => ⟨?_, ?_⟩
    · rw [h.copyIn, advanced_isCapio, h0.copyIn.isCapio, hRole]
    · rw [h.copyOut, advanced_isCapio, h0.copyOut.isCapio, hOut]
    · rw [hFd, h.copyIn, advanced_fd, h0.copyIn.sameFd]
    · rw [fdOffset_capio ((hSame hFiles).trans hRole) (hFd ▸ hOffset), h.copyIn]
      exact h0.copyIn.target hRole n
    · rw [fdOffset_kernel ((hSame hFiles).trans hOut), fdOffset_kernel hOut, hKernel, hMove, moved_offset, PointedEnd.own,
        h0.copyOut.samePointer, Int.natCast_add]
  | false =>
    have hOut := h0.capioOut hRole
    have hNot : ¬ w.isCapio c.fdIn = true := Bool.eq_false_iff.mp hRole
    have hFd : c.capioFd w = c.fdOut := if_neg hNot
    rw [if_neg hNot, kernelOutput_capio h0 hRole] at hMove
    refine hFinish s.copyOut (.inr ⟨?_, ?_, rfl⟩) ?_ fun w' hKernel hFiles hOffset => ⟨?_, ?_⟩
    · rw [h.copyIn, advanced_isCapio, h0.copyIn.isCapio, hRole]
    · rw [h.copyOut, advanced_isCapio, h0.copyOut.isCapio, hOut]
    · rw [hFd, h.copyOut, advanced_fd, h0.copyOut.sameFd]
    · rw [fdOffset_kernel ((hSame hFiles).trans hRole), fdOffset_kernel hRole, hKernel, hMove, KernelFile.moved,
        PointedEnd.own, h0.copyIn.samePointer]
      exact Int.natCast_add _ _
    · rw [fdOffset_capio ((hSame hFiles).trans hOut) (hFd ▸ hOffset), h.copyOut]
      exact h0.copyOut.target hOut n

theorem outputs_nothing (c : Call) (w : World) :
    capioOutput g c w [] = w.client.content g.tid ∧ kernelOutput c w [] = w.kernel := by
  unfold capioOutput kernelOutput
  dsimp only
  rw [put_nil, update_eq_self, ite_self]
  exact ⟨rfl, ite_self _⟩

theorem unmoved (hFlushed : Flushed (g.serving content) w.client client) :
    Moved g content c w 0 { w with client := client } := by
  have hSession : ∀ fd, World.fdOffset { w with client := client } fd = w.fdOffset fd := by
    intro fd
    unfold World.fdOffset World.isCapio Session.offset
    dsimp only
    rw [hFlushed.session.files, hFlushed.session.offsets]
  obtain ⟨hCapio, hKernel⟩ := outputs_nothing (g := g) c w
  refine ⟨Nat.zero_le _, ?_, ?_, ?_, ?_, ?_, hFlushed.sound.agrees⟩
  · rw [List.take_zero, hCapio]
    exact hFlushed.content
  · rw [List.take_zero, hKernel]
  · rw [hSession, ite_self]
    exact (Int.add_zero _).symm
  · rw [hSession, ite_self]
    exact (Int.add_zero _).symm
  · rw [bumped_zero, bumped_zero]

theorem progress_start (hPrior : Prior g content c w)
    (hFlushed : Flushed (g.serving content) w.client client)
    (hf : w.client.session.files (c.capioFd w) = some f) (m : Nat) :
    Progress g content f c w a b 0 0 ⟨a, b, { w with client := client, unmapped := w.unmapped + m }⟩ := by
  obtain ⟨hCapio, hKernel⟩ := outputs_nothing (g := g) c w
  refine ⟨(advanced_zero a).symm, (advanced_zero b).symm, rfl, Nat.le_refl _, ⟨hFlushed.sound, ?_,
    .inl hFlushed.session.actualSize, hFlushed.session.files, pathOf_congr hFlushed.map _, ?_⟩,
    fun _ => flushed_faithful hPrior hFlushed, ?_⟩
  · exact hFlushed.session.files ▸ hf
  · rw [List.take_zero, hCapio]
    exact hFlushed.content
  · rw [List.take_zero, hKernel, Call.kernelMove, own_zero, own_zero, ite_self]
    rfl

theorem Kernel.Unlimited.transfers (h : k.Unlimited) (i : Nat) :
    (¬ ∃ errno, k.transfers i = .fails errno) ∧ k.transfers i ≠ .moves 0 := by
  obtain ⟨most, hMost⟩ := h.2 i
  grind

theorem copies (h0 : Between c w a b) (hPrior : Prior g content c w)
    (hFlushed : Flushed (g.serving content) w.client client)
    (hf : w.client.session.files (c.capioFd w) = some f) :
    Returns (copyAndFinish (g.serving content) k pageSize a b c.len { w with client := client })
      (Copies g content pageSize k c w) := by
  refine .ite (fun hZero => ?_) fun _ => ?_
  · refine ⟨0, unmoved hFlushed, .inl rfl, fun _ => rfl, fun _ hChunk => ?_⟩
    unfold chunkOf at hChunk
    omega
  refine (throughBuffer_ends (progress_moves h0 (Nat.min_le_right _ _)) (progress_start hPrior hFlushed hf 0)
    (progress_start hPrior hFlushed hf 1)).bind ?_
  rintro ⟨n, error, s⟩ ⟨hLe, hItems, hs, hFailed, hNothing, hShort⟩
  dsimp only at hLe hItems hs hFailed hNothing hShort ⊢
  refine (hs.finish h0 hItems).bind fun w' ⟨hw', hCalls, hMappings⟩ => ?_
  have hLeast : k.Unlimited → 0 < chunkOf g pageSize c → n = 0 → source content c w = [] := by
    rintro hUnlimited hChunk rfl
    unfold chunkOf at hChunk
    rcases hShort hUnlimited.1 hChunk (by omega) with ⟨i, -, -, hFails | ⟨-, hZero⟩⟩ | hEnd | ⟨m, hStops⟩
    · exact absurd hFails (hUnlimited.transfers i).1
    · exact absurd hZero (hUnlimited.transfers i).2
    · exact List.length_eq_zero_iff.mp (Nat.le_zero.mp hEnd)
    · exact absurd hStops (hUnlimited.transfers m).2
  refine .ite (fun hCode => ?_) fun _ => ⟨n, hw', .inl rfl, hNothing, hLeast⟩
  refine ⟨n, hw', .inr ⟨hCode.1, ⟨_, rfl⟩, ?_⟩, hNothing, hLeast⟩
  dsimp only
  rcases hFailed hCode.2 with hMapping | hTransfer
  · exact .inl (hMappings ▸ hMapping)
  · unfold TransferFailed at hTransfer
    rw [← hCalls] at hTransfer
    exact .inr hTransfer

theorem endOf_congr (hWorld : w1 = { w with client := w1.client })
    (hFiles : w1.client.session.files = w.client.session.files) (hKernel : w.isCapio fd = false)
    (pointer : Option Nat) : endOf attributes w1 fd pointer = endOf attributes w fd pointer := by
  grind [World.isCapio, endOf]

theorem checked_ends (hPrior : Prior g content c w)
    (hRefused : ¬ Accepted attributes c w → ∀ e client, P (.failed e, { w with client := client }))
    (hCopies : Accepted attributes c w → ∀ client, Flushed (g.serving content) w.client client →
      Returns (copyAndFinish (g.serving content) k pageSize (endOf attributes w c.fdIn c.offIn)
        (endOf attributes w c.fdOut c.offOut) c.len { w with client := client }) P) :
    Returns (capioCopyFileRange (g.serving content) k attributes pageSize c w) P := by
  have hCheck : ∀ client, Flushed (g.serving content) w.client client → Returns
      (checkAndCopy (g.serving content) k pageSize (endOf attributes w c.fdIn c.offIn)
        (endOf attributes w c.fdOut c.offOut) c.len c.flags { w with client := client }) P := by
    intro client hClient
    unfold checkAndCopy
    cases hRefusal : CopyFileRange.refusal (endOf attributes w c.fdIn c.offIn).toCopyEnd
        (endOf attributes w c.fdOut c.offOut).toCopyEnd c.len c.flags with
    | some e =>
      refine hRefused (fun hAccepted => ?_) e client
      rw [Accepted, hRefusal] at hAccepted
      cases hAccepted
    | none => exact hCopies hRefusal client hClient
  unfold capioCopyFileRange
  refine .ite (fun hFlags => hRefused (fun h => hFlags (refusal_none h).1) _ w.client) fun _ => ?_
  cases hIn : w.isCapio c.fdIn with
  | true =>
    have hOut : w.isCapio c.fdOut = false := by
      have hOne := hPrior.one
      rw [hIn] at hOne
      exact Bool.eq_false_iff.mpr hOne.symm
    refine (end_capio hPrior.sound hIn c.offIn).bind ?_
    rintro ⟨e, w1⟩ ⟨he, hw1, hFlushed⟩
    dsimp only at he hw1 hFlushed ⊢
    subst he
    have hOut1 : w1.isCapio c.fdOut = false := by
      unfold World.isCapio at hOut ⊢
      rw [hFlushed.session.files, hOut]
    refine .ite (fun hClosed => ?_) fun _ => ?_
    · rw [hw1]
      refine hRefused (fun h => ?_) _ w1.client
      rw [(refusal_none h).2.1] at hClosed
      cases hClosed
    · rw [end_kernel hOut1, ends_ok_bind, endOf_congr hw1 hFlushed.session.files hOut]
      have hChecked := hCheck w1.client hFlushed
      rw [← hw1] at hChecked
      exact hChecked
  | false =>
    have hOut : w.isCapio c.fdOut = true := by
      have hOne := hPrior.one
      rw [hIn] at hOne
      exact (Bool.not_eq_false _).mp hOne.symm
    rw [end_kernel hIn, ends_ok_bind]
    refine .ite (fun hClosed => ?_) fun _ => ?_
    · refine hRefused (fun h => ?_) _ w.client
      rw [(refusal_none h).2.1] at hClosed
      cases hClosed
    · refine (end_capio hPrior.sound hOut c.offOut).bind ?_
      grind

theorem accepted_copies (hPrior : Prior g content c w) (hAccepted : Accepted attributes c w) :
    Returns (capioCopyFileRange (g.serving content) k attributes pageSize c w) (Copies g content pageSize k c w) := by
  refine checked_ends hPrior (fun hNot => absurd hAccepted hNot) fun _ client hFlushed => ?_
  obtain ⟨-, hOpenIn, hOpenOut, hIn, hOut⟩ := refusal_none hAccepted
  have h0 : Between c w (endOf attributes w c.fdIn c.offIn) (endOf attributes w c.fdOut c.offOut) :=
    ⟨endOf_isEnd hOpenIn, endOf_isEnd hOpenOut, hIn, hOut, hPrior.one⟩
  have hCapio : w.isCapio (c.capioFd w) = true := by
    unfold Call.capioFd
    grind [h0.capioOut]
  obtain ⟨f, hf⟩ := isSome_iff_exists.mp hCapio
  exact copies h0 hPrior hFlushed hf

theorem refused_fails (hPrior : Prior g content c w) (hRefused : ¬ Accepted attributes c w) :
    Returns (capioCopyFileRange (g.serving content) k attributes pageSize c w)
      (fun r => ¬ Right g content k c w r) := by
  refine checked_ends hPrior (fun _ e client hRight => ?_) fun hAccepted => absurd hAccepted hRefused
  rcases hRight.2 with hMapping | ⟨i, hFrom, hTo, -⟩
  · exact Nat.lt_irrefl _ hMapping
  · exact Nat.not_lt.mpr hFrom hTo

end

def besideKernel : World where
  client := { session := twoOpen, files := fun _ _ => none }
  kernel := { data := fun _ => none, size := 0 }
  memory := fun _ => 0

def forBoth : Fd → Attributes := fun _ => ⟨CopyFileRange.O_RDWR, false, 10⟩

def toPointed : Call := { fdIn := 3, offIn := none, fdOut := 9, offOut := some 8, len := 6 }

theorem prior_besideKernel : Prior shortLines letters toPointed besideKernel := by
  have hIdle := idle_twoOpen
  have hFaithful := hIdle.faithful letters
  have hNothing : WriteStream.Holds 4 twoOpen.write none := by
    refine ⟨by decide +kernel, hIdle.flushed, fun bytes hBytes => ?_⟩
    cases hBytes
  exact ⟨by decide, ⟨hIdle.agrees, ⟨none, hNothing, rfl⟩, fun hNe => absurd rfl hNe⟩, hFaithful.queue,
    hFaithful.natural, hFaithful.start, hFaithful.caching, by decide +kernel⟩

end Capio.Posix.BufferedCopy
