import Capio.Storage.ByteStore
import Capio.Storage.ChunkedWrites
import Capio.Storage.Service

/-! # A copy on the server and a copy by reads and writes

`capio_copy_file_range_on_server` makes requests until one copies nothing or enough is copied.  A loop
that reads a chunk and writes it has the same shape, so both are `copyUntil` with a request of their
own.  The copy on the server makes one insertion and the loop makes one per chunk; the bytes are the
same, and the sectors are as far as `ChunkedWrites` says.
-/
namespace Capio.Storage.CopyLoop

open Common Lib.Memory Lib.Outcome Lib.Segments
open Storage.Sectors Storage.ByteStore Storage.ChunkedWrites List

section

variable {σ ε : Type}

/-- The loop `while (copied < count)`.  Every request but the last copies a byte at least, so that as
many of them as there are bytes are enough. -/
def copyUntil (request : Nat → σ → Nat → Nat → Nat → Except ε (Nat × σ)) :
    Nat → σ → Nat → Nat → Nat → Except ε (Nat × σ)
  | 0, s, _, _, _ => pure (0, s)
  | fuel + 1, s, posIn, posOut, remaining =>
    if remaining = 0 then pure (0, s)
    else do
      let (n, s) ← request fuel s posIn posOut remaining
      if n = 0 then pure (0, s)
      else
        let (rest, s) ← copyUntil request fuel s (posIn + n) (posOut + n) (remaining - n)
        pure (n + rest, s)

end

/-- A request waits on a thread of its own, or it ends the server. -/
inductive Halt
  | waits
  | server (e : Failure)
  deriving DecidableEq

/-- The two files, and the offsets that the server keeps for the two descriptors. -/
structure Files where
  src : CapioFile
  dst : CapioFile
  offsetIn : Int
  offsetOut : Int

structure Setting where
  firable : Bool
  isProd : Bool
  os : Nat → Nat → Os

section

variable (g : Setting)

def copyFileRangeRequest (i : Nat) (w : Files) (posIn posOut count : Nat) : Except Halt (Nat × Files) :=
  match localCopy g.firable w.src posIn count g.isProd with
  | .waitForCommit | .waitForData => throw .waits
  | .endOfFile | .send _ =>
    let n := w.src.bytesCopied posIn count
    if 0 < n then do
      let (_, dst) ← (w.src.copyData (g.os i 0) (g.os i 1) false w.dst posIn posOut n).mapError .server
      pure (n, { w with dst := dst })
    else pure (0, w)

def capioCopyFileRangeOnServer (w : Files) (posIn posOut count : Nat) : Except Halt (Nat × Files) :=
  copyUntil (copyFileRangeRequest g) count w posIn posOut count

/-- `handle_local_read`, with the bytes it sends. -/
def handleLocalRead (i : Nat) (w : Files) (count : Nat) : Except Halt (List Byte × Files) :=
  match localRead g.firable w.src w.offsetIn count g.isProd with
  | .waitForCommit | .waitForData => throw .waits
  | .endOfFile => pure ([], w)
  | .send n => do
    let src ← (w.src.createBuffer (g.os i 2) false).mapError .server
    let bytes ← (src.sendBytes w.offsetIn n).mapError .server
    pure (bytes, { w with src := src, offsetIn := w.offsetIn + n })

def writeHandler (i : Nat) (w : Files) (bytes : List Byte) : Except Halt Files := do
  if w.offsetOut < 0 then throw (.server .outOfBounds)
  else
    let dst ← (w.dst.writeData (g.os i 0) (g.os i 1) w.offsetOut.toNat bytes).mapError .server
    pure { w with dst := dst, offsetOut := w.offsetOut + bytes.length }

/-- A read at one position and a write of what was read at the other; both are sought first. -/
def readAndWrite (sizes : Nat → Nat) (i : Nat) (w : Files) (posIn posOut remaining : Nat) :
    Except Halt (Nat × Files) := do
  let (bytes, w) ← handleLocalRead g i { w with offsetIn := posIn } (min remaining (sizes i))
  if bytes = [] then pure (0, w)
  else
    let w ← writeHandler g i { w with offsetOut := posOut } bytes
    pure (bytes.length, w)

def copyByChunks (sizes : Nat → Nat) (w : Files) (posIn posOut count : Nat) : Except Halt (Nat × Files) :=
  copyUntil (readAndWrite g sizes) count w posIn posOut count

end

def Refuses (h : Halt) : Prop := h = .server .mmapBuffer ∨ h = .server .growBuffer

def slice (f : CapioFile) (offset n : Nat) : List Byte := (f.buffer.bytes.drop offset).take n

section

variable {src dst : CapioFile} {mIn mOut : SparseMap} {posIn posOut count n : Nat}

theorem put_nil (m : SparseMap) (offset : Nat) : m.put offset [] = m := by
  funext b
  refine if_neg ?_
  rw [length_nil]
  omega

theorem put_append (m : SparseMap) (offset : Nat) (l l' : List Byte) :
    (m.put offset l).put (offset + l.length) l' = m.put offset (l ++ l') := by
  grind [SparseMap.put, length_append, getElem?_append_left]

theorem slice_add (f : CapioFile) (offset n n' : Nat) :
    slice f offset (n + n') = slice f offset n ++ slice f (offset + n) n' := by
  unfold slice
  rw [take_add, drop_drop]

theorem Refused.refuses (hRefused : ∃ e, h = .server e ∧ Refused os f e) : Refuses h := by
  obtain ⟨e, rfl, ⟨rfl, -⟩ | ⟨rfl, -⟩⟩ := hRefused
  · exact .inl rfl
  · exact .inr rfl

theorem loadBytes_slice (h : Represents src mIn) (hPos : 0 < src.bytesCopied posIn count) :
    src.loadBytes posIn (src.bytesCopied posIn count) =
        .ok (slice src posIn (src.bytesCopied posIn count)) ∧
      (slice src posIn (src.bytesCopied posIn count)).length = src.bytesCopied posIn count := by
  obtain ⟨hRoom, hBlock⟩ := h.bytesCopied_room hPos
  obtain ⟨d, hd, hBytes, hLen⟩ := h.block hBlock
  have hLoad := load_eq_some (hLen ▸ hRoom)
  grind [CapioFile.loadBytes, slice]

theorem copyData_slice (os osGrow : Os) (hSrc : Represents src mIn) (hDst : Represents dst mOut)
    (hPos : 0 < src.bytesCopied posIn count) :
    Ends (src.copyData os osGrow false dst posIn posOut (src.bytesCopied posIn count))
      (fun r => Represents r.2 (mOut.put posOut (slice src posIn (src.bytesCopied posIn count))) ∧
        r.2.sectors = insertSector dst.sectors posOut (posOut + src.bytesCopied posIn count))
      (Refused os dst) := by
  obtain ⟨hLoad, hLength⟩ := loadBytes_slice hSrc hPos
  refine (makeRoom_represents os osGrow hDst _).bind ?_
  rintro dst1 ⟨h1, hRoom⟩
  obtain ⟨dst2, hStore, h2, -⟩ := storeBytes_represents h1.represents h1.block (hLength.symm ▸ hRoom)
  have hSectors : dst2.sectors = dst.sectors := by
    obtain ⟨_, _, hEq⟩ := (CapioFile.storeBytes_rebuffers dst1 _ _).result hStore
    rw [hEq]
    exact h1.sectors
  rw [if_neg Bool.false_ne_true, hLoad, ends_ok_bind, hStore, ends_ok_bind]
  rw [hLength] at h2
  refine ⟨h2, ?_⟩
  change insertSector dst2.sectors _ _ = _
  rw [hSectors]

theorem writeData_sectors (os osGrow : Os) (hDst : Represents dst mOut) (data : List Byte) :
    Ends (dst.writeData os osGrow posOut data) (fun dst' => Represents dst' (mOut.put posOut data) ∧
      dst'.sectors = insertSector dst.sectors posOut (posOut + data.length)) (Refused os dst) := by
  refine ((writeData_represents os osGrow hDst posOut data).and
    (CapioFile.writeData_rebuffers os osGrow dst posOut data)).imp ?_
  rintro dst' ⟨⟨hRepresents, -⟩, f1, ⟨_, _, rfl⟩, rfl⟩
  exact ⟨hRepresents, rfl⟩

end

section

variable {g : Setting} {w : Files} {mIn mOut : SparseMap} {posIn posOut count : Nat}

theorem bytesCopied_zero (f : CapioFile) (offset : Nat) : f.bytesCopied offset 0 = 0 := by
  unfold CapioFile.bytesCopied
  split
  · rfl
  · exact Nat.zero_min _

theorem bytesCopied_min (f : CapioFile) (offset count k : Nat) :
    f.bytesCopied offset (min count k) = min k (f.bytesCopied offset count) := by
  unfold CapioFile.bytesCopied
  split
  · exact (Nat.min_zero k).symm
  · omega

theorem bytesCopied_end (h : Represents w.src mIn) (hn : n = w.src.bytesCopied posIn count)
    (hLess : n < count) (hPos : 0 < n) (count' : Nat) : w.src.bytesCopied (posIn + n) count' = 0 := by
  unfold CapioFile.bytesCopied at hn ⊢
  cases hEnd : getSectorEnd w.src.sectors posIn with
  | none =>
    rw [hEnd] at hn
    exact absurd hn hPos.ne'
  | some stop =>
    rw [hEnd] at hn
    dsimp only at hn
    obtain ⟨t, ht, hStart, hLe, rfl⟩ := getSectorEnd_eq_some hEnd
    grind [getSectorEnd_of_mem, h.separated, le_rfl]

theorem bytesCopied_add (h : Represents w.src mIn) (hl : l ≤ w.src.bytesCopied posIn count) :
    w.src.bytesCopied posIn count = l + w.src.bytesCopied (posIn + l) (count - l) := by
  unfold CapioFile.bytesCopied at hl ⊢
  cases hEnd : getSectorEnd w.src.sectors posIn with
  | none => grind
  | some stop =>
    rw [hEnd] at hl
    dsimp only at hl
    obtain ⟨t, ht, hStart, hLe, rfl⟩ := getSectorEnd_eq_some hEnd
    grind [getSectorEnd_of_mem, h.separated]

structure Copied (w : Files) (mOut : SparseMap) (posIn posOut n : Nat) (w' : Files) : Prop where
  src : w'.src = w.src
  offsetIn : w'.offsetIn = w.offsetIn
  offsetOut : w'.offsetOut = w.offsetOut
  represents : Represents w'.dst (mOut.put posOut (slice w.src posIn n))
  sectors : w'.dst.sectors = if n = 0 then w.dst.sectors else insertSector w.dst.sectors posOut (posOut + n)

theorem copyFileRangeRequest_ends (hSrc : Represents w.src mIn) (hDst : Represents w.dst mOut)
    (hComplete : (w.src.committed || g.isProd) = true) (i : Nat) :
    Ends (copyFileRangeRequest g i w posIn posOut count) (fun r =>
      r.1 = w.src.bytesCopied posIn count ∧ Copied w mOut posIn posOut r.1 r.2) Refuses := by
  have hServed : localCopy g.firable w.src posIn count g.isProd =
      .send (w.src.bytesCopied posIn count) := by
    unfold localCopy
    simp [hComplete]
  unfold copyFileRangeRequest
  rw [hServed]
  refine .ite (fun hPos => ?_) fun hNone => ?_
  · refine ((ends_mapError (copyData_slice (g.os i 0) (g.os i 1) hSrc hDst hPos)).mono (fun _ => id)
      fun _ => Refused.refuses).bind ?_
    rintro ⟨bytes, dst⟩ ⟨hRepresents, hSectors⟩
    exact ⟨rfl, rfl, rfl, rfl, hRepresents, by rw [if_neg hPos.ne']; exact hSectors⟩
  · have hZero : w.src.bytesCopied posIn count = 0 := Nat.eq_zero_of_not_pos hNone
    refine ⟨hZero.symm, rfl, rfl, rfl, ?_, rfl⟩
    change Represents w.dst (mOut.put posOut [])
    rwa [put_nil]

theorem copyFileRangeRequest_nothing (hComplete : (w.src.committed || g.isProd) = true)
    (hZero : w.src.bytesCopied posIn count = 0) (i : Nat) :
    copyFileRangeRequest g i w posIn posOut count = .ok (0, w) := by
  unfold copyFileRangeRequest localCopy
  simp [hComplete, hZero]
  rfl

theorem onServer_ends (hSrc : Represents w.src mIn) (hDst : Represents w.dst mOut)
    (hComplete : (w.src.committed || g.isProd) = true) :
    Ends (capioCopyFileRangeOnServer g w posIn posOut count) (fun r =>
      r.1 = w.src.bytesCopied posIn count ∧ Copied w mOut posIn posOut r.1 r.2) Refuses := by
  unfold capioCopyFileRangeOnServer
  cases count with
  | zero =>
    refine ⟨(bytesCopied_zero w.src posIn).symm, rfl, rfl, rfl, ?_, rfl⟩
    change Represents w.dst (mOut.put posOut [])
    rwa [put_nil]
  | succ k =>
    unfold copyUntil
    refine (copyFileRangeRequest_ends hSrc hDst hComplete k).bind ?_
    rintro ⟨n, w'⟩ ⟨hn, hCopied⟩
    refine .ite (fun hZero => ?_) fun hSome => ?_
    · subst hZero
      exact ⟨hn, hCopied⟩
    · -- the second request is at the end of the sector, or there is none
      have hStops : copyUntil (copyFileRangeRequest g) k w' (posIn + n) (posOut + n) (k + 1 - n) =
          .ok (0, w') := by
        cases k with
        | zero => rfl
        | succ k =>
          unfold copyUntil
          by_cases hAll : k + 1 + 1 - n = 0
          · rw [if_pos hAll]
            rfl
          · have hEnd := bytesCopied_end hSrc hn (by omega) (Nat.pos_of_ne_zero hSome) (k + 1 + 1 - n)
            rw [if_neg hAll, copyFileRangeRequest_nothing (hCopied.src ▸ hComplete) (hCopied.src ▸ hEnd)]
            rfl
      rw [hStops, ends_ok_bind]
      exact ⟨hn, hCopied⟩

def cut (sizes : Nat → Nat) : Nat → Nat → List Nat
  | 0, _ => []
  | fuel + 1, n => if n = 0 then [] else min (sizes fuel) n :: cut sizes fuel (n - min (sizes fuel) n)

theorem sum_cut (hSizes : ∀ i, 0 < sizes i) (h : n ≤ fuel) : (cut sizes fuel n).sum = n := by
  induction fuel generalizing n with
  | zero => exact (Nat.le_zero.mp h).symm
  | succ fuel ih => grind [cut]

theorem localRead_eq (hComplete : (w.src.committed || g.isProd) = true) (posIn count : Nat) :
    localRead g.firable w.src posIn count g.isProd = .endOfFile ∧ w.src.bytesCopied posIn count = 0 ∨
      localRead g.firable w.src posIn count g.isProd = .send (w.src.bytesCopied posIn count) := by
  unfold localRead CapioFile.bytesCopied
  cases hEnd : getSectorEnd w.src.sectors posIn with
  | none => simp [sectorEnd, hEnd, hComplete]
  | some stop =>
    obtain ⟨t, -, -, hLe, -⟩ := getSectorEnd_eq_some hEnd
    have hStop : sectorEnd w.src posIn = stop := by simp [sectorEnd, hEnd]
    grind

theorem handleLocalRead_ends (hSrc : Represents w.src mIn)
    (hComplete : (w.src.committed || g.isProd) = true) (i : Nat) :
    Ends (handleLocalRead g i { w with offsetIn := posIn } count) (fun r =>
      r.1 = slice w.src posIn (w.src.bytesCopied posIn count) ∧
        r.1.length = w.src.bytesCopied posIn count ∧ r.2.dst = w.dst ∧
        (r.1 ≠ [] → r.2.src = w.src)) Refuses := by
  have hEmpty : slice w.src posIn 0 = [] := take_zero
  unfold handleLocalRead
  rcases localRead_eq hComplete posIn count with ⟨hRead, hZero⟩ | hRead
  · simp [hRead, hZero, hEmpty]
  · rw [hRead]
    by_cases hPos : 0 < w.src.bytesCopied posIn count
    · obtain ⟨-, hBlock⟩ := hSrc.bytesCopied_room hPos
      obtain ⟨hLoad, hLength⟩ := loadBytes_slice hSrc hPos
      have hCreate : w.src.createBuffer (g.os i 2) false = .ok w.src := by
        refine if_neg ?_
        rw [FileBuffer.empty, Option.isNone_iff_eq_none]
        exact hBlock
      have hSend : w.src.sendBytes posIn (w.src.bytesCopied posIn count) =
          .ok (slice w.src posIn (w.src.bytesCopied posIn count)) := by grind [CapioFile.sendBytes]
      rw [hCreate]
      change Ends ((w.src.sendBytes posIn (w.src.bytesCopied posIn count)).mapError Halt.server >>= _) _ _
      rw [hSend]
      exact ⟨rfl, hLength, rfl, fun _ => rfl⟩
    · have hZero : w.src.bytesCopied posIn count = 0 := Nat.eq_zero_of_not_pos hPos
      rw [hZero, hEmpty]
      refine ((ends_mapError (createBuffer_represents (g.os i 2) hSrc false)).mono (fun _ _ => trivial)
        ?_).bind (Q := fun _ => True) fun src _ => ?_
      · rintro e ⟨e', rfl, rfl, -⟩
        exact .inl rfl
      · exact ⟨rfl, rfl, rfl, fun hNe => absurd rfl hNe⟩

theorem writeHandler_ends (hDst : Represents w.dst mOut) (i : Nat) (bytes : List Byte) :
    Ends (writeHandler g i { w with offsetOut := posOut } bytes) (fun w' => w'.src = w.src ∧
      Represents w'.dst (mOut.put posOut bytes) ∧
      w'.dst.sectors = insertSector w.dst.sectors posOut (posOut + bytes.length)) Refuses := by
  unfold writeHandler
  refine ((ends_mapError (writeData_sectors (g.os i 0) (g.os i 1) hDst bytes)).mono (fun _ => id)
    fun _ => Refused.refuses).bind ?_
  rintro dst ⟨hRepresents, hSectors⟩
  exact ⟨rfl, hRepresents, hSectors⟩

theorem readAndWrite_ends (sizes : Nat → Nat) (hSrc : Represents w.src mIn) (hDst : Represents w.dst mOut)
    (hComplete : (w.src.committed || g.isProd) = true) (i : Nat) :
    Ends (readAndWrite g sizes i w posIn posOut count) (fun r =>
      r.1 = min (sizes i) (w.src.bytesCopied posIn count) ∧ (r.1 = 0 → r.2.dst = w.dst) ∧
        (r.1 ≠ 0 → r.2.src = w.src ∧ (slice w.src posIn r.1).length = r.1 ∧
          Represents r.2.dst (mOut.put posOut (slice w.src posIn r.1)) ∧
          r.2.dst.sectors = insertSector w.dst.sectors posOut (posOut + r.1))) Refuses := by
  refine (handleLocalRead_ends hSrc hComplete i).bind ?_
  rintro ⟨bytes, w1⟩ ⟨hBytes, hLength, hSame, hInput⟩
  rw [bytesCopied_min] at hBytes hLength
  refine .ite (fun hNil => ?_) fun hNe => ?_
  · have hZero : min (sizes i) (w.src.bytesCopied posIn count) = 0 := by
      rw [← hLength, hNil]
      rfl
    exact ⟨hZero.symm, fun _ => hSame, fun hNe => absurd rfl hNe⟩
  · refine (writeHandler_ends (w := w1) (hSame ▸ hDst) i bytes).bind ?_
    rintro w2 ⟨hSrc2, hRepresents, hSectors⟩
    have hSome : bytes.length ≠ 0 := fun hZero => hNe (length_eq_zero_iff.mp hZero)
    simp_all

structure Chunked (w : Files) (mOut : SparseMap) (posIn posOut n : Nat) (lengths : List Nat) (w' : Files) :
    Prop where
  represents : Represents w'.dst (mOut.put posOut (slice w.src posIn n))
  sectors : w'.dst.sectors = insertChunks w.dst.sectors posOut lengths

theorem chunked_nothing (hDst : Represents w.dst mOut) (hSame : w'.dst = w.dst) :
    Chunked w mOut posIn posOut 0 [] w' := by
  refine ⟨?_, congrArg CapioFile.sectors hSame⟩
  rw [hSame]
  change Represents w.dst (mOut.put posOut [])
  rwa [put_nil]

theorem copyUntil_chunked (hSizes : ∀ i, 0 < sizes i) (hSrc : Represents w.src mIn)
    (hDst : Represents w.dst mOut) (hComplete : (w.src.committed || g.isProd) = true) (hFuel : count ≤ fuel) :
    Ends (copyUntil (readAndWrite g sizes) fuel w posIn posOut count) (fun r =>
      r.1 = w.src.bytesCopied posIn count ∧
        Chunked w mOut posIn posOut r.1 (cut sizes fuel r.1) r.2) Refuses := by
  induction fuel generalizing w mOut posIn posOut count with
  | zero =>
    obtain rfl := Nat.le_zero.mp hFuel
    exact ⟨(bytesCopied_zero w.src posIn).symm, chunked_nothing hDst rfl⟩
  | succ fuel ih =>
    have hPos := hSizes fuel
    refine .ite (fun hZero => ?_) fun hSome => ?_
    · subst hZero
      exact ⟨(bytesCopied_zero w.src posIn).symm, chunked_nothing hDst rfl⟩
    · refine (readAndWrite_ends sizes hSrc hDst hComplete fuel).bind ?_
      rintro ⟨l, w1⟩ ⟨hl, hStay, hMove⟩
      refine .ite (fun hZero => ?_) fun hNe => ?_
      · have hNone : w.src.bytesCopied posIn count = 0 := by omega
        exact ⟨hNone.symm, chunked_nothing hDst (hStay hZero)⟩
      · obtain ⟨hSrc1, hLength, hRepresents, hSectors⟩ := hMove hNe
        have hAll := bytesCopied_add hSrc (show l ≤ w.src.bytesCopied posIn count by omega)
        refine (ih (w := w1) (hSrc1.symm ▸ hSrc) hRepresents (hSrc1.symm ▸ hComplete) (by omega)).bind ?_
        rintro ⟨rest, w2⟩ ⟨hRest, hChunked⟩
        rw [hSrc1] at hRest
        have hTotal : l + rest = w.src.bytesCopied posIn count := by omega
        have hCut : cut sizes (fuel + 1) (l + rest) = l :: cut sizes fuel rest := by grind [cut]
        refine ⟨hTotal, ?_, ?_⟩
        · have hPut := hChunked.represents
          rw [hSrc1] at hPut
          have hJoin := put_append mOut posOut (slice w.src posIn l) (slice w.src (posIn + l) rest)
          rw [hLength] at hJoin
          rw [hJoin, ← slice_add] at hPut
          exact hPut
        · rw [hCut, insertChunks, ← hSectors]
          exact hChunked.sectors

theorem length_slice (h : Represents w.src mIn) :
    (slice w.src posIn (w.src.bytesCopied posIn count)).length = w.src.bytesCopied posIn count := by
  by_cases hPos : 0 < w.src.bytesCopied posIn count
  · exact (loadBytes_slice h hPos).2
  · rw [Nat.eq_zero_of_not_pos hPos]
    rfl

/-- What two copies have in common: the first one is made on the server, the second one by chunks. -/
structure SameCopy (w : Files) (mOut : SparseMap) (posOut : Nat) (r r' : Nat × Files) : Prop where
  count : r'.1 = r.1
  sectors : r'.2.dst.sectors = r.2.dst.sectors
  bytes : ∀ b, mOut b ≠ none ∨ posOut ≤ b ∧ b < posOut + r.1 →
    r'.2.dst.buffer.bytes[b]? = r.2.dst.buffer.bytes[b]?
  input : r.2.src = w.src
  offsetIn : r.2.offsetIn = w.offsetIn
  offsetOut : r.2.offsetOut = w.offsetOut

/-- No chunk but the first meets a sector of the output that reaches past the end of the copy and has
the next sector one byte behind it. -/
def KeepsHoles (sizes : Nat → Nat) (S : List Sector) (posOut count n : Nat) : Prop :=
  match cut sizes count n with
  | [] => True
  | l :: L => MeetsNoGap (posOut + n) (insertSector S posOut (posOut + l)) (posOut + l) L

instance (sizes : Nat → Nat) (S : List Sector) (posOut count n : Nat) :
    Decidable (KeepsHoles sizes S posOut count n) := by
  unfold KeepsHoles
  split <;> infer_instance

theorem insertChunks_cut_iff (hSizes : ∀ i, 0 < sizes i) (hS : Separated S) (hn : n ≤ count) :
    insertChunks S posOut (cut sizes count n) =
        (if n = 0 then S else insertSector S posOut (posOut + n)) ↔
      KeepsHoles sizes S posOut count n := by
  have hSum := sum_cut hSizes hn
  unfold KeepsHoles
  cases hCut : cut sizes count n with
  | nil =>
    rw [hCut, sum_nil] at hSum
    rw [if_pos hSum.symm]
    exact iff_of_true rfl trivial
  | cons l L =>
    rw [hCut] at hSum
    have hl : 0 < l := by
      cases count with
      | zero => cases hCut
      | succ fuel => grind [cut]
    grind [insertChunks_cons_iff]

/-- The copies are the same exactly if no chunk closes a hole that the whole range does not; both end,
unless the memory of the output is refused. -/
theorem copies_same_iff {g : Setting} {w : Files} {mIn mOut : SparseMap} {sizes : Nat → Nat}
    (hSrc : Represents w.src mIn) (hDst : Represents w.dst mOut)
    (hComplete : (w.src.committed || g.isProd) = true) (hSizes : ∀ i, 0 < sizes i) (os : Nat → Nat → Os)
    (posIn posOut count : Nat) : Ends (capioCopyFileRangeOnServer g w posIn posOut count) (fun r =>
      Ends (copyByChunks { g with os := os } sizes w posIn posOut count) (fun r' =>
        SameCopy w mOut posOut r r' ↔
          KeepsHoles sizes w.dst.sectors posOut count (w.src.bytesCopied posIn count)) Refuses)
      Refuses := by
  refine (onServer_ends hSrc hDst hComplete).imp ?_
  rintro ⟨n, w1⟩ ⟨hn, hCopied⟩
  refine (copyUntil_chunked (g := { g with os := os }) hSizes hSrc hDst hComplete le_rfl).imp ?_
  rintro ⟨n', w2⟩ ⟨hn', hChunked⟩
  dsimp only at hn hn' hCopied hChunked ⊢
  obtain rfl : n' = n := hn'.trans hn.symm
  have hLe : n' ≤ count := by grind [CapioFile.bytesCopied]
  rw [← hn, ← insertChunks_cut_iff hSizes hDst.separated hLe, ← hCopied.sectors, ← hChunked.sectors]
  constructor
  · exact fun h => h.sectors
  · intro hSectors
    refine ⟨rfl, hSectors, fun b hb => ?_, hCopied.src, hCopied.offsetIn, hCopied.offsetOut⟩
    obtain ⟨v, hv⟩ : ∃ v, mOut.put posOut (slice w.src posIn n') b = some v := by
      unfold SparseMap.put
      have hLength : (slice w.src posIn n').length = n' := by
        rw [hn]
        exact length_slice hSrc
      rw [hLength]
      split
      · exact ⟨_, List.getElem?_eq_getElem (show b - posOut < _ by omega)⟩
      · next hOut => exact Option.ne_none_iff_exists'.mp (hb.resolve_right hOut)
    exact (hChunked.represents.agrees b v hv).trans (hCopied.represents.agrees b v hv).symm

def threeBytes (S : List Sector) : Files where
  src := { buffer := ⟨some [1, 2, 3], 3, .heap⟩, sectors := [(0, 3)], committed := true }
  dst := { buffer := ⟨some (replicate 20 0), 20, .heap⟩, sectors := S }
  offsetIn := 0
  offsetOut := 0

def plain : Setting := ⟨false, false, fun _ _ => Os.plain 64⟩

def outcome (x : Except Halt (Nat × Files)) : Option (Nat × List Sector) :=
  x.toOption.map fun r => (r.1, r.2.dst.sectors)

def zerosTo (n : Nat) : SparseMap := fun b => if b < n then some 0 else none

def apart : List Sector := [(0, 4), (9, 20)]

def oneByte (_ : Nat) : Nat := 1

theorem represents_threeBytes : Represents (threeBytes apart).src (fun _ => none) ∧
    Represents (threeBytes apart).dst (zerosTo 4) := by
  refine ⟨⟨⟨by decide, by decide⟩, rfl, by decide, fun b v h => (by cases h), fun b v h => (by cases h)⟩,
    ⟨by decide, by decide⟩, rfl, by decide, fun b v h => ?_, fun b v h => ?_⟩
  · unfold zerosTo at h
    split at h
    · next hLt => exact ⟨(0, 4), mem_cons_self, Nat.zero_le b, hLt⟩
    · cases h
  · unfold zerosTo at h
    split at h
    · next hLt =>
      cases h
      exact getElem?_replicate_of_lt (show b < 20 by omega)
    · cases h

/-- Four bytes are asked for, in chunks of one byte, and put between two sectors. -/
theorem copies_same_threeBytes : ∃ r r', capioCopyFileRangeOnServer plain (threeBytes apart) 0 4 4 = .ok r ∧
    copyByChunks plain oneByte (threeBytes apart) 0 4 4 = .ok r' ∧
    SameCopy (threeBytes apart) (zerosTo 4) 4 r r' ∧ r.1 = 3 := by
  obtain ⟨r, hr⟩ : ∃ r, capioCopyFileRangeOnServer plain (threeBytes apart) 0 4 4 = .ok r := ⟨_, rfl⟩
  obtain ⟨r', hr'⟩ : ∃ r', copyByChunks plain oneByte (threeBytes apart) 0 4 4 = .ok r' := ⟨_, rfl⟩
  have hCount : outcome (capioCopyFileRangeOnServer plain (threeBytes apart) 0 4 4) =
      some (3, [(0, 7), (9, 20)]) := by decide
  rw [hr] at hCount
  have hThree : r.1 = 3 := congrArg Prod.fst (Option.some.inj hCount)
  have hSizes : ∀ i, 0 < oneByte i := fun _ => Nat.one_pos
  have hBoth := copies_same_iff (g := plain) represents_threeBytes.1 represents_threeBytes.2 rfl hSizes
    (fun _ _ => Os.plain 64) 0 4 4
  exact ⟨r, r', hr, hr', ((hBoth.result hr).result hr').mpr (by decide), hThree⟩

theorem copies_differ_behind_range :
    outcome (capioCopyFileRangeOnServer plain (threeBytes [(2, 10), (11, 20)]) 0 2 3) =
        some (3, [(2, 10), (11, 20)]) ∧
      outcome (copyByChunks plain oneByte (threeBytes [(2, 10), (11, 20)]) 0 2 3) =
        some (3, [(2, 20)]) := by
  decide

end

end Capio.Storage.CopyLoop
