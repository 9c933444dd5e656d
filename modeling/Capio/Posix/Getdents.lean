import Capio.Posix.ReadTransparency
import Capio.Storage.Dirents

/-! # The enumeration of a directory

`getdents64` on a descriptor of a directory whose home is the node of the process.  The client rounds the
size of the buffer to whole records, the server sends the records from its offset on and gives each the
offset of the next one.  The offsets of client and server stay at the record that is next.
-/
namespace Capio.Posix.Getdents

open Common Lib.Memory Lib.Outcome Lib.Pieces Server Session
open Storage Storage.Dirents List

structure Entry where
  ino : List Byte
  dirent : Dirent
  deriving DecidableEq

def entryOf (record : List Byte) : Entry :=
  ⟨record.take 8, decode record⟩

def fieldValue (bytes : List Byte) : Nat :=
  bytes.foldr (fun b v => b.toNat + 256 * v) 0

def offsetOf (record : List Byte) : Nat :=
  fieldValue ((record.drop 8).take 8)

def entries (f : CapioFile) : List Entry :=
  (pieces DIRENT_SIZE (f.buffer.bytes.take f.getStoredSize)).map entryOf

def entryAt (offset : Int) : Int :=
  asInt (offset % 18446744073709551616 / DIRENT_SIZE)

def rebuilt (junk : Nat → Byte) (i : Nat) (record : List Byte) : List Byte :=
  let dirent := decode record
  (record.take 8 ++ CapioFile.fieldBytes 8 ((i + 1) * DIRENT_SIZE) ++ CapioFile.fieldBytes 2 DIRENT_SIZE ++
    [dirent.type] ++ dirent.name ++ [0] ++ fresh junk DIRENT_SIZE).take DIRENT_SIZE

inductive Reply
  | records (bytes : List Byte)
  | nothing
  /-- A thread waits until there is one more record. -/
  | waits

structure Directory where
  isProd : Bool
  location : Option Node
  node : Node
  isCapioDir : Bool
  firable : Bool
  junk : Nat → Byte

def sendDirentToClient (d : Directory) (f : CapioFile) (offset count : Int) : Reply :=
  let firstEntry := entryAt offset
  let endOfRead := min (offset + count) f.getStoredSize
  let lastEntry := entryAt endOfRead
  let actualSize := (lastEntry - firstEntry) * DIRENT_SIZE
  if actualSize > 0 then
    .records ((range' firstEntry.toNat (lastEntry - firstEntry).toNat).map fun i =>
      rebuilt d.junk i ((f.buffer.bytes.drop (i * DIRENT_SIZE)).take DIRENT_SIZE)).flatten
  else if !f.committed && d.firable then .waits
  else .nothing

inductive Answer
  /-- A thread waits until the location is known. -/
  | locating
  | reply (r : Reply)
  | remote

def Answer.sent : Answer → Option (List Byte)
  | .reply (.records bytes) => some bytes
  | .reply .nothing => some []
  | .reply .waits | .locating | .remote => none

def handleGetdents (d : Directory) (f : CapioFile) (offset count : Int) : Answer :=
  if d.location.isNone && !d.isProd then .locating
  else if d.isProd || d.location == some d.node || d.isCapioDir then
    .reply (sendDirentToClient d f offset count)
  else .remote

section

variable {f : CapioFile} {L : List (List Byte)}

theorem fieldBytes_succ (width n : Nat) :
    CapioFile.fieldBytes (width + 1) n = UInt8.ofNat n :: CapioFile.fieldBytes width (n >>> 8) := by
  unfold CapioFile.fieldBytes
  rw [range_succ_eq_map, map_cons, map_map]
  congr 1
  refine map_congr_left fun k _ => ?_
  rw [Function.comp_apply, ← Nat.shiftRight_add, Nat.succ_eq_add_one, Nat.mul_add, Nat.add_comm]

theorem fieldValue_fieldBytes (width n : Nat) :
    fieldValue (CapioFile.fieldBytes width n) = n % 256 ^ width := by
  induction width generalizing n with
  | zero => exact (Nat.mod_one n).symm
  | succ width ih =>
    rw [fieldBytes_succ]
    change (UInt8.ofNat n).toNat + 256 * fieldValue (CapioFile.fieldBytes width (n >>> 8)) = _
    have hPow : 256 ^ (width + 1) = 256 * 256 ^ width := Nat.pow_succ'
    rw [ih, Nat.shiftRight_eq_div_pow, hPow, Nat.mod_mul]
    rfl

theorem length_rebuilt (junk : Nat → Byte) (i : Nat) (record : List Byte) :
    (rebuilt junk i record).length = DIRENT_SIZE := by
  unfold rebuilt
  simp only [length_take, length_append, length_fresh]
  omega

theorem entryOf_rebuilt (junk : Nat → Byte) (i : Nat) (hRecord : record.length = DIRENT_SIZE)
    (hName : (decode record).name.length < NAME_MAX) :
    entryOf (rebuilt junk i record) = entryOf record := by
  have hIno : (record.take 8).length = 8 := by
    rw [length_take, hRecord]
    rfl
  have hFits : Dirents.Fits (decode record).name := by
    refine ⟨fun hZero => ?_, hName.le⟩
    have hAll : ((record.drop 19).takeWhile (· != 0)).all (· != 0) = true := all_takeWhile
    exact absurd rfl (bne_iff_ne.mp (all_eq_true.mp hAll 0 hZero))
  unfold entryOf
  congr 1
  · unfold rebuilt
    rw [take_take, Nat.min_eq_left (by decide)]
    simp only [append_assoc]
    rw [take_append_of_le_length hIno.ge, take_take, Nat.min_self]
  · refine decode_fields junk ?_ _ hFits
    rw [length_append, length_append, length_fieldBytes, length_fieldBytes, hIno]

theorem offsetOf_rebuilt (junk : Nat → Byte) (hRecord : record.length = DIRENT_SIZE) (hi : i < 4194304) :
    offsetOf (rebuilt junk i record) = (i + 1) * DIRENT_SIZE := by
  have hIno : (record.take 8).length = 8 := by
    rw [length_take, hRecord]
    rfl
  have hField : ((rebuilt junk i record).drop 8).take 8 =
      CapioFile.fieldBytes 8 ((i + 1) * DIRENT_SIZE) := by
    unfold rebuilt
    rw [drop_take, take_take, Nat.min_eq_left (by decide)]
    simp only [append_assoc]
    rw [drop_left' hIno, take_left' (length_fieldBytes 8 _)]
  unfold offsetOf
  rw [hField, fieldValue_fieldBytes, Nat.mod_eq_of_lt]
  unfold DIRENT_SIZE
  omega

theorem length_flatten_of_sized (hSized : ∀ record ∈ L, record.length = DIRENT_SIZE) :
    L.flatten.length = L.length * DIRENT_SIZE := by
  induction L with
  | nil => rfl
  | cons record L ih => grind

theorem flatten_slice (hSized : ∀ record ∈ L, record.length = DIRENT_SIZE) (hi : i < L.length) :
    (L.flatten.drop (i * DIRENT_SIZE)).take DIRENT_SIZE = L[i] := by
  induction L generalizing i with
  | nil => exact absurd hi (Nat.not_lt_zero i)
  | cons record L ih =>
    have hFirst := hSized record mem_cons_self
    rw [flatten_cons]
    cases i with
    | zero => grind
    | succ i =>
      rw [Nat.succ_mul, Nat.add_comm, ← drop_drop, drop_left' hFirst]
      exact ih (fun r hr => hSized r (mem_cons_of_mem _ hr)) (Nat.lt_of_succ_lt_succ hi)

theorem Contains.slice (h : Contains f L) (hi : i < L.length) :
    (f.buffer.bytes.drop (i * DIRENT_SIZE)).take DIRENT_SIZE = L[i] := by
  have hStored : f.getStoredSize = L.length * DIRENT_SIZE := h.size.trans (length_flatten_of_sized h.sized)
  rw [← flatten_slice h.sized hi, ← h.bytes, drop_take, take_take, hStored, Nat.min_eq_left]
  unfold DIRENT_SIZE
  omega

def sentFrom (junk : Nat → Byte) (L : List (List Byte)) (p n : Nat) : List (List Byte) :=
  ((L.drop p).take n).mapIdx fun j record => rebuilt junk (p + j) record

theorem entryAt_mul (hm : m < 2147483648) : entryAt (m * DIRENT_SIZE : Nat) = m := by
  have hQuotient : ((m * DIRENT_SIZE : Nat) : Int) % 18446744073709551616 / DIRENT_SIZE = m := by
    unfold DIRENT_SIZE
    omega
  unfold entryAt
  rw [hQuotient]
  exact asInt_natCast hm

theorem sentFrom_eq (junk : Nat → Byte) (h : Contains f L) (hn : p + n ≤ L.length) :
    (range' p n).map (fun i =>
      rebuilt junk i ((f.buffer.bytes.drop (i * DIRENT_SIZE)).take DIRENT_SIZE)) = sentFrom junk L p n := by
  refine ext_getElem ?_ fun j hj _ => ?_
  · grind [sentFrom]
  · simp only [sentFrom, getElem_map, getElem_range', getElem_mapIdx, getElem_take,
      getElem_drop, Nat.one_mul]
    rw [Contains.slice h]

theorem handleGetdents_sent (h : Contains f L) (hHome : d.isProd = true ∨ d.location = some d.node)
    (hAnswers : f.committed = true ∨ d.firable = false) (hLength : L.length < 4194304) (hp : p ≤ L.length)
    (k : Nat) : (handleGetdents d f (p * DIRENT_SIZE : Nat) (k * DIRENT_SIZE : Nat)).sent =
      some (sentFrom d.junk L p (min k (L.length - p))).flatten := by
  have hStored : f.getStoredSize = L.length * DIRENT_SIZE := h.size.trans (length_flatten_of_sized h.sized)
  have hHere : handleGetdents d f (p * DIRENT_SIZE : Nat) (k * DIRENT_SIZE : Nat) =
      .reply (sendDirentToClient d f (p * DIRENT_SIZE : Nat) (k * DIRENT_SIZE : Nat)) := by
    grind [handleGetdents]
  have hFirst : entryAt (p * DIRENT_SIZE : Nat) = p := entryAt_mul (by omega)
  have hLast : entryAt (min ((p * DIRENT_SIZE : Nat) + (k * DIRENT_SIZE : Nat)) f.getStoredSize) =
      (min (p + k) L.length : Nat) := by
    have hEnd : min (((p * DIRENT_SIZE : Nat) : Int) + (k * DIRENT_SIZE : Nat)) f.getStoredSize =
        (min (p + k) L.length * DIRENT_SIZE : Nat) := by
      rw [hStored]
      unfold DIRENT_SIZE
      omega
    rw [hEnd]
    exact entryAt_mul (by omega)
  rw [hHere]
  unfold sendDirentToClient
  dsimp only
  rw [hFirst, hLast]
  have hCount : ((min (p + k) L.length : Nat) : Int) - p = (min k (L.length - p) : Nat) := by omega
  rw [hCount, Int.toNat_natCast, Int.toNat_natCast, sentFrom_eq d.junk h (by omega)]
  by_cases hSome : min k (L.length - p) = 0
  · rw [hSome, if_neg (by omega), if_neg ?_]
    · simp [Answer.sent, sentFrom]
    · rcases hAnswers with hCommitted | hFirable
      · simp [hCommitted]
      · simp [hFirable]
  · rw [if_pos ?_]
    · rfl
    · unfold DIRENT_SIZE
      omega

end

section

variable (g : Setting) (d : Directory)

def fetchDirents (s : Session) (f : CapioFile) (fd : Fd) (requested : Int) : Except Stop (List Byte) :=
  if requested > 0 then do
    let offset ← ask (s.sm.getFileOffset g.tid fd)
    match (handleGetdents d f offset requested).sent with
    | some bytes => pure bytes
    | none => throw .blocked
  else pure []

def getdents64 (s : Session) (f : CapioFile) (fd : Fd) (count : Int) :
    Except Stop (Int × List Byte × Session) :=
  if count ≥ SSIZE_MAX then throw .exit
  else do
    let s ← s.flushWrite g
    let s ← s.switchRead g fd
    let bytes ← fetchDirents g d s f fd (count.tdiv DIRENT_SIZE * DIRENT_SIZE - s.leftover)
    s.readThrough { g with supply := fun _ _ => bytes } fd count true

end

section

variable {g : Setting} {s : Session} {fd : Fd} {f : File} {o : Int}

structure Ready (tid : Tid) (fd : Fd) (f : File) (s : Session) (o : Int) : Prop where
  agrees : Agrees tid s
  file : s.files fd = some f
  queue : s.queue = []
  remaining : s.remaining fd = 0
  offset : s.offset fd = .ok o

theorem readFrom_getdents {bytes : List Byte} {count : Int} (hAt : At g.tid s fd f cell o o)
    (hLeftover : s.leftover = 0) (hQueue : s.queue = []) (hCount : 0 < count)
    (hSupply : ∀ offset, g.supply fd offset = bytes) :
    ∃ s', s.readFrom g fd o s.leftover count true = .ok (bytes.length, bytes, s') ∧ s'.queue = [] ∧
      s'.leftover = 0 := by
  have hCopy : s.copyCached g 0 = ([], s) := if_neg (by omega)
  have hSend := sendData_eq hAt (g.supply fd)
  rw [hSupply, hQueue, nil_append] at hSend
  refine ⟨{ s.setServer cell (o + bytes.length) with queue := [] }, ?_, rfl, hLeftover⟩
  unfold readFrom readMore
  rw [hLeftover, if_neg (by omega), hCopy]
  dsimp only
  rw [if_pos (.inr rfl), if_pos rfl]
  unfold getdentsRequest
  rw [hSend]
  change (readQueue _ _ _ >>= _) >>= _ = _
  have hSize : o + bytes.length - o = bytes.length := by omega
  rw [hSize]
  unfold readQueue
  rw [Int.toNat_natCast]
  rw [takeElements_pieces]
  rfl

section

variable (h : Ready g.tid fd f s o)
include h

theorem Ready.turned (hNext : ∀ s2 cell, Agrees g.tid s2 → At g.tid s2 fd f cell o o → s2.read.lastFd = fd →
      s2.leftover = 0 → s2.write.actualSize = 0 → s2.queue = [] → Ends (k s2) P E) :
    Ends (s.flushWrite g >>= fun s => s.switchRead g fd >>= k) P E := by
  refine (flushWrite_ends h.agrees).total.bind fun s1 ⟨h1, hs1⟩ => ?_
  refine (switchRead_ends h1 fd).total.bind fun s2 ⟨h2, hs2⟩ => ?_
  have hFiles : s2.files = s.files := hs2.files.trans hs1.files
  have hOffsets : s2.offsets = s.offsets := hs2.offsets.trans hs1.offsets
  have hFlushed : s2.write.actualSize = 0 := by rw [hs2.write, hs1.actualSize]
  have hLeftover : s2.leftover = 0 := by
    by_cases hLast : s.read.lastFd = fd
    · have hRemaining := h.remaining
      grind [Session.remaining, hs2.same, Session.leftover, hs1.read]
    · exact hs2.flushed (hs1.read ▸ hLast)
  obtain ⟨cell, client, hAt⟩ := h2.at (hFiles ▸ h.file)
  rw [prefetched_of_leftover hLeftover, unflushed_of_actualSize hFlushed, Int.add_zero, Int.sub_zero] at hAt
  have hClient : client = o := by
    have hOffset := offset_eq hAt
    grind [Session.offset, Except.ok.inj, h.offset]
  grind [hs2.lastFd, hs2.queue, hs1.queue, h.queue]

theorem getdents64_ends {count : Int} (hCount : DIRENT_SIZE ≤ count) (hMax : count < SSIZE_MAX)
    (hSent : (handleGetdents d dir o (count.tdiv DIRENT_SIZE * DIRENT_SIZE)).sent = some bytes) :
    Returns (getdents64 g d s dir fd count) (fun r => r.1 = bytes.length ∧ r.2.1 = bytes ∧
      Ready g.tid fd f r.2.2 (o + bytes.length)) := by
  have hRounded : 0 < count.tdiv DIRENT_SIZE * DIRENT_SIZE := by grind [DIRENT_SIZE]
  unfold getdents64
  rw [if_neg (Int.not_le.mpr hMax)]
  refine h.turned fun s2 cell h2 hAt hLast hLeftover hFlushed hQueue => ?_
  have hFetch : fetchDirents g d s2 dir fd (count.tdiv DIRENT_SIZE * DIRENT_SIZE - s2.leftover) = .ok bytes := by
    have hAsk : ask (s2.sm.getFileOffset g.tid fd) = .ok o := congrArg ask (getFileOffset_eq hAt)
    unfold fetchDirents
    rw [hLeftover, Int.sub_zero, if_pos hRounded, hAsk, ok_bind, hSent]
    rfl
  rw [hFetch, ends_ok_bind]
  set g' : Setting := { g with supply := fun _ _ => bytes } with hg'
  have hAt' : At g'.tid s2 fd f cell o o := hAt
  have hAtLeft : At g'.tid s2 fd f cell o (o + s2.leftover) := by rwa [hLeftover, Int.add_zero]
  have hSwitch : s2.switchRead g' fd = .ok s2 := if_neg (not_not.mpr hLast)
  unfold readThrough
  rw [hSwitch, ends_ok_bind, offset_eq hAt', ends_ok_bind]
  obtain ⟨s3, hRead, hQueue3, hLeftover3⟩ := readFrom_getdents hAt' hLeftover hQueue hRounded fun _ => rfl
  have hProgress := (readFrom_ends hAtLeft hLast hLeftover.ge hRounded.le true).result hRead
  change Ends (s2.readFrom g' fd o s2.leftover (count.tdiv DIRENT_SIZE * DIRENT_SIZE) true >>= _) _ _
  rw [hRead, ends_ok_bind]
  dsimp only
  rw [setOffset_eq hProgress.located.file, ends_ok_bind]
  have hMoved := hProgress.located.setOffset (o + bytes.length)
  refine ⟨rfl, rfl, ?_, hMoved.file, hQueue3, ?_, offset_eq hMoved⟩
  · exact h2.consume hAtLeft hLast hFlushed (hProgress.touches.trans (touches_setOffset _ _ _))
      hProgress.lastFd hProgress.write hMoved hProgress.nonneg
  · unfold remaining
    split
    · exact hLeftover3
    · rfl

theorem Ready.congr (hAgrees : Agrees g.tid s') (hFiles : s'.files = s.files)
    (hOffsets : s'.offsets = s.offsets) (hQueue : s'.queue = s.queue) (hRemaining : s'.remaining fd = 0) :
    Ready g.tid fd f s' o := by
  refine ⟨hAgrees, hFiles ▸ h.file, hQueue.trans h.queue, hRemaining, ?_⟩
  rw [Session.offset, hFiles, hOffsets]
  exact h.offset

theorem lseek_ready (offset : Nat) :
    Returns (s.lseek g fd offset false) (fun s' => Ready g.tid fd f s' offset) := by
  have hEmpty : ∀ s' : Session, s'.leftover = 0 → s'.remaining fd = 0 := fun s' hLeftover => by
    unfold Session.remaining
    rw [hLeftover, ite_self]
  refine (flushRead_ends h.agrees).bind fun s1 ⟨h1, hs1⟩ => ?_
  refine (flushWrite_ends h1).bind fun s2 ⟨h2, hs2⟩ => ?_
  have hLeftover : s2.leftover = 0 := by rw [Session.leftover, hs2.read, ← Session.leftover, hs1.leftover]
  have hReady : Ready g.tid fd f s2 o := h.congr h2 (hs2.files.trans hs1.files)
    (hs2.offsets.trans hs1.offsets) (hs2.queue.trans hs1.queue) (hEmpty s2 hLeftover)
  rw [hReady.offset, ends_ok_bind]
  refine (setFdOffset_ends h2 hReady.file offset).imp ?_
  rintro s' ⟨hAgrees, hs'⟩
  have hFile : s'.files fd = some f := hs'.files ▸ hReady.file
  refine ⟨hAgrees, hFile, hs'.queue.trans hReady.queue, hEmpty s' hs'.leftover, ?_⟩
  obtain ⟨cell, client, hAt⟩ := hAgrees.at hFile
  grind [hs'.offsets, hAt.clientAt, offset_eq]

end

end

/-- `position` is the number of the record that is next: the records returned so far, or the record behind the
one whose `d_off` was sought; `returned` are the `d_off` of records with their numbers. -/
structure World where
  session : Session
  dir : CapioFile
  position : Nat := 0
  returned : List (Nat × Nat) := []

inductive Op
  | getdents (count : Int)
  | rewind
  | seekTo (offset index : Nat)
  | append (os osGrow : Os) (ino : Nat) (name : List Byte)
  | commit

section

variable (g : Setting) (d : Directory) (fd : Fd)

def step (w : World) : Op → Except Stop World
  | .getdents count => do
    let (n, buffer, s) ← getdents64 g d w.session w.dir fd count
    pure { w with
      session := s
      position := w.position + n.toNat / DIRENT_SIZE
      returned := w.returned ++
        (pieces DIRENT_SIZE buffer).mapIdx fun j record => (offsetOf record, w.position + j) }
  | .rewind => do
    let s ← w.session.lseek g fd 0 false
    pure { w with session := s, position := 0 }
  | .seekTo offset index => do
    let s ← w.session.lseek g fd offset false
    pure { w with session := s, position := index + 1 }
  | .append os osGrow ino name => do
    let (_, dir) ← ask (w.dir.appendEntry os osGrow ino name)
    pure { w with dir := dir }
  | .commit => pure { w with dir := w.dir.setCommitted }

def Answerable (w : World) (count : Int) : Prop :=
  DIRENT_SIZE ≤ count ∧ count < 2147483648 ∧ (w.dir.committed = true ∨ d.firable = false)

def Allowed (w : World) : Op → Prop
  | .getdents count => Answerable d w count
  | .seekTo offset index => (offset, index) ∈ w.returned
  | .append _ _ _ name => (entries w.dir).length + 1 < 4194304 ∧ 0 ∉ name ∧ name.length < NAME_MAX
  | .rewind | .commit => True

/-- The call gives whole records that fit, which are the next ones that are stored, and none only behind the
last one. -/
structure Enumerates (w : World) (count : Int) (r : Int × List Byte × Session) : Prop where
  whole : ∃ n : Nat, r.1 = n * DIRENT_SIZE ∧ r.1 ≤ count ∧ w.position + n ≤ (entries w.dir).length ∧
    (pieces DIRENT_SIZE r.2.1).map entryOf = ((entries w.dir).drop w.position).take n
  length : (r.2.1.length : Int) = r.1
  last : r.1 = 0 → (entries w.dir).length ≤ w.position

structure Stores (dir : CapioFile) (L : List (List Byte)) : Prop where
  contains : Contains dir L
  few : L.length < 4194304
  names : ∀ record ∈ L, (decode record).name.length < NAME_MAX

structure Inv (f : File) (w : World) (L : List (List Byte)) : Prop where
  ready : Ready g.tid fd f w.session (w.position * DIRENT_SIZE : Nat)
  stores : Stores w.dir L
  position : w.position ≤ L.length
  returned : ∀ q ∈ w.returned, q.1 = (q.2 + 1) * DIRENT_SIZE ∧ q.2 < L.length

variable {g d fd} {L : List (List Byte)}

theorem Stores.entries (h : Stores dir L) : entries dir = L.map entryOf := by
  unfold Getdents.entries
  rw [h.contains.pieces]

section

variable {p n : Nat} (hSized : ∀ record ∈ L, record.length = DIRENT_SIZE) (junk : Nat → Byte)

theorem length_sentFrom (hn : p + n ≤ L.length) : (sentFrom junk L p n).length = n := by grind [sentFrom]

theorem sized_sentFrom : ∀ record ∈ sentFrom junk L p n, record.length = DIRENT_SIZE := by
  intro record hRecord
  obtain ⟨j, hj, rfl⟩ := mem_mapIdx.mp hRecord
  exact length_rebuilt ..

include hSized

theorem entries_sentFrom (hNames : ∀ record ∈ L, (decode record).name.length < NAME_MAX) :
    (sentFrom junk L p n).map entryOf = ((L.map entryOf).drop p).take n := by
  rw [← map_drop, ← map_take]
  refine ext_getElem ?_ fun j hj hj' => ?_
  · rw [length_map, length_map, sentFrom, length_mapIdx]
  · have hMem : ((L.drop p).take n).get ⟨j, by rwa [length_map] at hj'⟩ ∈ L :=
      mem_of_mem_drop (mem_of_mem_take (get_mem ..))
    grind [sentFrom, entryOf_rebuilt]

theorem returned_sentFrom (hFew : L.length < 4194304) :
    ∀ q ∈ (sentFrom junk L p n).mapIdx (fun j record => (offsetOf record, p + j)),
      q.1 = (q.2 + 1) * DIRENT_SIZE ∧ q.2 < L.length := by
  intro q hq
  obtain ⟨j, hj, rfl⟩ := mem_mapIdx.mp hq
  have hLength : j < ((L.drop p).take n).length := by rwa [sentFrom, length_mapIdx] at hj
  rw [length_take, length_drop] at hLength
  grind [sentFrom, offsetOf_rebuilt]

end

section

variable (h : Inv g fd f w L) (hHome : d.isProd = true ∨ d.location = some d.node)
include h hHome

theorem Inv.getdents {count : Int} (hCount : Answerable d w count) :
    ∃ n : Nat, w.position + n ≤ L.length ∧ ((n * DIRENT_SIZE : Nat) : Int) ≤ count ∧
      (n = 0 → w.position = L.length) ∧
      Returns (getdents64 g d w.session w.dir fd count) (fun r => r.1 = (n * DIRENT_SIZE : Nat) ∧
        r.2.1 = (sentFrom d.junk L w.position n).flatten ∧
        Ready g.tid fd f r.2.2 ((w.position + n) * DIRENT_SIZE : Nat)) := by
  obtain ⟨hLeast, hMost, hAnswers⟩ := hCount
  obtain ⟨k, rfl⟩ := Int.eq_ofNat_of_zero_le (show 0 ≤ count by omega)
  have hRounded : (k : Int).tdiv DIRENT_SIZE * DIRENT_SIZE = (k / DIRENT_SIZE * DIRENT_SIZE : Nat) := by simp
  have hPosition := h.position
  set n := min (k / DIRENT_SIZE) (L.length - w.position) with hn
  have hFits : w.position + n ≤ L.length := by omega
  have hSent := handleGetdents_sent h.stores.contains hHome hAnswers h.stores.few hPosition (k / DIRENT_SIZE)
  rw [← hn, ← hRounded] at hSent
  have hLength : (sentFrom d.junk L w.position n).flatten.length = n * DIRENT_SIZE := by
    rw [length_flatten_of_sized (sized_sentFrom d.junk), length_sentFrom d.junk hFits]
  have hMax : (k : Int) < SSIZE_MAX := by
    unfold SSIZE_MAX
    omega
  refine ⟨n, hFits, ?_, fun hZero => ?_, (getdents64_ends h.ready hLeast hMax hSent).imp ?_⟩
  · unfold DIRENT_SIZE at hn ⊢
    omega
  · unfold DIRENT_SIZE at hn hLeast
    omega
  · simp [hLength, Nat.add_mul]

theorem Inv.enumerates {count : Int} (hCount : Answerable d w count) :
    Returns (getdents64 g d w.session w.dir fd count) (Enumerates w count) := by
  obtain ⟨n, hFits, hLe, hLast, hCall⟩ := h.getdents hHome hCount
  have hSized := h.stores.contains.sized
  refine hCall.imp ?_
  rintro ⟨size, buffer, s'⟩ ⟨hSize, hBuffer, -⟩
  dsimp only at hSize hBuffer
  have hLength : (entries w.dir).length = L.length := by rw [h.stores.entries, length_map]
  refine ⟨⟨n, ?_, hSize ▸ hLe, hLength ▸ hFits, ?_⟩, ?_, fun hZero => ?_⟩
  · rw [hSize]
    exact Nat.cast_mul n DIRENT_SIZE
  · rw [hBuffer, pieces_of_flatten (by decide) (sized_sentFrom d.junk),
      entries_sentFrom hSized d.junk h.stores.names, h.stores.entries]
  · rw [hBuffer, hSize, length_flatten_of_sized (sized_sentFrom d.junk), length_sentFrom d.junk hFits]
  · grind [DIRENT_SIZE]

theorem Inv.step (hAllowed : Allowed d w op) :
    Ends (step g d fd w op) (fun w' => ∃ L', Inv g fd f w' L') fun e => ∃ x, e = .server x := by
  have hSized := h.stores.contains.sized
  cases op with
  | getdents count =>
    obtain ⟨n, hFits, -, -, hCall⟩ := h.getdents hHome hAllowed
    refine hCall.total.bind ?_
    rintro ⟨size, buffer, s'⟩ ⟨hSize, hBuffer, hReady⟩
    dsimp only at hSize hBuffer hReady ⊢
    have hCount : size.toNat / DIRENT_SIZE = n := by
      rw [hSize, Int.toNat_natCast, Nat.mul_div_cancel n (by decide)]
    refine ⟨L, ?_, h.stores, ?_, fun q hq => ?_⟩
    · rw [hCount]
      exact hReady
    · rw [hCount]
      exact hFits
    · rcases mem_append.mp hq with hOld | hNew
      · exact h.returned q hOld
      · rw [hBuffer, pieces_of_flatten (by decide) (sized_sentFrom d.junk)] at hNew
        exact returned_sentFrom hSized d.junk h.stores.few q hNew
  | rewind =>
    refine (lseek_ready h.ready 0).total.bind fun s' hReady => ?_
    refine ⟨L, ?_, h.stores, Nat.zero_le _, h.returned⟩
    dsimp only
    rwa [Nat.zero_mul]
  | seekTo offset index =>
    obtain ⟨hOffset, hIndex⟩ := h.returned (offset, index) hAllowed
    refine (lseek_ready h.ready offset).total.bind fun s' hReady => ?_
    refine ⟨L, ?_, h.stores, hIndex, h.returned⟩
    dsimp only at hOffset ⊢
    rwa [← hOffset]
  | append os osGrow ino name =>
    obtain ⟨hFew, hTerminated, hShort⟩ := hAllowed
    rw [h.stores.entries, length_map] at hFew
    refine ((ends_mapError (h.stores.contains.append os osGrow ino name)).mono (fun _ => id) ?_).bind ?_
    · rintro _ ⟨e, rfl, -⟩
      exact ⟨e, rfl⟩
    · rintro ⟨record, dir⟩ ⟨hContains, off, rfl⟩
      have hGrown : ∀ m, m ≤ L.length →
          m ≤ (L ++ [CapioFile.linuxDirent64 os ino off w.dir.directory name]).length := by
        intro m hm
        rw [length_append]
        omega
      refine ⟨_, h.ready, ⟨hContains, ?_, fun record hRecord => ?_⟩, hGrown _ h.position, fun q hq => ?_⟩
      · grind
      · rcases mem_append.mp hRecord with hOld | hNew
        · exact h.stores.names record hOld
        · rw [mem_singleton.mp hNew, decode_linuxDirent64 _ _ _ _ ⟨hTerminated, hShort.le⟩]
          exact hShort
      · exact ⟨(h.returned q hq).1, hGrown _ (h.returned q hq).2⟩
  | commit =>
    have hContains : Contains w.dir.setCommitted L := by
      rw [CapioFile.setCommitted_eq]
      exact h.stores.contains.congr rfl rfl
    exact ⟨L, h.ready, ⟨hContains, h.stores.few, h.stores.names⟩, h.position, h.returned⟩

end

/-- In every state that calls, seeks to returned records and new records lead to, a call gives the records
that are next. -/
theorem run_enumerates {s : Session} {dir : CapioFile} (hReady : Ready g.tid fd f s 0) (hStores : Stores dir L)
    (hHome : d.isProd = true ∨ d.location = some d.node) {ops : List Op}
    (hMeets : Meets (Allowed d) (step g d fd) ⟨s, dir, 0, []⟩ ops) :
    Ends (ops.foldlM (step g d fd) ⟨s, dir, 0, []⟩) (fun w => ∀ count, Answerable d w count →
      Ends (getdents64 g d w.session w.dir fd count) (Enumerates w count) fun _ => False)
      fun e => ∃ x, e = .server x := by
  have hStart : ∃ L', Inv g fd f ⟨s, dir, 0, []⟩ L' := by
    refine ⟨L, ?_, hStores, Nat.zero_le _, fun q hq => absurd hq List.not_mem_nil⟩
    rwa [Nat.zero_mul]
  refine (run_ends (I := fun w => ∃ L', Inv g fd f w L') ?_ hStart ops hMeets).imp ?_
  · rintro w op ⟨L', h⟩ hAllowed
    exact h.step hHome hAllowed
  · rintro w ⟨L', h⟩ count hCount
    exact h.enumerates hHome hCount

end

instance (d : Directory) (w : World) (count : Int) : Decidable (Answerable d w count) :=
  inferInstanceAs (Decidable (DIRENT_SIZE ≤ count ∧ count < 2147483648 ∧
    (w.dir.committed = true ∨ d.firable = false)))

instance (d : Directory) (w : World) : (op : Op) → Decidable (Allowed d w op) :=
  fun op => by cases op <;> dsimp only [Allowed] <;> infer_instance

def here : Directory where
  isProd := true
  location := none
  node := "n".toList
  isCapioDir := false
  firable := true
  junk := fun _ => 7

def emptyDir : CapioFile := .new true 0 false 512 0

def twoRecords : List Op :=
  [.append (Os.plain 64) (Os.plain 64) 5 [97], .commit, .append (Os.plain 64) (Os.plain 64) 6 [98, 99],
    .getdents 600, .seekTo 280 0]

theorem enumerates_after_seek : ∃ w,
    twoRecords.foldlM (step shortLines here 3) ⟨twoOpen, emptyDir, 0, []⟩ = .ok w ∧ w.position = 1 ∧
      (entries w.dir).length = 2 ∧ ∀ count, Answerable here w count →
        Ends (getdents64 shortLines here w.session w.dir 3 count) (Enumerates w count) fun _ => False := by
  have hIdle := idle_twoOpen
  have hReady : ∃ f, Ready 7 3 f twoOpen 0 := by
    obtain ⟨f, hf⟩ := Option.ne_none_iff_exists'.mp (show twoOpen.files 3 ≠ none by decide +kernel)
    exact ⟨f, hIdle.agrees, hf, hIdle.queue, by decide +kernel, by decide +kernel⟩
  obtain ⟨f, hReady⟩ := hReady
  have hStores : Stores emptyDir [] :=
    ⟨contains_nil rfl rfl, by decide, fun _ h => absurd h List.not_mem_nil⟩
  have hRun : ∃ w, twoRecords.foldlM (step shortLines here 3) ⟨twoOpen, emptyDir, 0, []⟩ = .ok w ∧
      w.position = 1 ∧ (entries w.dir).length = 2 := by
    decide +kernel
  obtain ⟨w, hw, hPosition, hLength⟩ := hRun
  exact ⟨w, hw, hPosition, hLength, (run_enumerates (g := shortLines) hReady hStores (.inl rfl)
    (by decide +kernel)).result hw⟩

end Capio.Posix.Getdents
