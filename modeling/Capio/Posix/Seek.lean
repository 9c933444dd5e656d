import Capio.Lib.Format
import Capio.Posix.Agreement
import Capio.Storage.SectorSearch

/-! # The five kinds of `lseek`

`capio_lseek` flushes both caches and then asks the server in one of four ways.  The session keeps
the offsets of both sides and the files of the server, to which a flush of the write cache adds a
sector.  What the call is meant to do is said by `Target`, and `SeeksRight` says when it does that.
-/
namespace Capio.Posix.Seek

open Common Lib.Format Lib.Outcome Server Storage
open Lib.Segments Storage.Sectors Storage.SectorSearch Session

def SEEK_SET : Int := 0

def SEEK_CUR : Int := 1

def SEEK_END : Int := 2

def SEEK_DATA : Int := 3

def SEEK_HOLE : Int := 4

def CAPIO_POSIX_SYSCALL_ERRNO : Int := -1

def asOff64 (n : Int) : Int := n.bmod 18446744073709551616

/-- An offset is printed with `%zu` and read back with `%ld`. -/
def asked (offset : Int) : Int := Width.long.convert (offset % 18446744073709551616)

section

variable (g : Setting)

def serve (s : Session) : CacheAction → Except Stop Session
  | .request fd count => do
    let offset ← ask (s.sm.getFileOffset g.tid fd)
    let i ← ask (s.sm.get (s.sm.getPath g.tid fd).1)
    if offset < 0 then throw (.server .outOfBounds)
    else
      let sm ← ask (s.sm.modify i fun f => f.insertSector offset.toNat (offset + count).toNat)
      seekRequest g { s with sm := sm } fd (offset + count)
  | .reserve | .store _ _ | .push _ => pure s

def flush (s : Session) : Except Stop Session := do
  let s ← s.flushRead g
  s.write.flush.2.foldlM (serve g) { s with write := s.write.flush.1 }

def capioSetFdOffset (s : Session) (fd : Fd) (offset : Int) : Except Stop Session := do
  let s ← flush g s
  let s ← s.setOffset fd offset
  s.seekRequest g fd offset

def seekEndRequest (s : Session) (fd : Fd) : Except Stop Int := do
  let i ← ask (s.sm.get (s.sm.getPath g.tid fd).1)
  let f ← ask (s.sm.object i)
  pure f.getStoredSize

def searchRequest (search : List Sector → Int → Int) (s : Session) (fd : Fd) (offset : Int) :
    Except Stop (Int × Session) := do
  let i ← ask (s.sm.getOfFd g.tid fd)
  let f ← ask (s.sm.object i)
  let found := search f.sectors (asked offset)
  let s ← s.seekRequest g fd found
  pure (found, s)

def seekDataRequest : Session → Fd → Int → Except Stop (Int × Session) := searchRequest g seekData

def seekHoleRequest : Session → Fd → Int → Except Stop (Int × Session) := searchRequest g seekHole

def capioLseek (s : Session) (fd : Fd) (offset whence : Int) : Except Stop (Int × Session) :=
  match s.files fd with
  | none => pure (CAPIO_POSIX_SYSCALL_REQUEST_SKIP, s)
  | some _ => do
    let s ← flush g s
    let fileOffset ← s.offset fd
    if whence = SEEK_SET then
      if offset ≥ 0 then
        let s ← capioSetFdOffset g s fd offset
        pure (offset, s)
      else pure (CAPIO_POSIX_SYSCALL_ERRNO, s)
    else if whence = SEEK_CUR then
      let newOffset := asOff64 (fileOffset + offset)
      if newOffset ≥ 0 then
        let s ← capioSetFdOffset g s fd newOffset
        pure (newOffset, s)
      else pure (CAPIO_POSIX_SYSCALL_ERRNO, s)
    else if whence = SEEK_END then
      -- the size is not used, and the server is not told the new offset
      let _ ← seekEndRequest g s fd
      let newOffset := asOff64 (fileOffset + offset)
      let s ← s.setOffset fd newOffset
      pure (newOffset, s)
    else if whence = SEEK_DATA then
      let (newOffset, s) ← seekDataRequest g s fd fileOffset
      let s ← s.setOffset fd newOffset
      pure (newOffset, s)
    else if whence = SEEK_HOLE then
      let (newOffset, s) ← seekHoleRequest g s fd fileOffset
      let s ← s.setOffset fd newOffset
      pure (newOffset, s)
    else pure (CAPIO_POSIX_SYSCALL_ERRNO, s)

end

/-! ## What a call is meant to do -/

def DataAt (S : List Sector) (offset : Int) (r : Nat) : Prop :=
  IsLeast {b : Nat | offset ≤ b ∧ Covers S b} r

/-- The smallest offset of a hole that is not before an offset; the size of the file is one. -/
def HoleAt (S : List Sector) (offset : Int) (r : Nat) : Prop :=
  IsLeast {b : Nat | offset ≤ b ∧ b ≤ getFileSize S ∧ ¬ Covers S b} r

/-- The offset that a call asks for, of a file with the given sectors and a descriptor with the given
offset. -/
def Target (S : List Sector) (current offset whence r : Int) : Prop :=
  0 ≤ r ∧ Width.long.Fits r ∧
    (whence = SEEK_SET ∧ r = offset ∨ whence = SEEK_CUR ∧ r = current + offset ∨
      whence = SEEK_END ∧ r = getFileSize S + offset ∨
      whence = SEEK_DATA ∧ DataAt S offset r.toNat ∨ whence = SEEK_HOLE ∧ HoleAt S offset r.toNat)

structure Serves (tid : Tid) (s : Session) (fd : Fd) (cell : Nat) (server : Int) (file : CapioFile) :
    Prop where
  mapped : s.serverCell tid fd = some cell
  serverAt : s.sm.offsets[cell]? = some server
  opened : ∃ d i, s.sm.openedFdMap.lookup (tid, fd) = some d ∧ d.pointer = some i ∧
    s.sm.storage d.path = some i ∧ s.sm.objects[i]? = some (some file)

/-- The call returns the offset it was asked for, which both sides then have, or it fails since there is
none, and both offsets stay. -/
def SeeksAsAsked (g : Setting) (s : Session) (fd : Fd) (f : File) (cell : Nat) (client server : Int)
    (S : List Sector) (offset whence : Int) : Prop :=
  ∃ r s', capioLseek g s fd offset whence = .ok (r, s') ∧
    (Target S client offset whence r ∧ At g.tid s' fd f cell r r ∨
      r = -1 ∧ (∀ t, ¬ Target S client offset whence t) ∧ At g.tid s' fd f cell client server)

/-- A search from the offset of the descriptor, instead of the argument, finds the same data. -/
def FindsDataAt (S : List Sector) (client server offset : Int) : Prop :=
  (∃ r, DataAt S offset r ∧ (asked client = r ∨
      asked client < r ∧ ∀ t ∈ S, t.2 < asked client ∨ r ≤ t.1)) ∨
    (∀ r, ¬ DataAt S offset r) ∧ client = -1 ∧ server = -1 ∧ getFileSize S < 9223372036854775807

def FindsHoleAt (S : List Sector) (client server offset : Int) : Prop :=
  (∃ r, HoleAt S offset r ∧ (asked client = r ∨ ∃ t ∈ S, t.1 ≤ asked client ∧ asked client ≤ t.2 ∧ t.2 = r)) ∨
    (∀ r, ¬ HoleAt S offset r) ∧ client = -1 ∧ server = -1 ∧ getFileSize S < 9223372036854775807

def SeeksRight (S : List Sector) (client server offset whence : Int) : Prop :=
  (whence = SEEK_CUR → -9223372036854775808 ≤ client + offset) ∧
  (whence = SEEK_END → client = getFileSize S ∧ server = client + offset ∧ 0 ≤ client + offset ∧
    client + offset < 9223372036854775808) ∧
  (whence = SEEK_DATA → FindsDataAt S client server offset) ∧
  (whence = SEEK_HOLE → FindsHoleAt S client server offset)

section

variable {g : Setting} {s s1 : Session} {fd : Fd} {f : File} {cell : Nat}
  {client server offset whence : Int}

structure Drained (s : Session) : Prop where
  read : s.read.cacheOffset = s.read.actualSize
  write : s.write.actualSize = 0

theorem seekRequest_sm (s : Session) (fd : Fd) (offset : Int) :
    Yields (s.seekRequest g fd offset) (fun s' => ∃ sm, s' = { s with sm := sm }) :=
  (ask_ends (P := fun _ => True) fun _ _ => trivial).bind fun sm _ => ⟨sm, rfl⟩

theorem serve_sm (s : Session) (a : CacheAction) :
    Yields (serve g s a) (fun s' => ∃ sm, s' = { s with sm := sm }) := by
  cases a with
  | request fd count =>
    refine (ask_ends (P := fun _ => True) fun _ _ => trivial).bind fun offset _ => ?_
    refine (ask_ends (P := fun _ => True) fun _ _ => trivial).bind fun i _ => ?_
    refine .ite (fun _ => trivial) fun _ => ?_
    refine (ask_ends (P := fun _ => True) fun _ _ => trivial).bind fun sm _ => ?_
    grind [seekRequest_sm]
  | reserve => exact ⟨s.sm, rfl⟩
  | store offset bytes => exact ⟨s.sm, rfl⟩
  | push bytes => exact ⟨s.sm, rfl⟩

theorem flushRead_sm (s : Session) : Yields (s.flushRead g)
    (fun s' => s'.read.cacheOffset = s'.read.actualSize ∧ s'.files = s.files ∧ s'.offsets = s.offsets) := by
  refine Ends.ite (fun _ => ?_) fun hNot => ⟨not_not.mp hNot, rfl, rfl⟩
  refine (Ends.always (fun _ => trivial) _).bind fun offset _ => ?_
  refine (seekRequest_sm _ _ _).imp ?_
  rintro s' ⟨sm, rfl⟩
  exact ⟨rfl, rfl, rfl⟩

theorem flush_ends (s : Session) : Yields (flush g s)
    (fun s' => Drained s' ∧ s'.files = s.files ∧ s'.offsets = s.offsets) := by
  refine (flushRead_sm s).bind ?_
  rintro s1 ⟨hRead, hFiles, hOffsets⟩
  unfold WriteCache.flush
  split
  · refine (serve_sm _ _).bind ?_
    rintro s2 ⟨sm, rfl⟩
    exact ⟨⟨hRead, rfl⟩, hFiles, hOffsets⟩
  · next hNot => exact ⟨⟨hRead, not_not.mp hNot⟩, hFiles, hOffsets⟩

theorem flush_drained (h : Drained s) : flush g s = .ok s := by
  have hRead : s.flushRead g = .ok s := if_neg (not_not.mpr h.read)
  have hWrite : s.write.flush = (s.write, []) := if_neg (not_not.mpr h.write)
  unfold flush
  rw [hRead, ok_bind, hWrite]
  rfl

theorem offsets_eq (h : At g.tid s fd f cell c v) (h' : At g.tid s fd f cell c' v') : c = c' ∧ v = v' :=
  ⟨Option.some.inj (h.clientAt.symm.trans h'.clientAt), Option.some.inj (h.serverAt.symm.trans h'.serverAt)⟩

structure Answer where
  result : Int
  client : Int
  server : Int

def answer (S : List Sector) (client server offset whence : Int) : Answer :=
  let failed : Answer := ⟨-1, client, server⟩
  let sum := asOff64 (client + offset)
  if whence = SEEK_SET then if 0 ≤ offset then ⟨offset, offset, offset⟩ else failed
  else if whence = SEEK_CUR then if 0 ≤ sum then ⟨sum, sum, sum⟩ else failed
  else if whence = SEEK_END then ⟨sum, sum, server⟩
  else if whence = SEEK_DATA then
    ⟨seekData S (asked client), seekData S (asked client), seekData S (asked client)⟩
  else if whence = SEEK_HOLE then
    ⟨seekHole S (asked client), seekHole S (asked client), seekHole S (asked client)⟩
  else failed

def Answers (g : Setting) (fd : Fd) (f : File) (cell : Nat) (a : Answer) (x : Except Stop (Int × Session)) :
    Prop :=
  ∃ s', x = .ok (a.result, s') ∧ At g.tid s' fd f cell a.client a.server

theorem capioSetFdOffset_answers (hAt : At g.tid s fd f cell client server) (hDrained : Drained s)
    (offset : Int) : Answers g fd f cell ⟨offset, offset, offset⟩ (do
      let s ← capioSetFdOffset g s fd offset
      pure (offset, s)) := by
  have hSet := hAt.setOffset offset
  refine ⟨_, ?_, hSet.setServer offset⟩
  unfold capioSetFdOffset
  rw [flush_drained hDrained, ok_bind, setOffset_eq hAt.file, ok_bind, seekRequest_eq hSet.mapped]
  rfl

theorem object_eq {sm : StorageManager} (h : sm.objects[i]? = some (some file)) :
    sm.object i = .ok file := by
  simp only [StorageManager.object, h]

theorem seekEnd_answers (hAt : At g.tid s fd f cell client server)
    (hServes : Serves g.tid s fd cell server file) (offset : Int) :
    Answers g fd f cell ⟨offset, offset, server⟩ (do
      let _ ← seekEndRequest g s fd
      let s ← s.setOffset fd offset
      pure (offset, s)) := by
  obtain ⟨d, i, hd, -, hPath, hFile⟩ := hServes.opened
  have hGet : s.sm.get (s.sm.getPath g.tid fd).1 = .ok i := by
    simp only [StorageManager.getPath, StorageManager.descriptor, hd, StorageManager.get, hPath]
  have hSize : seekEndRequest g s fd = .ok file.getStoredSize := by
    unfold seekEndRequest
    rw [hGet]
    change (ask (s.sm.object i) >>= _) = _
    rw [object_eq hFile]
    rfl
  refine ⟨_, ?_, hAt.setOffset offset⟩
  rw [hSize, ok_bind, setOffset_eq hAt.file]
  rfl

theorem search_answers (search : List Sector → Int → Int) (hAt : At g.tid s fd f cell client server)
    (hServes : Serves g.tid s fd cell server file) (offset : Int) :
    let found := search file.sectors (asked offset)
    Answers g fd f cell ⟨found, found, found⟩ (do
      let (newOffset, s) ← searchRequest g search s fd offset
      let s ← s.setOffset fd newOffset
      pure (newOffset, s)) := by
  intro found
  obtain ⟨d, i, hd, hPointer, -, hFile⟩ := hServes.opened
  have hGet : s.sm.getOfFd g.tid fd = .ok i := by
    simp only [StorageManager.getOfFd, hd, hPointer]
  have hSearch : searchRequest g search s fd offset = .ok (found, s.setServer cell found) := by
    unfold searchRequest
    rw [hGet]
    change (ask (s.sm.object i) >>= _) = _
    rw [object_eq hFile]
    change (s.seekRequest g fd found >>= _) = _
    rw [seekRequest_eq hAt.mapped]
    rfl
  refine ⟨_, ?_, (hAt.setServer found).setOffset found⟩
  rw [hSearch, ok_bind]
  dsimp only
  rw [setOffset_eq (s := s.setServer cell found) hAt.file]
  rfl

theorem capioLseek_answers (hFd : s.files fd = some f) (hClient : s.offsets[f.cell]? = some client)
    (hFlush : flush g s = .ok s1) (hServes : Serves g.tid s1 fd cell server file) (offset whence : Int) :
    Answers g fd f cell (answer file.sectors client server offset whence)
      (capioLseek g s fd offset whence) := by
  obtain ⟨hDrained, hFiles, hOffsets⟩ := (flush_ends s).result hFlush
  have hAt : At g.tid s1 fd f cell client server :=
    ⟨hFiles ▸ hFd, hServes.mapped, hOffsets ▸ hClient, hServes.serverAt⟩
  have hFailed : Answers g fd f cell ⟨-1, client, server⟩ (pure (CAPIO_POSIX_SYSCALL_ERRNO, s1)) :=
    ⟨s1, rfl, hAt⟩
  unfold capioLseek answer
  rw [hFd]
  rw [hFlush, ok_bind, offset_eq hAt, ok_bind]
  by_cases hSet : whence = SEEK_SET
  · rw [if_pos hSet, if_pos hSet]
    by_cases hNonneg : offset ≥ 0
    · rw [if_pos hNonneg, if_pos hNonneg]
      exact capioSetFdOffset_answers hAt hDrained offset
    · rw [if_neg hNonneg, if_neg hNonneg]
      exact hFailed
  rw [if_neg hSet, if_neg hSet]
  by_cases hCur : whence = SEEK_CUR
  · rw [if_pos hCur, if_pos hCur]
    grind [capioSetFdOffset_answers]
  rw [if_neg hCur, if_neg hCur]
  by_cases hEnd : whence = SEEK_END
  · rw [if_pos hEnd, if_pos hEnd]
    exact seekEnd_answers hAt hServes _
  rw [if_neg hEnd, if_neg hEnd]
  by_cases hData : whence = SEEK_DATA
  · rw [if_pos hData, if_pos hData]
    exact search_answers seekData hAt hServes client
  rw [if_neg hData, if_neg hData]
  by_cases hHole : whence = SEEK_HOLE
  · rw [if_pos hHole, if_pos hHole]
    exact search_answers seekHole hAt hServes client
  · rw [if_neg hHole, if_neg hHole]
    exact hFailed

def Answer.Right (a : Answer) (S : List Sector) (client server offset whence : Int) : Prop :=
  Target S client offset whence a.result ∧ a.client = a.result ∧ a.server = a.result ∨
    a.result = -1 ∧ (∀ t, ¬ Target S client offset whence t) ∧ a.client = client ∧ a.server = server

theorem Answers.seeksAsAsked_iff (h : Answers g fd f cell a (capioLseek g s fd offset whence))
    (S : List Sector) : SeeksAsAsked g s fd f cell client server S offset whence ↔
      a.Right S client server offset whence := by
  obtain ⟨s', hCall, hAt⟩ := h
  constructor
  · rintro ⟨r, s'', hCall', hPost⟩
    obtain ⟨rfl, rfl⟩ := Prod.mk.inj (Except.ok.inj (hCall'.symm.trans hCall))
    rcases hPost with ⟨hTarget, hAt'⟩ | ⟨hNeg, hNone, hAt'⟩
    · exact .inl ⟨hTarget, offsets_eq hAt hAt'⟩
    · exact .inr ⟨hNeg, hNone, offsets_eq hAt hAt'⟩
  · rintro (⟨hTarget, hC, hS⟩ | ⟨hNeg, hNone, hC, hS⟩)
    · rw [hC, hS] at hAt
      exact ⟨_, s', hCall, .inl ⟨hTarget, hAt⟩⟩
    · rw [hC, hS] at hAt
      exact ⟨_, s', hCall, .inr ⟨hNeg, hNone, hAt⟩⟩

end

/-! ## When a call does it -/

section

variable {S : List Sector} {client server offset : Int}

theorem asOff64_cases (hClient : Width.long.Fits client) (hOffset : Width.long.Fits offset) :
    Width.long.Fits (asOff64 (client + offset)) ∧ (asOff64 (client + offset) = client + offset ∨
      asOff64 (client + offset) = client + offset - 18446744073709551616 ∨
      asOff64 (client + offset) = client + offset + 18446744073709551616) := by grind [asOff64, Width.Fits]

theorem search_right {whence : Int} {P : Nat → Prop}
    (hTarget : ∀ r, Target S client offset whence r ↔ 0 ≤ r ∧ Width.long.Fits r ∧ P r.toNat)
    (hFits : ∀ r, P r → r < 9223372036854775808) :
    Answer.Right ⟨found, found, found⟩ S client server offset whence ↔
      (∃ r : Nat, P r ∧ found = r) ∨ (∀ r, ¬ P r) ∧ found = -1 ∧ client = -1 ∧ server = -1 := by
  unfold Answer.Right
  simp only [hTarget]
  constructor
  · rintro (⟨⟨hNonneg, -, hP⟩, -, -⟩ | ⟨hNeg, hNone, hC, hS⟩)
    · exact .inl ⟨found.toNat, hP, by omega⟩
    · refine .inr ⟨fun r hr => hNone r ⟨by omega, ?_, hr⟩, hNeg, by omega, by omega⟩
      have := hFits r hr
      exact ⟨by omega, by omega⟩
  · rintro (⟨r, hr, rfl⟩ | ⟨hNone, hNeg, hC, hS⟩)
    · have := hFits r hr
      exact .inl ⟨⟨by omega, ⟨by omega, by omega⟩, hr⟩, trivial, trivial⟩
    · exact .inr ⟨hNeg, fun r hr => hNone _ hr.2.2, by omega, by omega⟩

theorem target_set (r : Int) :
    Target S client offset SEEK_SET r ↔ 0 ≤ r ∧ Width.long.Fits r ∧ r = offset := by
  simp [Target, SEEK_SET, SEEK_CUR, SEEK_END, SEEK_DATA, SEEK_HOLE]

theorem target_cur (r : Int) :
    Target S client offset SEEK_CUR r ↔ 0 ≤ r ∧ Width.long.Fits r ∧ r = client + offset := by
  simp [Target, SEEK_SET, SEEK_CUR, SEEK_END, SEEK_DATA, SEEK_HOLE]

theorem target_end (r : Int) :
    Target S client offset SEEK_END r ↔ 0 ≤ r ∧ Width.long.Fits r ∧ r = getFileSize S + offset := by
  simp [Target, SEEK_SET, SEEK_CUR, SEEK_END, SEEK_DATA, SEEK_HOLE]

theorem target_data (r : Int) :
    Target S client offset SEEK_DATA r ↔ 0 ≤ r ∧ Width.long.Fits r ∧ DataAt S offset r.toNat := by
  simp [Target, SEEK_SET, SEEK_CUR, SEEK_END, SEEK_DATA, SEEK_HOLE]

theorem target_hole (r : Int) :
    Target S client offset SEEK_HOLE r ↔ 0 ≤ r ∧ Width.long.Fits r ∧ HoleAt S offset r.toNat := by
  simp [Target, SEEK_SET, SEEK_CUR, SEEK_END, SEEK_DATA, SEEK_HOLE]

theorem set_right (hOffset : Width.long.Fits offset) :
    (answer S client server offset SEEK_SET).Right S client server offset SEEK_SET := by
  grind [answer, Answer.Right, target_set]

theorem cur_right_iff (hClient : Width.long.Fits client) (hOffset : Width.long.Fits offset) :
    (answer S client server offset SEEK_CUR).Right S client server offset SEEK_CUR ↔
      -9223372036854775808 ≤ client + offset := by
  have hAnswer : answer S client server offset SEEK_CUR = if 0 ≤ asOff64 (client + offset) then
        ⟨asOff64 (client + offset), asOff64 (client + offset), asOff64 (client + offset)⟩
      else ⟨-1, client, server⟩ := rfl
  have hSum := asOff64_cases hClient hOffset
  grind [Answer.Right, Width.Fits, target_cur]

theorem end_right_iff (hClient : Width.long.Fits client) (hOffset : Width.long.Fits offset)
    (hSize : getFileSize S < 9223372036854775808) :
    (answer S client server offset SEEK_END).Right S client server offset SEEK_END ↔
      client = getFileSize S ∧ server = client + offset ∧ 0 ≤ client + offset ∧
        client + offset < 9223372036854775808 := by
  have hAnswer : answer S client server offset SEEK_END =
      ⟨asOff64 (client + offset), asOff64 (client + offset), server⟩ := rfl
  have hSum := asOff64_cases hClient hOffset
  rw [hAnswer]
  unfold Answer.Right
  simp only [target_end]
  generalize asOff64 (client + offset) = sum at hSum ⊢
  unfold Width.Fits at *
  constructor
  · rintro (⟨⟨hNonneg, hFits, hEq⟩, -, hServer⟩ | ⟨hNeg, hNone, hSame, -⟩)
    · omega
    · exact absurd ⟨by omega, ⟨by omega, by omega⟩, rfl⟩ (hNone (getFileSize S + offset))
  · grind

theorem asked_cases (hClient : Width.long.Fits client) : ∃ o : Nat, asked client = o ∧
    (client = -1 → o = 9223372036854775807) := by
  refine ⟨(asked client).toNat, ?_, ?_⟩
  · unfold asked Width.convert
    dsimp only
    omega
  · rintro rfl
    decide

section

variable (hSep : Separated S) (hNe : S ≠ []) (hClient : Width.long.Fits client) (hSize : getFileSize S < 9223372036854775808)
include hSep hNe hClient hSize

theorem data_right_iff
    :
    (answer S client server offset SEEK_DATA).Right S client server offset SEEK_DATA ↔
      FindsDataAt S client server offset := by
  obtain ⟨o, hAsked, hBehind⟩ := asked_cases hClient
  have hAnswer : answer S client server offset SEEK_DATA =
      ⟨seekData S (asked client), seekData S (asked client), seekData S (asked client)⟩ := rfl
  have hFits : ∀ r, DataAt S offset r → r < 9223372036854775808 := by
    intro r hr
    obtain ⟨t, ht, -, hStop⟩ := hr.1.2
    exact (hStop.trans_le (le_getFileSize hSep ht)).trans hSize
  rw [hAnswer, search_right target_data hFits]
  unfold FindsDataAt
  rw [hAsked]
  refine or_congr (exists_congr fun r => and_congr_right fun hr => ?_) (and_congr_right fun _ => ?_)
  · rw [seekData_eq_iff hSep hNe hr.1.2]
    simp only [Int.natCast_inj, Int.ofNat_lt]
  · rw [seekData_eq_neg_one_iff hSep hNe]
    constructor <;> omega

theorem hole_right_iff
    :
    (answer S client server offset SEEK_HOLE).Right S client server offset SEEK_HOLE ↔
      FindsHoleAt S client server offset := by
  obtain ⟨o, hAsked, hBehind⟩ := asked_cases hClient
  have hAnswer : answer S client server offset SEEK_HOLE =
      ⟨seekHole S (asked client), seekHole S (asked client), seekHole S (asked client)⟩ := rfl
  have hFits : ∀ r, HoleAt S offset r → r < 9223372036854775808 := fun r hr => hr.1.2.1.trans_lt hSize
  rw [hAnswer, search_right target_hole hFits]
  unfold FindsHoleAt
  rw [hAsked]
  refine or_congr (exists_congr fun r => and_congr_right fun hr => ?_) (and_congr_right fun _ => ?_)
  · rw [seekHole_eq_iff hSep hNe hr.1.2.2 hr.1.2.1]
    simp only [Int.natCast_inj, Int.ofNat_le]
  · rw [seekHole_eq_neg_one_iff hSep hNe]
    constructor <;> omega

end

theorem invalid_right (hSet : whence ≠ SEEK_SET) (hCur : whence ≠ SEEK_CUR) (hEnd : whence ≠ SEEK_END)
    (hData : whence ≠ SEEK_DATA) (hHole : whence ≠ SEEK_HOLE) :
    (answer S client server offset whence).Right S client server offset whence := by
  unfold answer
  rw [if_neg hSet, if_neg hCur, if_neg hEnd, if_neg hData, if_neg hHole]
  refine .inr ⟨rfl, ?_, rfl, rfl⟩
  rintro t ⟨-, -, ⟨h, -⟩ | ⟨h, -⟩ | ⟨h, -⟩ | ⟨h, -⟩ | ⟨h, -⟩⟩
  · exact hSet h
  · exact hCur h
  · exact hEnd h
  · exact hData h
  · exact hHole h

theorem answer_right_iff (hSep : Separated S) (hNe : S ≠ []) (hSize : getFileSize S < 9223372036854775808)
    (hClient : Width.long.Fits client) (hOffset : Width.long.Fits offset) (whence : Int) :
    (answer S client server offset whence).Right S client server offset whence ↔
      SeeksRight S client server offset whence := by
  unfold SeeksRight
  by_cases hSet : whence = SEEK_SET
  · subst hSet
    refine iff_of_true (set_right hOffset) ?_
    simp [SEEK_SET, SEEK_CUR, SEEK_END, SEEK_DATA, SEEK_HOLE]
  by_cases hCur : whence = SEEK_CUR
  · subst hCur
    rw [cur_right_iff hClient hOffset]
    simp [SEEK_CUR, SEEK_END, SEEK_DATA, SEEK_HOLE]
  by_cases hEnd : whence = SEEK_END
  · subst hEnd
    rw [end_right_iff hClient hOffset hSize]
    simp [SEEK_CUR, SEEK_END, SEEK_DATA, SEEK_HOLE]
  grind [data_right_iff, SEEK_CUR, SEEK_END, SEEK_DATA, SEEK_HOLE, hole_right_iff, invalid_right]

end

/-- A call does what it is asked for exactly under the condition of its kind, whatever the caches held;
the server's side is that after their flush. -/
theorem lseek_as_asked_iff {g : Setting} {s s1 : Session} {fd : Fd} {f : File} {cell : Nat}
    {client server : Int} {file : CapioFile} (hFd : s.files fd = some f)
    (hClient : s.offsets[f.cell]? = some client) (hFlush : flush g s = .ok s1)
    (hServes : Serves g.tid s1 fd cell server file) (hSep : Separated file.sectors)
    (hNe : file.sectors ≠ []) (hSize : getFileSize file.sectors < 9223372036854775808)
    (hFits : Width.long.Fits client) (offset whence : Int) (hOffset : Width.long.Fits offset) :
    SeeksAsAsked g s fd f cell client server file.sectors offset whence ↔
      SeeksRight file.sectors client server offset whence := by
  rw [(capioLseek_answers hFd hClient hFlush hServes offset whence).seeksAsAsked_iff]
  exact answer_right_iff hSep hNe hSize hFits hOffset whence

def plain : Setting where
  tid := 7
  env := Env.plain .onClose true 0
  maxLineSize := 4
  supply := fun _ _ => []
  stale := fun _ => 0

def opened : File := ⟨0, "/d/f".toList⟩

def fileOfFour (client server unflushed : Int) : Session where
  files := fun fd => if fd = 3 then some opened else none
  offsets := [client]
  write := { fd := 3, reserved := true, actualSize := unflushed }
  sm :=
    { objects := [some { sectors := [(0, 4)] }]
      storage := fun p => if p = "/d/f".toList then some 0 else none
      openedFdMap := AList.insert (7, 3) ⟨some 0, some 0, "/d/f".toList⟩ ∅
      offsets := [server] }

def flushed : Session :=
  { fileOfFour 6 6 0 with
    write := { fd := 3, reserved := false, actualSize := 0 }
    sm := { (fileOfFour 6 6 0).sm with objects := [some { sectors := [(0, 6)] }] } }

theorem lseek_as_asked_at_end : SeeksAsAsked plain (fileOfFour 6 4 2) 3 opened 0 6 6 [(0, 6)] 0 SEEK_END := by
  have hFlush : flush plain (fileOfFour 6 4 2) = .ok flushed := rfl
  have hServes : Serves plain.tid flushed 3 0 6 { sectors := [(0, 6)] } :=
    ⟨by decide, rfl, ⟨some 0, some 0, "/d/f".toList⟩, 0, by decide, rfl, rfl, rfl⟩
  exact (lseek_as_asked_iff rfl rfl hFlush hServes ⟨by decide, by decide⟩ (by decide)
    (by decide) (by decide) 0 SEEK_END (by decide)).mpr
      ⟨by decide, by decide, fun h => absurd h (by decide), fun h => absurd h (by decide)⟩

def seekFour (client server offset whence : Int) : Option (Int × List Int × List Int) :=
  (capioLseek plain (fileOfFour client server 0) 3 offset whence).toOption.map fun r =>
    (r.1, r.2.offsets, r.2.sm.offsets)

/-- The end of the file is at 4, the data from 2 on starts at 2, and a search that finds nothing makes
both offsets negative. -/
theorem lseek_not_as_asked : ¬ SeeksAsAsked plain (fileOfFour 0 0 0) 3 opened 0 0 0 [(0, 4)] 0 SEEK_END ∧
    seekFour 0 0 0 SEEK_END = some (0, [0], [0]) ∧ seekFour 0 0 2 SEEK_DATA = some (0, [0], [0]) ∧
    seekFour 6 6 6 SEEK_DATA = some (-1, [-1], [-1]) := by
  have hFlush : flush plain (fileOfFour 0 0 0) = .ok (fileOfFour 0 0 0) := rfl
  have hServes : Serves plain.tid (fileOfFour 0 0 0) 3 0 0 { sectors := [(0, 4)] } :=
    ⟨by decide, rfl, ⟨some 0, some 0, "/d/f".toList⟩, 0, by decide, rfl, rfl, rfl⟩
  refine ⟨?_, by decide, by decide, by decide⟩
  rw [(capioLseek_answers rfl rfl hFlush hServes 0 SEEK_END).seeksAsAsked_iff,
    answer_right_iff ⟨by decide, by decide⟩ (by decide) (by decide) (by decide) (by decide)]
  rintro ⟨-, hEnd, -⟩
  exact absurd (hEnd rfl).1 (by decide)

end Capio.Posix.Seek
