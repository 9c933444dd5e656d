import Capio.Lib.Outcome
import Capio.Posix.Session

/-! # Agreement of the offsets of both sides

The client and the server keep the offset of a descriptor in cells of their own, which duplicates
share.  The cell of the server is ahead by what is prefetched and behind by what is not flushed.
A change of the cells of one descriptor, a new descriptor and the end of one keep this, and so do
the flushes of the two caches.
-/
namespace Capio.Posix.Session

open Common Lib.Outcome Lib.Pieces Server Function Option

def serverCell (s : Session) (tid : Tid) (fd : Fd) : Option Nat :=
  (s.sm.openedFdMap.lookup (tid, fd)).bind (·.offset)

def leftover (s : Session) : Int := s.read.actualSize - s.read.cacheOffset

def prefetched (s : Session) (cell : Nat) : Int :=
  if (s.files s.read.lastFd).map (·.cell) = some cell then s.leftover else 0

def unflushed (s : Session) (cell : Nat) : Int :=
  if (s.files s.write.fd).map (·.cell) = some cell then s.write.actualSize else 0

def Exclusive (s : Session) : Prop :=
  ∀ f f', s.files s.read.lastFd = some f → s.files s.write.fd = some f' → f.path = f'.path →
    s.leftover = 0 ∨ s.write.actualSize = 0

structure OffsetsAgree (tid : Tid) (s : Session) : Prop where
  offsets : ∀ fd f, s.files fd = some f → ∃ cell client, s.serverCell tid fd = some cell ∧
    s.offsets[f.cell]? = some client ∧
    s.sm.offsets[cell]? = some (client + s.prefetched f.cell - s.unflushed f.cell)
  sharing : ∀ fd f fd' f', s.files fd = some f → s.files fd' = some f' →
    (f.cell = f'.cell ↔ s.serverCell tid fd = s.serverCell tid fd')
  exclusive : s.Exclusive

structure Caches (s : Session) : Prop where
  leftover_nonneg : 0 ≤ s.leftover
  readOpen : s.leftover ≠ 0 → s.files s.read.lastFd ≠ none
  writeOpen : s.write.actualSize ≠ 0 → s.files s.write.fd ≠ none

structure Agrees (tid : Tid) (s : Session) : Prop extends OffsetsAgree tid s where
  paths : ∀ fd f fd' f', s.files fd = some f → s.files fd' = some f' → f.cell = f'.cell → f.path = f'.path
  caches : Caches s

structure At (tid : Tid) (s : Session) (fd : Fd) (f : File) (cell : Nat) (client server : Int) :
    Prop where
  file : s.files fd = some f
  mapped : s.serverCell tid fd = some cell
  clientAt : s.offsets[f.cell]? = some client
  serverAt : s.sm.offsets[cell]? = some server

structure Touches (client server : Nat) (s s' : Session) : Prop where
  files : s'.files = s.files
  map : s'.sm.openedFdMap = s.sm.openedFdMap
  offsets : ∀ k ≠ client, s'.offsets[k]? = s.offsets[k]?
  serverOffsets : ∀ k ≠ server, s'.sm.offsets[k]? = s.sm.offsets[k]?

def setServer (s : Session) (cell : Nat) (offset : Int) : Session :=
  { s with sm := { s.sm with offsets := s.sm.offsets.set cell offset } }

section

variable {tid : Tid} {s s' : Session} {fd : Fd} {f : File} {cell : Nat} {client server : Int}

theorem prefetched_of_leftover (h : s.leftover = 0) (k : Nat) : s.prefetched k = 0 := by
  unfold prefetched
  split
  · exact h
  · rfl

theorem prefetched_lastFd (h : s.files s.read.lastFd = some f) : s.prefetched f.cell = s.leftover := by
  unfold prefetched
  rw [h, if_pos (by rfl)]

theorem prefetched_ne (h : s.files s.read.lastFd = some f) (hk : k ≠ f.cell) :
    s.prefetched k = 0 := by grind [prefetched]

theorem unflushed_of_actualSize (h : s.write.actualSize = 0) (k : Nat) : s.unflushed k = 0 := by
  unfold unflushed
  split
  · exact h
  · rfl

theorem unflushed_fd (h : s.files s.write.fd = some f) : s.unflushed f.cell = s.write.actualSize := by
  unfold unflushed
  rw [h, if_pos (by rfl)]

theorem unflushed_ne (h : s.files s.write.fd = some f) (hk : k ≠ f.cell) :
    s.unflushed k = 0 := by grind [unflushed]

theorem prefetched_eq_zero (h : ∀ fd f, s.files fd = some f → f.cell ≠ k) : s.prefetched k = 0 := by
  grind [prefetched, map_eq_some_iff]

theorem unflushed_eq_zero (h : ∀ fd f, s.files fd = some f → f.cell ≠ k) : s.unflushed k = 0 := by
  unfold unflushed
  grind [map_eq_some_iff]

section

variable (h : Agrees tid s)
include h

theorem Agrees.at (hf : s.files fd = some f) : ∃ cell client,
    At tid s fd f cell client (client + s.prefetched f.cell - s.unflushed f.cell) := by
  obtain ⟨cell, client, hCell, hClient, hServer⟩ := h.offsets fd f hf
  exact ⟨cell, client, hf, hCell, hClient, hServer⟩

theorem Agrees.move (hAt : At tid s fd f cell client server) (hTouches : Touches f.cell cell s s')
    (hAt' : At tid s' fd f cell client' server')
    (hHere : server' = client' + s'.prefetched f.cell - s'.unflushed f.cell)
    (hOther : ∀ k ≠ f.cell, s'.prefetched k - s'.unflushed k = s.prefetched k - s.unflushed k)
    (hCaches : Caches s') (hExclusive : s'.Exclusive) : Agrees tid s' := by
  have hCells : ∀ fd, s'.serverCell tid fd = s.serverCell tid fd := fun fd => by
    rw [serverCell, serverCell, hTouches.map]
  refine ⟨⟨fun fd' f' hf' => ?_, fun fd f fd' f' hf hf' => ?_, hExclusive⟩,
    fun fd f fd' f' hf hf' => ?_, hCaches⟩
  · rw [hTouches.files] at hf'
    have hShared := h.sharing fd f fd' f' hAt.file hf'
    rw [hCells]
    by_cases hSame : f'.cell = f.cell
    · refine ⟨cell, client', by rw [← hShared.mp hSame.symm, hAt.mapped], hSame ▸ hAt'.clientAt, ?_⟩
      rw [hAt'.serverAt, hHere, hSame]
    · obtain ⟨cell', other, hOf⟩ := h.at hf'
      have hNe : cell' ≠ cell := by
        rintro rfl
        exact hSame (hShared.mpr (hAt.mapped.trans hOf.mapped.symm)).symm
      refine ⟨cell', other, hOf.mapped, by rw [hTouches.offsets _ hSame, hOf.clientAt], ?_⟩
      have := hOther f'.cell hSame
      rw [hTouches.serverOffsets _ hNe, hOf.serverAt]
      congr 1
      omega
  · rw [hTouches.files] at hf hf'
    rw [hCells, hCells]
    exact h.sharing fd f fd' f' hf hf'
  · rw [hTouches.files] at hf hf'
    exact h.paths fd f fd' f' hf hf'

theorem Agrees.recache (hFiles : s'.files = s.files) (hSm : s'.sm = s.sm)
    (hOffsets : s'.offsets = s.offsets) (hPrefetched : ∀ k, s'.prefetched k = s.prefetched k)
    (hUnflushed : ∀ k, s'.unflushed k = s.unflushed k) (hCaches : Caches s') (hExclusive : s'.Exclusive) :
    Agrees tid s' := by
  have hCells : ∀ fd, s'.serverCell tid fd = s.serverCell tid fd := fun fd => by
    rw [serverCell, serverCell, hSm]
  refine ⟨⟨fun fd f hf => ?_, fun fd f fd' f' hf hf' => ?_, hExclusive⟩,
    fun fd f fd' f' hf hf' => ?_, hCaches⟩
  · rw [hCells, hOffsets, hSm, hPrefetched, hUnflushed]
    exact h.offsets fd f (hFiles ▸ hf)
  · rw [hCells, hCells]
    exact h.sharing fd f fd' f' (hFiles ▸ hf) (hFiles ▸ hf')
  · exact h.paths fd f fd' f' (hFiles ▸ hf) (hFiles ▸ hf')

theorem Agrees.attach (hNew : s.files fd = none) (hFiles : s'.files = update s.files fd (some f))
    (hRead : s'.read = s.read) (hWrite : s'.write = s.write) (hCell : s'.serverCell tid fd = some cell)
    (hCells : ∀ fd' ≠ fd, s'.serverCell tid fd' = s.serverCell tid fd')
    (hOffsets : ∀ (k : Nat) v, s.offsets[k]? = some v → s'.offsets[k]? = some v)
    (hServer : ∀ (k : Nat) v, s.sm.offsets[k]? = some v → s'.sm.offsets[k]? = some v)
    (hHere : ∃ client, s'.offsets[f.cell]? = some client ∧
      s'.sm.offsets[cell]? = some (client + s.prefetched f.cell - s.unflushed f.cell))
    (hShared : ∀ fd' f', s.files fd' = some f' →
      (f.cell = f'.cell ↔ some cell = s.serverCell tid fd') ∧ (f.cell = f'.cell → f.path = f'.path)) :
    Agrees tid s' := by
  -- a cache that still names the number of the new descriptor is empty
  have hEmpty : s.read.lastFd = fd → s.leftover = 0 := fun he => by
    by_contra hne
    exact h.caches.readOpen hne (he ▸ hNew)
  have hFlushed : s.write.fd = fd → s.write.actualSize = 0 := fun he => by
    by_contra hne
    exact h.caches.writeOpen hne (he ▸ hNew)
  have hLeftover : s'.leftover = s.leftover := by rw [leftover, leftover, hRead]
  have hPrefetched : ∀ k, s'.prefetched k = s.prefetched k := fun k => by
    by_cases he : s.read.lastFd = fd
    · rw [prefetched_of_leftover (hEmpty he), prefetched_of_leftover (hLeftover.trans (hEmpty he))]
    · rw [prefetched, prefetched, hLeftover, hFiles, hRead, update_of_ne he]
  have hUnflushed : ∀ k, s'.unflushed k = s.unflushed k := fun k => by
    by_cases he : s.write.fd = fd
    · rw [unflushed_of_actualSize (hFlushed he), unflushed_of_actualSize (hWrite ▸ hFlushed he)]
    · rw [unflushed, unflushed, hFiles, hWrite, update_of_ne he]
  have hOpen : ∀ fd' f', s'.files fd' = some f' →
      (fd' = fd ∧ f' = f) ∨ (fd' ≠ fd ∧ s.files fd' = some f') := fun fd' f' hf' => by
    rw [hFiles, update_eq_some_iff] at hf'
    grind
  refine ⟨⟨fun fd1 f1 h1 => ?_, fun fd1 f1 fd2 f2 h1 h2 => ?_, fun f1 f2 h1 h2 hPath => ?_⟩,
    fun fd1 f1 fd2 f2 h1 h2 => ?_, ⟨?_, ?_, ?_⟩⟩
  · rw [hPrefetched, hUnflushed]
    obtain ⟨rfl, rfl⟩ | ⟨hne, hf⟩ := hOpen fd1 f1 h1
    · grind
    · obtain ⟨cell', client, hc, ho, hs⟩ := h.offsets fd1 f1 hf
      exact ⟨cell', client, (hCells fd1 hne).trans hc, hOffsets _ _ ho, hServer _ _ hs⟩
  · obtain ⟨rfl, rfl⟩ | ⟨hne1, hf1⟩ := hOpen fd1 f1 h1
    · grind
    · obtain ⟨rfl, rfl⟩ | ⟨hne2, hf2⟩ := hOpen fd2 f2 h2
      · grind
      · rw [hCells fd1 hne1, hCells fd2 hne2]
        exact h.sharing fd1 f1 fd2 f2 hf1 hf2
  · rw [hRead] at h1
    rw [hWrite] at h2 ⊢
    rw [hLeftover]
    obtain ⟨he, -⟩ | ⟨-, hf1⟩ := hOpen _ f1 h1
    · exact .inl (hEmpty he)
    · obtain ⟨he, -⟩ | ⟨-, hf2⟩ := hOpen _ f2 h2
      · exact .inr (hFlushed he)
      · exact h.exclusive f1 f2 hf1 hf2 hPath
  · intro hSame
    grind [h.paths]
  · rw [hLeftover]
    exact h.caches.leftover_nonneg
  · intro hne hNone
    rw [hLeftover] at hne
    rw [hFiles, hRead, update_of_ne fun he => hne (hEmpty he)] at hNone
    exact h.caches.readOpen hne hNone
  · intro hne hNone
    rw [hWrite] at hne
    rw [hFiles, hWrite, update_of_ne fun he => hne (hFlushed he)] at hNone
    exact h.caches.writeOpen hne hNone

theorem Agrees.detach (hLeftover : s.leftover = 0) (hFlushed : s.write.actualSize = 0)
    (hFiles : s'.files = update s.files fd none) (hRead : s'.read = s.read)
    (hWrite : s'.write = s.write) (hCells : ∀ fd' ≠ fd, s'.serverCell tid fd' = s.serverCell tid fd')
    (hOffsets : s'.offsets = s.offsets) (hServer : s'.sm.offsets = s.sm.offsets) : Agrees tid s' := by
  have hLeftover' : s'.leftover = 0 := by rw [leftover, hRead, ← leftover, hLeftover]
  have hFlushed' : s'.write.actualSize = 0 := by rw [hWrite, hFlushed]
  have hOpen : ∀ fd' f', s'.files fd' = some f' → fd' ≠ fd ∧ s.files fd' = some f' := fun fd' f' hf' => by
    rw [hFiles, update_eq_some_iff] at hf'
    exact hf'.resolve_left fun hClosed => (nomatch hClosed.2)
  refine ⟨⟨fun fd1 f1 h1 => ?_, fun fd1 f1 fd2 f2 h1 h2 => ?_, fun _ _ _ _ _ => .inl hLeftover'⟩,
    fun fd1 f1 fd2 f2 h1 h2 => ?_, ⟨hLeftover'.ge, fun hne => absurd hLeftover' hne,
    fun hne => absurd hFlushed' hne⟩⟩
  · obtain ⟨hne, hf⟩ := hOpen fd1 f1 h1
    have hBefore := h.offsets fd1 f1 hf
    grind [prefetched_of_leftover, unflushed_of_actualSize]
  · obtain ⟨hne1, hf1⟩ := hOpen fd1 f1 h1
    grind [h.sharing]
  · exact h.paths fd1 f1 fd2 f2 (hOpen fd1 f1 h1).2 (hOpen fd2 f2 h2).2

end

end

section

variable {g : Setting} {s s' : Session} {fd : Fd} {f : File} {cell : Nat} {client server : Int}

theorem offset_eq (hAt : At g.tid s fd f cell client server) : s.offset fd = .ok client := by
  unfold offset
  rw [hAt.file, bind_some, hAt.clientAt]

theorem setOffset_eq (hf : s.files fd = some f) (offset : Int) :
    s.setOffset fd offset = .ok { s with offsets := s.offsets.set f.cell offset } := by
  unfold setOffset
  rw [hf]

theorem ask_ends {α : Type} {x : Except Failure α} {P : α → Prop} (h : ∀ a, x = .ok a → P a) :
    Yields (ask x) P := by
  cases x with
  | error e => trivial
  | ok a => exact h a rfl

theorem seekRequest_eq (hCell : s.serverCell g.tid fd = some cell) (offset : Int) :
    s.seekRequest g fd offset = .ok (s.setServer cell offset) := by
  obtain ⟨d, hd, hOffset⟩ := bind_eq_some_iff.mp hCell
  have hSet : s.sm.setFileOffset g.tid fd offset =
      .ok { s.sm with offsets := s.sm.offsets.set cell offset } := by
    simp only [StorageManager.setFileOffset, StorageManager.descriptor, hd, hOffset]
  unfold seekRequest
  rw [hSet]
  rfl

section

variable (hAt : At g.tid s fd f cell client server)
include hAt

theorem getFileOffset_eq :
    s.sm.getFileOffset g.tid fd = .ok server := by
  obtain ⟨d, hd, hOffset⟩ := bind_eq_some_iff.mp hAt.mapped
  simp only [StorageManager.getFileOffset, StorageManager.descriptor, hd, hOffset, bind_some,
    hAt.serverAt]

theorem perform_request_eq (count : Int) :
    s.perform g (.request fd count) = .ok (s.setServer cell (server + count)) := by
  change (ask (s.sm.getFileOffset g.tid fd) >>= fun offset => s.seekRequest g fd (offset + count)) = _
  rw [getFileOffset_eq hAt]
  exact seekRequest_eq hAt.mapped _

theorem sendData_eq (bytes : Int → List Byte) : s.sendData g fd bytes = .ok (server + (bytes server).length,
      { s.setServer cell (server + (bytes server).length) with
        queue := s.queue ++ pieces g.maxLineSize (bytes server) }) := by
  obtain ⟨d, hd, hOffset⟩ := bind_eq_some_iff.mp hAt.mapped
  have hSet : s.sm.setFileOffset g.tid fd (server + (bytes server).length) =
      .ok { s.sm with offsets := s.sm.offsets.set cell (server + (bytes server).length) } := by
    simp only [StorageManager.setFileOffset, StorageManager.descriptor, hd, hOffset]
  unfold sendData
  rw [getFileOffset_eq hAt]
  change (ask (s.sm.setFileOffset g.tid fd (server + (bytes server).length)) >>= _) = _
  rw [hSet]
  rfl

theorem At.setServer (server' : Int) : At g.tid (s.setServer cell server') fd f cell client server' :=
  ⟨hAt.file, hAt.mapped, hAt.clientAt,
    List.getElem?_set_self (List.getElem?_eq_some_iff.mp hAt.serverAt).1⟩

theorem At.setOffset (client' : Int) :
    At g.tid { s with offsets := s.offsets.set f.cell client' } fd f cell client' server :=
  ⟨hAt.file, hAt.mapped, List.getElem?_set_self (List.getElem?_eq_some_iff.mp hAt.clientAt).1,
    hAt.serverAt⟩

end

theorem touches_setServer (c cell : Nat) (server : Int) : Touches c cell s (s.setServer cell server) :=
  ⟨rfl, rfl, fun _ _ => rfl, fun _ hk => List.getElem?_set_ne hk.symm⟩

theorem touches_setOffset (c cell : Nat) (client : Int) :
    Touches c cell s { s with offsets := s.offsets.set c client } :=
  ⟨rfl, rfl, fun _ hk => List.getElem?_set_ne hk.symm, fun _ _ => rfl⟩

theorem Touches.trans (h : Touches c k s s') (h' : Touches c k s' s'') : Touches c k s s'' :=
  ⟨h'.files.trans h.files, h'.map.trans h.map, fun i hi => (h'.offsets i hi).trans (h.offsets i hi),
    fun i hi => (h'.serverOffsets i hi).trans (h.serverOffsets i hi)⟩

structure ReadFlushed (s s' : Session) : Prop where
  leftover : s'.leftover = 0
  files : s'.files = s.files
  offsets : s'.offsets = s.offsets
  write : s'.write = s.write
  queue : s'.queue = s.queue
  lastFd : s'.read.lastFd = s.read.lastFd
  start : 0 ≤ s.read.cacheOffset → 0 ≤ s'.read.cacheOffset

theorem flushRead_ends (h : Agrees g.tid s) :
    Returns (s.flushRead g) (fun s' => Agrees g.tid s' ∧ ReadFlushed s s') := by
  refine .ite (fun hne => ?_) fun heq => ?_
  · have hLeftover : s.leftover ≠ 0 := fun he => hne (Int.sub_eq_zero.mp he).symm
    obtain ⟨f, hf⟩ := ne_none_iff_exists'.mp (h.caches.readOpen hLeftover)
    obtain ⟨cell, client, hAt⟩ := h.at hf
    set s1 : Session := { s with read := { s.read with actualSize := 0, cacheOffset := 0 } } with hs1
    have hAt1 : At g.tid s1 s.read.lastFd f cell client _ :=
      ⟨hAt.file, hAt.mapped, hAt.clientAt, hAt.serverAt⟩
    change Ends (s1.offset s.read.lastFd >>= fun offset => s1.seekRequest g s.read.lastFd offset) _ _
    rw [offset_eq hAt1]
    change Ends (s1.seekRequest g s.read.lastFd client) _ _
    rw [seekRequest_eq hAt1.mapped]
    have hZero : (s1.setServer cell client).leftover = 0 := rfl
    have hUnflushed : ∀ k, (s1.setServer cell client).unflushed k = s.unflushed k := fun k => rfl
    -- nothing of this file is unflushed, since it has bytes in the read cache
    have hFile : s.unflushed f.cell = 0 := by
      unfold unflushed
      split
      · rename_i he
        obtain ⟨f', hf', hSame⟩ := map_eq_some_iff.mp he
        exact (h.exclusive f f' hf hf' (h.paths _ _ _ _ hf hf' hSame.symm)).resolve_left hLeftover
      · rfl
    refine ⟨h.move hAt ⟨rfl, rfl, fun _ _ => rfl, fun k hk => List.getElem?_set_ne hk.symm⟩
      (hAt1.setServer client) ?_ ?_ ⟨hZero.ge, fun hn => absurd hZero hn, h.caches.writeOpen⟩
      fun _ _ _ _ _ => .inl hZero, hZero, rfl, rfl, rfl, rfl, rfl, fun _ => Int.le_refl _⟩
    · rw [prefetched_of_leftover hZero, hUnflushed, hFile]
      omega
    · intro k hk
      rw [prefetched_of_leftover hZero, hUnflushed, prefetched_ne hf hk]
  · refine ⟨h, ?_, rfl, rfl, rfl, rfl, rfl, id⟩
    unfold leftover
    omega

structure WriteFlushed (s s' : Session) : Prop where
  actualSize : s'.write.actualSize = 0
  files : s'.files = s.files
  offsets : s'.offsets = s.offsets
  read : s'.read = s.read
  queue : s'.queue = s.queue
  write : s'.write = s.write.flush.1

theorem flushWrite_ends (h : Agrees g.tid s) :
    Returns (s.flushWrite g) (fun s' => Agrees g.tid s' ∧ WriteFlushed s s') := by
  unfold flushWrite
  by_cases hne : s.write.actualSize ≠ 0
  · have hFlush : s.write.flush = ({ s.write with reserved := false, actualSize := 0 },
        [.request s.write.fd s.write.actualSize]) := if_pos hne
    obtain ⟨f, hf⟩ := ne_none_iff_exists'.mp (h.caches.writeOpen hne)
    obtain ⟨cell, client, hAt⟩ := h.at hf
    set s1 : Session := { s with write := { s.write with reserved := false, actualSize := 0 } } with hs1
    have hAt1 : At g.tid s1 s.write.fd f cell client _ :=
      ⟨hAt.file, hAt.mapped, hAt.clientAt, hAt.serverAt⟩
    rw [hFlush]
    change Ends (s1.perform g (.request s.write.fd s.write.actualSize) >>= pure) _ _
    rw [perform_request_eq hAt1]
    have hZero : ∀ k, (s1.setServer cell (client + s.prefetched f.cell - s.unflushed f.cell +
        s.write.actualSize)).unflushed k = 0 := fun k => unflushed_of_actualSize rfl k
    have hPrefetched : ∀ k, (s1.setServer cell (client + s.prefetched f.cell - s.unflushed f.cell +
        s.write.actualSize)).prefetched k = s.prefetched k := fun k => rfl
    refine ⟨h.move hAt ⟨rfl, rfl, fun _ _ => rfl, fun k hk => List.getElem?_set_ne hk.symm⟩
      (hAt1.setServer _) ?_ ?_ ⟨h.caches.leftover_nonneg, h.caches.readOpen, fun hn => absurd rfl hn⟩
      fun _ _ _ _ _ => .inr rfl, rfl, rfl, rfl, rfl, rfl, hFlush ▸ rfl⟩
    · rw [hPrefetched, hZero, unflushed_fd hf]
      omega
    · intro k hk
      rw [hPrefetched, hZero, unflushed_ne hf hk]
  · have hFlush : s.write.flush = (s.write, []) := if_neg hne
    rw [hFlush]
    exact ⟨h, not_not.mp hne, rfl, rfl, rfl, rfl, hFlush ▸ rfl⟩

end

end Capio.Posix.Session
