import Capio.Posix.Frame
import Capio.Posix.Offsets
import Capio.Server.Descriptors

/-! # A thread that forks

The child has the files of its parent as they are in memory, with empty caches.  The server gives
it the descriptors that the parent has there, with their offsets at that moment and each in a cell of
its own.  What the parent has prefetched or not flushed is not known to the child, and descriptors
that share their offset do so on one side only.
-/
namespace Capio.Posix.Session

open Common Lib.Outcome Server

/-- The child after `hook_clone_parent` and `hook_clone_child`, which waits for the handler of the
clone request. -/
def fork (g : Setting) (childTid : Tid) (s : Session) : Except Stop Session := do
  let sm ← ask (s.sm.clone g.env g.tid childTid)
  pure { files := s.files, offsets := s.offsets, sm := sm }

structure SameOffsets (tid : Tid) (s : Session) : Prop where
  offsets : ∀ fd f, s.files fd = some f → ∃ cell offset, s.serverCell tid fd = some cell ∧
    s.offsets[f.cell]? = some offset ∧ s.sm.offsets[cell]? = some offset
  sharing : ∀ fd f fd' f', s.files fd = some f → s.files fd' = some f' →
    (f.cell = f'.cell ↔ s.serverCell tid fd = s.serverCell tid fd')

def ForkKeepsOffsets (g : Setting) (childTid : Tid) (s : Session) : Prop :=
  ∃ s', s.fork g childTid = .ok s' ∧ s'.files = s.files ∧ SameOffsets childTid s'

def Unshared (s : Session) : Prop :=
  ∀ fd f fd' f', s.files fd = some f → s.files fd' = some f' → f.cell = f'.cell → fd = fd'

section

variable {g : Setting} {s s' : Session}

theorem Leaves.wellFormed (h : Leaves c s s') (hsm : s.sm.WellFormed) : s'.sm.WellFormed := by
  refine ⟨fun k d hd => ?_, fun path i hi => ?_⟩
  · rw [h.map] at hd
    obtain ⟨cell, v, hCell, hv⟩ := hsm.offsets k d hd
    grind [h.length]
  · rw [h.storage] at hi
    rw [h.objects]
    exact hsm.objects path i hi

theorem openRequest_wellFormed (hsm : s.sm.WellFormed) (mode : Mode) (fd : Fd) (path : Path) :
    Yields (s.openRequest g mode fd path) (fun r => r.2.sm.WellFormed) := by
  refine .ite (fun _ => hsm) fun _ => .ite (fun _ => hsm) fun _ => ?_
  have hAdd : (s.sm.add g.env path false g.env.fileInitialSize).2.WellFormed := (hsm.storageAt path _).1
  obtain ⟨i, sm, hRun, hNew, -⟩ := hAdd.addNewFd g.tid fd path 0 true
  refine (ask_ends fun sm' hsm' => ?_).bind fun sm' hsm' => hsm'
  cases Except.ok.inj (hRun.symm.trans hsm')
  exact hNew

theorem openat_wellFormed (hsm : s.sm.WellFormed) (mode : Mode) (fd : Fd) (path : Path) (append : Bool) :
    Yields (s.openat g mode fd path append) (fun s' => s'.sm.WellFormed) := by
  refine (openRequest_wellFormed hsm mode fd path).bind fun ⟨code, s1⟩ h1 => ?_
  refine .ite (fun _ => h1) fun _ => .ite (fun _ => ?_) fun _ => h1
  have hOpened : Leaves (s1.addFd path fd 0).write (s1.addFd path fd 0) (s1.addFd path fd 0) :=
    leaves_self _
  rw [← bind_assoc]
  refine (flushed_leaves hOpened).bind fun s2 h2 => ?_
  refine .skip fun offset => ?_
  refine (setOffset_leaves s2 fd _).imp (fun s3 h3 => ?_)
  exact h3.wellFormed (h2.wellFormed h1)

theorem call_wellFormed (h : Agrees g.tid s) (hsm : s.sm.WellFormed) (call : Call) :
    Yields (s.call g call) (fun s' => s'.sm.WellFormed) := by
  cases call with
  | openat mode fd path append => exact openat_wellFormed hsm mode fd path append
  | dup oldFd newFd =>
    simp only [Session.call]
    split
    · exact hsm
    · refine .ite (fun _ => hsm) fun _ => ?_
      refine (ask_ends fun sm hRun => (hsm.dup g.tid oldFd newFd).result hRun).bind fun sm hNew => ?_
      unfold dupFd
      split
      · exact hNew
      · trivial
  | read fd count =>
    simp only [Session.call]
    split
    · exact hsm
    · refine .ite (fun _ => trivial) fun _ => ?_
      unfold cachedRead
      rw [bind_assoc]
      refine (flushWrite_leaves s).bind fun s1 h1 => ?_
      refine (readThrough_leaves s1 fd count false).bind fun r hr => ?_
      exact hr.wellFormed (h1.wellFormed hsm)
  | getdents fd count =>
    simp only [Session.call]
    split
    · exact hsm
    · refine .ite (fun _ => trivial) fun _ => ?_
      refine (flushWrite_leaves s).bind fun s1 h1 => ?_
      refine (readThrough_leaves s1 fd count true).bind fun r hr => ?_
      exact hr.wellFormed (h1.wellFormed hsm)
  | write fd buffer count =>
    simp only [Session.call]
    split
    · exact hsm
    · refine .ite (fun _ => trivial) fun _ => ?_
      exact (cachedWrite_leaves s fd buffer count).imp (fun _ hw => hw.wellFormed hsm)
  | seekSet fd offset =>
    simp only [Session.call]
    split
    · exact hsm
    · exact (lseek_leaves s fd offset false).imp (fun _ hl => hl.wellFormed hsm)
  | seekCur fd offset =>
    simp only [Session.call]
    split
    · exact hsm
    · exact (lseek_leaves s fd offset true).imp (fun _ hl => hl.wellFormed hsm)
  | close fd =>
    simp only [Session.call]
    split
    · exact hsm
    · next f hf =>
      refine (flushWrite_leaves s).bind fun s1 h1 => (flushRead_leaves s1).bind fun s2 h2 => ?_
      have hOpen : s2.sm.openedFdMap.lookup (g.tid, fd) ≠ none := by
        obtain ⟨cell, client, hAt⟩ := h.at hf
        obtain ⟨d, hd, -⟩ := Option.bind_eq_some_iff.mp hAt.mapped
        rw [h2.map, h1.map, hd]
        exact Option.some_ne_none d
      exact (ask_ends fun sm hRun =>
        ((h2.wellFormed (h1.wellFormed hsm)).removeFromTid hOpen).result hRun).bind fun sm hNew => hNew

end

theorem Agrees.settled_iff (h : Agrees tid s) :
    (∀ fd f, s.files fd = some f → s.prefetched f.cell = s.unflushed f.cell) ↔
      s.leftover = 0 ∧ s.write.actualSize = 0 := by
  constructor
  · intro hSettled
    have hLeftover : s.leftover = 0 := by
      by_contra hne
      obtain ⟨f, hf⟩ := Option.ne_none_iff_exists'.mp (h.caches.readOpen hne)
      have hSame := hSettled _ f hf
      rw [prefetched_lastFd hf] at hSame
      unfold unflushed at hSame
      split at hSame
      · next hCell =>
        obtain ⟨f', hf', hShared⟩ := Option.map_eq_some_iff.mp hCell
        have hFlushed := (h.exclusive f f' hf hf' (h.paths _ _ _ _ hf hf' hShared.symm)).resolve_left hne
        exact hne (hSame.trans hFlushed)
      · exact hne hSame
    refine ⟨hLeftover, ?_⟩
    by_contra hne
    obtain ⟨f, hf⟩ := Option.ne_none_iff_exists'.mp (h.caches.writeOpen hne)
    grind [prefetched_of_leftover, unflushed_fd]
  · rintro ⟨hLeftover, hFlushed⟩ fd f -
    rw [prefetched_of_leftover hLeftover, unflushed_of_actualSize hFlushed]

theorem fork_spec (h : Agrees g.tid s) (hsm : s.sm.WellFormed) (hTid : g.tid ≠ childTid) :
    ∃ s', s.fork g childTid = .ok s' ∧ s'.files = s.files ∧ s'.offsets = s.offsets ∧
      (∀ fd f, s.files fd = some f → ∃ cell client, s'.serverCell childTid fd = some cell ∧
        s.offsets[f.cell]? = some client ∧
        s'.sm.offsets[cell]? = some (client + s.prefetched f.cell - s.unflushed f.cell)) ∧
      ∀ fd f fd' f', s.files fd = some f → s.files fd' = some f' →
        s'.serverCell childTid fd = s'.serverCell childTid fd' → fd = fd' := by
  obtain ⟨sm', hClone, hCloned⟩ := StorageManager.clone_spec g.env hTid hsm
  have hIndex : ∀ fd f, s.files fd = some f → ∃ k : Nat,
      (s.sm.getFileDescriptors g.env g.tid)[k]? = some fd := by
    intro fd f hf
    obtain ⟨cell, client, hAt⟩ := h.at hf
    obtain ⟨d, hd, -⟩ := Option.bind_eq_some_iff.mp hAt.mapped
    refine List.mem_iff_getElem?.mp ((StorageManager.mem_getFileDescriptors g.env).mpr ?_)
    rw [hd]
    exact Option.some_ne_none d
  have hFork : s.fork g childTid = .ok { files := s.files, offsets := s.offsets, sm := sm' } := by
    unfold fork
    rw [hClone]
    rfl
  refine ⟨_, hFork, rfl, rfl, fun fd f hf => ?_, fun fd f fd' f' hf hf' hCell => ?_⟩
  · obtain ⟨k, hk⟩ := hIndex fd f hf
    obtain ⟨cell, client, hAt⟩ := h.at hf
    refine ⟨_, client, hCloned.cells k fd hk, hAt.clientAt, ?_⟩
    refine (hCloned.values k fd hk).trans ?_
    exact (congrArg (Option.bind · _) hAt.mapped).trans hAt.serverAt
  · obtain ⟨k, hk⟩ := hIndex fd f hf
    obtain ⟨k', hk'⟩ := hIndex fd' f' hf'
    have hSame : some (s.sm.offsets.length + k) = some (s.sm.offsets.length + k') :=
      (hCloned.cells k fd hk).symm.trans (hCell.trans (hCloned.cells k' fd' hk'))
    grind

theorem forkKeepsOffsets_iff (h : Agrees g.tid s) (hsm : s.sm.WellFormed) (hTid : g.tid ≠ childTid) :
    ForkKeepsOffsets g childTid s ↔ s.leftover = 0 ∧ s.write.actualSize = 0 ∧ s.Unshared := by
  obtain ⟨s', hFork, hFiles, hOffsets, hCells, hOwn⟩ := fork_spec h hsm hTid
  rw [← and_assoc, ← h.settled_iff]
  constructor
  · rintro ⟨s1, hFork1, -, hSame⟩
    cases Except.ok.inj (hFork.symm.trans hFork1)
    refine ⟨fun fd f hf => ?_, fun fd f fd' f' hf hf' hShared => ?_⟩
    · obtain ⟨cell, client, hCell, hClient, hServer⟩ := hCells fd f hf
      obtain ⟨cell', offset, hCell', hClient', hServer'⟩ := hSame.offsets fd f (hFiles ▸ hf)
      grind
    · exact hOwn fd f fd' f' hf hf' ((hSame.sharing fd f fd' f' (hFiles ▸ hf) (hFiles ▸ hf')).mp hShared)
  · rintro ⟨hSettled, hUnshared⟩
    refine ⟨s', hFork, hFiles, fun fd f hf => ?_, fun fd f fd' f' hf hf' => ?_⟩
    · rw [hFiles] at hf
      grind
    · rw [hFiles] at hf hf'
      constructor
      · intro hShared
        rw [hUnshared fd f fd' f' hf hf' hShared]
      · grind

/-- After every run of regular calls, a fork keeps the offsets if and only if the caches of the parent
are empty and it has no duplicates. -/
theorem fork_keeps_offsets_iff {sm : StorageManager} {inputs : List Input} (hsm : sm.WellFormed)
    (hInputs : Meets (fun s i => Fresh s i.call ∧ Regular g s i.call) (step g) { sm := sm } inputs)
    (hRun : inputs.foldlM (step g) { sm := sm } = .ok s) (hTid : g.tid ≠ childTid) :
    ForkKeepsOffsets g childTid s ↔ s.leftover = 0 ∧ s.write.actualSize = 0 ∧ s.Unshared := by
  have hStep : ∀ s i, Agrees g.tid s ∧ s.sm.WellFormed → Fresh s i.call ∧ Regular g s i.call →
      Ends (step g s i) (fun s' => Agrees g.tid s' ∧ s'.sm.WellFormed) fun _ => True := by
    intro s i h hi
    exact (call_ends (g := { g with supply := i.supply }) h.1 hi.1 hi.2).and
      (call_wellFormed (g := { g with supply := i.supply }) h.1 h.2 i.call)
  obtain ⟨h, hWell⟩ := (run_ends hStep ⟨agrees_start g.tid sm, hsm⟩ inputs hInputs).result hRun
  exact forkKeepsOffsets_iff h hWell hTid

def writeAndSeek : List Input :=
  [⟨.openat .create 3 "/d/f".toList false, fun _ _ => []⟩, ⟨.write 3 [6, 7] 2, fun _ _ => []⟩,
    ⟨.seekSet 3 1, fun _ _ => []⟩]

theorem fork_keeps_offsets_after_writeAndSeek : ∃ s, writeAndSeek.foldlM (step shortLines) {} = .ok s ∧
    ForkKeepsOffsets shortLines 8 s := by
  have hInputs : Meets (fun s i => Fresh s i.call ∧ Regular shortLines s i.call) (step shortLines)
      { sm := {} } writeAndSeek := by decide +kernel
  have hOne : ∀ (fd : Fd) (f : File), Function.update (fun _ => none) (3 : Fd)
      (some (⟨0, "/d/f".toList⟩ : File)) fd = some f → fd = 3 := by grind
  refine ⟨_, rfl, (fork_keeps_offsets_iff StorageManager.wellFormed_init hInputs rfl (by decide)).mpr
    ⟨rfl, rfl, fun fd f fd' f' hf hf' _ => ?_⟩⟩
  exact (hOne fd f hf).trans (hOne fd' f' hf').symm

/-- Two bytes that are not flushed, three that are prefetched, and a duplicate. -/
theorem fork_changes_offsets : (∃ s s', [⟨.openat .create 3 "/d/f".toList false, fun _ _ => []⟩,
        ⟨.write 3 [6, 7] 2, fun _ _ => []⟩].foldlM (step shortLines) {} = .ok s ∧
      s.fork shortLines 8 = .ok s' ∧ s'.offset 3 = .ok 2 ∧ s'.sm.getFileOffset 8 3 = .ok 0) ∧
    (∃ s s', [⟨.openat .create 3 "/d/f".toList false, fun _ _ => []⟩,
        ⟨.read 3 1, fun _ _ => [1, 2, 3, 4, 5]⟩].foldlM (step shortLines) {} = .ok s ∧
      s.fork shortLines 8 = .ok s' ∧ s'.offset 3 = .ok 1 ∧ s'.sm.getFileOffset 8 3 = .ok 4) ∧
    ∃ s s', [⟨.openat .create 3 "/d/f".toList false, fun _ _ => []⟩,
        ⟨.dup 3 4, fun _ _ => []⟩].foldlM (step shortLines) {} = .ok s ∧
      s.fork shortLines 8 = .ok s' ∧ s'.files 3 = s'.files 4 ∧
      s'.serverCell 8 3 ≠ s'.serverCell 8 4 :=
  ⟨⟨_, _, rfl, rfl, rfl, rfl⟩, ⟨_, _, rfl, rfl, rfl, rfl⟩, _, _, rfl, rfl, rfl, by decide +kernel⟩

end Capio.Posix.Session
