import Capio.Posix.Handlers
import Capio.Server.Handlers

/-! # Look-ups that fail

`at` throws for an entry that is not in the tables, and the exception ends the process.  The handlers
check for a descriptor before they look it up, so two places are left: the flush of a read cache, which
looks up the descriptor it was filled from, and the removal of a path, which looks up the path.
-/
namespace Capio.Posix.Client

open Common Lib.Outcome Posix.Filesystem Function Option

inductive Call
  | openat (dirfd : Option Fd) (pathname : Path) (flags : Nat) (fd : Fd) (code : Int)
  | read (fd : Fd) (count endOfRead : Int)
  | write (fd : Fd) (buffer : List Byte) (count : Int)
  | lseek (fd : Fd) (offset : Int) (whence : Whence) (answer : Int)
  | dup (fd res : Fd)
  | close (fd : Fd)
  | mkdirat (dirfd : Option Fd) (pathname : Path) (res : Int)
  | rmdir (pathname : Path) (res : Int)
  | unlinkat (dirfd : Option Fd) (pathname : Path) (isDir : Bool) (answer : Int)
  | exit

section

variable (p : Keys.Process) (maxLineSize : Nat)

def step (c : Client) (t : Tid × Call) : Except Stop Client :=
  match t.2 with
  | .openat dirfd pathname flags fd code =>
    Prod.snd <$> c.capioOpenat p t.1 dirfd pathname flags fd code
  | .read fd count endOfRead => c.capioRead maxLineSize t.1 fd count endOfRead
  | .write fd buffer count => c.capioWrite maxLineSize t.1 fd buffer count
  | .lseek fd offset whence answer => c.capioLseek t.1 fd offset whence answer
  | .dup fd res => c.dupHandler t.1 fd res
  | .close fd => c.closeHandler t.1 fd
  | .mkdirat dirfd pathname res => c.capioMkdirat p t.1 dirfd pathname res
  | .rmdir pathname res => c.capioRmdir p t.1 pathname res
  | .unlinkat dirfd pathname isDir answer => c.capioUnlinkat p t.1 dirfd pathname isDir answer
  | .exit => c.exitHandler t.1

/-- The kernel gives a number that is not in use, so it is in none of the tables. -/
def NewNumbers (c : Client) (t : Tid × Call) : Prop :=
  match t.2 with
  | .openat _ _ _ fd _ => c.fs.files fd = none
  | .dup _ res => c.fs.files res = none
  | _ => True

def Returns (c : Client) (t : Tid × Call) : Prop :=
  ∀ entry, step p maxLineSize c t ≠ .error (.missing entry)

def Readable (c : Client) (tid : Tid) : Prop :=
  (c.read tid).cacheOffset = (c.read tid).actualSize ∨ c.fs.files (c.read tid).lastFd ≠ none

def OnKey (target : Keys.Target) (P : Path → Prop) : Prop :=
  match target with
  | .key path => P path
  | _ => True

/-- A call that flushes the read cache of its thread finds the descriptor the cache was filled from, and
a path that is removed, or left to the kernel to be removed, is one of the process. -/
def Finds (c : Client) (t : Tid × Call) : Prop :=
  match t.2 with
  | .openat dirfd pathname flags fd code =>
    OnKey ((c.resolver p).capioOpenat dirfd pathname) fun _ =>
      fd ≠ -1 → code ≠ 1 → hasFlag flags O_APPEND = true → fd = (c.read t.1).lastFd ∨ Readable c t.1
  | .read fd count _ =>
    c.fs.files fd ≠ none → count < SSIZE_MAX → fd = (c.read t.1).lastFd ∨ Readable c t.1
  | .lseek fd .. | .close fd => c.fs.files fd ≠ none → Readable c t.1
  | .exit => Readable c t.1
  | .unlinkat dirfd pathname isDir answer =>
    OnKey ((c.resolver p).capioUnlinkat dirfd pathname) fun path =>
      unlinkResult isDir answer ≠ -1 → c.fs.capioFilesPaths path ≠ none
  | .write .. | .dup .. | .mkdirat .. | .rmdir .. => True

end

variable {fs : Filesystem}

section

variable {c : Client} {tid : Tid} {fd : Fd}

def Blames (finds : Prop) : Stop → Prop
  | .missing _ => ¬ finds
  | .exit => finds

def Checked (finds : Prop) (x : Except Stop Client) : Prop :=
  Ends x (fun c' => finds ∧ Inv c'.fs) (Blames finds)

theorem Checked.of_ends (hFinds : finds) (h : Ends x (fun c' => Inv c'.fs) fun _ => False) :
    Checked finds x :=
  h.mono (fun _ h' => ⟨hFinds, h'⟩) fun _ he => he.elim

theorem Checked.congr (h : Checked finds x) (hIff : finds ↔ finds') : Checked finds' x := propext hIff ▸ h

theorem existsCapioFd_iff : fs.existsCapioFd fd = true ↔ fs.files fd ≠ none := isSome_iff_ne_none

theorem see_getCapioFdOffset (hOpen : fs.files fd ≠ none) :
    Ends (see (fs.getCapioFdOffset fd)) (fun _ => True) fun _ => False := by
  obtain ⟨f, hf⟩ := ne_none_iff_exists'.mp hOpen
  unfold Filesystem.getCapioFdOffset
  rw [hf]
  trivial

theorem see_getCapioFdPath (h : Inv fs) (hOpen : fs.files fd ≠ none) :
    Ends (see (fs.getCapioFdPath fd)) (fun _ => True) fun _ => False := by
  obtain ⟨f, path, -, hPath, -⟩ := h.entry hOpen
  unfold Filesystem.getCapioFdPath
  rw [hPath]
  trivial

theorem withTables_ends (h : ∃ fs', x = .ok fs' ∧ Inv fs') :
    Ends (c.withTables x) (fun c' => Inv c'.fs) fun _ => False := by
  obtain ⟨fs', rfl, h'⟩ := h
  exact h'

theorem setCapioFdOffset_inv (h : Inv fs) (hOpen : fs.files fd ≠ none) (offset : Int) :
    ∃ fs', fs.setCapioFdOffset fd offset = .ok fs' ∧ Inv fs' := by
  obtain ⟨f, hf⟩ := ne_none_iff_exists'.mp hOpen
  refine ⟨{ fs with offsets := fs.offsets.set f.offset offset }, ?_, ⟨⟨h.keys, h.inverse⟩, h.nodup⟩⟩
  unfold Filesystem.setCapioFdOffset
  rw [hf]
  rfl

theorem setOffset_ends (h : Inv c.fs) (hOpen : c.fs.files fd ≠ none) (offset : Int) :
    Ends (c.withTables (c.fs.setCapioFdOffset fd offset)) (fun c' => Inv c'.fs) fun _ => False :=
  withTables_ends (setCapioFdOffset_inv h hOpen offset)

theorem flushRead_ends (c : Client) (tid : Tid) :
    Ends (c.flushRead tid) (fun c' => Readable c tid ∧ c'.fs = c.fs ∧ Readable c' tid)
      fun e => ¬ Readable c tid ∧ ∃ entry, e = .missing entry := by
  unfold flushRead
  dsimp only
  split
  · next hLeft =>
    change Ends (see (c.fs.getCapioFdOffset (c.read tid).lastFd) >>= _) _ _
    cases hFile : c.fs.files (c.read tid).lastFd with
    | none =>
      unfold Filesystem.getCapioFdOffset
      rw [hFile]
      exact ⟨fun hReadable => hReadable.elim (fun he => hLeft he) fun hSome => hSome hFile, _, rfl⟩
    | some f =>
      have hOpen : c.fs.files (c.read tid).lastFd ≠ none := hFile ▸ some_ne_none f
      refine (see_getCapioFdOffset hOpen).total.bind fun offset _ => ?_
      refine ⟨.inr hOpen, rfl, .inl ?_⟩
      change (update c.read tid _ tid).cacheOffset = (update c.read tid _ tid).actualSize
      rw [update_self]
  · next hNone => exact ⟨.inl (not_not.mp hNone), rfl, .inl (not_not.mp hNone)⟩

theorem flushRead_of_readable (hReadable : Readable c tid) :
    Ends (c.flushRead tid) (fun c' => c'.fs = c.fs ∧ Readable c' tid) fun _ => False :=
  (flushRead_ends c tid).mono (fun _ h => h.2) fun _ he => he.1 hReadable

theorem Checked.flushRead (hIff : finds ↔ Readable c tid)
    (hf : ∀ c', c'.fs = c.fs → Readable c' tid → Ends (f c') (fun d => Inv d.fs) fun _ => False) :
    Checked finds (c.flushRead tid >>= f) := by
  refine .bind ((flushRead_ends c tid).mono (fun _ h => h) ?_) ?_
  · rintro _ ⟨hNot, entry, rfl⟩
    exact fun hFinds => hNot (hIff.mp hFinds)
  · rintro c' ⟨hReadable, hfs, hReadable'⟩
    exact Checked.of_ends (hIff.mpr hReadable) (hf c' hfs hReadable')

theorem setFdOffset_ends (h : Inv c.fs) (hOpen : c.fs.files fd ≠ none) (hReadable : Readable c tid)
    (offset : Int) : Ends (c.setFdOffset tid fd offset) (fun c' => Inv c'.fs) fun _ => False := by
  refine (flushRead_of_readable hReadable).bind ?_
  rintro c' ⟨hfs, -⟩
  have h' : Inv (c'.flushWrite tid).fs := hfs.symm ▸ h
  have hOpen' : (c'.flushWrite tid).fs.files fd ≠ none := hfs.symm ▸ hOpen
  exact (setOffset_ends h' hOpen' offset).bind fun d hd => hd

theorem capioLseek_checked (h : Inv c.fs) (offset : Int) (whence : Whence) (answer : Int) :
    Checked (c.fs.files fd ≠ none → Readable c tid) (c.capioLseek tid fd offset whence answer) := by
  unfold capioLseek
  split
  · next hExists =>
    have hOpen := existsCapioFd_iff.mp hExists
    refine Checked.flushRead ⟨fun hFinds => hFinds hOpen, fun hReadable _ => hReadable⟩ ?_
    intro c' hfs hReadable
    have h' : Inv (c'.flushWrite tid).fs := hfs.symm ▸ h
    have hOpen' : (c'.flushWrite tid).fs.files fd ≠ none := hfs.symm ▸ hOpen
    have hReadable' : Readable (c'.flushWrite tid) tid := hReadable
    generalize c'.flushWrite tid = d at h' hOpen' hReadable' ⊢
    refine (see_getCapioFdOffset hOpen').bind fun fileOffset _ => ?_
    cases whence with
    | SEEK_SET =>
      exact .ite (fun _ => setFdOffset_ends h' hOpen' hReadable' offset) fun _ => h'
    | SEEK_CUR =>
      exact .ite (fun _ => setFdOffset_ends h' hOpen' hReadable' _) fun _ => h'
    | SEEK_END => exact setOffset_ends (c := d.send (.seekEnd tid fd)) h' hOpen' _
    | SEEK_DATA => exact setOffset_ends (c := d.send (.seekData tid fd fileOffset)) h' hOpen' _
    | SEEK_HOLE => exact setOffset_ends (c := d.send (.seekHole tid fd fileOffset)) h' hOpen' _
    | invalid => exact h'
  · next hNot => exact ⟨fun hOpen => absurd (existsCapioFd_iff.mpr hOpen) hNot, h⟩

theorem switchRead_ends (c : Client) (tid : Tid) (fd : Fd) : Ends (c.switchRead tid fd)
      (fun c' => (fd = (c.read tid).lastFd ∨ Readable c tid) ∧ c'.fs = c.fs)
      (Blames (fd = (c.read tid).lastFd ∨ Readable c tid)) := by
  unfold switchRead
  split
  · next hOther =>
    refine .bind ((flushRead_ends c tid).mono (fun _ h => h) ?_) fun c' h => ⟨.inr h.1, h.2.1⟩
    rintro _ ⟨hNot, entry, rfl⟩
    exact not_or.mpr ⟨fun he => hOther he.symm, hNot⟩
  · next hSame => exact ⟨.inl (not_not.mp hSame).symm, rfl⟩

theorem capioRead_checked (h : Inv c.fs) (maxLineSize : Nat) (count endOfRead : Int) :
    Checked (c.fs.files fd ≠ none → count < SSIZE_MAX → fd = (c.read tid).lastFd ∨ Readable c tid)
      (c.capioRead maxLineSize tid fd count endOfRead) := by
  unfold capioRead
  split
  · next hExists =>
    have hOpen := existsCapioFd_iff.mp hExists
    split
    · next hCount => exact fun _ hLt => absurd hLt (not_lt.mpr hCount)
    · next hCount =>
      have hLt := not_le.mp hCount
      suffices hRead : Checked (fd = (c.read tid).lastFd ∨ Readable c tid)
          (c.cachedRead maxLineSize tid fd count endOfRead) from
        hRead.congr ⟨fun hFinds _ _ => hFinds, fun hFinds => hFinds hOpen hLt⟩
      refine .bind (switchRead_ends (c.flushWrite tid) tid fd) ?_
      rintro d ⟨hFinds, hfs⟩
      have hd : Inv d.fs := hfs.symm ▸ h
      have hdOpen : d.fs.files fd ≠ none := hfs.symm ▸ hOpen
      refine Checked.of_ends hFinds ((see_getCapioFdOffset hdOpen).bind fun fileOffset _ => ?_)
      exact setOffset_ends (c := { d.setRead tid _ with sent := _ }) hd hdOpen _
  · next hNot => exact ⟨fun hOpen => absurd (existsCapioFd_iff.mpr hOpen) hNot, h⟩

theorem cachesFileOf_ends (h : Inv c.fs) (hOpen : c.fs.files fd ≠ none) (tid : Tid) :
    Ends (c.cachesFileOf tid fd) (fun caches => caches = true → Readable c tid) fun _ => False := by
  unfold cachesFileOf
  dsimp only
  split
  · next hSame => exact fun _ => .inr (hSame ▸ hOpen)
  · split
    · next hLast =>
      have hLastOpen := existsCapioFd_iff.mp hLast
      refine (see_getCapioFdPath h hOpen).bind fun path _ => ?_
      exact (see_getCapioFdPath h hLastOpen).bind fun lastPath _ _ => .inr hLastOpen
    · exact fun he => (by cases he)

theorem capioWrite_checked (h : Inv c.fs) (maxLineSize : Nat) (tid : Tid) (buffer : List Byte)
    (count : Int) : Checked True (c.capioWrite maxLineSize tid fd buffer count) := by
  unfold capioWrite
  split
  · next hExists =>
    have hOpen := existsCapioFd_iff.mp hExists
    split
    · trivial
    · refine Checked.of_ends trivial ((cachesFileOf_ends h hOpen tid).bind fun caches hCaches => ?_)
      have hFlushed : Ends (if caches = true then c.flushRead tid else pure c)
          (fun c' => c'.fs = c.fs) fun _ => False :=
        Ends.ite (fun hTrue => (flushRead_of_readable (hCaches hTrue)).imp (fun _ h => h.1))
          fun _ => rfl
      refine hFlushed.bind fun d hfs => ?_
      have hd : Inv d.fs := hfs.symm ▸ h
      have hdOpen : d.fs.files fd ≠ none := hfs.symm ▸ hOpen
      refine .bind (see_getCapioFdOffset hdOpen) fun offset _ => ?_
      exact setOffset_ends (c := d.applyWrite tid _) hd hdOpen _
  · exact ⟨trivial, h⟩

theorem dupHandler_checked (h : Inv c.fs) (tid : Tid) (fd res : Fd) (hNew : c.fs.files res = none) :
    Checked True (c.dupHandler tid fd res) := by
  unfold dupHandler
  split
  · next hExists =>
    refine .ite (fun _ => ⟨trivial, h⟩) fun _ => ?_
    obtain ⟨fs', f, path, hRun, h', -⟩ := dupCapioFd_inv h (existsCapioFd_iff.mp hExists) hNew false
    exact Checked.of_ends trivial (withTables_ends ⟨fs', hRun, h'⟩)
  · exact ⟨trivial, h⟩

theorem closeHandler_checked (h : Inv c.fs) (tid : Tid) (fd : Fd) :
    Checked (c.fs.files fd ≠ none → Readable c tid) (c.closeHandler tid fd) := by
  unfold closeHandler
  split
  · next hExists =>
    have hOpen := existsCapioFd_iff.mp hExists
    refine Checked.flushRead (c := c.flushWrite tid)
      ⟨fun hFinds => hFinds hOpen, fun hReadable _ => hReadable⟩ fun c' hfs _ => ?_
    have h' : Inv c'.fs := hfs.symm ▸ h
    have hOpen' : c'.fs.files fd ≠ none := hfs.symm ▸ hOpen
    obtain ⟨fs', hRun, h'', -⟩ := deleteCapioFd_inv h' hOpen'
    exact withTables_ends ⟨fs', hRun, h''⟩
  · next hNot => exact ⟨fun hOpen => absurd (existsCapioFd_iff.mpr hOpen) hNot, h⟩

theorem exitHandler_checked (h : Inv c.fs) (tid : Tid) : Checked (Readable c tid) (c.exitHandler tid) :=
  Checked.flushRead Iff.rfl fun c' hfs _ => (hfs.symm ▸ h : Filesystem.Inv c'.fs)

variable (p : Keys.Process)

theorem capioOpenat_checked (h : Inv c.fs) (hNew : c.fs.files fd = none) (dirfd : Option Fd)
    (pathname : Path) (flags : Nat) (code : Int) :
    Checked (OnKey ((c.resolver p).capioOpenat dirfd pathname) fun _ =>
        fd ≠ -1 → code ≠ 1 → hasFlag flags O_APPEND = true → fd = (c.read tid).lastFd ∨ Readable c tid)
      (Prod.snd <$> c.capioOpenat p tid dirfd pathname flags fd code) := by
  unfold capioOpenat OnKey
  generalize (c.resolver p).capioOpenat dirfd pathname = target
  cases target with
  | key path =>
    dsimp only
    split
    · next hNone => exact fun hSome => absurd hNone hSome
    next hSome =>
    split
    · next hOne => exact ⟨fun _ hCode => absurd hOne hCode, h⟩
    next hCode =>
    obtain ⟨fs', hRun, h', -, hFiles, -⟩ : ∃ fs', c.fs.addCapioFd path fd 0
        CAPIO_DEFAULT_FILE_INITIAL_SIZE (actualFlags flags) (hasFlag flags O_CLOEXEC) = .ok fs' ∧ _ :=
      addCapioFd_inv h hNew 0 _ _ _
    change Ends (Prod.snd <$> (withTables _ (c.fs.addCapioFd path fd 0 _ _ _) >>= _)) _ _
    rw [hRun]
    suffices hAppended : Checked (fd ≠ -1 → code ≠ 1 → hasFlag flags O_APPEND = true →
        fd = (c.read tid).lastFd ∨ Readable c tid) (if hasFlag flags O_APPEND = true then
          capioLseek { c.send (openRequest flags tid fd path) with fs := fs' } tid fd 0 .SEEK_END 0
        else pure { c.send (openRequest flags tid fd path) with fs := fs' }) from
      Ends.map ((ends_ok_bind _ _ _ _).mpr (Ends.bind hAppended fun _ => id))
    refine .ite (fun hAppend => ?_) fun hAppend => ⟨fun _ _ hTrue => absurd hTrue hAppend, h'⟩
    refine Checked.congr (capioLseek_checked h' 0 .SEEK_END 0) ?_
    -- the descriptor just added may be the one the cache names
    have hNamed : fs'.files (c.read tid).lastFd ≠ none ↔
        fd = (c.read tid).lastFd ∨ c.fs.files (c.read tid).lastFd ≠ none := by
      rw [hFiles, update_apply]
      grind
    have hOpen : fs'.files fd ≠ none := by
      rw [hFiles, update_self]
      exact some_ne_none _
    have hReadable : Readable { c.send (openRequest flags tid fd path) with fs := fs' } tid ↔
        fd = (c.read tid).lastFd ∨ Readable c tid :=
      (or_congr_right hNamed).trans or_left_comm
    grind
  | _ => exact ⟨trivial, h⟩

theorem capioMkdirat_checked (h : Inv c.fs) (tid : Tid) (dirfd : Option Fd) (pathname : Path)
    (res : Int) : Checked True (c.capioMkdirat p tid dirfd pathname res) := by
  unfold capioMkdirat
  split
  · refine .ite (fun _ => ⟨trivial, h⟩) fun _ => ?_
    exact .ite (fun _ => ⟨trivial, h⟩) fun _ => ⟨trivial, h.addCapioPath⟩
  · exact ⟨trivial, h⟩

theorem deleteCapioPath_checked (h : Inv c.fs) (path : Path) :
    Checked (c.fs.capioFilesPaths path ≠ none) (c.withTables (c.fs.deleteCapioPath path)) := by
  by_cases hPath : c.fs.capioFilesPaths path = none
  · unfold Filesystem.deleteCapioPath
    rw [hPath]
    exact fun hSome => hSome rfl
  · obtain ⟨fs', hRun, h', -⟩ := deleteCapioPath_inv h hPath
    exact Checked.of_ends hPath (withTables_ends ⟨fs', hRun, h'⟩)

theorem capioRmdir_checked (h : Inv c.fs) (tid : Tid) (pathname : Path) (res : Int) :
    Checked True (c.capioRmdir p tid pathname res) := by
  unfold capioRmdir
  split
  · next path _ =>
    refine .ite (fun hExists => ?_) fun _ => ⟨trivial, h⟩
    refine .ite (fun _ => ⟨trivial, h⟩) fun _ => ?_
    exact (deleteCapioPath_checked (c := c.send (.rmdir tid path)) h path).congr
      (iff_true_intro (isSome_iff_ne_none.mp hExists))
  · exact ⟨trivial, h⟩

theorem capioUnlinkat_checked (h : Inv c.fs) (tid : Tid) (dirfd : Option Fd) (pathname : Path)
    (isDir : Bool) (answer : Int) : Checked (OnKey ((c.resolver p).capioUnlinkat dirfd pathname) fun path =>
        unlinkResult isDir answer ≠ -1 → c.fs.capioFilesPaths path ≠ none)
      (c.capioUnlinkat p tid dirfd pathname isDir answer) := by
  unfold capioUnlinkat OnKey
  generalize (c.resolver p).capioUnlinkat dirfd pathname = target
  cases target with
  | key path =>
    dsimp only
    split
    · next hNo => exact ⟨fun hYes => absurd hNo hYes, h⟩
    · next hYes =>
      exact (deleteCapioPath_checked (c := c.send _) h path).congr
        ⟨fun hFinds _ => hFinds, fun hFinds => hFinds hYes⟩
  | exit => trivial
  | _ => exact ⟨trivial, h⟩

end

variable {p : Keys.Process} {maxLineSize : Nat} {c : Client} {t : Tid × Call}

theorem step_checked (h : Inv c.fs) (hNew : NewNumbers c t) :
    Checked (Finds p c t) (step p maxLineSize c t) := by
  obtain ⟨tid, call⟩ := t
  cases call with
  | openat dirfd pathname flags fd code => exact capioOpenat_checked p h hNew dirfd pathname flags code
  | read fd count endOfRead => exact capioRead_checked h maxLineSize count endOfRead
  | write fd buffer count => exact capioWrite_checked h maxLineSize tid buffer count
  | lseek fd offset whence answer => exact capioLseek_checked h offset whence answer
  | dup fd res => exact dupHandler_checked h tid fd res hNew
  | close fd => exact closeHandler_checked h tid fd
  | mkdirat dirfd pathname res => exact capioMkdirat_checked p h tid dirfd pathname res
  | rmdir pathname res => exact capioRmdir_checked p h tid pathname res
  | unlinkat dirfd pathname isDir answer =>
    exact capioUnlinkat_checked p h tid dirfd pathname isDir answer
  | exit => exact exitHandler_checked h tid

theorem returns_iff (h : Inv c.fs) (hNew : NewNumbers c t) : Returns p maxLineSize c t ↔ Finds p c t := by
  have hStep : Checked (Finds p c t) (step p maxLineSize c t) := step_checked h hNew
  constructor
  · intro hReturns
    cases hRun : step p maxLineSize c t with
    | ok c' => exact (hStep.result hRun).1
    | error e =>
      cases e with
      | missing entry => exact absurd hRun (hReturns entry)
      | exit => exact hStep.failure hRun
  · exact fun hFinds entry hRun => hStep.failure hRun hFinds

/-- In every sequence of calls of the threads of a process, no look-up fails exactly if the calls find
the path they remove in the tables and the descriptor the read cache they flush was filled from. -/
theorem lookups_succeed_iff (calls : List (Tid × Call))
    (hNew : Meets NewNumbers (step p maxLineSize) {} calls) :
    Meets (Returns p maxLineSize) (step p maxLineSize) {} calls ↔
      Meets (Finds p) (step p maxLineSize) {} calls := by
  refine Meets.iff_of_inv (I := fun c => Inv c.fs) (E := fun _ => True) (fun c t => returns_iff) ?_
    inv_init hNew
  exact fun c t h hNew _ => (step_checked h hNew).mono (fun _ h' => h'.2) fun _ _ => trivial

section

instance (c : Client) : (t : Tid × Call) → Decidable (NewNumbers c t)
  | (_, op) => by cases op <;> dsimp only [NewNumbers] <;> infer_instance

instance (c : Client) (tid : Tid) : Decidable (Readable c tid) := inferInstanceAs (Decidable (_ ∨ _))

instance (P : Path → Prop) [DecidablePred P] : (target : Keys.Target) → Decidable (OnKey target P) :=
  fun op => by cases op <;> dsimp only [OnKey] <;> infer_instance

instance (p : Keys.Process) (c : Client) : (t : Tid × Call) → Decidable (Finds p c t)
  | (_, op) => by cases op <;> dsimp only [Finds] <;> infer_instance

def ownFile : List (Tid × Call) :=
  [(1, .openat none "/d/a".toList O_CREAT 3 0), (1, .write 3 [1, 2, 3] 3), (1, .lseek 3 0 .SEEK_SET 0),
    (1, .read 3 1 3), (1, .dup 3 4), (1, .close 4), (1, .mkdirat none "/d/b".toList 0),
    (1, .rmdir "/d/b".toList 1), (1, .close 3), (1, .unlinkat none "/d/a".toList false 0), (1, .exit)]

theorem lookups_succeed_ownFile : Meets (Returns Keys.fresh 4) (step Keys.fresh 4) {} ownFile :=
  (lookups_succeed_iff ownFile (by decide +kernel)).mpr (by decide +kernel)

def foreignFile : List (Tid × Call) := [(1, .unlinkat none "/d/a".toList false 0)]

def leftBytes : List (Tid × Call) :=
  [(1, .openat none "/d/a".toList 0 3 0), (1, .read 3 1 3), (1, .unlinkat none "/d/a".toList false 0),
    (1, .exit)]

open Server in
/-- A file that another process has created is removed, and the server answers with success; or a file
is removed while its bytes are in the read cache, and the process ends. -/
theorem lookups_fail : Meets NewNumbers (step Keys.fresh 4) {} foreignFile ∧
    failure (foreignFile.foldlM (step Keys.fresh 4) {}) =
      some (.missing (.capioFilesPaths "/d/a".toList)) ∧
    (∃ s, (boot (.plain .onClose false 0) (fun _ => Os.plain 64) 0 (fun _ => []) >>= fun s =>
        (plainRequests 64 [.handshake 2 ['b'] false, .create 2 5 "/d/a".toList,
          .handshake 1 ['a'] false, .unlink 1 "/d/a".toList]).foldlM
          (Server.step (.plain .onClose false 0)) s) = .ok s ∧ ⟨1, 0, []⟩ ∈ s.cm.replies) ∧
    Meets NewNumbers (step Keys.fresh 4) {} leftBytes ∧
    failure (leftBytes.foldlM (step Keys.fresh 4) {}) = some (.missing (.files 3)) := by
  decide +kernel

end

end Capio.Posix.Client
