import Capio.Common.Types
import Capio.Lib.Outcome
import Mathlib.Data.List.Nodup

/-! # The descriptor tables of a client process

A process keeps its descriptors in three maps: `files` has what is known of each one, and the paths of
the descriptors and the descriptors of the paths are inverse to one another.  The sets of descriptors
are lists of their elements.  A look-up with `at` of an entry that is not there throws, which ends the
process.
-/
namespace Capio.Posix

open Common Lib.Outcome Function List Option

/-- An entry of `files`; `offset` is the cell of the shared pointer. -/
structure FileEntry where
  offset : Nat
  initSize : Int
  flags : Nat
  isCloexec : Bool
  deriving DecidableEq

inductive Missing
  | files (fd : Fd)
  | capioFilesDescriptors (fd : Fd)
  | capioFilesPaths (path : Path)
  deriving DecidableEq

def lookUp {α : Type} (entry : Option α) (missing : Missing) : Except Missing α :=
  match entry with
  | some value => .ok value
  | none => .error missing

structure Filesystem where
  files : Fd → Option FileEntry := fun _ => none
  capioFilesDescriptors : Fd → Option Path := fun _ => none
  capioFilesPaths : Path → Option (List Fd) := fun _ => none
  offsets : List Int := []

namespace Filesystem

def existsCapioFd (fs : Filesystem) (fd : Fd) : Bool := (fs.files fd).isSome

def existsCapioPath (fs : Filesystem) (path : Path) : Bool := (fs.capioFilesPaths path).isSome

def getCapioFdPath (fs : Filesystem) (fd : Fd) : Except Missing Path :=
  lookUp (fs.capioFilesDescriptors fd) (.capioFilesDescriptors fd)

def getCapioFdOffset (fs : Filesystem) (fd : Fd) : Except Missing Int := do
  let f ← lookUp (fs.files fd) (.files fd)
  pure (fs.offsets.getD f.offset 0)

def setCapioFdOffset (fs : Filesystem) (fd : Fd) (offset : Int) : Except Missing Filesystem := do
  let f ← lookUp (fs.files fd) (.files fd)
  pure { fs with offsets := fs.offsets.set f.offset offset }

def addCapioPath (fs : Filesystem) (path : Path) : Filesystem :=
  { fs with capioFilesPaths := emplace fs.capioFilesPaths path [] }

def addCapioFd (fs : Filesystem) (path : Path) (fd : Fd) (offset initSize : Int) (flags : Nat)
    (isCloexec : Bool) : Except Missing Filesystem := do
  let fs := fs.addCapioPath path
  let fds ← lookUp (fs.capioFilesPaths path) (.capioFilesPaths path)
  pure {
    files := emplace fs.files fd ⟨fs.offsets.length, initSize, flags, isCloexec⟩
    capioFilesDescriptors := emplace fs.capioFilesDescriptors fd path
    capioFilesPaths := update fs.capioFilesPaths path (some (fds.insert fd))
    offsets := fs.offsets ++ [offset] }

def deleteCapioFd (fs : Filesystem) (fd : Fd) : Except Missing Filesystem := do
  let path ← lookUp (fs.capioFilesDescriptors fd) (.capioFilesDescriptors fd)
  let fds ← lookUp (fs.capioFilesPaths path) (.capioFilesPaths path)
  pure { fs with
    files := update fs.files fd none
    capioFilesDescriptors := update fs.capioFilesDescriptors fd none
    capioFilesPaths := update fs.capioFilesPaths path (some (fds.erase fd)) }

def deleteCapioPath (fs : Filesystem) (path : Path) : Except Missing Filesystem := do
  let fds ← lookUp (fs.capioFilesPaths path) (.capioFilesPaths path)
  let fs ← fds.foldlM deleteCapioFd fs
  pure { fs with capioFilesPaths := update fs.capioFilesPaths path none }

def setCapioFdCloexec (fs : Filesystem) (fd : Fd) (isCloexec : Bool) : Except Missing Filesystem := do
  let f ← lookUp (fs.files fd) (.files fd)
  pure { fs with files := update fs.files fd (some { f with isCloexec := isCloexec }) }

def dupCapioFd (fs : Filesystem) (oldFd newFd : Fd) (isCloexec : Bool) :
    Except Missing Filesystem := do
  let path ← lookUp (fs.capioFilesDescriptors oldFd) (.capioFilesDescriptors oldFd)
  let fds ← lookUp (fs.capioFilesPaths path) (.capioFilesPaths path)
  let f ← lookUp (fs.files oldFd) (.files oldFd)
  let fs ← setCapioFdCloexec
    { fs with
      files := emplace fs.files newFd f
      capioFilesPaths := update fs.capioFilesPaths path (some (fds.insert newFd)) }
    newFd isCloexec
  pure { fs with capioFilesDescriptors := emplace fs.capioFilesDescriptors newFd path }

def assignPath (path : Path) (descriptors : Fd → Option Path) (fd : Fd) :
    Except Missing (Fd → Option Path) := do
  let _ ← lookUp (descriptors fd) (.capioFilesDescriptors fd)
  pure (update descriptors fd (some path))

/-- The entry of the old path is taken out of the map and put in again under the new one; if that is
there, it stays and the entry is dropped. -/
def renameCapioPath (fs : Filesystem) (oldpath newpath : Path) : Except Missing Filesystem := do
  let entry ← lookUp (fs.capioFilesPaths oldpath) (.capioFilesPaths oldpath)
  let paths := emplace (update fs.capioFilesPaths oldpath none) newpath entry
  let fds ← lookUp (paths newpath) (.capioFilesPaths newpath)
  let descriptors ← fds.foldlM (assignPath newpath) fs.capioFilesDescriptors
  pure { fs with capioFilesDescriptors := descriptors, capioFilesPaths := paths }

def fdsOf (fs : Filesystem) (path : Path) : List Fd := (fs.capioFilesPaths path).getD []

/-- `files` and `capio_files_descriptors` have the same keys, and `capio_files_paths` is the inverse of
the latter. -/
structure Consistent (fs : Filesystem) : Prop where
  keys : ∀ fd, (fs.files fd).isSome = (fs.capioFilesDescriptors fd).isSome
  inverse : ∀ fd path, fd ∈ fs.fdsOf path ↔ fs.capioFilesDescriptors fd = some path

structure Inv (fs : Filesystem) : Prop extends Consistent fs where
  nodup : ∀ path, (fs.fdsOf path).Nodup

theorem inv_init : Inv {} := ⟨⟨fun _ => rfl, fun _ _ => ⟨fun h => (by cases h), fun h => (by cases h)⟩⟩,
  fun _ => nodup_nil⟩

section

variable {fs fs' : Filesystem} {path : Path}

theorem fdsOf_update (paths : Path → Option (List Fd)) (fds : Option (List Fd)) (p : Path) :
    (update paths path fds p).getD [] = if p = path then fds.getD [] else (paths p).getD [] := by
  rw [update_apply, apply_ite (getD · [])]

theorem fdsOf_addCapioPath (p : Path) : (fs.addCapioPath path).fdsOf p = fs.fdsOf p := by
  change (emplace fs.capioFilesPaths path [] p).getD [] = (fs.capioFilesPaths p).getD []
  rw [emplace_apply]
  split
  · next hp => rw [hp, getD_some]
  · rfl

theorem Inv.addCapioPath (h : Inv fs) : Inv (fs.addCapioPath path) where
  keys := h.keys
  inverse fd p := by
    rw [fdsOf_addCapioPath]
    exact h.inverse fd p
  nodup p := by
    rw [fdsOf_addCapioPath]
    exact h.nodup p

theorem Consistent.files_isSome (h : Consistent fs) :
    (fs.files fd).isSome ↔ ∃ p, fs.capioFilesDescriptors fd = some p := by
  rw [h.keys, isSome_iff_exists]

theorem Consistent.descriptors_none (h : Consistent fs) (hFree : fs.files fd = none) :
    fs.capioFilesDescriptors fd = none := by
  rw [← isNone_iff_eq_none, ← not_isSome, ← h.keys, hFree]
  rfl

section

variable (h : Inv fs)
include h

theorem Inv.attach (hFree : fs.files fd = none)
    (hFiles : ∀ g, (fs'.files g).isSome = if g = fd then true else (fs.files g).isSome)
    (hDescriptors : fs'.capioFilesDescriptors = update fs.capioFilesDescriptors fd (some path))
    (hFds : ∀ p, fs'.fdsOf p = if p = path then (fs.fdsOf path).insert fd else fs.fdsOf p) : Inv fs' where
  keys g := by
    rw [hFiles, hDescriptors, update_apply]
    split
    · rfl
    · exact h.keys g
  inverse g p := by
    rw [hFds, hDescriptors, update_apply]
    grind [h.inverse, h.descriptors_none]
  nodup p := by
    rw [hFds]
    split
    · exact (h.nodup path).insert
    · exact h.nodup p

theorem addCapioFd_inv (hFree : fs.files fd = none) (offset initSize : Int) (flags : Nat)
    (isCloexec : Bool) : ∃ fs', fs.addCapioFd path fd offset initSize flags isCloexec = .ok fs' ∧ Inv fs' ∧
      fs'.capioFilesDescriptors = update fs.capioFilesDescriptors fd (some path) ∧
      fs'.files = update fs.files fd (some ⟨fs.offsets.length, initSize, flags, isCloexec⟩) ∧
      fs'.offsets = fs.offsets ++ [offset] := by
  have hPath : (fs.addCapioPath path).capioFilesPaths path = some (fs.fdsOf path) := by
    change emplace fs.capioFilesPaths path [] path = _
    rw [emplace_apply, if_pos rfl]
    rfl
  have hDescriptors : emplace fs.capioFilesDescriptors fd path =
      update fs.capioFilesDescriptors fd (some path) :=
    emplace_of_none (h.descriptors_none hFree) path
  have hFiles : ∀ f, emplace fs.files fd f = update fs.files fd (some f) :=
    fun f => emplace_of_none hFree f
  have hRun : fs.addCapioFd path fd offset initSize flags isCloexec = .ok {
      files := emplace fs.files fd ⟨fs.offsets.length, initSize, flags, isCloexec⟩
      capioFilesDescriptors := emplace fs.capioFilesDescriptors fd path
      capioFilesPaths := update (fs.addCapioPath path).capioFilesPaths path
        (some ((fs.fdsOf path).insert fd))
      offsets := fs.offsets ++ [offset] } := by
    unfold addCapioFd
    dsimp only
    rw [hPath]
    rfl
  refine ⟨_, hRun, h.attach hFree (fun g => ?_) hDescriptors fun p => ?_, hDescriptors, hFiles _, rfl⟩
  · change (emplace fs.files fd _ g).isSome = _
    rw [hFiles, update_apply, apply_ite isSome]
    rfl
  · change (update (fs.addCapioPath path).capioFilesPaths path _ p).getD [] = _
    rw [fdsOf_update]
    split
    · rfl
    · exact fdsOf_addCapioPath p

theorem Inv.capioFilesPaths (hOpen : fs.capioFilesDescriptors fd = some path) :
    fs.capioFilesPaths path = some (fs.fdsOf path) := by
  have hMem := (h.inverse fd path).mpr hOpen
  unfold fdsOf at hMem ⊢
  cases hPath : fs.capioFilesPaths path with
  | none =>
    rw [hPath] at hMem
    cases hMem
  | some fds => rfl

theorem Inv.entry (hOpen : fs.files fd ≠ none) : ∃ f path,
    fs.files fd = some f ∧ fs.capioFilesDescriptors fd = some path ∧
      fs.capioFilesPaths path = some (fs.fdsOf path) ∧ fd ∈ fs.fdsOf path := by
  obtain ⟨f, hf⟩ := ne_none_iff_exists'.mp hOpen
  obtain ⟨path, hPath⟩ := h.files_isSome.mp (isSome_of_eq_some hf)
  exact ⟨f, path, hf, hPath, h.capioFilesPaths hPath, (h.inverse fd path).mpr hPath⟩

theorem dupCapioFd_inv (hOld : fs.files oldFd ≠ none) (hFree : fs.files newFd = none) (isCloexec : Bool) :
    ∃ fs' f path, fs.dupCapioFd oldFd newFd isCloexec = .ok fs' ∧ Inv fs' ∧ fs.files oldFd = some f ∧
      fs.capioFilesDescriptors oldFd = some path ∧
      fs'.capioFilesDescriptors = update fs.capioFilesDescriptors newFd (some path) ∧
      fs'.files = update fs.files newFd (some { f with isCloexec := isCloexec }) ∧
      fs'.offsets = fs.offsets := by
  obtain ⟨f, path, hf, hPath, hFds, -⟩ := h.entry hOld
  have hDescriptors : emplace fs.capioFilesDescriptors newFd path =
      update fs.capioFilesDescriptors newFd (some path) :=
    emplace_of_none (h.descriptors_none hFree) path
  have hFiles : update (emplace fs.files newFd f) newFd (some { f with isCloexec := isCloexec }) =
      update fs.files newFd (some { f with isCloexec := isCloexec }) := by
    rw [emplace_of_none hFree, update_idem]
  have hRun : fs.dupCapioFd oldFd newFd isCloexec = .ok { fs with
      files := update (emplace fs.files newFd f) newFd (some { f with isCloexec := isCloexec })
      capioFilesDescriptors := emplace fs.capioFilesDescriptors newFd path
      capioFilesPaths := update fs.capioFilesPaths path
        (some ((fs.fdsOf path).insert newFd)) } := by
    unfold dupCapioFd setCapioFdCloexec
    rw [hPath, hf]
    simp only [lookUp, hFds, ok_bind, emplace_of_none hFree, update_self]
    rfl
  refine ⟨_, f, path, hRun, h.attach hFree (fun g => ?_) hDescriptors fun p => fdsOf_update _ _ p, hf,
    hPath, hDescriptors, hFiles, rfl⟩
  change (update (emplace fs.files newFd f) newFd _ g).isSome = _
  rw [hFiles, update_apply, apply_ite isSome]
  rfl

theorem deleteCapioFd_inv (hOpen : fs.files fd ≠ none) :
    ∃ fs', fs.deleteCapioFd fd = .ok fs' ∧ Inv fs' ∧ fs'.files = update fs.files fd none ∧
      fs'.capioFilesDescriptors = update fs.capioFilesDescriptors fd none ∧
      ∀ p, (fs'.capioFilesPaths p).isSome = (fs.capioFilesPaths p).isSome := by
  obtain ⟨f, path, -, hPath, hFds, -⟩ := h.entry hOpen
  have hRun : fs.deleteCapioFd fd = .ok { fs with
      files := update fs.files fd none
      capioFilesDescriptors := update fs.capioFilesDescriptors fd none
      capioFilesPaths := update fs.capioFilesPaths path (some ((fs.fdsOf path).erase fd)) } := by
    unfold deleteCapioFd
    rw [hPath]
    simp only [lookUp, hFds, ok_bind]
    rfl
  refine ⟨_, hRun, ⟨⟨fun g => ?_, fun g p => ?_⟩, fun p => ?_⟩, rfl, rfl, fun p => ?_⟩
  · change (update fs.files fd none g).isSome = (update fs.capioFilesDescriptors fd none g).isSome
    rw [update_apply, update_apply]
    split
    · rfl
    · exact h.keys g
  · change g ∈ (update fs.capioFilesPaths path _ p).getD [] ↔
      update fs.capioFilesDescriptors fd none g = some p
    rw [fdsOf_update, update_apply]
    by_cases hp : p = path
    · rw [if_pos hp, getD_some, (h.nodup path).mem_erase_iff, h.inverse, hp]
      simp
    · rw [if_neg hp]
      change g ∈ fs.fdsOf p ↔ _
      rw [h.inverse]
      split
      · grind
      · rfl
  · change ((update fs.capioFilesPaths path _ p).getD []).Nodup
    rw [fdsOf_update]
    split
    · exact (h.nodup path).erase fd
    · exact h.nodup p
  · grind

theorem deleteCapioFds_inv {fds : List Fd} (hNodup : fds.Nodup)
    (hOpen : ∀ g ∈ fds, fs.files g ≠ none) : ∃ fs', fds.foldlM deleteCapioFd fs = .ok fs' ∧ Inv fs' ∧
      (∀ g, fs'.files g = if g ∈ fds then none else fs.files g) ∧
      (∀ g, fs'.capioFilesDescriptors g = if g ∈ fds then none else fs.capioFilesDescriptors g) ∧
      ∀ p, (fs'.capioFilesPaths p).isSome = (fs.capioFilesPaths p).isSome := by
  induction fds generalizing fs with
  | nil => exact ⟨fs, rfl, h, fun _ => rfl, fun _ => rfl, fun _ => rfl⟩
  | cons fd fds ih =>
    obtain ⟨hNotMem, hNodup⟩ := nodup_cons.mp hNodup
    obtain ⟨fs1, hRun1, h1, hFiles1, hDescriptors1, hPaths1⟩ :=
      deleteCapioFd_inv h (hOpen fd mem_cons_self)
    have hOpen1 : ∀ g ∈ fds, fs1.files g ≠ none := by
      intro g hg
      rw [hFiles1, update_of_ne (ne_of_mem_of_not_mem hg hNotMem)]
      exact hOpen g (mem_cons_of_mem _ hg)
    obtain ⟨fs2, hRun2, h2, hFiles2, hDescriptors2, hPaths2⟩ := ih h1 hNodup hOpen1
    refine ⟨fs2, ?_, h2, fun g => ?_, fun g => ?_, fun p => (hPaths2 p).trans (hPaths1 p)⟩
    · rw [foldlM_cons, hRun1]
      exact hRun2
    · rw [hFiles2, hFiles1, update_apply, ← ite_or]
      exact if_congr (or_comm.trans mem_cons.symm) rfl rfl
    · rw [hDescriptors2, hDescriptors1, update_apply, ← ite_or]
      exact if_congr (or_comm.trans mem_cons.symm) rfl rfl

theorem deleteCapioPath_inv (hPath : fs.capioFilesPaths path ≠ none) :
    ∃ fs', fs.deleteCapioPath path = .ok fs' ∧ Inv fs' ∧ fs'.capioFilesPaths path = none ∧
      (∀ g, fs'.files g = if fs.capioFilesDescriptors g = some path then none else fs.files g) ∧
      (∀ p, p ≠ path → (fs'.capioFilesPaths p).isSome = (fs.capioFilesPaths p).isSome) := by
  obtain ⟨fds, hFds⟩ := ne_none_iff_exists'.mp hPath
  have hOf : fs.fdsOf path = fds := by
    unfold fdsOf
    rw [hFds, getD_some]
  have hMem : ∀ g, g ∈ fds ↔ fs.capioFilesDescriptors g = some path := by
    intro g
    rw [← hOf, h.inverse]
  obtain ⟨fs1, hRun, h1, hFiles, hDescriptors, hPaths⟩ := deleteCapioFds_inv h (hOf ▸ h.nodup path)
    fun g hg => isSome_iff_ne_none.mp (h.files_isSome.mpr ⟨path, (hMem g).mp hg⟩)
  -- nothing is left in the set of the path when its key goes
  have hEmpty : fs1.fdsOf path = [] := by
    rw [eq_nil_iff_forall_not_mem]
    intro g hg
    have hOpen := (h1.inverse g path).mp hg
    grind
  have hSame : ∀ p, fdsOf { fs1 with
      capioFilesPaths := update fs1.capioFilesPaths path none } p = fs1.fdsOf p := by
    intro p
    refine (fdsOf_update _ _ p).trans ?_
    split
    · next hp => rw [hp, hEmpty, getD_none]
    · rfl
  have hDelete : fs.deleteCapioPath path =
      .ok { fs1 with capioFilesPaths := update fs1.capioFilesPaths path none } := by
    unfold deleteCapioPath
    rw [hFds]
    simp only [lookUp, hRun, ok_bind]
    rfl
  refine ⟨_, hDelete, ⟨⟨h1.keys, fun g p => ?_⟩, fun p => ?_⟩, update_self _ _ _, fun g => ?_,
    fun p hp => ?_⟩
  · rw [hSame]
    exact h1.inverse g p
  · rw [hSame]
    exact h1.nodup p
  · rw [hFiles]
    simp only [hMem]
  · grind

end

theorem assignPaths_eq {fds : List Fd} (hOpen : ∀ g ∈ fds, descriptors g ≠ none) :
    fds.foldlM (assignPath path) descriptors =
      .ok fun g => if g ∈ fds then some path else descriptors g := by
  induction fds generalizing descriptors with
  | nil => rfl
  | cons fd fds ih =>
    obtain ⟨p, hp⟩ := ne_none_iff_exists'.mp (hOpen fd mem_cons_self)
    have hFirst : assignPath path descriptors fd = .ok (update descriptors fd (some path)) := by
      unfold assignPath
      rw [hp]
      rfl
    grind [ok_bind]

theorem Consistent.ne_none_of_mem (h : Consistent fs) (hMem : fd ∈ fs.fdsOf path) :
    fs.capioFilesDescriptors fd ≠ none := by
  rw [(h.inverse fd path).mp hMem]
  exact some_ne_none path

theorem Consistent.assignPaths (h : Consistent fs) (hFds : fs.capioFilesPaths path = some fds)
    (newpath : Path) : fds.foldlM (assignPath newpath) fs.capioFilesDescriptors =
      .ok fun g => if g ∈ fds then some newpath else fs.capioFilesDescriptors g := by
  refine assignPaths_eq fun g hg => ?_
  have hMem : g ∈ fs.fdsOf path := by
    rw [fdsOf, hFds, getD_some]
    exact hg
  exact h.ne_none_of_mem hMem

theorem renameCapioPath_moves (h : Inv fs) (hOld : fs.capioFilesPaths oldpath = some fds)
    (hNew : fs.capioFilesPaths newpath = none ∨ newpath = oldpath) :
    ∃ fs', fs.renameCapioPath oldpath newpath = .ok fs' ∧ Inv fs' := by
  have hOf : fs.fdsOf oldpath = fds := by rw [fdsOf, hOld, getD_some]
  have hFree : update fs.capioFilesPaths oldpath none newpath = none := by grind
  have hRun : fs.renameCapioPath oldpath newpath = .ok { fs with
      capioFilesDescriptors := fun g => if g ∈ fds then some newpath else fs.capioFilesDescriptors g
      capioFilesPaths := update (update fs.capioFilesPaths oldpath none) newpath (some fds) } := by
    unfold renameCapioPath
    simp only [hOld, lookUp, ok_bind, emplace_of_none hFree, update_self, h.assignPaths hOld]
    rfl
  have hFds : ∀ p, (update (update fs.capioFilesPaths oldpath none) newpath
      (some fds) p).getD [] = if p = newpath then fds else if p = oldpath then [] else fs.fdsOf p := by
    intro p
    rw [fdsOf_update, fdsOf_update]
    rfl
  have hMem : ∀ g, g ∈ fds ↔ fs.capioFilesDescriptors g = some oldpath := by
    intro g
    rw [← hOf, h.inverse]
  refine ⟨_, hRun, ⟨⟨fun g => ?_, fun g p => ?_⟩, fun p => ?_⟩⟩
  · grind [h.keys]
  · refine Iff.trans (iff_of_eq (congrArg (g ∈ ·) (hFds p))) ?_
    change _ ↔ (if g ∈ fds then some newpath else fs.capioFilesDescriptors g) = some p
    by_cases hp : p = newpath
    · rw [if_pos hp, hp]
      grind [h.capioFilesPaths]
    · rw [if_neg hp]
      grind [h.inverse]
  · refine Eq.mpr (congrArg Nodup (hFds p)) ?_
    grind [h.nodup, nodup_nil]

theorem renameCapioPath_taken (h : Inv fs) (hOld : fs.capioFilesPaths oldpath = some fds)
    (hNew : fs.capioFilesPaths newpath ≠ none) (hNe : newpath ≠ oldpath) :
    fs.renameCapioPath oldpath newpath =
      .ok { fs with capioFilesPaths := update fs.capioFilesPaths oldpath none } := by
  obtain ⟨taken, hTaken⟩ := ne_none_iff_exists'.mp hNew
  have hOf : fs.fdsOf newpath = taken := by rw [fdsOf, hTaken, getD_some]
  have hThere : update fs.capioFilesPaths oldpath none newpath = some taken := by
    rw [update_of_ne hNe, hTaken]
  have hPaths : emplace (update fs.capioFilesPaths oldpath none) newpath fds =
      update fs.capioFilesPaths oldpath none := by
    unfold emplace
    rw [hThere]
  have hSame : (fun g => if g ∈ taken then some newpath else fs.capioFilesDescriptors g) =
      fs.capioFilesDescriptors := by
    grind [h.inverse]
  unfold renameCapioPath
  simp only [hOld, lookUp, ok_bind, hPaths, hThere, h.assignPaths hTaken, hSame]
  rfl

theorem Inv.erase (h : Inv fs) (hEmpty : fs.fdsOf path = []) :
    Inv { fs with capioFilesPaths := update fs.capioFilesPaths path none } := by
  have hSame : ∀ p, (update fs.capioFilesPaths path none p).getD [] = fs.fdsOf p := by
    intro p
    rw [fdsOf_update]
    split
    · next hp => rw [hp, hEmpty, getD_none]
    · rfl
  refine ⟨⟨h.keys, fun g p => ?_⟩, fun p => ?_⟩
  · exact Iff.trans (iff_of_eq (congrArg (g ∈ ·) (hSame p))) (h.inverse g p)
  · exact Eq.mpr (congrArg Nodup (hSame p)) (h.nodup p)

/-- A rename keeps the tables consistent exactly if it is onto a path that is not there, or of a path
without descriptors. -/
def Renamable (fs : Filesystem) (oldpath newpath : Path) : Prop :=
  fs.capioFilesPaths newpath = none ∨ newpath = oldpath ∨ fs.fdsOf oldpath = []

theorem renameCapioPath_inv (h : Inv fs) (hOld : fs.capioFilesPaths oldpath ≠ none)
    (hRename : Renamable fs oldpath newpath) :
    ∃ fs', fs.renameCapioPath oldpath newpath = .ok fs' ∧ Inv fs' := by
  obtain ⟨fds, hFds⟩ := ne_none_iff_exists'.mp hOld
  by_cases hNew : fs.capioFilesPaths newpath = none ∨ newpath = oldpath
  · exact renameCapioPath_moves h hFds hNew
  · obtain ⟨hTaken, hNe⟩ := not_or.mp hNew
    have hEmpty := (hRename.resolve_left hTaken).resolve_left hNe
    exact ⟨_, renameCapioPath_taken h hFds hTaken hNe, h.erase hEmpty⟩

theorem renamable_of_consistent (h : Inv fs) (hOld : fs.capioFilesPaths oldpath ≠ none)
    (hRun : fs.renameCapioPath oldpath newpath = .ok fs') (h' : Consistent fs') :
    Renamable fs oldpath newpath := by
  obtain ⟨fds, hFds⟩ := ne_none_iff_exists'.mp hOld
  by_cases hNew : fs.capioFilesPaths newpath = none ∨ newpath = oldpath
  · exact hNew.imp_right .inl
  · obtain ⟨hTaken, hNe⟩ := not_or.mp hNew
    obtain rfl := Except.ok.inj ((renameCapioPath_taken h hFds hTaken hNe).symm.trans hRun)
    refine .inr (.inr (eq_nil_iff_forall_not_mem.mpr fun g hg => ?_))
    -- its descriptor still names the old path, which is gone
    have hLost := (h'.inverse g oldpath).mpr ((h.inverse g oldpath).mp hg)
    change g ∈ (update fs.capioFilesPaths oldpath none oldpath).getD [] at hLost
    rw [update_self] at hLost
    cases hLost

end

inductive Op
  | addCapioPath (path : Path)
  | addCapioFd (path : Path) (fd : Fd) (offset initSize : Int) (flags : Nat) (isCloexec : Bool)
  | dupCapioFd (oldFd newFd : Fd) (isCloexec : Bool)
  | deleteCapioFd (fd : Fd)
  | deleteCapioPath (path : Path)
  | renameCapioPath (oldpath newpath : Path)

def step (fs : Filesystem) : Op → Except Missing Filesystem
  | .addCapioPath path => pure (fs.addCapioPath path)
  | .addCapioFd path fd offset initSize flags isCloexec =>
    fs.addCapioFd path fd offset initSize flags isCloexec
  | .dupCapioFd oldFd newFd isCloexec => fs.dupCapioFd oldFd newFd isCloexec
  | .deleteCapioFd fd => fs.deleteCapioFd fd
  | .deleteCapioPath path => fs.deleteCapioPath path
  | .renameCapioPath oldpath newpath => fs.renameCapioPath oldpath newpath

/-- How the handlers call the operations: a descriptor is added under a number that is in none of the
tables, and what is copied, deleted or renamed exists. -/
def Allowed (fs : Filesystem) : Op → Prop
  | .addCapioPath _ => True
  | .addCapioFd _ fd .. => fs.files fd = none
  | .dupCapioFd oldFd newFd _ => fs.files oldFd ≠ none ∧ fs.files newFd = none
  | .deleteCapioFd fd => fs.files fd ≠ none
  | .deleteCapioPath path => fs.capioFilesPaths path ≠ none
  | .renameCapioPath oldpath _ => fs.capioFilesPaths oldpath ≠ none

def RenamesAside (fs : Filesystem) : Op → Prop
  | .renameCapioPath oldpath newpath => Renamable fs oldpath newpath
  | _ => True

def KeepsConsistent (fs : Filesystem) (op : Op) : Prop :=
  ∃ fs', step fs op = .ok fs' ∧ Consistent fs'

theorem step_inv (h : Inv fs) (hAllowed : Allowed fs op) (hRename : RenamesAside fs op) :
    ∃ fs', step fs op = .ok fs' ∧ Inv fs' := by
  cases op with
  | addCapioPath path => exact ⟨_, rfl, h.addCapioPath⟩
  | addCapioFd path fd offset initSize flags isCloexec =>
    obtain ⟨fs', hRun, h', -⟩ := addCapioFd_inv h hAllowed offset initSize flags isCloexec
    exact ⟨fs', hRun, h'⟩
  | dupCapioFd oldFd newFd isCloexec =>
    obtain ⟨fs', f, path, hRun, h', -⟩ := dupCapioFd_inv h hAllowed.1 hAllowed.2 isCloexec
    exact ⟨fs', hRun, h'⟩
  | deleteCapioFd fd =>
    obtain ⟨fs', hRun, h', -⟩ := deleteCapioFd_inv h hAllowed
    exact ⟨fs', hRun, h'⟩
  | deleteCapioPath path =>
    obtain ⟨fs', hRun, h', -⟩ := deleteCapioPath_inv h hAllowed
    exact ⟨fs', hRun, h'⟩
  | renameCapioPath oldpath newpath => exact renameCapioPath_inv h hAllowed hRename

theorem keepsConsistent_iff (h : Inv fs) (hAllowed : Allowed fs op) :
    KeepsConsistent fs op ↔ RenamesAside fs op := by
  constructor
  · rintro ⟨fs', hRun, h'⟩
    cases op with
    | renameCapioPath oldpath newpath => exact renamable_of_consistent h hAllowed hRun h'
    | _ => trivial
  · intro hRename
    obtain ⟨fs', hRun, h'⟩ := step_inv h hAllowed hRename
    exact ⟨fs', hRun, h'.toConsistent⟩

/-- In every sequence of operations the tables are consistent after each one exactly if every rename is
onto a path that is not in the tables, or of a path without descriptors. -/
theorem tables_consistent_iff (ops : List Op) (hAllowed : Meets Allowed step {} ops) :
    Meets KeepsConsistent step {} ops ↔ Meets RenamesAside step {} ops :=
  Meets.iff_of_inv (E := fun _ => False) (fun _ _ => keepsConsistent_iff)
    (fun _ _ h hAllowed hAside => ends_of_exists (step_inv h hAllowed hAside)) inv_init hAllowed

instance (fs : Filesystem) : (op : Op) → Decidable (Allowed fs op) :=
  fun op => by cases op <;> dsimp only [Allowed] <;> infer_instance

instance (fs : Filesystem) : (op : Op) → Decidable (RenamesAside fs op) :=
  fun op => by cases op <;> dsimp only [RenamesAside, Renamable] <;> infer_instance

def aside : List Op :=
  [.addCapioFd "/d/a".toList 3 0 0 0 false, .dupCapioFd 3 4 true, .addCapioPath "/d/b".toList,
    .renameCapioPath "/d/b".toList "/d/c".toList, .renameCapioPath "/d/a".toList "/d/b".toList,
    .deleteCapioFd 3, .deleteCapioPath "/d/b".toList]

theorem tables_consistent_aside : Meets KeepsConsistent step {} aside :=
  (tables_consistent_iff aside (by decide +kernel)).mpr (by decide +kernel)

def onto : List Op :=
  [.addCapioFd "/d/a".toList 3 0 0 0 false, .addCapioFd "/d/b".toList 4 0 0 0 false,
    .renameCapioPath "/d/a".toList "/d/b".toList]

theorem rename_onto_breaks : Meets Allowed step {} onto ∧ ∃ fs, onto.foldlM step {} = .ok fs ∧
    fs.capioFilesDescriptors 3 = some "/d/a".toList ∧ fs.fdsOf "/d/a".toList = [] ∧ ¬ Consistent fs ∧
    step fs (.deleteCapioFd 3) = .error (.capioFilesPaths "/d/a".toList) := by
  refine ⟨by decide +kernel, ?_⟩
  have hSeen : ∃ fs, onto.foldlM step {} = .ok fs ∧ fs.capioFilesDescriptors 3 = some "/d/a".toList ∧
      fs.fdsOf "/d/a".toList = [] ∧ fs.capioFilesPaths "/d/a".toList = none := by decide +kernel
  obtain ⟨fs, hRun, hOpen, hEmpty, hGone⟩ := hSeen
  refine ⟨fs, hRun, hOpen, hEmpty, fun h => ?_, ?_⟩
  · have hMem := (h.inverse 3 "/d/a".toList).mpr hOpen
    rw [hEmpty] at hMem
    cases hMem
  · unfold step deleteCapioFd
    simp only [hOpen, lookUp, ok_bind, hGone]
    rfl

end Filesystem

end Capio.Posix
