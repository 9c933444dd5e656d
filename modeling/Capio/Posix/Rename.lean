import Capio.Posix.Filesystem
import Capio.Posix.Keys

/-! # A rename as its caller sees it

`renameat2_handler` changes the tables of the client before it asks the server, and returns the answer
unless that is negative.
-/
namespace Capio.Posix.Rename

open Common Lib.Outcome Filesystem Function

/-- Without a result the call is left to the kernel.  `answer` is what `rename_request` returns, and
`errno` has whatever was left in it. -/
def renameat2 (p : Keys.Process) (fs : Filesystem) (oldDir : Option Fd) (oldPath : Path)
    (newDir : Option Fd) (newPath : Path) (answer errno : Int) :
    Except Missing (Option Int × Filesystem) :=
  match p.renameat2 oldDir oldPath newDir newPath with
  | .keys oldpath newpath => do
    let fs ← fs.renameCapioPath oldpath newpath
    pure (some (if answer < 0 then -errno else answer), fs)
  | .failed _ => pure (some (-22), fs)
  | .copied => pure (some (-errno), fs)
  | _ => pure (none, fs)

/-- A rename the server refuses fails and leaves the tables; one it accepts moves the descriptors. -/
def RenamesAsAnswered (fs : Filesystem) (oldpath newpath : Path) (answer : Int)
    (r : Except Missing (Option Int × Filesystem)) : Prop :=
  ∃ result fs', r = .ok (some result, fs') ∧
    (answer ≠ 0 → fs'.capioFilesPaths = fs.capioFilesPaths ∧
      fs'.capioFilesDescriptors = fs.capioFilesDescriptors ∧ fs'.files = fs.files ∧ result < 0) ∧
    (answer = 0 → (∀ fd, fs.capioFilesDescriptors fd = some oldpath →
      fs'.capioFilesDescriptors fd = some newpath) ∧ result = 0)

/-- The descriptors under the new path once the entry of the old one is put in. -/
def moved (fs : Filesystem) (oldpath newpath : Path) : List Fd :=
  (fs.capioFilesPaths newpath).getD (fs.fdsOf oldpath)

/-- The old path is in the tables, and its descriptors are among those that get the new one. -/
structure Movable (fs : Filesystem) (oldpath newpath : Path) : Prop where
  known : fs.capioFilesPaths oldpath ≠ none
  opened : ∀ fd ∈ moved fs oldpath newpath, fs.capioFilesDescriptors fd ≠ none
  all : ∀ fd, fs.capioFilesDescriptors fd = some oldpath → fd ∈ moved fs oldpath newpath

theorem open_of_assignPaths {fds : List Fd}
    (h : fds.foldlM (assignPath path) descriptors = .ok descriptors') :
    ∀ fd ∈ fds, descriptors fd ≠ none := by
  induction fds generalizing descriptors with
  | nil => exact fun fd hfd => absurd hfd List.not_mem_nil
  | cons first fds ih =>
    rw [List.foldlM_cons] at h
    obtain ⟨next, hFirst, hRest⟩ := exists_of_bind_eq_ok h
    unfold assignPath at hFirst
    cases hOpen : descriptors first with
    | none =>
      rw [hOpen] at hFirst
      cases hFirst
    | some p =>
      rw [hOpen] at hFirst
      cases hFirst
      intro fd hfd
      grind

theorem renameCapioPath_ends (hNe : newpath ≠ oldpath) : Ends (fs.renameCapioPath oldpath newpath)
      (fun fs' => (fs.capioFilesPaths oldpath ≠ none ∧
          ∀ fd ∈ moved fs oldpath newpath, fs.capioFilesDescriptors fd ≠ none) ∧
        fs'.capioFilesPaths oldpath = none ∧ ∀ fd, fs'.capioFilesDescriptors fd =
          if fd ∈ moved fs oldpath newpath then some newpath else fs.capioFilesDescriptors fd)
      fun _ => ¬ Movable fs oldpath newpath := by
  unfold renameCapioPath
  cases hOld : fs.capioFilesPaths oldpath with
  | none => exact fun h => h.known hOld
  | some entry =>
    have hEntry : emplace (update fs.capioFilesPaths oldpath none) newpath entry newpath =
        some (moved fs oldpath newpath) := by
      unfold moved fdsOf
      rw [emplace_apply, if_pos rfl, update_of_ne hNe, hOld, Option.getD_some]
    have hGone : emplace (update fs.capioFilesPaths oldpath none) newpath entry oldpath = none := by
      rw [emplace_apply, if_neg hNe.symm, update_self]
    simp only [lookUp, ok_bind, hEntry]
    cases hAssign : (moved fs oldpath newpath).foldlM (assignPath newpath) fs.capioFilesDescriptors with
    | error e =>
      intro h
      rw [assignPaths_eq h.opened] at hAssign
      cases hAssign
    | ok descriptors =>
      have hOpen := open_of_assignPaths hAssign
      rw [assignPaths_eq hOpen] at hAssign
      cases hAssign
      exact ⟨⟨Option.some_ne_none entry, hOpen⟩, hGone, fun fd => rfl⟩

/-- The call does what the server answers exactly if that is success, the client knows the old path, and
its descriptors are all among those that get the new one. -/
theorem renames_as_answered_iff {p : Keys.Process} (fs : Filesystem) {oldDir newDir : Option Fd}
    {oldPath newPath oldpath newpath : Path} (answer errno : Int)
    (hSent : p.renameat2 oldDir oldPath newDir newPath = .keys oldpath newpath) (hNe : newpath ≠ oldpath) :
    RenamesAsAnswered fs oldpath newpath answer
        (renameat2 p fs oldDir oldPath newDir newPath answer errno) ↔
      answer = 0 ∧ Movable fs oldpath newpath := by
  have hRename : Ends (fs.renameCapioPath oldpath newpath) _ _ := renameCapioPath_ends hNe
  unfold renameat2
  rw [hSent]
  dsimp only
  cases hRun : fs.renameCapioPath oldpath newpath with
  | error e =>
    refine iff_of_false ?_ fun h => hRename.failure hRun h.2
    rintro ⟨result, fs', hOk, -⟩
    cases hOk
  | ok fs' =>
    obtain ⟨⟨hKnown, hOpened⟩, hGone, hMoved⟩ := hRename.result hRun
    constructor
    · rintro ⟨result, fs'', hOk, hRefused, hAccepted⟩
      cases hOk
      by_cases hZero : answer = 0
      · refine ⟨hZero, hKnown, hOpened, fun fd hfd => ?_⟩
        have hfd' := (hAccepted hZero).1 fd hfd
        rw [hMoved fd, hfd] at hfd'
        by_contra hNot
        rw [if_neg hNot] at hfd'
        exact hNe (Option.some_inj.mp hfd').symm
      · rw [(hRefused hZero).1] at hGone
        exact absurd hGone hKnown
    · rintro ⟨rfl, hMovable⟩
      refine ⟨_, fs', rfl, fun hNot => absurd rfl hNot, fun _ => ⟨fun fd hfd => ?_, rfl⟩⟩
      rw [hMoved fd, if_pos (hMovable.all fd hfd)]

/-- One descriptor of `/d/a`. -/
def oneFile : Filesystem where
  files := update (fun _ => none) 3 (some ⟨0, 0, 0, false⟩)
  capioFilesDescriptors := update (fun _ => none) 3 (some "/d/a".toList)
  capioFilesPaths := update (fun _ => none) "/d/a".toList (some [3])
  offsets := [0]

theorem renames_as_answered_aside : RenamesAsAnswered oneFile "/d/a".toList "/d/b".toList 0
    (renameat2 Keys.fresh oneFile none "/d/a".toList none "/d/b".toList 0 0) := by
  refine (renames_as_answered_iff oneFile 0 0 rfl (by decide)).mpr ⟨rfl, by decide, by decide, ?_⟩
  intro fd hfd
  by_cases hThree : fd = 3
  · subst hThree
    decide
  · simp [oneFile, hThree] at hfd

open Server in
/-- The server does not know the path and answers 1.  The caller gets 1 as well, and its descriptor has
the new path. -/
theorem refused_rename_moves :
    (∃ s, (boot (.plain .onClose false 0) (fun _ => Os.plain 64) 0 (fun _ => []) >>= fun s =>
      (plainRequests 64 [.handshake 1 ['a'] false, .rename 1 "/d/a".toList "/d/b".toList]).foldlM
        (Server.step (.plain .onClose false 0)) s) = .ok s ∧ s.cm.replies.head? = some ⟨1, 1, []⟩) ∧
    ∃ r, renameat2 Keys.fresh oneFile none "/d/a".toList none "/d/b".toList 1 0 = .ok r ∧
      r.1 = some 1 ∧ r.2.capioFilesDescriptors 3 = some "/d/b".toList := by
  decide +kernel

end Capio.Posix.Rename
