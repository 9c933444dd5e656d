import Capio.Lib.LexicalPath
import Capio.Server.Handlers

/-! # The string a system call uses for a path

Every handler that takes a path name resolves it by branches of its own (absolute, relative to the
working directory, relative to a descriptor) and then uses one string as key in the tables of the
process and in the request it sends.  The model keeps the branches up to that point.
-/
namespace Capio.Posix.Keys

open Common Lib.LexicalPath List

structure Process where
  capioDir : Path
  currentDir : Path
  /-- `capio_realpath`: nothing for a name that is not on disk. -/
  realpath : Path → Option Path
  isDirectory : Fd → Bool
  capioFilesDescriptors : Fd → Option Path
  /-- The link of a descriptor under `/proc/self/fd`; empty if it cannot be read. -/
  link : Fd → Path

inductive Errno
  | EEXIST
  | EINVAL
  | ENOENT
  | ENOTDIR
  | ENONET

inductive Target
  /-- The string used in the tables and in the request. -/
  | key (path : Path)
  /-- `rename` uses two. -/
  | keys (oldpath newpath : Path)
  /-- The call is answered for the descriptor. -/
  | descriptor (fd : Fd)
  | kernel
  /-- The call fails; without a code, `errno` is the one that resolving left. -/
  | failed (errno : Option Errno)
  /-- A file of the disk is copied into `CAPIO_DIR`. -/
  | copied
  /-- `ERR_EXIT`. -/
  | exit

def isForbiddenPath (path : Path) : Bool :=
  "/proc/".toList.isPrefixOf path || "/sys/".toList.isPrefixOf path

def isPrefix (path1 path2 : Path) : Bool :=
  let relpath := lexicallyRelative path2 path1
  relpath != [] && !dotDot.isPrefixOf relpath

/-- The loop of `capio_normal_path` on the reversed text. -/
def popSlashes : List Char → List Char
  | c :: d :: rest => if c = '/' then popSlashes (d :: rest) else c :: d :: rest
  | text => text

def capioNormalPath (path : Path) : Path := (popSlashes (lexicallyNormal path).reverse).reverse

theorem popSlashes_of_ne (hc : c ≠ '/') (rest : List Char) : popSlashes (c :: rest) = c :: rest := by
  cases rest with
  | nil => rfl
  | cons d rest => rw [popSlashes, if_neg hc]

theorem capioNormalPath_eq (hAbsolute : isAbsolute path = true) :
    capioNormalPath path = '/' :: ['/'].intercalate (normalNames path) := by
  have hSome : path ≠ [] := by
    rintro rfl
    exact absurd hAbsolute (by decide)
  unfold capioNormalPath lexicallyNormal
  rw [if_neg hSome, if_pos hAbsolute]
  cases hNames : normalNames path with
  | nil =>
    have hPlain : namesDirectory path = false := by
      unfold namesDirectory
      rw [hNames]
      exact Bool.and_false _
    rw [hPlain]
    rfl
  | cons first rest =>
    have hOk : ∀ x ∈ first :: rest, x ≠ [] ∧ '/' ∉ x := fun x hx => mem_normalNames (hNames ▸ hx)
    obtain ⟨front, c, hJoined, hc⟩ := intercalate_eq_concat (cons_ne_nil first rest) hOk
    have hPopped : popSlashes (c :: (front.reverse ++ ['/'])) = c :: (front.reverse ++ ['/']) :=
      popSlashes_of_ne hc _
    rw [hJoined]
    split
    · simp [popSlashes, hPopped]
    · simp [hPopped]

namespace Process

def isCapioPath (p : Process) (path : Path) : Bool := isPrefix p.capioDir path

def isCapioDir (p : Process) (path : Path) : Bool := decide (SamePath p.capioDir path)

def getDirPath (p : Process) : Option Fd → Path
  | none => p.currentDir
  | some fd => (p.capioFilesDescriptors fd).getD (p.link fd)

/-- The result is empty for a relative name that is neither on disk nor below `CAPIO_DIR`. -/
def capioPosixRealpath (p : Process) (pathname : Path) : Path :=
  match p.realpath pathname with
  | some path => path
  | none =>
    if isAbsolute pathname then capioNormalPath pathname
    else
      let path := capioNormalPath (append p.currentDir pathname)
      if p.isCapioPath path then path else []

def capioAbsolute (p : Process) (path : Path) : Path :=
  if isAbsolute path then capioNormalPath path else p.capioPosixRealpath path

/-- What follows the check for a forbidden name in most handlers.  They differ in what an unresolved
name and a descriptor of something else than a directory lead to, and in how a name relative to a
descriptor is joined; `none` as descriptor is `AT_FDCWD`. -/
def resolveAt (p : Process) (dirfd : Option Fd) (pathname : Path) (unresolved notDirectory : Target)
    (normal : Path → Path) (use : Path → Target) : Target :=
  if isAbsolute pathname then use pathname
  else match dirfd with
    | none =>
      let path := p.capioPosixRealpath pathname
      if path = [] then unresolved else use path
    | some fd =>
      if p.isDirectory fd = false then notDirectory
      else
        let dirPath := p.getDirPath (some fd)
        if dirPath = [] then .kernel else use (normal (append dirPath pathname))

def unlessForbidden (pathname : Path) (target : Target) : Target :=
  if isForbiddenPath pathname then .kernel else target

def capioKey (p : Process) (path : Path) : Target :=
  if p.isCapioPath path then .key path else .kernel

def capioOpenat (p : Process) (dirfd : Option Fd) (pathname : Path) : Target :=
  unlessForbidden pathname <|
    p.resolveAt dirfd pathname .kernel .kernel id fun path => p.capioKey (capioNormalPath path)

def capioMkdirat (p : Process) (dirfd : Option Fd) (pathname : Path) : Target :=
  unlessForbidden pathname <| p.resolveAt dirfd pathname .kernel .kernel lexicallyNormal p.capioKey

def capioRmdir (p : Process) (pathname : Path) : Target :=
  unlessForbidden pathname <| p.resolveAt none pathname .kernel .kernel lexicallyNormal p.capioKey

def capioUnlinkAbs (p : Process) (absPath : Path) : Target :=
  if p.isCapioPath absPath then
    if p.isCapioDir absPath then .exit else .key absPath
  else .kernel

def capioUnlinkat (p : Process) (dirfd : Option Fd) (pathname : Path) : Target :=
  unlessForbidden pathname <|
    p.resolveAt dirfd pathname .kernel .kernel lexicallyNormal p.capioUnlinkAbs

def renamePath (p : Process) (dir : Option Fd) (path : Path) : Path :=
  if isAbsolute path then path else p.capioAbsolute (append (p.getDirPath dir) path)

def renameat2 (p : Process) (oldDir : Option Fd) (oldPath : Path) (newDir : Option Fd)
    (newPath : Path) : Target :=
  let oldPathAbs := p.renamePath oldDir oldPath
  let newPathAbs := p.renamePath newDir newPath
  if isPrefix oldPathAbs newPathAbs then .failed (some .EINVAL)
  else if p.isCapioPath oldPathAbs then .keys oldPathAbs newPathAbs
  else if p.isCapioPath newPathAbs then .copied
  else .kernel

def capioLstat (p : Process) (pathname : Path) : Target :=
  unlessForbidden pathname (p.capioKey pathname)

def capioLstatWrapper (p : Process) (pathname : Path) : Target :=
  unlessForbidden pathname <|
    let path := p.capioPosixRealpath pathname
    if path = [] then .failed (some .ENOENT) else p.capioLstat path

def capioFstatat (p : Process) (dirfd : Option Fd) (pathname : Path) (emptyPath : Bool) : Target :=
  unlessForbidden pathname <|
    if pathname = [] ∧ emptyPath then
      match dirfd with
      | none => p.capioLstat p.currentDir
      | some fd => .descriptor fd
    else if isAbsolute pathname then p.capioLstat pathname
    else match dirfd with
      | none => p.capioLstatWrapper pathname
      | some fd =>
        if p.isDirectory fd = false then .failed (some .ENOTDIR)
        else
          let dirPath := p.getDirPath (some fd)
          if dirPath = [] then .kernel else p.capioLstat (lexicallyNormal (append dirPath pathname))

def capioStatx (p : Process) (dirfd : Option Fd) (pathname : Path) (emptyPath : Bool) : Target :=
  unlessForbidden pathname <|
    if pathname = [] ∧ emptyPath then
      -- not checked to be a path below CAPIO_DIR
      match dirfd with
      | none => .key p.currentDir
      | some fd =>
        match p.capioFilesDescriptors fd with
        | some path => .key path
        | none => .kernel
    else
      p.resolveAt dirfd pathname (.failed (some .ENOENT)) (.failed (some .ENOTDIR)) lexicallyNormal
        p.capioKey

def capioFaccessat (p : Process) (dirfd : Option Fd) (pathname : Path) : Target :=
  unlessForbidden pathname <|
    p.resolveAt dirfd pathname (.failed (some .ENONET)) .kernel lexicallyNormal p.capioKey

def chdir (p : Process) (pathname : Path) : Target :=
  unlessForbidden pathname <|
    p.resolveAt none pathname (.failed none) .kernel lexicallyNormal p.capioKey

end Process

/-! ## One path name at a time -/

inductive Handler
  | openat (dirfd : Option Fd)
  | mkdirat (dirfd : Option Fd)
  | rmdir
  | unlinkat (dirfd : Option Fd)
  | renameFrom (oldDir newDir : Option Fd) (newPath : Path)
  | renameTo (oldDir newDir : Option Fd) (oldPath : Path)
  | lstat
  | fstatat (dirfd : Option Fd) (emptyPath : Bool)
  | statx (dirfd : Option Fd) (emptyPath : Bool)
  | faccessat (dirfd : Option Fd)
  | chdir

def Target.first : Target → Option Path
  | .key path | .keys path _ => some path
  | _ => none

def Target.second : Target → Option Path
  | .keys _ path => some path
  | _ => none

def keyOf (p : Process) (h : Handler) (pathname : Path) : Option Path :=
  match h with
  | .openat dirfd => (p.capioOpenat dirfd pathname).first
  | .mkdirat dirfd => (p.capioMkdirat dirfd pathname).first
  | .rmdir => (p.capioRmdir pathname).first
  | .unlinkat dirfd => (p.capioUnlinkat dirfd pathname).first
  | .renameFrom oldDir newDir newPath => (p.renameat2 oldDir pathname newDir newPath).first
  | .renameTo oldDir newDir oldPath => (p.renameat2 oldDir oldPath newDir pathname).second
  | .lstat => (p.capioLstatWrapper pathname).first
  | .fstatat dirfd emptyPath => (p.capioFstatat dirfd pathname emptyPath).first
  | .statx dirfd emptyPath => (p.capioStatx dirfd pathname emptyPath).first
  | .faccessat dirfd => (p.capioFaccessat dirfd pathname).first
  | .chdir => (p.chdir pathname).first

def Handler.normalises : Handler → Bool
  | .openat _ | .lstat => true
  | _ => false

def takes (p : Process) (h : Handler) (s : Path) : Bool :=
  match h with
  | .openat _ => !isForbiddenPath s && p.isCapioPath (capioNormalPath s)
  | .lstat =>
    !isForbiddenPath s && (!isForbiddenPath (capioNormalPath s) && p.isCapioPath (capioNormalPath s))
  | .unlinkat _ => !isForbiddenPath s && (p.isCapioPath s && !p.isCapioDir s)
  | .renameFrom _ newDir newPath => !isPrefix s (p.renamePath newDir newPath) && p.isCapioPath s
  | .renameTo oldDir _ oldPath =>
    !isPrefix (p.renamePath oldDir oldPath) s && p.isCapioPath (p.renamePath oldDir oldPath)
  | .mkdirat _ | .rmdir | .fstatat .. | .statx .. | .faccessat _ | .chdir =>
    !isForbiddenPath s && p.isCapioPath s

section

variable {p : Process} {s : Path}

theorem resolveAt_of_absolute (hAbsolute : isAbsolute s = true) (dirfd : Option Fd)
    (unresolved notDirectory : Target) (normal : Path → Path) (use : Path → Target) :
    p.resolveAt dirfd s unresolved notDirectory normal use = use s :=
  if_pos hAbsolute

theorem first_unlessForbidden_capioKey (s q : Path) : (Process.unlessForbidden s (p.capioKey q)).first =
      if !isForbiddenPath s && p.isCapioPath q then some q else none := by
  unfold Process.unlessForbidden Process.capioKey
  cases isForbiddenPath s <;> cases p.isCapioPath q <;> rfl

section

variable (hAbsolute : isAbsolute s = true)
include hAbsolute

theorem first_resolveAt (dirfd : Option Fd)
    (unresolved notDirectory : Target) (normal : Path → Path) : (Process.unlessForbidden s
      (p.resolveAt dirfd s unresolved notDirectory normal p.capioKey)).first =
      if !isForbiddenPath s && p.isCapioPath s then some s else none := by
  rw [resolveAt_of_absolute hAbsolute]
  exact first_unlessForbidden_capioKey s s

theorem capioPosixRealpath_of_absolute
    (hDisk : p.realpath s = none) : p.capioPosixRealpath s = capioNormalPath s := by
  unfold Process.capioPosixRealpath
  rw [hDisk]
  exact if_pos hAbsolute

theorem capioNormalPath_ne_nil : capioNormalPath s ≠ [] := by
  rw [capioNormalPath_eq hAbsolute]
  exact cons_ne_nil _ _

theorem ne_nil_of_isAbsolute : s ≠ [] := by
  rintro rfl
  exact absurd hAbsolute (by decide)

theorem first_capioUnlinkat (dirfd : Option Fd) :
    (p.capioUnlinkat dirfd s).first = if takes p (.unlinkat dirfd) s then some s else none := by
  unfold Process.capioUnlinkat Process.unlessForbidden takes
  rw [resolveAt_of_absolute hAbsolute]
  unfold Process.capioUnlinkAbs
  cases isForbiddenPath s <;> cases p.isCapioPath s <;> cases p.isCapioDir s <;> rfl

theorem first_capioLstatWrapper (hDisk : p.realpath s = none) :
    (p.capioLstatWrapper s).first = if takes p .lstat s then some (capioNormalPath s) else none := by
  unfold Process.capioLstatWrapper
  rw [capioPosixRealpath_of_absolute hAbsolute hDisk]
  dsimp only
  rw [if_neg (capioNormalPath_ne_nil hAbsolute)]
  unfold Process.capioLstat
  cases hForbidden : isForbiddenPath s with
  | true => simp [Process.unlessForbidden, takes, hForbidden, Target.first]
  | false =>
    rw [Process.unlessForbidden, hForbidden, if_neg Bool.false_ne_true, first_unlessForbidden_capioKey]
    simp [takes, hForbidden]

theorem renamePath_of_absolute (dir : Option Fd) : p.renamePath dir s = s :=
  if_pos hAbsolute

end

theorem renameat2_eq (oldDir newDir : Option Fd) (oldPath newPath : Path) :
    ∃ other : Target, other.first = none ∧ other.second = none ∧
      p.renameat2 oldDir oldPath newDir newPath =
        if !isPrefix (p.renamePath oldDir oldPath) (p.renamePath newDir newPath) &&
            p.isCapioPath (p.renamePath oldDir oldPath)
          then .keys (p.renamePath oldDir oldPath) (p.renamePath newDir newPath) else other := by
  unfold Process.renameat2
  generalize p.renamePath oldDir oldPath = old, p.renamePath newDir newPath = new
  dsimp only
  split
  · next hInto =>
    rw [hInto]
    exact ⟨_, rfl, rfl, rfl⟩
  · next hInto =>
    rw [Bool.eq_false_of_not_eq_true hInto]
    cases p.isCapioPath old <;> cases p.isCapioPath new
    · exact ⟨.kernel, rfl, rfl, rfl⟩
    · exact ⟨.copied, rfl, rfl, rfl⟩
    · exact ⟨.kernel, rfl, rfl, rfl⟩
    · exact ⟨.copied, rfl, rfl, rfl⟩

theorem keyOf_eq (hAbsolute : isAbsolute s = true) (hDisk : p.realpath s = none) (h : Handler) :
    keyOf p h s = if takes p h s then some (if h.normalises then capioNormalPath s else s) else none := by
  have hSome {b : Bool} : ¬ (s = [] ∧ b = true) := fun hEmpty => ne_nil_of_isAbsolute hAbsolute hEmpty.1
  cases h with
  | openat dirfd =>
    change (p.capioOpenat dirfd s).first = _
    unfold Process.capioOpenat
    rw [resolveAt_of_absolute hAbsolute]
    exact first_unlessForbidden_capioKey s (capioNormalPath s)
  | mkdirat dirfd => exact first_resolveAt hAbsolute dirfd _ _ _
  | rmdir => exact first_resolveAt hAbsolute none _ _ _
  | unlinkat dirfd => exact first_capioUnlinkat hAbsolute dirfd
  | renameFrom oldDir newDir newPath =>
    obtain ⟨other, hFirst, -, hEq⟩ := renameat2_eq (p := p) oldDir newDir s newPath
    change (p.renameat2 oldDir s newDir newPath).first = _
    rw [hEq, apply_ite Target.first, hFirst, renamePath_of_absolute hAbsolute]
    rfl
  | renameTo oldDir newDir oldPath =>
    obtain ⟨other, -, hSecond, hEq⟩ := renameat2_eq (p := p) oldDir newDir oldPath s
    change (p.renameat2 oldDir oldPath newDir s).second = _
    rw [hEq, apply_ite Target.second, hSecond, renamePath_of_absolute hAbsolute]
    rfl
  | lstat => exact first_capioLstatWrapper hAbsolute hDisk
  | fstatat dirfd emptyPath =>
    change (p.capioFstatat dirfd s emptyPath).first =
      if !isForbiddenPath s && p.isCapioPath s then some s else none
    unfold Process.capioFstatat
    rw [if_neg hSome, if_pos hAbsolute]
    unfold Process.capioLstat Process.unlessForbidden Process.capioKey
    cases isForbiddenPath s <;> cases p.isCapioPath s <;> rfl
  | statx dirfd emptyPath =>
    change (p.capioStatx dirfd s emptyPath).first = _
    unfold Process.capioStatx
    rw [if_neg hSome]
    exact first_resolveAt hAbsolute dirfd _ _ _
  | faccessat dirfd => exact first_resolveAt hAbsolute dirfd _ _ _
  | chdir => exact first_resolveAt hAbsolute none _ _ _

end

/-- Two handlers use one key for two spellings of a path that is not on disk exactly when both or none of
them take the name they are given and, if they do, each brings it into normal form or is given the
normal form, or both use one spelling as it is. -/
theorem same_key_iff {p : Process} (h1 h2 : Handler) {s1 s2 : Path} (hAbsolute1 : isAbsolute s1 = true)
    (hAbsolute2 : isAbsolute s2 = true) (hDisk1 : p.realpath s1 = none) (hDisk2 : p.realpath s2 = none)
    (hNormal : normalNames s1 = normalNames s2) : keyOf p h1 s1 = keyOf p h2 s2 ↔
      takes p h1 s1 = takes p h2 s2 ∧ (takes p h1 s1 = true →
        (h1.normalises = true ∨ capioNormalPath s1 = s1) ∧
          (h2.normalises = true ∨ capioNormalPath s2 = s2) ∨
        h1.normalises = h2.normalises ∧ s1 = s2) := by
  have hForm : capioNormalPath s1 = capioNormalPath s2 := by
    rw [capioNormalPath_eq hAbsolute1, capioNormalPath_eq hAbsolute2, hNormal]
  rw [keyOf_eq hAbsolute1 hDisk1, keyOf_eq hAbsolute2 hDisk2, hForm]
  cases takes p h1 s1 <;> cases takes p h2 s2
  · simp
  · simp
  · simp
  · cases h1.normalises <;> cases h2.normalises
    · grind
    · grind
    · grind
    · simp

section

def fresh : Process where
  capioDir := "/d".toList
  currentDir := "/".toList
  realpath := fun _ => none
  isDirectory := fun _ => false
  capioFilesDescriptors := fun _ => none
  link := fun _ => []

/-- A directory made as `/d/x` is opened by any spelling. -/
theorem same_key_openat :
    keyOf fresh (.openat none) "/d/y/.././x/".toList = keyOf fresh (.mkdirat none) "/d/x".toList :=
  (same_key_iff (.openat none) (.mkdirat none) (by decide) (by decide) rfl rfl (by decide)).mpr
    ⟨by decide, fun _ => .inl ⟨.inl rfl, .inr (by decide)⟩⟩

open Server Lib.Outcome in
/-- The directory made as `/d/x/` is not the one opened by that name or made and removed as `/d/x`, and
the server ends when it looks for the parent of the string it is sent. -/
theorem mkdir_key_differs : normalNames "/d/x/".toList = normalNames "/d/x".toList ∧
      keyOf fresh (.mkdirat none) "/d/x/".toList ≠ keyOf fresh (.mkdirat none) "/d/x".toList ∧
      keyOf fresh (.mkdirat none) "/d/x/".toList ≠ keyOf fresh (.openat none) "/d/x/".toList ∧
      keyOf fresh .rmdir "/d/x/".toList ≠ keyOf fresh .rmdir "/d/x".toList ∧
      keyOf fresh (.mkdirat none) "/d/x/".toList = some "/d/x/".toList ∧
      failure (boot (.plain .onClose false 0) (fun _ => Os.plain 64) 0 (fun _ => []) >>= fun s =>
        (plainRequests 64 [.handshake 1 ['a'] false, .mkdir 1 "/d/x/".toList]).foldlM
          (Server.step (.plain .onClose false 0)) s) = some (.fileNotFound "/d/x".toList) := by
  decide +kernel

end

/-! ## Which paths lie below which -/

/-- `q` leads below `p` by a name that begins with two dots. -/
def BelowByDots (p q : List Name) : Prop := ∃ name rest, q = p ++ name :: rest ∧ dotDot <+: name

theorem isPrefix_iff (path1 path2 : Path) : isPrefix path1 path2 = true ↔
      lexicallyRelative path2 path1 ≠ [] ∧ ¬ dotDot <+: lexicallyRelative path2 path1 := by
  simp [isPrefix, ← isPrefixOf_iff_prefix]

theorem isPrefix_absolute_iff (hp : ∀ x ∈ p, Ordinary x) (hq : ∀ x ∈ q, Ordinary x) :
    isPrefix (absolute p) (absolute q) = true ↔ p <+: q ∧ ¬ BelowByDots p q := by
  obtain ⟨common, a, b, rfl, rfl, hHeads, hRelative⟩ := lexicallyRelative_absolute hp hq
  rw [isPrefix_iff, hRelative]
  cases b with
  | cons up others =>
    -- the relative path leads up first
    have hUp : dotDot <+: ['/'].intercalate (replicate (others.length + 1) dotDot ++ a) := by
      rw [replicate_succ, cons_append]
      cases replicate others.length dotDot ++ a with
      | nil => decide
      | cons next more => simp [intercalate_cons_cons]
    have hApart : ¬ common ++ up :: others <+: common ++ a := by
      rw [prefix_append_right_inj]
      rintro ⟨more, rfl⟩
      simp at hHeads
    simp [hUp, hApart]
  | nil =>
    cases a with
    | nil =>
      have hNot : ¬ BelowByDots (common ++ []) (common ++ []) := by
        rintro ⟨name, rest, hEq, -⟩
        simp at hEq
      exact iff_of_true (by decide) ⟨prefix_refl _, hNot⟩
    | cons first rest =>
      have hFirst : Ordinary first := hq first (by simp)
      have hBelow : BelowByDots (common ++ []) (common ++ first :: rest) ↔ dotDot <+: first := by
        constructor
        · rintro ⟨name, others, hEq, hDots⟩
          simp_all
        · intro hDots
          exact ⟨first, rest, by simp, hDots⟩
      have hText : ['/'].intercalate (first :: rest) ≠ [] := by
        cases rest <;> simp [intercalate, hFirst.1]
      grind [length_nil, dotDot_prefix_intercalate]

theorem renameat2_refused_iff (r : Process) (oldDir newDir : Option Fd) (p q : List Name) :
    r.renameat2 oldDir (absolute p) newDir (absolute q) = .failed (some .EINVAL) ↔
      isPrefix (absolute p) (absolute q) = true := by
  unfold Process.renameat2
  rw [renamePath_of_absolute rfl, renamePath_of_absolute rfl]
  grind

theorem decides_iff (h : a ↔ b ∧ ¬ d) (hb : d → b) : (a ↔ b) ↔ ¬ d := by
  tauto

/-- `is_prefix` decides whether the names of one path begin with those of another, unless the name that
leads below begins with two dots; so do the test for paths below `CAPIO_DIR` and the refusal of a
rename into the source. -/
theorem prefix_of_names_iff (hp : ∀ x ∈ p, Ordinary x) (hq : ∀ x ∈ q, Ordinary x) :
    ((isPrefix (absolute p) (absolute q) = true ↔ p <+: q) ↔ ¬ BelowByDots p q) ∧
      (∀ r : Process, r.capioDir = absolute p →
        ((r.isCapioPath (absolute q) = true ↔ p <+: q) ↔ ¬ BelowByDots p q)) ∧
      ∀ (r : Process) (oldDir newDir : Option Fd),
        ((r.renameat2 oldDir (absolute p) newDir (absolute q) = .failed (some .EINVAL) ↔ p <+: q) ↔
          ¬ BelowByDots p q) := by
  have hBelow : BelowByDots p q → p <+: q := by
    rintro ⟨name, rest, rfl, -⟩
    exact List.prefix_append p _
  have hDecides := decides_iff (isPrefix_absolute_iff hp hq) hBelow
  refine ⟨hDecides, fun r hDir => ?_, fun r oldDir newDir => ?_⟩
  · unfold Process.isCapioPath
    rw [hDir]
    exact hDecides
  · rw [renameat2_refused_iff]
    exact hDecides

theorem prefix_of_names_hidden :
    isPrefix (absolute ["d".toList]) (absolute ["d".toList, ".x".toList]) = true ↔
      ["d".toList] <+: ["d".toList, ".x".toList] :=
  (prefix_of_names_iff (by decide) (by decide)).1.mpr <| by
    rintro ⟨name, rest, hEq, hDots⟩
    obtain ⟨rfl, -⟩ : ".x".toList = name ∧ [] = rest := by simpa using hEq
    exact absurd hDots (by decide)

/-- The file `/d/..x` is not taken for one below `/d`, and `/d/a` may be renamed into itself. -/
theorem dotted_name_not_below : absolute ["d".toList, "..x".toList] = "/d/..x".toList ∧
      ["d".toList] <+: ["d".toList, "..x".toList] ∧
      isPrefix "/d".toList "/d/..x".toList = false ∧ fresh.isCapioPath "/d/..x".toList = false ∧
      fresh.renameat2 none "/d/a".toList none "/d/a/..x".toList =
        .keys "/d/a".toList "/d/a/..x".toList := by
  refine ⟨by decide, by decide, by decide, by decide, ?_⟩
  rfl

end Capio.Posix.Keys
