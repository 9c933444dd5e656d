import Capio.Server.Listing

/-! # Directories that commit when they are full

A directory counts its entries, and the entry that makes the count reach the expected one commits it if
the rule of that entry's path is `ON_N_FILES`.  The rule of the directory itself is asked for `.` only.
What the requests do to the counts is described on a book, which has for each stored path the fields of
its file that the commit depends on.
-/
namespace Capio.Server.DirectoryCommit

open Common Lib.Outcome Storage Function List Option
open Listing (fileAt fileAt_eq fileAt_of_free fileAt_of_object exists_of_fileAt)

variable {path : Path}

structure Tally where
  directory : Bool
  firstWrite : Bool
  nFiles : Nat
  nFilesExpected : Nat
  committed : Bool
  deriving DecidableEq

def tally (f : CapioFile) : Tally :=
  ⟨f.directory, f.firstWrite, f.nFiles, f.nFilesExpected, f.committed⟩

abbrev Book := Path → Option Tally

def book (sm : StorageManager) : Book := fun p => (fileAt sm p).map tally

def Tally.publish (t : Tally) : Tally := { t with firstWrite := false }

def Tally.enter (env : Env) (filePath : Path) (t : Tally) : Tally :=
  { t with
    nFiles := t.nFiles + 1
    committed := t.committed ||
      decide (t.nFiles + 1 = t.nFilesExpected ∧ env.engine.getCommitRule filePath = .onNFiles) }

def Tally.new (env : Env) (path : Path) (isDir : Bool) : Tally :=
  ⟨isDir, true, 0, env.engine.getDirectoryFileCount path + 2, false⟩

namespace Book

def publish (b : Book) (path : Path) : Book :=
  update b path ((b path).map Tally.publish)

def enter (env : Env) (b : Book) (filePath dir : Path) : Book :=
  update b dir ((b dir).map (Tally.enter env filePath))

def list (env : Env) (b : Book) (filePath : Path) : Book :=
  (b.publish (getParentDirPath filePath)).enter env filePath (getParentDirPath filePath)

def add (env : Env) (b : Book) (path : Path) (isDir : Bool) : Book :=
  if b path = none then update b path (some (.new env path isDir)) else b

def Publishes (env : Env) (b : Book) (path : Path) (first : Bool) (b' : Book) : Prop :=
  if first then b.publish path (getParentDirPath path) ≠ none ∧ b' = (b.publish path).list env path
  else b' = b

def addDirectory (env : Env) (b : Book) (path : Path) : Book :=
  let b := b.add env path true
  if (b path).any Tally.firstWrite then
    let b := b.publish path
    let b := if SamePath env.capioDir path then b else b.list env path
    (b.enter env path path).enter env (getParentDirPath path) path
  else b

end Book

/-! ## What the operations of the storage manager keep -/

structure Keeps (sm sm' : StorageManager) : Prop where
  storage : sm'.storage = sm.storage
  tallies : sm'.objects.map (Option.map tally) = sm.objects.map (Option.map tally)

section

variable {env : Env}

theorem Keeps.refl (sm : StorageManager) : Keeps sm sm := ⟨rfl, rfl⟩

theorem book_eq (sm : StorageManager) (p : Path) :
    book sm p = (sm.storage p).bind fun i => ((sm.objects.map (Option.map tally))[i]?).join := by
  unfold book
  cases hi : sm.storage p with
  | none => rw [fileAt_of_free hi, map_none, bind_none]
  | some i =>
    rw [fileAt_eq hi, bind_some, getElem?_map]
    grind

theorem Keeps.book (h : Keeps sm sm') : book sm' = book sm := by
  funext p
  rw [book_eq, book_eq, h.storage, h.tallies]

theorem Keeps.own (h : Keeps sm sm') (hOwn : Rename.OwnObjects sm) : Rename.OwnObjects sm' := by
  refine hOwn.restrict (fun _ _ hp => h.storage ▸ hp) ?_
  grind [length_map, h.tallies]

theorem keeps_setObject (hf : sm.objects[i]? = some (some f)) (hTally : tally f' = tally f) :
    Keeps sm (sm.setObject i f') := by
  obtain ⟨hLt, -⟩ := List.getElem?_eq_some_iff.mp hf
  refine ⟨rfl, ext_getElem? fun j => ?_⟩
  change ((sm.objects.set i (some f')).map _)[j]? = _
  grind

theorem keeps_modify (sm : StorageManager) (i : Nat) (hChange : ∀ f, tally (change f) = tally f) :
    Yields (sm.modify i change) (Keeps sm) := by
  refine (sm.modify_ends i change).mono ?_ fun _ _ => trivial
  rintro _ ⟨f, hf, rfl⟩
  exact keeps_setObject hf (hChange f)

theorem keeps_addNewFd (hPath : sm.storage p ≠ none) (tid : Tid) (fd : Fd) (offset : Int)
    (registerOpen : Bool) : Yields (sm.addNewFd tid fd p offset registerOpen) (Keeps sm) := by
  obtain ⟨i, hi⟩ := ne_none_iff_exists'.mp hPath
  unfold StorageManager.addNewFd
  rw [StorageManager.storageAt_of_stored hi]
  refine (keeps_modify sm i fun f => ?_).bind fun sm' h => ⟨h.storage, h.tallies⟩
  cases registerOpen with
  | true => rfl
  | false => rfl

theorem keeps_getPath (s : State) (tid : Tid) (fd : Fd) : Keeps s.sm (s.getPath tid fd).2.sm := by
  obtain ⟨-, hStorage, hObjects⟩ := Listing.getPath_frame s tid fd
  exact ⟨hStorage, by rw [hObjects]⟩

theorem keeps_setFileOffset (sm : StorageManager) (tid : Tid) (fd : Fd) (offset : Int) :
    Yields (sm.setFileOffset tid fd offset) (Keeps sm) := by
  unfold StorageManager.setFileOffset
  split
  · exact ⟨rfl, rfl⟩
  · trivial

theorem keeps_reply (s : State) (tid : Tid) (offset : Int) :
    Yields (s.reply tid offset) (fun s' => Keeps s.sm s'.sm) := by
  refine (s.reply_ends tid offset).mono ?_ fun _ _ => trivial
  rintro s' ⟨hsm, -⟩
  rw [hsm]
  exact .refl _

theorem keeps_locate (env : Env) (s : State) (path : Path) : Keeps s.sm (s.locate env path).2.sm := by
  unfold State.locate
  split <;> exact .refl _

theorem book_of_object (hi : sm.storage p = some i) (hf : sm.objects[i]? = some (some f)) :
    book sm p = some (tally f) := by
  unfold book
  rw [fileAt_of_object hi hf]
  rfl

theorem book_setObject (hOwn : Rename.OwnObjects sm) (hi : sm.storage p = some i)
    (hf : sm.objects[i]? = some (some f)) (f' : CapioFile) :
    book (sm.setObject i f') = update (book sm) p (some (tally f')) := by
  have hLt := (List.getElem?_eq_some_iff.mp hf).1
  funext q
  by_cases hq : q = p
  · subst hq
    rw [update_self]
    have hStored : (sm.setObject i f').storage q = some i := hi
    exact book_of_object hStored (List.getElem?_set_self hLt)
  · rw [update_of_ne hq, book_eq, book_eq]
    change (sm.storage q).bind _ = _
    cases hj : sm.storage q with
    | none => rfl
    | some j =>
      have hNe : i ≠ j := by
        rintro rfl
        exact hq (hOwn.inj q p i hj hi)
      change ((sm.objects.set i (some f')).map (Option.map tally))[j]?.join = _
      rw [List.map_set, List.getElem?_set_ne hNe]
      rfl

theorem book_storageAt (hOwn : Rename.OwnObjects sm) (hp : sm.storage p = none) (new : CapioFile) :
    book (sm.storageAt p new).2 = update (book sm) p (some (tally new)) := by
  unfold StorageManager.storageAt
  rw [hp]
  funext q
  by_cases hq : q = p
  · subst hq
    grind [update_self, book_of_object]
  · rw [update_of_ne hq, book_eq, book_eq]
    dsimp only
    rw [update_of_ne hq]
    cases hj : sm.storage q with
    | none => rfl
    | some j =>
      have hLt := hOwn.allocated q j hj
      dsimp only [Option.bind_some]
      rw [map_append, getElem?_append_left (by rwa [length_map])]

end

/-! ## What the handlers do to the book -/

section

variable {env : Env} {path filePath dir : Path}

structure Books (s : State) (b : Book) : Prop where
  own : Rename.OwnObjects s.sm
  alive : ∀ p, s.sm.storage p ≠ none → b p ≠ none
  eq : book s.sm = b

variable {b : Book}

theorem Books.keeps (h : Books s b) (hKeeps : Keeps s.sm s'.sm) : Books s' b :=
  ⟨hKeeps.own h.own, fun p hp => h.alive p (hKeeps.storage ▸ hp), hKeeps.book.trans h.eq⟩

section

variable (h : Books s b) (hi : s.sm.storage path = some i) (hf : s.sm.objects[i]? = some (some f))
include h hi hf

theorem Books.setObject (f' : CapioFile) (hsm : s'.sm = s.sm.setObject i f') :
    Books s' (update b path (some (tally f'))) := by
  refine ⟨hsm ▸ h.own.setObject i f', fun p hp => ?_, ?_⟩
  · rw [update_apply]
    split
    · exact some_ne_none _
    · rw [hsm] at hp
      exact h.alive p hp
  · rw [hsm, book_setObject h.own hi hf, h.eq]

theorem Books.tally
    : b path = some (tally f) :=
  h.eq ▸ book_of_object hi hf

end

theorem Books.free (h : Books s b) : s.sm.storage path = none ↔ b path = none := by
  constructor
  · intro hp
    rw [← h.eq]
    unfold book
    rw [fileAt_of_free hp]
    rfl
  · intro hp
    by_contra hStored
    exact h.alive path hStored hp

theorem tally_commit {g : CapioFile} {t : Tally} (hg : tally g = { t with nFiles := t.nFiles + 1 })
    (filePath : Path) :
    tally (if g.nFiles = g.nFilesExpected ∧ env.engine.getCommitRule filePath = .onNFiles
      then g.setCommitted else g) = t.enter env filePath := by
  have hFiles : g.nFiles = t.nFiles + 1 := congrArg Tally.nFiles hg
  have hExpected : g.nFilesExpected = t.nFilesExpected := congrArg Tally.nFilesExpected hg
  have hCommitted : tally { g with committed := true } =
      { t with nFiles := t.nFiles + 1, committed := true } :=
    congrArg (fun t : Tally => { t with committed := true }) hg
  unfold Tally.enter
  grind [CapioFile.setCommitted_eq]

section

variable (h : Books s b)
include h

theorem addDirectoryEntry_books (type : ManagerDirEntryType) :
    Yields (addDirectoryEntry env os s tid filePath dir type)
      (fun s' => b dir ≠ none ∧ Books s' (b.enter env filePath dir)) := by
  refine (s.sm.get_ends dir).weaken.bind fun i hi => ?_
  refine (s.sm.object_ends i).weaken.bind fun f hf => ?_
  refine (CapioFile.appendEntry_rebuffers _ _ f _ _).bind ?_
  rintro ⟨record, f'⟩ ⟨_, ⟨buffer, homeNode, rfl⟩, hf'⟩
  have hEntered : tally f' = { tally f with nFiles := (tally f).nFiles + 1 } := by
    rw [show f' = _ from hf']
    rfl
  have hTally := h.tally hi hf
  refine ⟨hTally ▸ some_ne_none _, ?_⟩
  grind [Book.enter, tally_commit, h.setObject]

theorem updateDirectory_books : Yields (updateDirectory env os s tid filePath)
      (fun s' => b (getParentDirPath filePath) ≠ none ∧ Books s' (b.list env filePath)) := by
  refine (s.sm.get_ends _).weaken.bind fun i hi => ?_
  refine (s.sm.object_ends i).weaken.bind fun f hf => ?_
  have hTally := h.tally hi hf
  have hPublished : Books
      (if f.firstWrite = true then
        { s with sm := s.sm.setObject i f.registerFirstWrite }.writeLocation env (getParentDirPath filePath)
      else s) (b.publish (getParentDirPath filePath)) := by
    unfold Book.publish
    rw [hTally]
    split
    · exact h.setObject hi hf f.registerFirstWrite rfl
    · next hFirst =>
      have hSame : (tally f).publish = tally f := by
        unfold Tally.publish tally
        rw [Bool.eq_false_iff.mpr hFirst]
      rwa [map_some, hSame, ← hTally, update_eq_self]
  refine (addDirectoryEntry_books hPublished .regularEntry).imp (fun s' hs' => ?_)
  exact ⟨hTally ▸ some_ne_none _, hs'.2⟩

theorem publish_books (hi : s.sm.storage path = some i) :
    Yields (publish env os s tid i path) (fun s' => b.publish path (getParentDirPath path) ≠ none ∧
      Books s' ((b.publish path).list env path)) := by
  refine (s.sm.modify_ends i _).weaken.bind ?_
  rintro _ ⟨f, hf, rfl⟩
  have hPublished : Books ({ s with sm := s.sm.setObject i f.registerFirstWrite }.writeLocation env path)
      (b.publish path) := by
    unfold Book.publish
    rw [h.tally hi hf]
    exact h.setObject hi hf f.registerFirstWrite rfl
  exact updateDirectory_books hPublished

theorem Books.add (env : Env) (path : Path) (isDir : Bool) (initSize : Nat) :
    Books { s with sm := (s.sm.add env path isDir initSize).2 } (b.add env path isDir) := by
  unfold Book.add StorageManager.add
  split
  · next hFree =>
    have hp := h.free.mpr hFree
    refine ⟨h.own.storageAt path _, fun q hq => ?_, ?_⟩
    · rw [update_apply]
      split
      · exact some_ne_none _
      · next hNe =>
        unfold StorageManager.storageAt at hq
        rw [hp] at hq
        grind [update_of_ne, h.alive]
    · rw [book_storageAt h.own hp, h.eq]
      rfl
  · next hStored =>
    obtain ⟨i, hi⟩ := ne_none_iff_exists'.mp fun hp => hStored (h.free.mp hp)
    rw [StorageManager.storageAt_of_stored hi]
    exact h

theorem updateFileMetadata_books (isCreat : Bool) (offset : Int) :
    Yields (updateFileMetadata env os s path tid fd isCreat offset) (fun s' => ∃ t b',
      b.add env path false path = some t ∧
      (b.add env path false).Publishes env path (t.firstWrite && isCreat) b' ∧ Books s' b') := by
  have hAt := s.sm.storage_add env path false env.fileInitialSize
  have h1 := h.add env path false env.fileInitialSize
  unfold Server.updateFileMetadata
  generalize s.sm.add env path false env.fileInitialSize = r at hAt h1 ⊢
  obtain ⟨i, sm⟩ := r
  refine (keeps_addNewFd (hAt ▸ some_ne_none i) tid fd offset true).bind fun sm1 hsm1 => ?_
  have hi : sm1.storage path = some i := hsm1.storage.symm ▸ hAt
  refine (sm1.object_ends i).weaken.bind fun f hf => ?_
  have h2 : Books { s with sm := sm1 } (b.add env path false) := h1.keeps hsm1
  have hTally := h2.tally hi hf
  have h3 : Books { s with sm := sm1, cm := s.cm.registerProducedFile tid path } (b.add env path false) :=
    h2.keeps (.refl _)
  refine .ite (fun hFirst => ?_) fun hNot => ⟨_, _, hTally, (if_neg hNot).mpr rfl, h2⟩
  refine (publish_books h3 hi).imp (fun s' hs' => ?_)
  exact ⟨_, _, hTally, (if_pos hFirst).mpr ⟨hs'.1, rfl⟩, hs'.2⟩

theorem addDirectory_books (hLocation : s.locations.table path = none) :
    Yields (addDirectory env os s tid path) (fun r => Books r.2 (b.addDirectory env path) ∧
      ((b.add env path true path).any Tally.firstWrite = true → ¬ SamePath env.capioDir path →
        (b.add env path true).publish path (getParentDirPath path) ≠ none)) := by
  have hAt := s.sm.storage_add env path true CAPIO_DEFAULT_DIR_INITIAL_SIZE
  have h1 := h.add env path true CAPIO_DEFAULT_DIR_INITIAL_SIZE
  unfold Server.addDirectory Book.addDirectory
  rw [hLocation]
  generalize s.sm.add env path true CAPIO_DEFAULT_DIR_INITIAL_SIZE = r at hAt h1 ⊢
  obtain ⟨i, sm⟩ := r
  dsimp only at hAt h1 ⊢
  refine (sm.object_ends i).weaken.bind fun f hf => ?_
  have hTally := h1.tally hAt hf
  rw [hTally]
  refine .ite (fun hFirst => ?_) fun hNot => ?_
  · rw [if_pos (show Option.any Tally.firstWrite (some (tally f)) = true from hFirst)]
    have hPublished : Books { s with sm := sm.setObject i f.registerFirstWrite }
        ((b.add env path true).publish path) := by
      unfold Book.publish
      rw [hTally]
      exact h1.setObject hAt hf f.registerFirstWrite rfl
    refine .bind (Q := fun s1 : State => Books s1
      (if SamePath env.capioDir path then (b.add env path true).publish path
        else ((b.add env path true).publish path).list env path) ∧ (¬ SamePath env.capioDir path →
        (b.add env path true).publish path (getParentDirPath path) ≠ none)) ?_ fun s1 hs1 => ?_
    · refine .ite (fun hRoot => ?_) fun hBelow => ?_
      · rw [if_pos hRoot]
        exact ⟨hPublished.keeps (.refl _), fun hBelow => absurd hRoot hBelow⟩
      · rw [if_neg hBelow]
        have hWritten : Books ({ s with sm := sm.setObject i f.registerFirstWrite }.writeLocation env path)
            ((b.add env path true).publish path) := hPublished.keeps (.refl _)
        exact (updateDirectory_books hWritten).imp (fun _ hs => ⟨hs.2, fun _ => hs.1⟩)
    · refine (addDirectoryEntry_books hs1.1 .dotEntry).bind fun s2 hs2 => ?_
      refine (addDirectoryEntry_books hs2.2 .dotDotEntry).bind fun s3 hs3 => ?_
      exact ⟨hs3.2, fun _ => hs1.2⟩
  · rw [if_neg (show ¬ Option.any Tally.firstWrite (some (tally f)) = true from hNot)]
    exact ⟨h1, fun hFirst => absurd hFirst hNot⟩

theorem writeHandler_books (data : List Byte) :
    Yields (writeHandler env os s tid fd data) (fun s' => ∃ t b', b (s.sm.getPath tid fd).1 = some t ∧
      b.Publishes env (s.sm.getPath tid fd).1 t.firstWrite b' ∧ Books s' b') := by
  have hPath := (Listing.getPath_frame s tid fd).1
  have h1 : Books (s.getPath tid fd).2 b := h.keeps (keeps_getPath s tid fd)
  refine .skip fun offset => ?_
  rw [← hPath]
  generalize s.getPath tid fd = r at h1 ⊢
  obtain ⟨path, s1⟩ := r
  refine (s1.sm.get_ends path).weaken.bind fun i hi => ?_
  refine .ite (fun _ => trivial) fun _ => .ite (fun _ => trivial) fun _ => ?_
  refine (s1.sm.object_ends i).weaken.bind fun f hf => ?_
  refine (CapioFile.writeData_rebuffers _ _ f _ data).bind ?_
  rintro f' ⟨_, ⟨buffer, homeNode, rfl⟩, hf'⟩
  have hTally : tally f' = tally f := by
    rw [hf']
    rfl
  have hFirst : f'.firstWrite = (tally f).firstWrite := congrArg Tally.firstWrite hTally
  have h2 : Books { s1 with cm := s1.cm.registerProducedFile tid path, sm := s1.sm.setObject i f' } b :=
    h1.keeps (keeps_setObject hf hTally)
  refine .bind (Q := fun s2 : State => ∃ b', b.Publishes env path (tally f).firstWrite b' ∧ Books s2 b')
    ?_ ?_
  · unfold Server.registerWrittenData
    rw [hFirst]
    refine .ite (fun hNew => ?_) fun hOld => ⟨b, (if_neg hOld).mpr rfl, h2⟩
    refine (publish_books h2 hi).imp (fun s2 hs2 => ?_)
    exact ⟨_, (if_pos hNew).mpr ⟨hs2.1, rfl⟩, hs2.2⟩
  · rintro s2 ⟨b', hPublishes, hs2⟩
    refine (keeps_setFileOffset s2.sm tid fd _).bind fun sm hsm => ?_
    exact ⟨_, b', h1.tally hi hf, hPublishes, hs2.keeps hsm⟩

end

end

/-! ## Directories and their entries -/

/-- A server, with the entries other than `.` and `..` that were added to each path. -/
structure World where
  server : State
  entries : Path → List Path

def unpublished (sm : StorageManager) (path : Path) : Bool :=
  ((book sm path).map Tally.firstWrite).getD true

def added (env : Env) (s : State) : Op → Option Path
  | .create _ _ path =>
    if env.engine.isExcluded path = false ∧ unpublished s.sm path = true ∧ (s.locate env path).1 = false
      then some path else none
  | .createExclusive _ _ path =>
    if env.engine.isExcluded path = false ∧ s.sm.storage path = none then some path else none
  | .mkdir _ path =>
    if s.locations.table path = none ∧ unpublished s.sm path = true ∧ ¬ SamePath env.capioDir path
      then some path else none
  | .write tid fd _ =>
    if unpublished s.sm (s.sm.getPath tid fd).1 = true then some (s.sm.getPath tid fd).1 else none
  | _ => none

def enroll (entries : Path → List Path) : Option Path → Path → List Path
  | none => entries
  | some path => update entries (getParentDirPath path)
    (entries (getParentDirPath path) ++ [path])

def step (env : Env) (w : World) (r : Request) : Except Failure World := do
  let server ← Server.step env w.server r
  pure ⟨server, enroll w.entries (added env w.server r.op)⟩

/-- The directories of `CAPIO_DIR` are made, filled and written; each has a directory above it. -/
def Allowed (r : Request) : Prop :=
  match r.op with
  | .handshake .. | .create .. | .createExclusive .. | .write .. => True
  | .mkdir _ path => getParentDirPath path ≠ path
  | _ => False

/-- The rule of the entry that fills a directory is `ON_N_FILES` exactly if that of the directory is. -/
def FillsByRule (env : Env) (w : World) (path : Path) : Prop :=
  Listing.isDirectory w.server.sm (getParentDirPath path) = true →
    (w.entries (getParentDirPath path)).length + 1 =
      env.engine.getDirectoryFileCount (getParentDirPath path) →
    (env.engine.getCommitRule path = .onNFiles ↔
      env.engine.getCommitRule (getParentDirPath path) = .onNFiles)

/-- A directory for which no files are expected is full with `..`, whose rule is that of the directory
above. -/
def StartsByRule (env : Env) (path : Path) : Prop :=
  env.engine.getDirectoryFileCount path = 0 →
    env.engine.getCommitRule (getParentDirPath path) = .onNFiles →
    env.engine.getCommitRule path = .onNFiles

def made : Op → Option Path
  | .mkdir _ path => some path
  | _ => none

def RulesAgree (env : Env) (w : World) (r : Request) : Prop :=
  (∀ path, added env w.server r.op = some path → FillsByRule env w path) ∧
    ∀ path, made r.op = some path → w.server.sm.storage path = none → StartsByRule env path

/-- A directory with the rule `ON_N_FILES` is committed exactly if it has the entries it expects, and one
with another rule is not committed. -/
def CommitsOwn (env : Env) (w : World) : Prop :=
  ∀ d f, fileAt w.server.sm d = some f → f.directory = true →
    (env.engine.getCommitRule d = .onNFiles → 1 ≤ env.engine.getDirectoryFileCount d →
      (f.committed = true ↔ env.engine.getDirectoryFileCount d ≤ (w.entries d).length)) ∧
    (env.engine.getCommitRule d ≠ .onNFiles → f.committed = false)

section

variable {env : Env} {b b' : Book} {d path filePath : Path} {t : Tally}

def Due (env : Env) (d : Path) (m : Nat) : Prop :=
  env.engine.getDirectoryFileCount d = 0 ∧ env.engine.getCommitRule (getParentDirPath d) = .onNFiles ∨
    1 ≤ env.engine.getDirectoryFileCount d ∧ env.engine.getDirectoryFileCount d ≤ m ∧
      env.engine.getCommitRule d = .onNFiles

structure Counted (env : Env) (d : Path) (t : Tally) (m : Nat) : Prop where
  published : t.firstWrite = false
  nFiles : t.nFiles = m + 2
  expected : t.nFilesExpected = env.engine.getDirectoryFileCount d + 2
  committed : t.committed = true ↔ Due env d m
  start : StartsByRule env d

structure Tallied (env : Env) (b : Book) (entries : Path → List Path) : Prop where
  absent : ∀ d, b d = none → entries d = []
  counted : ∀ d t, b d = some t → t.directory = true → Counted env d t (entries d).length

theorem Counted.publish (h : Counted env d t m) : Counted env d t.publish m :=
  ⟨rfl, h.nFiles, h.expected, h.committed, h.start⟩

theorem Counted.enter (h : Counted env d t m) (hFill : m + 1 = env.engine.getDirectoryFileCount d →
      (env.engine.getCommitRule filePath = .onNFiles ↔ env.engine.getCommitRule d = .onNFiles)) :
    Counted env d (t.enter env filePath) (m + 1) := by
  refine ⟨h.published, by rw [Tally.enter, h.nFiles], h.expected, ?_, h.start⟩
  unfold Tally.enter
  rw [Bool.or_eq_true, decide_eq_true_eq, h.committed, h.nFiles, h.expected]
  unfold Due
  constructor <;> grind

theorem Tallied.update (h : Tallied env b entries)
    (hCounted : t.directory = true → Counted env path t L.length) :
    Tallied env (update b path (some t)) (update entries path L) := by
  refine ⟨fun d hd => ?_, fun d t' hd hDir => ?_⟩
  · rw [update_apply] at hd ⊢
    grind [h.absent]
  · rw [update_apply] at hd ⊢
    grind [h.counted]

theorem Tallied.replace (h : Tallied env b entries)
    (hCounted : t.directory = true → Counted env path t (entries path).length) :
    Tallied env (Function.update b path (some t)) entries := by
  have hUpdate := h.update hCounted
  rwa [Function.update_eq_self] at hUpdate

theorem Tallied.publish (h : Tallied env b entries) (path : Path) : Tallied env (b.publish path) entries := by
  unfold Book.publish
  cases ht : b path with
  | none =>
    rw [map_none, ← ht, Function.update_eq_self]
    exact h
  | some t => exact h.replace fun hDir => (h.counted path t ht hDir).publish

theorem list_eq (ht : b (getParentDirPath path) = some t) : b.list env path =
    update b (getParentDirPath path) (some (t.publish.enter env path)) := by
  unfold Book.list Book.enter Book.publish
  rw [update_self, update_idem, ht]
  rfl

def Fills (env : Env) (b : Book) (entries : Path → List Path) (path : Path) : Prop :=
  ∀ t, b (getParentDirPath path) = some t → t.directory = true →
    (entries (getParentDirPath path)).length + 1 =
      env.engine.getDirectoryFileCount (getParentDirPath path) →
    (env.engine.getCommitRule path = .onNFiles ↔
      env.engine.getCommitRule (getParentDirPath path) = .onNFiles)

theorem Tallied.list (h : Tallied env b entries) (hAbove : b (getParentDirPath path) ≠ none)
    (hFill : Fills env b entries path) : Tallied env (b.list env path) (enroll entries (some path)) := by
  obtain ⟨t, ht⟩ := ne_none_iff_exists'.mp hAbove
  rw [list_eq ht]
  refine h.update fun hDir => ?_
  rw [length_append]
  exact (h.counted _ t ht hDir).publish.enter (hFill t ht hDir)

theorem Tallied.add (h : Tallied env b entries) (path : Path) : Tallied env (b.add env path false) entries := by
  unfold Book.add
  split
  · exact h.replace fun hDir => (by cases hDir)
  · exact h

theorem Tallied.publishes (h : Tallied env b entries) (first : Bool)
    (hFill : first = true → Fills env b entries path) (hPublishes : b.Publishes env path first b') :
    Tallied env b' (enroll entries (if first then some path else none)) := by
  unfold Book.Publishes at hPublishes
  split at hPublishes
  · next hNew =>
    obtain ⟨hAbove, rfl⟩ := hPublishes
    rw [if_pos hNew]
    refine (h.publish path).list hAbove fun t' ht' hDir => ?_
    unfold Book.publish at ht'
    rw [update_apply] at ht'
    split at ht'
    · grind
    · exact hFill hNew t' ht' hDir
  · next hOld =>
    rw [if_neg hOld, hPublishes]
    exact h

theorem Counted.new (h : StartsByRule env path) : Counted env path
    (((Tally.new env path true).publish.enter env path).enter env (getParentDirPath path)) 0 := by
  refine ⟨rfl, rfl, rfl, ?_, h⟩
  unfold Tally.enter Tally.publish Tally.new Due
  constructor <;> grind

theorem list_update (hNe : getParentDirPath path ≠ path) (x : Option Tally) :
    Book.list env (update b path x) path = update (b.list env path) path x := by
  unfold Book.list Book.enter Book.publish
  rw [update_of_ne hNe, update_self, update_self, update_idem, update_idem, update_comm hNe]

theorem publish_add (ht : b.add env path true path = some t) :
    (b.add env path true).publish path = update b path (some t.publish) := by
  grind [Book.publish, Book.add, update_idem]

theorem addDirectory_eq (hNe : ¬ SamePath env.capioDir path → getParentDirPath path ≠ path)
    (ht : b.add env path true path = some t) (hFirst : t.firstWrite = true) : b.addDirectory env path =
      update (if SamePath env.capioDir path then b else b.list env path) path
        (some ((t.publish.enter env path).enter env (getParentDirPath path))) := by
  have hAny : (b.add env path true path).any Tally.firstWrite = true := by
    rw [ht]
    exact hFirst
  unfold Book.addDirectory
  dsimp only
  have hListed : (if SamePath env.capioDir path then update b path (some t.publish)
      else Book.list env (update b path (some t.publish)) path) =
      update (if SamePath env.capioDir path then b else b.list env path) path
        (some t.publish) := by
    split
    · rfl
    · next hBelow => exact list_update (hNe hBelow) _
  rw [if_pos hAny, publish_add ht, hListed]
  unfold Book.enter
  rw [update_self, update_self, update_idem, update_idem]
  rfl

theorem add_cases (env : Env) (b : Book) (path : Path) (isDir : Bool) : ∃ t, b.add env path isDir path = some t ∧
    (b path = none ∧ t = .new env path isDir ∨ b path = some t) := by
  unfold Book.add
  cases ht : b path with
  | none => exact ⟨_, update_self .., .inl ⟨rfl, rfl⟩⟩
  | some t => exact ⟨t, ht, .inr rfl⟩

theorem Tallied.starts (h : Tallied env b entries)
    (hCases : b path = none ∧ t = .new env path true ∨ b path = some t) (hFirst : t.firstWrite = true)
    (hStart : b path = none → StartsByRule env path) (hDir : t.directory = true) :
    Counted env path ((t.publish.enter env path).enter env (getParentDirPath path))
      (entries path).length := by
  rcases hCases with ⟨hNone, rfl⟩ | hSome
  · rw [h.absent path hNone]
    exact .new (hStart hNone)
  · have hPublished := (h.counted path t hSome hDir).published
    rw [hFirst] at hPublished
    cases hPublished

theorem Tallied.addDirectory (h : Tallied env b entries)
    (hNe : ¬ SamePath env.capioDir path → getParentDirPath path ≠ path)
    (hStart : b path = none → StartsByRule env path)
    (hFill : ((b path).map Tally.firstWrite).getD true = true ∧ ¬ SamePath env.capioDir path →
      Fills env b entries path)
    (hAbove : (b.add env path true path).any Tally.firstWrite = true → ¬ SamePath env.capioDir path →
      (b.add env path true).publish path (getParentDirPath path) ≠ none) :
    Tallied env (b.addDirectory env path) (enroll entries
      (if ((b path).map Tally.firstWrite).getD true = true ∧ ¬ SamePath env.capioDir path
        then some path else none)) := by
  obtain ⟨t, ht, hCases⟩ := add_cases env b path true
  by_cases hFirst : t.firstWrite = true
  · have hNew : ((b path).map Tally.firstWrite).getD true = true := by
      grind
    rw [addDirectory_eq hNe ht hFirst]
    by_cases hRoot : SamePath env.capioDir path
    · rw [if_pos hRoot, if_neg fun hBoth => hBoth.2 hRoot]
      exact h.replace fun hDir => h.starts hCases hFirst hStart hDir
    · rw [if_neg hRoot, if_pos ⟨hNew, hRoot⟩]
      have hListed : b (getParentDirPath path) ≠ none := by
        have hAbove := hAbove (by rw [ht]; exact hFirst) hRoot
        rwa [publish_add ht, update_of_ne (hNe hRoot)] at hAbove
      have hSame : enroll entries (some path) path = entries path := update_of_ne (hNe hRoot).symm ..
      refine (h.list hListed (hFill ⟨hNew, hRoot⟩)).replace fun hDir => ?_
      rw [hSame]
      exact h.starts hCases hFirst hStart hDir
  · have hSome : b path = some t := by
      refine hCases.resolve_left ?_
      rintro ⟨-, rfl⟩
      exact hFirst rfl
    have hOld : b.addDirectory env path = b := by
      have hAdd : b.add env path true = b := if_neg (hSome ▸ some_ne_none t)
      grind [Book.addDirectory]
    rw [hOld, hSome, if_neg fun hBoth => hFirst hBoth.1]
    exact h

end

structure Inv (env : Env) (w : World) : Prop where
  own : Rename.OwnObjects w.server.sm
  alive : ∀ p, w.server.sm.storage p ≠ none → book w.server.sm p ≠ none
  tallied : Tallied env (book w.server.sm) w.entries

theorem Inv.books (h : Inv env w) : Books w.server (book w.server.sm) := ⟨h.own, h.alive, rfl⟩

theorem inv_of_books (h : Books s b) (hTallied : Tallied env b entries) : Inv env ⟨s, entries⟩ := by
  obtain ⟨hOwn, hAlive, rfl⟩ := h
  exact ⟨hOwn, hAlive, hTallied⟩

theorem step_ends (hServer : Yields (Server.step env w.server r)
    (fun s => Inv env ⟨s, enroll w.entries (added env w.server r.op)⟩)) : Yields (step env w r) (Inv env) :=
  hServer.bind fun _ hs => hs

theorem FillsByRule.fills (hFill : FillsByRule env w path) :
    Fills env (book w.server.sm) w.entries path := by
  intro t ht hDir
  refine hFill ?_
  obtain ⟨f, hf, rfl⟩ := map_eq_some_iff.mp ht
  unfold Listing.isDirectory
  rw [hf]
  exact hDir

theorem Inv.commitsOwn (h : Inv env w) : CommitsOwn env w := by
  intro d f hf hDir
  have ht : book w.server.sm d = some (tally f) := by
    unfold book
    rw [hf]
    rfl
  have hCounted := h.tallied.counted d _ ht hDir
  have hCommitted : f.committed = true ↔ Due env d (w.entries d).length := hCounted.committed
  constructor
  · intro hRule hOne
    rw [hCommitted]
    constructor
    · rintro (⟨hZero, -⟩ | ⟨-, hLe, -⟩)
      · omega
      · exact hLe
    · exact fun hLe => .inr ⟨hOne, hLe, hRule⟩
  · intro hRule
    rw [← Bool.not_eq_true, hCommitted]
    rintro (⟨hZero, hAbove⟩ | ⟨-, -, hOwn⟩)
    · exact hRule (hCounted.start hZero hAbove)
    · exact hRule hOwn

theorem Fills.add (h : Fills env b entries path) : Fills env (b.add env path false) entries path := by
  intro t ht hDir
  unfold Book.add at ht
  split at ht
  · rw [update_apply] at ht
    split at ht
    · obtain rfl := some.inj ht
      cases hDir
    · exact h t ht hDir
  · exact h t ht hDir

theorem Inv.reply (h : Inv env ⟨s, entries⟩) (tid : Tid) (value : Int) :
    Yields (s.reply tid value) (fun s' => Inv env ⟨s', entries⟩) :=
  (keeps_reply s tid value).mono
    (fun _ hKeeps => inv_of_books (h.books.keeps hKeeps) h.tallied) fun _ => id

theorem Inv.updateFileMetadata (h : Inv env ⟨s, entries⟩) (os : Nat → Os) (tid : Tid) (fd : Fd)
    (hFill : unpublished s.sm path = true → isCreat = true → Fills env (book s.sm) entries path) :
    Yields (updateFileMetadata env os s path tid fd isCreat 0) (fun s' => Inv env ⟨s', enroll entries
      (if unpublished s.sm path = true ∧ isCreat = true then some path else none)⟩) := by
  refine (updateFileMetadata_books h.books isCreat 0).imp ?_
  rintro s' ⟨t, b', ht, hPublishes, hBooks⟩
  have hFirst : unpublished s.sm path = t.firstWrite := by
    obtain ⟨t', ht', hCases⟩ := add_cases env (book s.sm) path false
    obtain rfl := some.inj (ht.symm.trans ht')
    unfold unpublished
    rcases hCases with ⟨hNone, rfl⟩ | hSome
    · rw [hNone]
      rfl
    · rw [hSome]
      rfl
  rw [hFirst] at hFill ⊢
  refine inv_of_books hBooks ?_
  have hTallied := (h.tallied.add path).publishes (t.firstWrite && isCreat)
    (fun hBoth => (hFill (Bool.and_eq_true_iff.mp hBoth).1 (Bool.and_eq_true_iff.mp hBoth).2).add) hPublishes
  simpa only [Bool.and_eq_true] using hTallied

section

variable (h : Inv env w) (os : Nat → Os)
include h

theorem Inv.create (hFill : ∀ p, added env w.server (.create tid fd path) = some p → FillsByRule env w p) :
    Yields (Server.step env w.server ⟨.create tid fd path, os⟩)
      (fun s => Inv env ⟨s, enroll w.entries (added env w.server (.create tid fd path))⟩) := by
  refine .ite (fun hExcluded => ?_) fun hNot => ?_
  · have hNone : added env w.server (.create tid fd path) = none := by
      refine if_neg fun hAll => ?_
      cases hExcluded.symm.trans hAll.1
    rw [hNone]
    exact h.reply tid _
  · have hIncluded : env.engine.isExcluded path = false := Bool.eq_false_iff.mpr hNot
    have hAdded : added env w.server (.create tid fd path) =
        if unpublished w.server.sm path = true ∧ (!(w.server.locate env path).1) = true
          then some path else none := by simp [added, hIncluded]
    rw [hAdded] at hFill ⊢
    have hKeeps := keeps_locate env w.server path
    have h1 : Inv env ⟨(w.server.locate env path).2, w.entries⟩ :=
      inv_of_books (h.books.keeps hKeeps) h.tallied
    have hSame : unpublished (w.server.locate env path).2.sm path = unpublished w.server.sm path := by
      unfold unpublished
      rw [hKeeps.book]
    unfold Server.handleCreate
    generalize w.server.locate env path = found at hFill hKeeps h1 hSame ⊢
    obtain ⟨found, s1⟩ := found
    rw [← hSame] at hFill ⊢
    refine (h1.updateFileMetadata os tid fd fun hNew hCreat => ?_).bind fun s2 h2 => h2.reply tid 0
    grind [hKeeps.book, FillsByRule.fills]

theorem Inv.createExclusive
    (hFill : ∀ p, added env w.server (.createExclusive tid fd path) = some p → FillsByRule env w p) :
    Yields (Server.step env w.server ⟨.createExclusive tid fd path, os⟩)
      (fun s => Inv env ⟨s, enroll w.entries (added env w.server (.createExclusive tid fd path))⟩) := by
  refine .ite (fun hExcluded => ?_) fun hNot => ?_
  · have hNone : added env w.server (.createExclusive tid fd path) = none := by
      refine if_neg fun hAll => ?_
      cases hExcluded.symm.trans hAll.1
    rw [hNone]
    exact h.reply tid _
  · unfold Server.handleCreateExclusive StorageManager.tryGet
    cases hStored : w.server.sm.storage path with
    | some i =>
      have hNone : added env w.server (.createExclusive tid fd path) = none := by
        refine if_neg fun hAll => ?_
        cases hStored.symm.trans hAll.2
      rw [hNone]
      exact h.reply tid 1
    | none =>
      have hSome : added env w.server (.createExclusive tid fd path) = some path :=
        if_pos ⟨Bool.eq_false_iff.mpr hNot, hStored⟩
      rw [hSome] at hFill ⊢
      refine (keeps_reply w.server tid 0).bind fun s1 hKeeps => ?_
      have h1 : Inv env ⟨s1, w.entries⟩ := inv_of_books (h.books.keeps hKeeps) h.tallied
      have hNew : unpublished s1.sm path = true := by
        unfold unpublished
        rw [hKeeps.book, h.books.free.mp hStored]
        rfl
      have hFills : Fills env (book s1.sm) w.entries path := by
        rw [hKeeps.book]
        exact FillsByRule.fills (hFill path rfl)
      grind [h1.updateFileMetadata]

theorem Inv.mkdir (hNe : getParentDirPath path ≠ path)
    (hFill : ∀ p, added env w.server (.mkdir tid path) = some p → FillsByRule env w p)
    (hStart : w.server.sm.storage path = none → StartsByRule env path) :
    Yields (Server.step env w.server ⟨.mkdir tid path, os⟩)
      (fun s => Inv env ⟨s, enroll w.entries (added env w.server (.mkdir tid path))⟩) := by
  change Ends (mkdirHandler env os w.server tid path) _ _
  unfold mkdirHandler
  cases hLocation : w.server.locations.table path with
  | some entry =>
    have hNone : added env w.server (.mkdir tid path) = none := by
      refine if_neg fun hAll => ?_
      cases hLocation.symm.trans hAll.1
    unfold Server.addDirectory
    rw [hLocation, hNone]
    exact h.reply tid 1
  | none =>
    have hAdded : added env w.server (.mkdir tid path) =
        if unpublished w.server.sm path = true ∧ ¬ SamePath env.capioDir path
          then some path else none := by
      unfold added
      simp only [hLocation, true_and]
    rw [hAdded] at hFill ⊢
    refine (addDirectory_books h.books hLocation).bind fun r hr => ?_
    refine Inv.reply (inv_of_books hr.1 ?_) tid r.1
    exact h.tallied.addDirectory (fun _ => hNe) (fun hNone => hStart (h.books.free.mpr hNone))
      (fun hNew => FillsByRule.fills (hFill path (if_pos hNew))) hr.2

theorem Inv.write (hFill : ∀ p, added env w.server (.write tid fd data) = some p → FillsByRule env w p) :
    Yields (Server.step env w.server ⟨.write tid fd data, os⟩)
      (fun s => Inv env ⟨s, enroll w.entries (added env w.server (.write tid fd data))⟩) := by
  refine (writeHandler_books h.books data).imp ?_
  rintro s' ⟨t, b', ht, hPublishes, hBooks⟩
  have hFirst : unpublished w.server.sm (w.server.sm.getPath tid fd).1 = t.firstWrite := by
    unfold unpublished
    rw [ht]
    rfl
  have hAdded : added env w.server (.write tid fd data) =
      if t.firstWrite = true then some (w.server.sm.getPath tid fd).1 else none := by
    rw [← hFirst]
    rfl
  rw [hAdded] at hFill ⊢
  exact inv_of_books hBooks (h.tallied.publishes t.firstWrite
    (fun hNew => FillsByRule.fills (hFill _ (if_pos hNew))) hPublishes)

end

theorem Inv.step (h : Inv env w) (hAllowed : Allowed r) (hAgree : RulesAgree env w r) :
    Yields (step env w r) (Inv env) := by
  refine step_ends ?_
  obtain ⟨op, os⟩ := r
  obtain ⟨hFill, hStart⟩ := hAgree
  cases op with
  | handshake tid appName wait =>
    have hKeeps : Keeps w.server.sm (handshakeHandler w.server tid appName wait).sm := by
      cases wait with
      | true => exact .refl _
      | false => exact .refl _
    exact inv_of_books (h.books.keeps hKeeps) h.tallied
  | create tid fd path => exact h.create os hFill
  | createExclusive tid fd path => exact h.createExclusive os hFill
  | mkdir tid path => exact h.mkdir os hAllowed hFill (hStart path rfl)
  | write tid fd data => exact h.write os hFill
  | _ => exact hAllowed.elim

theorem boot_inv (env : Env) (os : Nat → Os) (serverPid : Tid) (files : Node → List Char)
    (hStart : StartsByRule env env.capioDir) :
    Yields (boot env os serverPid files) (fun s => Inv env ⟨s, fun _ => []⟩) := by
  have h0 : Books { locations := ⟨files, fun _ => none⟩ } fun _ => none := by
    refine ⟨⟨?_, ?_⟩, fun p hp => absurd rfl hp, rfl⟩
    · intro p q i hp
      cases hp
    · intro p i hp
      cases hp
  have hTallied : Tallied env (fun _ => none) fun _ => [] := by
    refine ⟨fun _ _ => rfl, fun d t ht => ?_⟩
    cases ht
  refine (addDirectory_books h0 rfl).bind fun r hr => inv_of_books hr.1 ?_
  have hRoot : SamePath env.capioDir env.capioDir := .refl _
  have hAdded := hTallied.addDirectory (fun hNot => absurd hRoot hNot) (fun _ => hStart)
    (fun hNew => absurd hRoot hNew.2) hr.2
  rwa [if_neg fun hNew => hNew.2 hRoot] at hAdded

instance (env : Env) (w : World) (path : Path) : Decidable (FillsByRule env w path) :=
  inferInstanceAs (Decidable (_ → _ → (_ ↔ _)))

instance (env : Env) (path : Path) : Decidable (StartsByRule env path) :=
  inferInstanceAs (Decidable (_ → _ → _))

instance (env : Env) (w : World) (r : Request) : Decidable (RulesAgree env w r) :=
  inferInstanceAs (Decidable ((∀ path ∈ added env w.server r.op, FillsByRule env w path) ∧
    ∀ path ∈ made r.op, w.server.sm.storage path = none → StartsByRule env path))

instance : DecidablePred Allowed
  | ⟨op, os⟩ => by
    apply Op.casesOn (motive := fun op => Decidable (Allowed ⟨op, os⟩)) op <;> intros <;>
      dsimp only [Allowed] <;> infer_instance

def expecting (counted : List Path) : Env :=
  let env := Env.plain .onClose true 0
  { env with engine := { env.engine with
      getCommitRule := fun path => if path ∈ counted then .onNFiles else .onClose
      getDirectoryFileCount := fun path =>
        if path = "/d/x".toList then 2 else if path = "/d/y".toList then 1 else 0 } }

def filled : List Request :=
  plainRequests 64 [.handshake 1 ['a'] false, .mkdir 1 "/d/x".toList, .create 1 3 "/d/x/a".toList,
    .write 1 3 [7], .createExclusive 1 4 "/d/x/b".toList, .mkdir 1 "/d/y".toList,
    .mkdir 1 "/d/y/c".toList]

def start (env : Env) : Except Failure State := boot env (fun _ => Os.plain 64) 0 fun _ => []

def committedAt (w : World) (path : Path) : Option Bool :=
  (fileAt w.server.sm path).map CapioFile.committed

def agreeing : Env := expecting ["/d/x".toList, "/d/x/b".toList]

def disagreeing : Env := expecting ["/d/x".toList, "/d/y/c".toList]

end Capio.Server.DirectoryCommit
