import Capio.Server.LocationTable
import Capio.Storage.Dirents

/-! # The entries of a directory

A path that is published gets a record in the directory above it.  As long as nothing is removed or
renamed, a directory holds `.`, `..` and one record for each path that is stored below it.  The type in a
record is that of the directory it is written to, so it is right for directories only.
-/
namespace Capio.Server.Listing

open Common Lib.Outcome Storage Storage.Dirents LocationTable Function List Option

variable {env : Env} {sm sm1 : StorageManager} {f : CapioFile}

def fileAt (sm : StorageManager) (p : Path) : Option CapioFile := do
  let i ← sm.storage p
  sm.objects[i]?.join

def isDirectory (sm : StorageManager) (p : Path) : Bool := (fileAt sm p).any CapioFile.directory

def Child (sm : StorageManager) (d p : Path) : Prop :=
  sm.storage p ≠ none ∧ p ≠ d ∧ getParentDirPath p = d

def entries (type : Path → Byte) (C : List Path) : List Dirent :=
  ⟨nameBytes ['.'], DT_DIR⟩ :: ⟨nameBytes ['.', '.'], DT_DIR⟩ ::
    C.map fun p => ⟨nameBytes (filename p), type p⟩

/-- The records of the directory are `.`, `..` and one for each path below it, with its name and its
type. -/
def Lists (sm : StorageManager) (d : Path) (f : CapioFile) : Prop :=
  ∃ (C : List Path) (type : Path → Byte), C.Nodup ∧ (∀ p, p ∈ C ↔ Child sm d p) ∧
    (∀ p ∈ C, type p = DT_DIR ↔ isDirectory sm p = true) ∧ (dirents f).Perm (entries type C)

/-- A path below `CAPIO_DIR` in its plain spelling, with a name that fits into a record. -/
structure Entry (env : Env) (p : Path) : Prop where
  key : Key env p
  plain : collapse p = p
  rooted : p.head? = some '/'
  notRoot : p ≠ ['/']
  below : env.capioDir.length < p.length
  name : Fits (nameBytes (filename p))

theorem length_getParentDirPath_le (p : Path) : (getParentDirPath p).length ≤ p.length := by
  unfold getParentDirPath
  split
  · exact Nat.le_refl _
  · rw [length_reverse, length_drop]
    grind [dropWhile_sublist]

theorem Entry.length_parent_lt (h : Entry env p) : (getParentDirPath p).length < p.length := by
  have hSlash : '/' ∈ p := mem_of_head? h.rooted
  have hRoot : ¬ SamePath p ['/'] := by
    intro hSame
    unfold SamePath at hSame
    rw [h.plain] at hSame
    exact h.notRoot hSame
  unfold getParentDirPath
  grind [dropWhile_sublist]

theorem Entry.parent_ne (h : Entry env p) : getParentDirPath p ≠ p := by
  intro hEq
  have hLt := h.length_parent_lt
  rw [hEq] at hLt
  exact Nat.lt_irrefl _ hLt

/-! ## The tree of stored paths -/

structure Tree (env : Env) (sm : StorageManager) : Prop where
  own : Rename.OwnObjects sm
  published : ∀ p f, fileAt sm p = some f → f.firstWrite = false
  keys : ∀ p, sm.storage p ≠ none → p = env.capioDir ∨ Entry env p
  parents : ∀ p, sm.storage p ≠ none → p ≠ env.capioDir → sm.storage (getParentDirPath p) ≠ none
  listed : ∀ d f, fileAt sm d = some f → f.directory = true → ∃ (C : List Path) (L : List (List Byte)),
    C.Nodup ∧ (∀ p, p ∈ C ↔ Child sm d p) ∧ Contains f L ∧ L.map decode = entries (fun _ => DT_DIR) C

theorem Tree.lists_iff (h : Tree env sm) (hf : fileAt sm d = some f) (hDir : f.directory = true) :
    Lists sm d f ↔ ∀ p, Child sm d p → isDirectory sm p = true := by
  obtain ⟨C, L, hNodup, hChildren, hContains, hEntries⟩ := h.listed d f hf hDir
  have hRecords : dirents f = entries (fun _ => DT_DIR) C := hContains.dirents.trans hEntries
  constructor
  · rintro ⟨C', type, -, hChildren', hTypes, hPerm⟩ p hp
    have hMem := (hChildren' p).mpr hp
    have hRecord : (⟨nameBytes (filename p), type p⟩ : Dirent) ∈ entries (fun _ => DT_DIR) C := by
      rw [← hRecords]
      refine hPerm.mem_iff.mpr (mem_cons_of_mem _ (mem_cons_of_mem _ ?_))
      exact mem_map.mpr ⟨p, hMem, rfl⟩
    refine (hTypes p hMem).mp ?_
    -- every record that the server writes has the type of a directory
    obtain hEq | hRecord := mem_cons.mp hRecord
    · exact congrArg Dirent.type hEq
    · grind
  · intro hDirs
    refine ⟨C, fun _ => DT_DIR, hNodup, hChildren, fun p hp => ?_, hRecords ▸ Perm.refl _⟩
    exact iff_of_true rfl (hDirs p ((hChildren p).mp hp))

structure Alike (f f' : CapioFile) : Prop where
  directory : f'.directory = f.directory
  firstWrite : f'.firstWrite = f.firstWrite
  content : f.directory = true → f'.buffer = f.buffer ∧ f'.sectors = f.sectors

section

variable {env : Env} {sm sm' : StorageManager} {p q d : Path} {i j : Nat} {f f' g g' : CapioFile}

theorem fileAt_eq (hi : sm.storage p = some i) : fileAt sm p = sm.objects[i]?.join := by
  unfold fileAt
  rw [hi]
  rfl

theorem fileAt_of_free (hp : sm.storage p = none) : fileAt sm p = none := by
  unfold fileAt
  rw [hp]
  rfl

theorem exists_of_fileAt (h : fileAt sm p = some f) :
    ∃ i, sm.storage p = some i ∧ sm.objects[i]? = some (some f) := by
  cases hi : sm.storage p with
  | none =>
    rw [fileAt_of_free hi] at h
    cases h
  | some i =>
    rw [fileAt_eq hi] at h
    exact ⟨i, rfl, join_eq_some_iff.mp h⟩

theorem fileAt_of_object (hi : sm.storage p = some i) (hf : sm.objects[i]? = some (some f)) :
    fileAt sm p = some f := by
  rw [fileAt_eq hi, hf]
  rfl

theorem Tree.congr (h : Tree env sm) (hStorage : sm'.storage = sm.storage)
    (hLength : sm'.objects.length = sm.objects.length)
    (hFiles : ∀ p f', fileAt sm' p = some f' → ∃ f, fileAt sm p = some f ∧ Alike f f') : Tree env sm' := by
  have hChild : ∀ d p, Child sm' d p ↔ Child sm d p := by
    intro d p
    unfold Child
    rw [hStorage]
  refine ⟨h.own.restrict (fun _ _ hp => hStorage ▸ hp) hLength, fun p f' hf' => ?_, ?_, ?_,
    fun d f' hf' hDir => ?_⟩
  · obtain ⟨f, hf, hAlike⟩ := hFiles p f' hf'
    exact hAlike.firstWrite.trans (h.published p f hf)
  · rw [hStorage]
    exact h.keys
  · rw [hStorage]
    exact h.parents
  · obtain ⟨f, hf, hAlike⟩ := hFiles d f' hf'
    have hDir' : f.directory = true := hAlike.directory.symm.trans hDir
    obtain ⟨C, L, hNodup, hChildren, hContains, hEntries⟩ := h.listed d f hf hDir'
    grind [hAlike.content, hContains.congr]

theorem Alike.refl (f : CapioFile) : Alike f f := ⟨rfl, rfl, fun _ => ⟨rfl, rfl⟩⟩

theorem Tree.setObject (h : Tree env sm) (hf : sm.objects[i]? = some (some f)) (hAlike : Alike f f') :
    Tree env (sm.setObject i f') := by
  refine h.congr rfl length_set fun p g hg => ?_
  obtain ⟨j, hj, hObject⟩ := exists_of_fileAt hg
  obtain ⟨rfl, rfl⟩ | ⟨-, hObject⟩ := StorageManager.getElem?_setObject hObject
  · exact ⟨f, fileAt_of_object hj hf, hAlike⟩
  · exact ⟨g, fileAt_of_object hj hObject, .refl g⟩

theorem Tree.frame (h : Tree env sm) (hStorage : sm'.storage = sm.storage) (hObjects : sm'.objects = sm.objects) :
    Tree env sm' := by
  refine h.congr hStorage (congrArg length hObjects) fun p f hf => ⟨f, ?_, .refl f⟩
  unfold fileAt at hf ⊢
  rwa [hStorage, hObjects] at hf

structure Appended (f f' : CapioFile) (name : Path) : Prop where
  directory : f'.directory = f.directory
  firstWrite : f'.firstWrite = f.firstWrite
  record : Fits (nameBytes name) → f.directory = true → ∀ L, Contains f L →
    ∃ r, Contains f' (L ++ [r]) ∧ decode r = ⟨nameBytes name, DT_DIR⟩

structure Placed (sm sm' : StorageManager) (p : Path) (g : CapioFile) (j : Nat) (f' : CapioFile) : Prop where
  storage : sm'.storage = update sm.storage p (some sm.objects.length)
  length : sm'.objects.length = sm.objects.length + 1
  new : sm'.objects[sm.objects.length]? = some (some g)
  above : sm'.objects[j]? = some (some f')
  others : ∀ k < sm.objects.length, k ≠ j → sm'.objects[k]? = sm.objects[k]?

theorem Placed.setNew (h : Placed sm sm' p g j f') (hj : j < sm.objects.length) (g' : CapioFile) :
    Placed sm (sm'.setObject sm.objects.length g') p g' j f' where
  storage := h.storage
  length := length_set.trans h.length
  new := getElem?_set_self (by rw [h.length]; exact Nat.lt_succ_self _)
  above := (getElem?_set_ne (Nat.ne_of_gt hj)).trans h.above
  others k hk hkj := (getElem?_set_ne (Nat.ne_of_gt hk)).trans (h.others k hk hkj)

theorem Placed.setAbove (h : Placed sm sm' p g j f) (hj : j < sm.objects.length) (f' : CapioFile) :
    Placed sm (sm'.setObject j f') p g j f' where
  storage := h.storage
  length := length_set.trans h.length
  new := (getElem?_set_ne (Nat.ne_of_lt hj)).trans h.new
  above := getElem?_set_self (by rw [h.length]; exact Nat.lt_succ_of_lt hj)
  others k hk hkj := (getElem?_set_ne hkj.symm).trans (h.others k hk hkj)

theorem Tree.children_of_free (h : Tree env sm) (hEntry : Entry env p) (hFree : sm.storage p = none)
    (q : Path) : ¬ Child sm p q := by
  rintro ⟨hStored, -, hParent⟩
  by_cases hRoot : q = env.capioDir
  · have hLe := length_getParentDirPath_le q
    grind [hEntry.below]
  · have hAbove := h.parents q hStored hRoot
    rw [hParent] at hAbove
    exact hAbove hFree

section

variable (h : Placed sm sm' p g j f')
include h

theorem Placed.storage_of_ne (hq : q ≠ p) : sm'.storage q = sm.storage q := by
  rw [h.storage, update_of_ne hq]

theorem Placed.stored_iff (q : Path) : sm'.storage q ≠ none ↔ q = p ∨ sm.storage q ≠ none := by
  by_cases hq : q = p
  · simp [hq, h.storage]
  · rw [h.storage_of_ne hq, or_iff_right hq]

theorem Placed.own (hOwn : Rename.OwnObjects sm) (hFree : sm.storage p = none) : Rename.OwnObjects sm' := by
  have hAt := hOwn.storageAt p {}
  unfold StorageManager.storageAt at hAt
  rw [hFree] at hAt
  refine hAt.restrict (fun q k hq => h.storage ▸ hq) ?_
  rw [h.length, length_append, length_singleton]

theorem Placed.fileAt_cases (hOwn : Rename.OwnObjects sm) (hj : sm.storage d = some j)
    (hc : fileAt sm' q = some c) :
    q = p ∧ c = g ∨ q ≠ p ∧ q = d ∧ c = f' ∨ q ≠ p ∧ q ≠ d ∧ fileAt sm q = some c := by
  obtain ⟨k, hk, hObject⟩ := exists_of_fileAt hc
  by_cases hq : q = p
  · rw [hq, h.storage, update_self] at hk
    grind [some.inj, h.new]
  · rw [h.storage_of_ne hq] at hk
    grind [some.inj, h.above, hOwn.inj, h.others, hOwn.allocated, fileAt_of_object]

theorem Placed.child_iff (hParent : getParentDirPath p ≠ p) (d q : Path) :
    Child sm' d q ↔ Child sm d q ∨ q = p ∧ getParentDirPath p = d := by
  unfold Child
  rw [h.stored_iff]
  constructor <;> grind

end

theorem Tree.insert (h : Tree env sm) (hEntry : Entry env p) (hFree : sm.storage p = none)
    (hj : sm.storage (getParentDirPath p) = some j) (hf : sm.objects[j]? = some (some f))
    (hPlaced : Placed sm sm' p g j f') (hAppended : Appended f f' (filename p))
    (hPublished : g.firstWrite = false)
    (hNew : g.directory = true → ∃ L, Contains g L ∧ L.map decode = entries (fun _ => DT_DIR) []) :
    Tree env sm' := by
  have hAbove : fileAt sm (getParentDirPath p) = some f := fileAt_of_object hj hf
  have hChild := hPlaced.child_iff hEntry.parent_ne
  refine ⟨hPlaced.own h.own hFree, fun q c hc => ?_, fun q hq => ?_, fun q hq hRoot => ?_,
    fun d c hc hDir => ?_⟩
  · obtain ⟨-, rfl⟩ | ⟨-, -, rfl⟩ | ⟨-, -, hc⟩ := hPlaced.fileAt_cases h.own hj hc
    · exact hPublished
    · exact hAppended.firstWrite.trans (h.published _ f hAbove)
    · exact h.published q c hc
  · obtain rfl | hq := (hPlaced.stored_iff q).mp hq
    · exact .inr hEntry
    · exact h.keys q hq
  · rw [hPlaced.stored_iff]
    grind [hPlaced.stored_iff, h.parents]
  · obtain ⟨rfl, rfl⟩ | ⟨-, rfl, rfl⟩ | ⟨-, hNe, hc⟩ := hPlaced.fileAt_cases h.own hj hc
    · obtain ⟨L, hContains, hEntries⟩ := hNew hDir
      grind [nodup_nil, h.children_of_free, hEntry.parent_ne]
    · have hDir' : f.directory = true := hAppended.directory.symm.trans hDir
      obtain ⟨C, L, hNodup, hChildren, hContains, hEntries⟩ := h.listed _ f hAbove hDir'
      obtain ⟨r, hContains', hRecord⟩ := hAppended.record hEntry.name hDir' L hContains
      have hNotMem : p ∉ C := fun hp => ((hChildren p).mp hp).1 hFree
      refine ⟨C ++ [p], L ++ [r], ?_, fun q => ?_, hContains', ?_⟩
      · grind
      · rw [mem_append, mem_singleton, hChildren, hChild, and_iff_left rfl]
      · rw [map_append, hEntries]
        simp [entries, hRecord]
    · obtain ⟨C, L, hNodup, hChildren, hContains, hEntries⟩ := h.listed d c hc hDir
      grind

end

/-! ## The handlers -/

section

variable {env : Env} {os : Nat → Os} {s s1 : State} {p : Path} {g : CapioFile}

theorem addDirectoryEntry_appends (s : State) (tid : Tid) (filePath dir : Path) (type : ManagerDirEntryType) :
    Yields (addDirectoryEntry env os s tid filePath dir type) (fun s' => ∃ i f f',
      s.sm.storage dir = some i ∧ s.sm.objects[i]? = some (some f) ∧ s'.sm = s.sm.setObject i f' ∧
        Appended f f' (type.name filePath)) := by
  refine (s.sm.get_ends dir).weaken.bind fun i hi => ?_
  refine (s.sm.object_ends i).weaken.bind fun f hf => ?_
  have hRecords := Ends.forall fun L => .forall fun hContains : Contains f L =>
    hContains.append (os 0) (os 1) (env.hash filePath) (nameBytes (type.name filePath))
  refine ((CapioFile.appendEntry_rebuffers _ _ f _ _).and hRecords).bind ?_
  rintro ⟨record, f1⟩ ⟨⟨_, ⟨buffer, homeNode, rfl⟩, hf1⟩, hRecords⟩
  obtain ⟨f2, hf2, hCommitted⟩ : ∃ f2 : CapioFile, f2 = { f1 with committed := f2.committed } ∧
      (if f1.nFiles = f1.nFilesExpected ∧ env.engine.getCommitRule filePath = .onNFiles
        then f1.setCommitted else f1) = f2 := by
    refine ⟨_, ?_, rfl⟩
    split
    · rw [CapioFile.setCommitted_eq]
    · rfl
  dsimp only at hf1 hRecords ⊢
  rw [hCommitted]
  refine ⟨i, f, f2, hi, hf, rfl, ⟨?_, ?_, fun hFits hDir L hContains => ?_⟩⟩
  · rw [hf2, hf1]
    rfl
  · rw [hf2, hf1]
    rfl
  · obtain ⟨hAfter, off, rfl⟩ := hRecords L hContains
    refine ⟨_, hAfter.congr (by rw [hf2]) (by rw [hf2]), ?_⟩
    rw [decode_linuxDirent64 _ _ _ _ hFits, if_pos hDir]

structure Inserted (sm sm1 : StorageManager) (p : Path) (g : CapioFile) : Prop where
  storage : sm1.storage = update sm.storage p (some sm.objects.length)
  objects : sm1.objects = sm.objects ++ [some g]

theorem inserted_add (env : Env) (hFree : sm.storage p = none) (isDir : Bool) (size : Nat) :
    ∃ nFiles permanent initSize nClose sm1, sm.add env p isDir size = (sm.objects.length, sm1) ∧
      Inserted sm sm1 p (.new isDir nFiles permanent initSize nClose) := by
  unfold StorageManager.add StorageManager.storageAt
  rw [hFree]
  exact ⟨_, _, _, _, _, rfl, rfl, rfl⟩

theorem Inserted.object (h : Inserted sm sm1 p g) : sm1.objects[sm.objects.length]? = some (some g) := by
  rw [h.objects]
  exact getElem?_concat_length

theorem Inserted.setNew (h : Inserted sm sm1 p g) (g' : CapioFile) :
    Inserted sm (sm1.setObject sm.objects.length g') p g' := by
  refine ⟨h.storage, ?_⟩
  change sm1.objects.set _ _ = _
  rw [h.objects]
  simp

theorem Inserted.placed (h : Inserted sm sm1 p g) (hf : sm.objects[j]? = some (some f)) :
    Placed sm sm1 p g j f := by
  have hOld : ∀ k < sm.objects.length, sm1.objects[k]? = sm.objects[k]? := by
    intro k hk
    rw [h.objects, getElem?_append_left hk]
  refine ⟨h.storage, ?_, h.object, ?_, fun k hk _ => hOld k hk⟩
  · rw [h.objects, length_append, length_singleton]
  · rw [hOld j (List.getElem?_eq_some_iff.mp hf).1, hf]

theorem Tree.updateDirectory (h : Tree env s.sm) (hEntry : Entry env p) (hInserted : Inserted s.sm s1.sm p g)
    (tid : Tid) :
    Yields (updateDirectory env os s1 tid p) (fun s2 => ∃ j f f', s.sm.storage (getParentDirPath p) = some j ∧
      s.sm.objects[j]? = some (some f) ∧ Placed s.sm s2.sm p g j f' ∧ Appended f f' (filename p)) := by
  have hAbove : s1.sm.storage (getParentDirPath p) = s.sm.storage (getParentDirPath p) := by
    rw [hInserted.storage, update_of_ne hEntry.parent_ne]
  refine (s1.sm.get_ends _).weaken.bind fun j hj => ?_
  refine (s1.sm.object_ends j).weaken.bind fun f hf => ?_
  have hj' := hAbove.symm.trans hj
  have hLt := h.own.allocated _ j hj'
  have hf' : s.sm.objects[j]? = some (some f) := by
    rw [← hf, hInserted.objects, getElem?_append_left hLt]
  rw [h.published _ f (fileAt_of_object hj' hf'), if_neg (by decide)]
  refine (addDirectoryEntry_appends s1 tid p _ .regularEntry).imp ?_
  rintro s2 ⟨i, f1, f2, hi, hf1, hsm, hAppended⟩
  obtain rfl := some.inj (hj.symm.trans hi)
  obtain rfl := some.inj (some.inj (hf.symm.trans hf1))
  exact ⟨j, f, f2, hj', hf', hsm ▸ (hInserted.placed hf').setAbove hLt f2, hAppended⟩

theorem isFirstWrite_eq_map (sm : StorageManager) (p : Path) :
    isFirstWrite sm p = (fileAt sm p).map CapioFile.firstWrite := by
  unfold isFirstWrite fileAt
  cases sm.storage p with
  | none => rfl
  | some i => exact map_eq_bind.symm

section

variable (h : Tree env s.sm)
include h

theorem Tree.line_iff (hInv : LocationTable.Inv env t s) (hp : p ≠ env.capioDir) :
    t p ≠ none ↔ s.sm.storage p ≠ none := by
  rw [← hInv.filed.written p hp]
  constructor
  · intro hFirst hFree
    rw [isFirstWrite_of_not_stored hFree] at hFirst
    cases hFirst
  · intro hStored
    have hAlive := hInv.filed.alive p hStored
    rw [isFirstWrite_eq_map] at hAlive ⊢
    have hFile : fileAt s.sm p ≠ none := fun hNone => hAlive (by rw [hNone]; rfl)
    obtain ⟨f, hf⟩ := ne_none_iff_exists'.mp hFile
    rw [hf, map_some, h.published p f hf]

theorem Tree.free_of_table (hHolds : Holds env s) (hp : p ≠ env.capioDir)
    (hTable : s.locations.table p = none) : s.sm.storage p = none := by
  obtain ⟨t, hInv⟩ := hHolds
  by_contra hStored
  refine (h.line_iff hInv hp).mpr hStored ?_
  rw [hInv.located.table, tableOf_of_ne hp] at hTable
  exact map_eq_none_iff.mp hTable

theorem Tree.locate_of_free (hHolds : Holds env s) (hEntry : Entry env p)
    (hFree : s.sm.storage p = none) : s.locate env p = (false, s) := by
  obtain ⟨t, hInv⟩ := hHolds
  have hLine : t p = none := by
    by_contra hSome
    exact (h.line_iff hInv hEntry.key.ne).mp hSome hFree
  have hTable : s.locations.table p = none := by
    rw [hInv.located.table, tableOf_of_ne hEntry.key.ne, hLine]
    rfl
  have hSearch : searchNodes env.cluster (fun _ => []) s.locations.files p env.cluster.nodes = none := by
    by_contra hSome
    obtain ⟨r, hr⟩ := ne_none_iff_exists'.mp hSome
    obtain ⟨n, hn, line, hMem, hRecords, -⟩ := LocationFiles.record_of_searchNodes hr
    obtain rfl : n = env.nodeName := by
      by_contra hNe
      rw [hInv.located.others n hn hNe] at hMem
      exact absurd hMem not_mem_nil
    obtain ⟨hMark, hSame⟩ := LocationFiles.records_iff.mp hRecords
    obtain ⟨L, hIndex⟩ := hInv.located.index
    obtain ⟨q, rfl, hq⟩ := hIndex.exists_of_mem hMem hMark
    have hKey := hInv.located.keys q hq
    have hStored := (h.line_iff hInv hKey.ne).mp hq
    have hPlain := ((h.keys q hStored).resolve_left hKey.ne).plain
    rw [LocationFiles.recordedPath_locationLine hKey.blank] at hSame
    grind [SamePath, hEntry.plain]
  unfold State.locate
  rw [hTable]
  unfold State.load loadFileLocation
  rw [hSearch]

theorem Tree.openStored (hStored : s.sm.storage p ≠ none) (tid : Tid) (fd : Fd) (isCreat : Bool) :
    Yields (updateFileMetadata env os s p tid fd isCreat 0) (fun s' => Tree env s'.sm) := by
  obtain ⟨i, hi⟩ := ne_none_iff_exists'.mp hStored
  unfold Server.updateFileMetadata StorageManager.add StorageManager.addFileToTid StorageManager.addNewFd
  rw [StorageManager.storageAt_of_stored hi]
  dsimp only
  rw [StorageManager.storageAt_of_stored hi]
  refine .bind (Q := fun sm => Tree env sm ∧ sm.storage p = some i) ?_ fun sm hsm => ?_
  · refine (s.sm.modify_ends i _).weaken.bind ?_
    rintro _ ⟨f, hf, rfl⟩
    have hSet : Tree env (s.sm.setObject i (f.openFile.addFd tid fd)) :=
      h.setObject hf ⟨rfl, rfl, fun _ => ⟨rfl, rfl⟩⟩
    exact ⟨hSet.frame rfl rfl, hi⟩
  · refine (sm.object_ends i).weaken.bind fun f hf => ?_
    rw [hsm.1.published p f (fileAt_of_object hsm.2 hf)]
    exact hsm.1

theorem Tree.create (hEntry : Entry env p) (hFree : s.sm.storage p = none) (tid : Tid)
    (fd : Fd) : Yields (updateFileMetadata env os s p tid fd true 0) (fun s' => Tree env s'.sm) := by
  obtain ⟨nFiles, permanent, initSize, nClose, sm1, hAdd, hInserted⟩ :=
    inserted_add env hFree false env.fileInitialSize
  have hAt : sm1.storage p = some s.sm.objects.length := by
    rw [hInserted.storage, update_self]
  unfold Server.updateFileMetadata
  rw [hAdd]
  refine .bind (Q := fun sm => Inserted s.sm sm p
    (((CapioFile.new false nFiles permanent initSize nClose).openFile).addFd tid fd)) ?_ fun sm hsm => ?_
  · unfold StorageManager.addFileToTid StorageManager.addNewFd
    rw [StorageManager.storageAt_of_stored hAt]
    dsimp only
    rw [StorageManager.modify_eq hInserted.object]
    have hSet := hInserted.setNew (((CapioFile.new false nFiles permanent initSize nClose).openFile).addFd tid fd)
    exact ⟨hSet.storage, hSet.objects⟩
  · refine (sm.object_ends _).weaken.bind fun f hf => ?_
    obtain rfl := some.inj (some.inj (hf.symm.trans hsm.object))
    refine .ite (fun _ => ?_) fun hNot => absurd rfl hNot
    unfold Server.publish
    rw [StorageManager.modify_eq hf]
    refine (h.updateDirectory hEntry (hsm.setNew _) tid).imp ?_
    rintro s2 ⟨j, f, f', hj, hf, hPlaced, hAppended⟩
    exact h.insert hEntry hFree hj hf hPlaced hAppended rfl fun hDir => absurd hDir Bool.false_ne_true

end

theorem dots_of_appended (h : Contains f []) (hDir : f.directory = true) (h1 : Appended f f1 ['.'])
    (h2 : Appended f1 f2 ['.', '.']) :
    ∃ L, Contains f2 L ∧ L.map decode = entries (fun _ => DT_DIR) [] := by
  obtain ⟨r1, hContains1, hRecord1⟩ := h1.record ⟨by decide, by decide⟩ hDir [] h
  obtain ⟨r2, hContains2, hRecord2⟩ :=
    h2.record ⟨by decide, by decide⟩ (h1.directory.trans hDir) _ hContains1
  refine ⟨_, hContains2, ?_⟩
  change [decode r1, decode r2] = _
  rw [hRecord1, hRecord2]
  rfl

theorem Tree.addDirectory (h : Tree env s.sm) (hHolds : Holds env s) (hEntry : Entry env p) (tid : Tid) :
    Yields (addDirectory env os s tid p) (fun r => Tree env r.2.sm) := by
  unfold Server.addDirectory
  cases hTable : s.locations.table p with
  | some entry => exact h
  | none =>
    have hFree := h.free_of_table hHolds hEntry.key.ne hTable
    obtain ⟨nFiles, permanent, initSize, nClose, sm1, hAdd, hInserted⟩ :=
      inserted_add env hFree true CAPIO_DEFAULT_DIR_INITIAL_SIZE
    have hContains : Contains (CapioFile.new true nFiles permanent initSize nClose).registerFirstWrite [] :=
      contains_nil rfl rfl
    dsimp only
    rw [hAdd]
    dsimp only
    refine (sm1.object_ends _).weaken.bind fun c hc => ?_
    obtain rfl := some.inj (some.inj (hc.symm.trans hInserted.object))
    refine .ite (fun _ => ?_) fun hNot => absurd rfl hNot
    refine .bind (Q := fun s2 : State => ∃ j f f', s.sm.storage (getParentDirPath p) = some j ∧
      s.sm.objects[j]? = some (some f) ∧ Placed s.sm s2.sm p
        (CapioFile.new true nFiles permanent initSize nClose).registerFirstWrite j f' ∧
        Appended f f' (filename p)) ?_ ?_
    · refine .ite (fun hRoot => absurd hRoot hEntry.key.below) fun _ => ?_
      exact h.updateDirectory hEntry (hInserted.setNew _) tid
    · rintro s2 ⟨j, f, f', hj, hf, hPlaced, hAppended⟩
      have hLt := h.own.allocated _ j hj
      have hAt : ∀ {sm : StorageManager} {g : CapioFile}, Placed s.sm sm p g j f' →
          sm.storage p = some s.sm.objects.length := by
        intro sm g hPlaced
        rw [hPlaced.storage, update_self]
      refine (addDirectoryEntry_appends s2 tid p p .dotEntry).bind ?_
      rintro s3 ⟨i, g, g1, hi, hg, hsm3, hDot⟩
      obtain rfl := some.inj ((hAt hPlaced).symm.trans hi)
      obtain rfl := some.inj (some.inj (hPlaced.new.symm.trans hg))
      have hPlaced1 := hPlaced.setNew hLt g1
      rw [← hsm3] at hPlaced1
      refine (addDirectoryEntry_appends s3 tid _ p .dotDotEntry).bind ?_
      rintro s4 ⟨i, g, g2, hi, hg, hsm4, hDots⟩
      obtain rfl := some.inj ((hAt hPlaced1).symm.trans hi)
      obtain rfl := some.inj (some.inj (hPlaced1.new.symm.trans hg))
      have hPlaced2 := hPlaced1.setNew hLt g2
      rw [← hsm4] at hPlaced2
      refine h.insert hEntry hFree hj hf hPlaced2 hAppended ?_ fun _ =>
        dots_of_appended hContains rfl hDot hDots
      exact hDots.firstWrite.trans hDot.firstWrite

theorem Tree.reply (h : Tree env s.sm) (tid : Tid) (value : Int) :
    Yields (s.reply tid value) (fun s' => Tree env s'.sm) := by
  refine (s.reply_ends tid value).mono ?_ fun _ _ => trivial
  rintro s' ⟨hsm, -⟩
  rw [hsm]
  exact h

theorem Tree.handleCreate (h : Tree env s.sm) (hHolds : Holds env s) (hEntry : Entry env p) (tid : Tid)
    (fd : Fd) : Yields (handleCreate env os s tid fd p) (fun s' => Tree env s'.sm) := by
  unfold Server.handleCreate
  by_cases hFree : s.sm.storage p = none
  · rw [h.locate_of_free hHolds hEntry hFree]
    exact (h.create hEntry hFree tid fd).bind fun s1 h1 => h1.reply tid 0
  · have hsm : (s.locate env p).2.sm = s.sm := by
      unfold State.locate
      split <;> rfl
    dsimp only at hsm ⊢
    rw [← hsm] at h hFree
    exact (h.openStored hFree tid fd _).bind fun s2 h2 => h2.reply tid 0

def WritesFile (s : State) (tid : Tid) (fd : Fd) : Prop :=
  isDirectory s.sm (s.sm.getPath tid fd).1 = false

theorem getPath_frame (s : State) (tid : Tid) (fd : Fd) :
    (s.getPath tid fd).1 = (s.sm.getPath tid fd).1 ∧ (s.getPath tid fd).2.sm.storage = s.sm.storage ∧
      (s.getPath tid fd).2.sm.objects = s.sm.objects := by
  grind [State.getPath, StorageManager.getPath, StorageManager.descriptor]

theorem Tree.writeHandler (h : Tree env s.sm) (hFile : WritesFile s tid fd) (data : List Byte) :
    Yields (writeHandler env os s tid fd data) (fun s' => Tree env s'.sm) := by
  obtain ⟨hPath, hStorage, hObjects⟩ := getPath_frame s tid fd
  refine .skip fun offset => ?_
  unfold WritesFile isDirectory fileAt at hFile
  rw [← hPath, ← hStorage, ← hObjects] at hFile
  have h1 : Tree env (s.getPath tid fd).2.sm := h.frame hStorage hObjects
  generalize s.getPath tid fd = r at hFile h1 ⊢
  obtain ⟨path, s1⟩ := r
  dsimp only at hFile h1 ⊢
  refine (s1.sm.get_ends path).weaken.bind fun i hi => ?_
  refine .ite (fun _ => trivial) fun _ => .ite (fun _ => trivial) fun _ => ?_
  refine (s1.sm.object_ends i).weaken.bind fun f hf => ?_
  have hNot : f.directory = false := by grind
  refine (CapioFile.writeData_rebuffers _ _ f _ data).bind ?_
  rintro f' ⟨_, ⟨buffer, homeNode, rfl⟩, hf'⟩
  have hFirst : f'.firstWrite = false := by
    rw [hf']
    exact h1.published path f (fileAt_of_object hi hf)
  have hAlike : Alike f f' := by
    refine ⟨by rw [hf']; rfl, by rw [hf']; rfl, fun hDir => ?_⟩
    rw [hNot] at hDir
    cases hDir
  unfold Server.registerWrittenData
  rw [hFirst]
  refine .bind (Q := fun s2 : State => Tree env s2.sm) (h1.setObject hf hAlike) fun s2 h2 => ?_
  unfold StorageManager.setFileOffset
  split
  · exact h2.frame rfl rfl
  · trivial

/-- Requests on plain paths that neither remove or rename a stored path nor write to a directory. -/
def Allowed (env : Env) (s : State) (r : Request) : Prop :=
  match r.op with
  | .handshake .. => True
  | .mkdir _ path | .create _ _ path => Entry env path
  | .write tid fd _ => WritesFile s tid fd
  | .unlink _ path =>
    env.engine.isExcluded path = true ∨ (fileAt s.sm path).any CapioFile.deletable = false
  | .rmdir _ path => env.engine.isExcluded path = true ∨ s.sm.storage path = none
  | .rename _ oldpath _ => s.sm.storage oldpath = none
  | _ => False

structure Sound (env : Env) (s : State) : Prop where
  holds : Holds env s
  tree : Tree env s.sm

theorem Sound.reply (h : Sound env s) (tid : Tid) (value : Int) : Yields (s.reply tid value) (Sound env) :=
  ((h.holds.reply tid value).and (h.tree.reply tid value)).imp (fun _ hs => ⟨hs.1, hs.2⟩)

theorem Sound.unlinkHandler (h : Sound env s)
    (hKept : env.engine.isExcluded path = true ∨ (fileAt s.sm path).any CapioFile.deletable = false)
    (tid : Tid) : Yields (unlinkHandler env s tid path) (Sound env) := by
  refine .ite (fun _ => h.reply tid _) fun hNot => ?_
  replace hKept := hKept.resolve_left hNot
  unfold StorageManager.tryGet
  cases hi : s.sm.storage path with
  | none => exact h.reply tid (-1)
  | some i =>
    refine (s.sm.object_ends i).weaken.bind fun f hf => ?_
    rw [fileAt_of_object hi hf] at hKept
    grind [h.reply]

theorem Sound.step (h : Sound env s) (hSelf : '\n' ∉ env.nodeName) (hr : Allowed env s r) :
    Yields (step env s r) (Sound env) := by
  obtain ⟨op, os⟩ := r
  cases op with
  | handshake tid appName wait =>
    change Sound env (handshakeHandler s tid appName wait)
    unfold handshakeHandler
    cases wait with
    | true => exact ⟨h.holds.keeps ⟨rfl, rfl, rfl⟩, h.tree⟩
    | false => exact ⟨h.holds.keeps ⟨rfl, rfl, rfl⟩, h.tree⟩
  | mkdir tid path =>
    have hEntry : Entry env path := hr
    refine ((h.holds.mkdirHandler hSelf hEntry.key tid).and
      ((h.tree.addDirectory h.holds hEntry tid).bind fun r hr => hr.reply tid r.1)).mono
      (fun _ hs => ⟨hs.1, hs.2⟩) fun _ => id
  | create tid fd path =>
    have hEntry : Entry env path := hr
    refine .ite (fun _ => h.reply tid _) fun _ => ?_
    exact ((h.holds.handleCreate hSelf hEntry.key tid fd).and (h.tree.handleCreate h.holds hEntry tid fd)).mono
      (fun _ hs => ⟨hs.1, hs.2⟩) fun _ => id
  | write tid fd data =>
    exact ((h.holds.writeHandler hSelf tid fd data).and (h.tree.writeHandler hr data)).mono
      (fun _ hs => ⟨hs.1, hs.2⟩) fun _ => id
  | unlink tid path => exact h.unlinkHandler hr tid
  | rmdir tid path =>
    refine .ite (fun _ => h.reply tid _) fun hNot => ?_
    unfold StorageManager.remove StorageManager.get
    rw [hr.resolve_left hNot]
    trivial
  | rename tid oldpath newpath =>
    change Ends (Server.handleRename env s tid oldpath newpath) _ _
    unfold Server.handleRename StorageManager.tryGet
    rw [show s.sm.storage oldpath = none from hr]
    exact h.reply tid 1
  | createExclusive | openFile | read | copyFileRange | close | dup | lseek | clone | exitGroup | resume =>
    exact hr.elim

theorem tree_root (hStorage : sm.storage = update (fun _ => none) env.capioDir (some 0))
    (hObjects : sm.objects = [some g]) (hFirst : g.firstWrite = false)
    (hDots : ∃ L, Contains g L ∧ L.map decode = entries (fun _ => DT_DIR) []) : Tree env sm := by
  have hStored : ∀ p i, sm.storage p = some i → p = env.capioDir ∧ i = 0 := by
    simp [hStorage, update_apply]
  have hRoot : ∀ p, sm.storage p ≠ none → p = env.capioDir := by
    intro p hp
    obtain ⟨i, hi⟩ := ne_none_iff_exists'.mp hp
    exact (hStored p i hi).1
  have hFile : ∀ p f, fileAt sm p = some f → p = env.capioDir ∧ f = g := by
    intro p f hf
    obtain ⟨i, hi, hObject⟩ := exists_of_fileAt hf
    grind
  refine ⟨⟨fun p q i hp hq => ?_, fun p i hp => ?_⟩, fun p f hf => ?_, fun p hp => .inl (hRoot p hp),
    fun p hp hNe => absurd (hRoot p hp) hNe, fun d f hf _ => ?_⟩
  · rw [(hStored p i hp).1, (hStored q i hq).1]
  · rw [(hStored p i hp).2, hObjects]
    exact Nat.zero_lt_one
  · rw [(hFile p f hf).2]
    exact hFirst
  · obtain ⟨rfl, rfl⟩ := hFile d f hf
    obtain ⟨L, hContains, hEntries⟩ := hDots
    refine ⟨[], L, nodup_nil, fun p => iff_of_false not_mem_nil fun hp => ?_, hContains, hEntries⟩
    exact hp.2.1 (hRoot p hp.1)

theorem boot_tree (env : Env) (os : Nat → Os) (serverPid : Tid) (files : Node → List Char) :
    Yields (boot env os serverPid files) (fun s => Tree env s.sm) := by
  refine .bind (Q := fun r : Int × State => Tree env r.2.sm) ?_ fun r hr => hr
  refine .bind (Q := fun f : CapioFile => f = CapioFile.new true _ _ _ _) rfl ?_
  rintro _ rfl
  refine .ite (fun _ => ?_) fun hNot => absurd rfl hNot
  refine .bind (Q := fun s2 : State => ∃ g : CapioFile,
    s2.sm.storage = update (fun _ => none) env.capioDir (some 0) ∧ s2.sm.objects = [some g] ∧
      g.firstWrite = false ∧ g.directory = true ∧ Contains g []) ?_ ?_
  · refine .ite (fun _ => ?_) fun hNot => absurd (SamePath.refl _) hNot
    exact ⟨_, rfl, rfl, rfl, rfl, contains_nil rfl rfl⟩
  · rintro s2 ⟨g0, hStorage, hObjects, hFirst, hDir, hContains⟩
    have hAt : s2.sm.storage env.capioDir = some 0 := by rw [hStorage, update_self]
    refine (addDirectoryEntry_appends s2 serverPid _ _ .dotEntry).bind ?_
    rintro s3 ⟨i, g, g1, hi, hg, hsm3, hDot⟩
    obtain rfl := some.inj (hAt.symm.trans hi)
    rw [hObjects] at hg
    obtain rfl := some.inj (some.inj hg)
    have hObjects1 : s3.sm.objects = [some g1] := by
      rw [hsm3]
      change s2.sm.objects.set 0 _ = _
      rw [hObjects]
      rfl
    refine (addDirectoryEntry_appends s3 serverPid _ _ .dotDotEntry).bind ?_
    rintro s4 ⟨i, g, g2, hi, hg, hsm4, hDots⟩
    have hStorage1 : s3.sm.storage = s2.sm.storage := by
      rw [hsm3]
      rfl
    obtain rfl := some.inj (hAt.symm.trans (hStorage1 ▸ hi))
    rw [hObjects1] at hg
    obtain rfl := some.inj (some.inj hg)
    refine tree_root (g := g2) ?_ ?_ ((hDots.firstWrite.trans hDot.firstWrite).trans hFirst)
      (dots_of_appended hContains hDir hDot hDots)
    · change s4.sm.storage = _
      rw [hsm4]
      exact hStorage1.trans hStorage
    · change s4.sm.objects = _
      rw [hsm4]
      change s3.sm.objects.set 0 _ = _
      rw [hObjects1]
      rfl

theorem boot_sound (env : Env) (os : Nat → Os) (serverPid : Tid) :
    Yields (boot env os serverPid fun _ => []) (Sound env) :=
  ((boot_holds env os serverPid).and (boot_tree env os serverPid _)).imp (fun _ hs => ⟨hs.1, hs.2⟩)

theorem run_sound (hSelf : '\n' ∉ env.nodeName) (hBoot : boot env os serverPid (fun _ => []) = .ok s0)
    (hAllowed : Meets (Allowed env) (step env) s0 requests) (hRun : requests.foldlM (step env) s0 = .ok s') :
    Sound env s' :=
  (run_ends (fun s _ (hs : Sound env s) => hs.step hSelf)
    ((boot_sound env os serverPid).result hBoot) requests hAllowed).result hRun

/-- Over every sequence of requests on plain paths that removes and renames nothing and writes to no
directory, a directory lists exactly the paths below it, with their names and types, if and only if all
of these are directories. -/
theorem listing_iff {os : Nat → Os} {serverPid : Tid} {s0 s' : State} (requests : List Request)
    (hSelf : '\n' ∉ env.nodeName) (hBoot : boot env os serverPid (fun _ => []) = .ok s0)
    (hAllowed : Meets (Allowed env) (step env) s0 requests) (hRun : requests.foldlM (step env) s0 = .ok s')
    {d : Path} {f : CapioFile} (hf : fileAt s'.sm d = some f) (hDir : f.directory = true) :
    Lists s'.sm d f ↔ ∀ p, Child s'.sm d p → isDirectory s'.sm p = true :=
  (run_sound hSelf hBoot hAllowed hRun).tree.lists_iff hf hDir

theorem Sound.isDirectory (h : Sound env s) (hObjects : ∀ o ∈ s.sm.objects, o.all CapioFile.directory = true)
    (hp : s.sm.storage p ≠ none) : isDirectory s.sm p = true := by
  obtain ⟨t, hInv⟩ := h.holds
  have hAlive := hInv.filed.alive p hp
  rw [isFirstWrite_eq_map] at hAlive
  have hFile : fileAt s.sm p ≠ none := fun hNone => hAlive (by rw [hNone]; rfl)
  obtain ⟨f, hf⟩ := ne_none_iff_exists'.mp hFile
  obtain ⟨i, -, hObject⟩ := exists_of_fileAt hf
  unfold Listing.isDirectory
  rw [hf]
  exact hObjects _ (mem_of_getElem? hObject)

end

instance (name : List Byte) : Decidable (Fits name) :=
  decidable_of_iff (0 ∉ name ∧ name.length ≤ NAME_MAX) ⟨fun ⟨h1, h2⟩ => ⟨h1, h2⟩, fun ⟨h1, h2⟩ => ⟨h1, h2⟩⟩

instance (env : Env) (p : Path) : Decidable (Entry env p) :=
  decidable_of_iff (Key env p ∧ collapse p = p ∧ p.head? = some '/' ∧ p ≠ ['/'] ∧
    env.capioDir.length < p.length ∧ Fits (nameBytes (filename p)))
    ⟨fun ⟨h1, h2, h3, h4, h5, h6⟩ => ⟨h1, h2, h3, h4, h5, h6⟩,
      fun ⟨h1, h2, h3, h4, h5, h6⟩ => ⟨h1, h2, h3, h4, h5, h6⟩⟩

instance (env : Env) (s : State) : DecidablePred (Allowed env s)
  | ⟨op, os⟩ => by
    apply Op.casesOn (motive := fun op => Decidable (Allowed env s ⟨op, os⟩)) op <;> intros <;>
      dsimp only [Allowed, WritesFile] <;> infer_instance

def plain : Env := Env.plain .onClose false 0

def start : Except Failure State := boot plain (fun _ => Os.plain 64) 0 fun _ => []

def root : Path := ['/', 'd']

def dot : Dirent := ⟨[46], DT_DIR⟩

def dotDot : Dirent := ⟨[46, 46], DT_DIR⟩

def directoriesOnly : List Request :=
  plainRequests 64 [.handshake 1 ['a'] false, .mkdir 1 "/d/x".toList, .mkdir 1 "/d/y".toList,
    .mkdir 1 "/d/x/z".toList, .mkdir 1 "/d/x".toList, .unlink 1 "/d/w".toList,
    .rename 1 "/d/w".toList "/d/x".toList]

theorem listing_directoriesOnly : ∃ s0, start = .ok s0 ∧
    ∃ s, directoriesOnly.foldlM (step plain) s0 = .ok s ∧ ∃ f, fileAt s.sm root = some f ∧
      Lists s.sm root f ∧ dirents f = [dot, dotDot, ⟨[120], DT_DIR⟩, ⟨[121], DT_DIR⟩] := by
  have hRun : ∃ s0, start = .ok s0 ∧ Meets (Allowed plain) (step plain) s0 directoriesOnly ∧
      ∃ s, directoriesOnly.foldlM (step plain) s0 = .ok s ∧
        (∀ o ∈ s.sm.objects, o.all CapioFile.directory = true) ∧
        (fileAt s.sm root).map dirents = some [dot, dotDot, ⟨[120], DT_DIR⟩, ⟨[121], DT_DIR⟩] := by
    decide +kernel
  obtain ⟨s0, hBoot, hAllowed, s, hRun, hObjects, hRecords⟩ := hRun
  obtain ⟨f, hf, hRecords⟩ := Option.map_eq_some_iff.mp hRecords
  have hSound := run_sound (by decide) hBoot hAllowed hRun
  obtain ⟨i, -, hObject⟩ := exists_of_fileAt hf
  have hDir : f.directory = true := hObjects _ (List.mem_of_getElem? hObject)
  refine ⟨s0, hBoot, s, hRun, f, hf, ?_, hRecords⟩
  refine (listing_iff directoriesOnly (by decide) hBoot hAllowed hRun hf hDir).mpr fun p hp => ?_
  exact hSound.isDirectory hObjects hp.1

def fileCreated : List Request :=
  plainRequests 64 [.handshake 1 ['a'] false, .create 1 3 "/d/a".toList]

def fileRemoved : List Request :=
  plainRequests 64 [.close 1 3, .unlink 1 "/d/a".toList]

/-- A regular file is listed as a directory, and it is listed still when it is no longer stored. -/
theorem file_listed_as_directory : ∃ s0, start = .ok s0 ∧
    ∃ s, fileCreated.foldlM (step plain) s0 = .ok s ∧
      s.sm.storage "/d/a".toList ≠ none ∧ isDirectory s.sm "/d/a".toList = false ∧
      (fileAt s.sm root).map dirents = some [dot, dotDot, ⟨[97], DT_DIR⟩] ∧
      ∃ s', fileRemoved.foldlM (step plain) s = .ok s' ∧ s'.sm.storage "/d/a".toList = none ∧
        (fileAt s'.sm root).map dirents = some [dot, dotDot, ⟨[97], DT_DIR⟩] := by
  decide +kernel

end Capio.Server.Listing
