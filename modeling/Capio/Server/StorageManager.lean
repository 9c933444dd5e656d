import Mathlib.Data.List.AList
import Capio.Lib.Outcome
import Capio.Server.ClientManager
import Capio.Server.Location
import Capio.Storage.CapioFile

/-! # Files and descriptors of a server

`_storage` maps a path to a file object and descriptors point to objects, so objects have an
identity of their own: an index into a heap, whose cell is emptied when the object is destroyed.
Offsets are shared between descriptors and have cells in the same way.  `operator[]` of a map
creates a missing entry, here as there.
-/
namespace Capio.Server

open Common Lib.Outcome Storage

/-- What a server is configured with, and the order in which it meets the elements of a hash
container. -/
structure Env where
  engine : CapioCLEngine
  cluster : Cluster
  nodeName : Node
  capioDir : Path
  fileInitialSize : Nat
  hash : Path → Nat
  pathOrder : List Path → List Path
  fdOrder : List Fd → List Fd
  pathOrder_perm : ∀ l, (pathOrder l).Perm l
  fdOrder_perm : ∀ l, (fdOrder l).Perm l

def Env.plain (rule : CommitRule) (permanent : Bool) (closeCount : Nat) : Env where
  engine :=
    { isExcluded := fun _ => false
      isPermanent := fun _ => permanent
      isFirable := fun _ => false
      isProducer := fun _ _ => false
      getCommitRule := fun _ => rule
      getCommitCloseCount := fun _ => closeCount
      getDirectoryFileCount := fun _ => 0 }
  cluster := ⟨[['n']], 1⟩
  nodeName := ['n']
  capioDir := ['/', 'd']
  fileInitialSize := 4
  hash := fun _ => 0
  pathOrder := id
  fdOrder := id
  pathOrder_perm := fun l => List.Perm.refl l
  fdOrder_perm := fun l => List.Perm.refl l

def getParentDirPath (path : Path) : Path :=
  if path = [] ∨ SamePath path ['/'] ∨ '/' ∉ path then path
  else ((path.reverse.dropWhile (· != '/')).drop 1).reverse

def filename (path : Path) : Path :=
  (path.reverse.takeWhile (· != '/')).reverse

/-- `ThreadFileDescriptor`; a value-initialized one has null pointers and an empty path. -/
structure Descriptor where
  pointer : Option Nat := none
  offset : Option Nat := none
  path : Path := []
  deriving DecidableEq

abbrev FdMap := AList fun _ : Tid × Fd => Descriptor

def FdMap.mapVal (f : Descriptor → Descriptor) (m : FdMap) : FdMap where
  entries := m.entries.map (Sigma.map id fun _ => f)
  nodupKeys := by
    have hKeys :
        (m.entries.map (Sigma.map id fun _ => f) : List (Sigma fun _ : Tid × Fd => Descriptor)).keys =
        m.entries.keys := by simp [List.keys, Function.comp_def, Sigma.map]
    rw [List.NodupKeys, hKeys]
    exact m.nodupKeys

theorem FdMap.lookup_mapVal (f : Descriptor → Descriptor) (m : FdMap) (k : Tid × Fd) :
    (m.mapVal f).lookup k = (m.lookup k).map f :=
  List.dlookup_map₂ k

structure StorageManager where
  objects : List (Option CapioFile) := []
  storage : Path → Option Nat := fun _ => none
  openedFdMap : FdMap := ∅
  offsets : List Int := []

namespace StorageManager

def object (sm : StorageManager) (i : Nat) : Except Failure CapioFile :=
  match sm.objects[i]? with
  | some (some f) => .ok f
  | _ => .error .nullPointer

def setObject (sm : StorageManager) (i : Nat) (f : CapioFile) : StorageManager :=
  { sm with objects := sm.objects.set i (some f) }

def modify (sm : StorageManager) (i : Nat) (f : CapioFile → CapioFile) :
    Except Failure StorageManager := do
  let c ← sm.object i
  pure (sm.setObject i (f c))

def tryGet (sm : StorageManager) (path : Path) : Option Nat := sm.storage path

def get (sm : StorageManager) (path : Path) : Except Failure Nat :=
  match sm.storage path with
  | some i => .ok i
  | none => .error (.fileNotFound path)

def getOfFd (sm : StorageManager) (tid : Tid) (fd : Fd) : Except Failure Nat :=
  match sm.openedFdMap.lookup (tid, fd) with
  | none => .error (.descriptorNotOpen tid fd)
  | some d =>
    match d.pointer with
    | some i => .ok i
    | none => .error .nullPointer

def descriptor (sm : StorageManager) (tid : Tid) (fd : Fd) : Descriptor × StorageManager :=
  match sm.openedFdMap.lookup (tid, fd) with
  | some d => (d, sm)
  | none => ({}, { sm with openedFdMap := sm.openedFdMap.insert (tid, fd) {} })

def getPath (sm : StorageManager) (tid : Tid) (fd : Fd) : Path × StorageManager :=
  let (d, sm) := sm.descriptor tid fd
  (d.path, sm)

def getFileOffset (sm : StorageManager) (tid : Tid) (fd : Fd) : Except Failure Int :=
  match (sm.descriptor tid fd).1.offset.bind (sm.offsets[·]?) with
  | some offset => .ok offset
  | none => .error .nullPointer

def setFileOffset (sm : StorageManager) (tid : Tid) (fd : Fd) (offset : Int) :
    Except Failure StorageManager :=
  match (sm.descriptor tid fd).1.offset with
  | some cell => .ok { sm with offsets := sm.offsets.set cell offset }
  | none => .error .nullPointer

def storageAt (sm : StorageManager) (path : Path) (new : CapioFile := {}) : Nat × StorageManager :=
  match sm.storage path with
  | some i => (i, sm)
  | none =>
    (sm.objects.length,
      { sm with
        objects := sm.objects ++ [some new]
        storage := Function.update sm.storage path (some sm.objects.length) })

def add (env : Env) (sm : StorageManager) (path : Path) (isDir : Bool) (initSize : Nat) :
    Nat × StorageManager :=
  let nFile := env.engine.getDirectoryFileCount path
  let initSize := if nFile > 1 then CAPIO_DEFAULT_DIR_INITIAL_SIZE else initSize
  sm.storageAt path (.new isDir nFile (env.engine.isPermanent path) initSize
    (env.engine.getCommitCloseCount path))

def addNewFd (sm : StorageManager) (tid : Tid) (fd : Fd) (path : Path) (offset : Int)
    (registerOpen : Bool) : Except Failure StorageManager := do
  let (i, sm) := sm.storageAt path
  let sm ← sm.modify i fun f => (if registerOpen then f.openFile else f).addFd tid fd
  pure { sm with
    openedFdMap := sm.openedFdMap.insert (tid, fd) ⟨some i, some sm.offsets.length, path⟩
    offsets := sm.offsets ++ [offset] }

def addFileToTid (sm : StorageManager) (tid : Tid) (fd : Fd) (path : Path) (offset : Int) :
    Except Failure StorageManager :=
  sm.addNewFd tid fd path offset true

def dup (sm : StorageManager) (tid : Tid) (oldFd newFd : Fd) : Except Failure StorageManager :=
  match sm.openedFdMap.lookup (tid, oldFd) with
  | some ⟨some i, offset, path⟩ =>
    StorageManager.modify
      { sm with openedFdMap := sm.openedFdMap.insert (tid, newFd) ⟨some i, offset, path⟩ } i
      fun f => f.openFile.addFd tid newFd
  | _ => .error .nullPointer

def getFileDescriptors (env : Env) (sm : StorageManager) (tid : Tid) : List Fd :=
  env.fdOrder ((sm.openedFdMap.keys.filter fun k => k.1 == tid).map Prod.snd)

def clone (env : Env) (sm : StorageManager) (parentTid childTid : Tid) :
    Except Failure StorageManager :=
  (sm.getFileDescriptors env parentTid).foldlM (fun sm fd => do
    let offset ← sm.getFileOffset parentTid fd
    sm.addNewFd childTid fd (sm.descriptor parentTid fd).1.path offset false) sm

def removeFromTid (sm : StorageManager) (tid : Tid) (fd : Fd) : Except Failure StorageManager := do
  let (d, sm) := sm.descriptor tid fd
  if d.path = [] then pure sm
  else match d.pointer with
    | none => throw .nullPointer
    | some i =>
      let sm ← sm.modify i fun f => f.removeFd tid fd
      pure { sm with openedFdMap := sm.openedFdMap.erase (tid, fd) }

/-- The loop of `remove` over the vector of descriptors of the file, which its body shortens: the
iterator is a position, and the end was computed before the first pass. -/
def removeFds (sm : StorageManager) (i n : Nat) : Except Failure StorageManager :=
  (List.range n).foldlM (fun sm k => do
    let f ← sm.object i
    match f.threadsFd[k]? with
    | some (tid, fd) => sm.removeFromTid tid fd
    | none => throw .iteratorInvalidated) sm

def remove (sm : StorageManager) (path : Path) : Except Failure StorageManager := do
  let i ← sm.get path
  let f ← sm.object i
  let sm ← sm.removeFds i f.threadsFd.length
  pure { sm with
    objects := sm.objects.set i none
    storage := Function.update sm.storage path none }

/-- Renaming a path that is not stored does nothing here; the caller has checked that it is. -/
def rename (sm : StorageManager) (oldpath newpath : Path) : StorageManager :=
  let openedFdMap := sm.openedFdMap.mapVal
    fun d => if SamePath d.path oldpath then { d with path := newpath } else d
  let sm := { sm with openedFdMap := openedFdMap }
  match sm.storage oldpath with
  | none => sm
  | some i =>
    let storage := Function.update sm.storage oldpath none
    match storage newpath with
    | none => { sm with storage := Function.update storage newpath (some i) }
    -- the insertion fails, and the object dies with the node that holds it
    | some _ => { sm with storage := storage, objects := sm.objects.set i none }

theorem object_ends (sm : StorageManager) (i : Nat) :
    Ends (sm.object i) (fun f => sm.objects[i]? = some (some f)) fun e => e = .nullPointer := by
  unfold object
  split
  · assumption
  · rfl

theorem getElem?_setObject {sm : StorageManager} (hg : (sm.setObject i f).objects[j]? = some (some g)) :
    j = i ∧ g = f ∨ j ≠ i ∧ sm.objects[j]? = some (some g) := by
  change (sm.objects.set i (some f))[j]? = some (some g) at hg
  by_cases hj : j = i
  · grind
  · grind

theorem get_ends (sm : StorageManager) (path : Path) :
    Ends (sm.get path) (fun i => sm.storage path = some i) fun e => e = .fileNotFound path := by
  unfold get
  split
  · assumption
  · rfl

theorem getOfFd_ends (sm : StorageManager) (tid : Tid) (fd : Fd) : Ends (sm.getOfFd tid fd)
      (fun i => ∃ d, sm.openedFdMap.lookup (tid, fd) = some d ∧ d.pointer = some i)
      fun e => e = .descriptorNotOpen tid fd ∨ e = .nullPointer := by
  unfold getOfFd
  split
  · exact .inl rfl
  · rename_i d hd
    split
    · exact ⟨d, hd, ‹_›⟩
    · exact .inr rfl

theorem storage_add (env : Env) (sm : StorageManager) (path : Path) (isDir : Bool) (size : Nat) :
    (sm.add env path isDir size).2.storage path = some (sm.add env path isDir size).1 := by
  unfold add storageAt
  cases hPath : sm.storage path with
  | some i => simp [hPath]
  | none => simp

theorem storageAt_of_stored {sm : StorageManager} (h : sm.storage path = some i) (new : CapioFile) :
    sm.storageAt path new = (i, sm) := by
  unfold storageAt
  rw [h]

theorem modify_ends (sm : StorageManager) (i : Nat) (f : CapioFile → CapioFile) : Ends (sm.modify i f)
      (fun sm' => ∃ c, sm.objects[i]? = some (some c) ∧ sm' = sm.setObject i (f c))
      fun e => e = .nullPointer :=
  (sm.object_ends i).bind fun c hc => ⟨c, hc, rfl⟩

theorem addNewFd_storage {sm : StorageManager} (hPath : sm.storage path ≠ none) (tid : Tid) (fd : Fd)
    (offset : Int) (registerOpen : Bool) :
    Yields (sm.addNewFd tid fd path offset registerOpen) (fun sm' => sm'.storage = sm.storage) := by
  obtain ⟨i, hi⟩ := Option.ne_none_iff_exists'.mp hPath
  unfold addNewFd
  rw [storageAt_of_stored hi]
  refine (sm.modify_ends i _).weaken.bind ?_
  rintro _ ⟨c, _, rfl⟩
  rfl

section

variable (sm : StorageManager)

theorem addFileToTid_ends (tid : Tid) (fd : Fd) (path : Path) (offset : Int) :
    Yields (sm.addFileToTid tid fd path offset) (fun sm' => sm'.offsets = sm.offsets ++ [offset] ∧ ∃ i,
      sm'.openedFdMap = sm.openedFdMap.insert (tid, fd) ⟨some i, some sm.offsets.length, path⟩) := by
  have hAt : (sm.storageAt path).2.offsets = sm.offsets ∧
      (sm.storageAt path).2.openedFdMap = sm.openedFdMap := by grind [storageAt]
  unfold addFileToTid addNewFd
  generalize sm.storageAt path = stored at hAt ⊢
  obtain ⟨i, sm1⟩ := stored
  refine (sm1.modify_ends i _).weaken.bind ?_
  rintro _ ⟨c, -, rfl⟩
  change (sm1.offsets ++ [offset] = _ ∧ ∃ i, _ = _)
  refine ⟨by rw [hAt.1], i, ?_⟩
  change sm1.openedFdMap.insert (tid, fd) ⟨some i, some sm1.offsets.length, path⟩ = _
  rw [hAt.1, hAt.2]

theorem dup_adds (tid : Tid) (oldFd newFd : Fd) :
    Yields (sm.dup tid oldFd newFd) (fun sm' => ∃ d i f, sm.openedFdMap.lookup (tid, oldFd) = some d ∧
      d.pointer = some i ∧ sm.objects[i]? = some (some f) ∧
      sm' = { sm with openedFdMap := sm.openedFdMap.insert (tid, newFd) d }.setObject i
        (f.openFile.addFd tid newFd)) := by
  unfold dup
  split
  · rename_i i offset path hd
    refine (modify_ends _ i _).mono ?_ fun _ _ => trivial
    rintro _ ⟨f, hf, rfl⟩
    exact ⟨_, i, f, hd, rfl, hf, rfl⟩
  · trivial

theorem dup_ends (tid : Tid) (oldFd newFd : Fd) :
    Yields (sm.dup tid oldFd newFd) (fun sm' => sm'.offsets = sm.offsets ∧ ∃ d,
      sm.openedFdMap.lookup (tid, oldFd) = some d ∧
        sm'.openedFdMap = sm.openedFdMap.insert (tid, newFd) d) := by
  refine (sm.dup_adds tid oldFd newFd).imp ?_
  rintro _ ⟨d, i, f, hd, -, -, rfl⟩
  exact ⟨rfl, d, hd, rfl⟩

theorem removeFromTid_ends (tid : Tid) (fd : Fd) :
    Yields (sm.removeFromTid tid fd) (fun sm' => sm'.offsets = sm.offsets ∧
      (∀ k ≠ (tid, fd), sm'.openedFdMap.lookup k = sm.openedFdMap.lookup k) ∧
      sm'.storage = sm.storage ∧ sm'.objects.length = sm.objects.length) := by
  have hDescriptor : (sm.descriptor tid fd).2.offsets = sm.offsets ∧
      (∀ k ≠ (tid, fd), (sm.descriptor tid fd).2.openedFdMap.lookup k = sm.openedFdMap.lookup k) ∧
      (sm.descriptor tid fd).2.storage = sm.storage ∧
      (sm.descriptor tid fd).2.objects.length = sm.objects.length := by
    grind [descriptor, AList.lookup_insert_ne]
  unfold removeFromTid
  generalize sm.descriptor tid fd = r at hDescriptor ⊢
  obtain ⟨d, sm1⟩ := r
  refine .ite (fun _ => hDescriptor) fun _ => ?_
  obtain ⟨hOffsets, hMap, hStorage, hLength⟩ := hDescriptor
  split
  · trivial
  · refine (sm1.modify_ends _ _).weaken.bind ?_
    rintro _ ⟨c, -, rfl⟩
    exact ⟨hOffsets, fun k hk => (AList.lookup_erase_ne hk).trans (hMap k hk), hStorage,
      List.length_set.trans hLength⟩

theorem removeFds_ends (i n : Nat) : Yields (sm.removeFds i n)
      (fun sm' => sm'.storage = sm.storage ∧ sm'.objects.length = sm.objects.length) := by
  refine .foldlM ?_ ⟨rfl, rfl⟩
  intro k _ sm1 hsm1
  refine .skip fun f => ?_
  split
  · rename_i tid fd _
    refine (sm1.removeFromTid_ends tid fd).imp ?_
    grind
  · trivial

theorem remove_ends (path : Path) : Yields (sm.remove path)
      (fun sm' => sm'.storage = Function.update sm.storage path none ∧
        sm'.objects.length = sm.objects.length) := by
  refine .skip fun i => ?_
  refine .skip fun f => ?_
  refine (sm.removeFds_ends i _).bind fun sm1 hsm1 => ?_
  exact ⟨congrArg (Function.update · path none) hsm1.1, List.length_set.trans hsm1.2⟩

end

end StorageManager

end Capio.Server
