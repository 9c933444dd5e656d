import Capio.Lib.LineIndex
import Capio.Server.Descriptors
import Capio.Server.LocationFiles
import Capio.Server.Rename

/-! # The location table of a server

A server keeps the location of a path three times: as a line of its location file, in its table with
the offset of that line, and as the flag of the stored file that says whether it was published.  The
handlers change the three one after the other.  Here they are shown to agree after every request, on a
server whose cluster has no other running node.
-/
namespace Capio.Server.LocationTable

open Common Lib.Lines Lib.LineIndex Lib.Outcome Storage Function List Option

variable {sm : StorageManager} {i : Nat}

def LineOf (env : Env) (s : State) (p : Path) (n : Nat) : Prop :=
  LineAt '\n' CAPIO_SERVER_INVALIDATE_FILE_PATH_CHAR (locationLine env.nodeName)
    (s.locations.files env.nodeName) p n

def isFirstWrite (sm : StorageManager) (p : Path) : Option Bool := do
  let i ← sm.storage p
  let f ← sm.objects[i]?.join
  pure f.firstWrite

/-- Table, file and storage agree; `CAPIO_DIR` has an entry and no line. -/
structure Agrees (env : Env) (s : State) : Prop where
  table : ∀ p, p ≠ env.capioDir → ∀ offset,
    (∃ entry, s.locations.table p = some entry ∧ entry.offset = offset) ↔
      ∃ n : Nat, offset = n ∧ LineOf env s p n
  once : ∀ p n n', LineOf env s p n → LineOf env s p n' → n = n'
  stored : ∀ p, p ≠ env.capioDir → (isFirstWrite s.sm p = some false ↔ ∃ n, LineOf env s p n)

structure Key (env : Env) (p : Path) : Prop where
  below : ¬ SamePath env.capioDir p
  blank : ' ' ∉ p
  newline : '\n' ∉ p
  mark : p.head? ≠ some CAPIO_SERVER_INVALIDATE_FILE_PATH_CHAR

theorem Key.ne (h : Key env p) : p ≠ env.capioDir := by
  rintro rfl
  exact h.below (.refl _)

def tableOf (env : Env) (t : Path → Option Nat) : FilesLocation := fun p =>
  if p = env.capioDir then some ⟨env.nodeName, -1, true⟩
  else (t p).map fun n : Nat => ⟨env.nodeName, n, true⟩

def flags (sm : StorageManager) : List (Option Bool) := sm.objects.map (Option.map CapioFile.firstWrite)

theorem isFirstWrite_eq (sm : StorageManager) (p : Path) :
    isFirstWrite sm p = (sm.storage p).bind fun i => (flags sm)[i]?.join := by
  unfold isFirstWrite flags
  cases sm.storage p with
  | none => rfl
  | some i =>
    rw [bind_eq_bind, bind_some, bind_some, getElem?_map]
    cases sm.objects[i]? with
    | none => rfl
    | some f => cases f with
      | none => rfl
      | some f => rfl

structure Located (env : Env) (t : Path → Option Nat) (l : Locations) : Prop where
  index : ∃ L, Indexes '\n' CAPIO_SERVER_INVALIDATE_FILE_PATH_CHAR (locationLine env.nodeName)
    (l.files env.nodeName) t L
  keys : ∀ p, t p ≠ none → Key env p
  others : ∀ n ∈ env.cluster.nodes, n ≠ env.nodeName → l.files n = []
  table : l.table = tableOf env t

/-- A stored file is published exactly if it has a line; one that is not was opened under a second
spelling of its path. -/
structure Filed (env : Env) (t : Path → Option Nat) (sm : StorageManager) : Prop where
  own : Rename.OwnObjects sm
  alive : ∀ p, sm.storage p ≠ none → isFirstWrite sm p ≠ none
  keys : ∀ p, sm.storage p ≠ none → p = env.capioDir ∨ Key env p
  root : isFirstWrite sm env.capioDir = some false
  written : ∀ p, p ≠ env.capioDir → (isFirstWrite sm p = some false ↔ t p ≠ none)

structure Inv (env : Env) (t : Path → Option Nat) (s : State) : Prop where
  located : Located env t s.locations
  filed : Filed env t s.sm

theorem locationLine_injective (self : Node) : Function.Injective (locationLine self) := by
  intro p q h
  grind [locationLine, append_assoc, append_cancel_right]

theorem Inv.agrees (h : Inv env t s) : Agrees env s := by
  obtain ⟨L, hIndex⟩ := h.located.index
  have hLine : ∀ p n, LineOf env s p n ↔ t p = some n :=
    hIndex.lineAt_iff (locationLine_injective env.nodeName)
  refine ⟨fun p hp offset => ?_, fun p n n' hn hn' => ?_, fun p hp => ?_⟩
  · rw [h.located.table]
    unfold tableOf
    rw [if_neg hp]
    constructor
    · rintro ⟨entry, hEntry, rfl⟩
      grind [map_eq_some_iff]
    · rintro ⟨n, rfl, hn⟩
      rw [(hLine p n).mp hn]
      exact ⟨_, rfl, rfl⟩
  · rw [hLine] at hn hn'
    exact some.inj (hn.symm.trans hn')
  · rw [h.filed.written p hp, ne_none_iff_exists']
    exact exists_congr fun n => (hLine p n).symm

/-! ## What leaves the locations alone -/

structure Keeps (s s' : State) : Prop where
  storage : s'.sm.storage = s.sm.storage
  flags : flags s'.sm = flags s.sm
  locations : s'.locations = s.locations

theorem Keeps.refl (s : State) : Keeps s s := ⟨rfl, rfl, rfl⟩

theorem Keeps.trans (h : Keeps s s1) (h' : Keeps s1 s') : Keeps s s' :=
  ⟨h'.storage.trans h.storage, h'.flags.trans h.flags, h'.locations.trans h.locations⟩

theorem isFirstWrite_congr (hStorage : sm'.storage = sm.storage) (hFlags : flags sm' = flags sm) (p : Path) :
    isFirstWrite sm' p = isFirstWrite sm p := by
  rw [isFirstWrite_eq, isFirstWrite_eq, hStorage, hFlags]

theorem length_flags (sm : StorageManager) : (flags sm).length = sm.objects.length := length_map _

theorem Inv.keeps (h : Inv env t s) (hKeeps : Keeps s s') : Inv env t s' := by
  have hFirst := isFirstWrite_congr hKeeps.storage hKeeps.flags
  have hLength : s'.sm.objects.length = s.sm.objects.length := by
    rw [← length_flags, hKeeps.flags, length_flags]
  refine ⟨hKeeps.locations ▸ h.located, ⟨⟨?_, ?_⟩, ?_, ?_, ?_, ?_⟩⟩
  · rw [hKeeps.storage]
    exact h.filed.own.inj
  · rw [hKeeps.storage, hLength]
    exact h.filed.own.allocated
  · intro p hp
    rw [hFirst]
    exact h.filed.alive p (hKeeps.storage ▸ hp)
  · rw [hKeeps.storage]
    exact h.filed.keys
  · rw [hFirst]
    exact h.filed.root
  · intro p hp
    rw [hFirst]
    exact h.filed.written p hp

theorem flags_setObject (sm : StorageManager) (i : Nat) (f : CapioFile) :
    flags (sm.setObject i f) = (flags sm).set i (some f.firstWrite) := by
  unfold flags
  rw [StorageManager.setObject, map_set]
  rfl

theorem flags_setObject_of_eq (hf : sm.objects[i]? = some (some f))
    (hFirst : f'.firstWrite = f.firstWrite) : flags (sm.setObject i f') = flags sm := by
  obtain ⟨hLt, hGet⟩ := List.getElem?_eq_some_iff.mp hf
  have hi : i < (flags sm).length := by
    rw [length_flags]
    exact hLt
  have hSelf : (flags sm)[i] = some f.firstWrite := by
    simp [flags, hGet]
  rw [flags_setObject, hFirst, ← hSelf]
  exact set_getElem_self _

theorem Keeps.setObject (h : Keeps s s1) (hf : s1.sm.objects[i]? = some (some f))
    (hFirst : f'.firstWrite = f.firstWrite) : Keeps s { s1 with sm := s1.sm.setObject i f' } :=
  h.trans ⟨rfl, flags_setObject_of_eq hf hFirst, rfl⟩

theorem keeps_modify (s : State) (i : Nat) (hFirst : ∀ f, (change f).firstWrite = f.firstWrite) :
    Yields (s.sm.modify i change) (fun sm => Keeps s { s with sm := sm }) := by
  refine (s.sm.modify_ends i change).mono ?_ fun _ _ => trivial
  rintro _ ⟨f, hf, rfl⟩
  exact (Keeps.refl s).setObject hf (hFirst f)

theorem keeps_reply (s : State) (tid : Tid) (offset : Int) : Yields (s.reply tid offset) (Keeps s) := by
  refine (s.reply_ends tid offset).mono ?_ fun _ _ => trivial
  rintro s' ⟨hsm, hLocations, -⟩
  exact ⟨congrArg _ hsm, congrArg _ hsm, hLocations⟩

theorem keeps_getPath (s : State) (tid : Tid) (fd : Fd) : Keeps s (s.getPath tid fd).2 := by
  unfold State.getPath StorageManager.getPath StorageManager.descriptor
  cases s.sm.openedFdMap.lookup (tid, fd) with
  | some d => exact ⟨rfl, rfl, rfl⟩
  | none => exact ⟨rfl, rfl, rfl⟩

theorem keeps_setFileOffset (s : State) (tid : Tid) (fd : Fd) (offset : Int) :
    Yields (s.sm.setFileOffset tid fd offset) (fun sm => Keeps s { s with sm := sm }) := by
  unfold StorageManager.setFileOffset
  split
  · exact ⟨rfl, rfl, rfl⟩
  · trivial

theorem keeps_addNewFd (hPath : s.sm.storage path ≠ none) (tid : Tid) (fd : Fd) (offset : Int)
    (registerOpen : Bool) :
    Yields (s.sm.addNewFd tid fd path offset registerOpen) (fun sm => Keeps s { s with sm := sm }) := by
  obtain ⟨i, hi⟩ := ne_none_iff_exists'.mp hPath
  unfold StorageManager.addNewFd
  rw [StorageManager.storageAt_of_stored hi]
  refine (keeps_modify s i fun f => ?_).bind fun sm hsm => ⟨hsm.storage, hsm.flags, hsm.locations⟩
  cases registerOpen with
  | true => rfl
  | false => rfl

theorem keeps_removeFromTid (s : State) (tid : Tid) (fd : Fd) :
    Yields (s.sm.removeFromTid tid fd) (fun sm => Keeps s { s with sm := sm }) := by
  have hDescriptor : Keeps s { s with sm := (s.sm.descriptor tid fd).2 } := keeps_getPath s tid fd
  unfold StorageManager.removeFromTid
  generalize s.sm.descriptor tid fd = r at hDescriptor ⊢
  obtain ⟨⟨pointer, offset, path⟩, sm⟩ := r
  refine .ite (fun _ => hDescriptor) fun _ => ?_
  cases pointer with
  | none => trivial
  | some i =>
    have hModify := keeps_modify { s with sm := sm } i fun f => (rfl : (f.removeFd tid fd).firstWrite = _)
    exact hModify.bind fun sm1 hsm1 => hDescriptor.trans ⟨hsm1.storage, hsm1.flags, hsm1.locations⟩

theorem keeps_addDirectoryEntry (s : State) (tid : Tid) (filePath dir : Path) (type : ManagerDirEntryType) :
    Yields (addDirectoryEntry env os s tid filePath dir type) (Keeps s) := by
  refine .skip fun i => ?_
  refine (s.sm.object_ends i).weaken.bind fun f hf => ?_
  refine (CapioFile.appendEntry_rebuffers _ _ f _ _).bind ?_
  rintro ⟨record, f'⟩ ⟨_, ⟨buffer, homeNode, rfl⟩, hf'⟩
  have hFirst : f'.firstWrite = f.firstWrite := (congrArg CapioFile.firstWrite hf').trans rfl
  refine ⟨rfl, Eq.trans ?_ (flags_setObject_of_eq hf hFirst), rfl⟩
  rw [flags_setObject, flags_setObject, apply_ite CapioFile.firstWrite, CapioFile.setCommitted_eq, ite_self]

theorem keeps_handleClose (s : State) (tid : Tid) (fd : Fd) :
    Yields (handleClose env s tid fd) (Keeps s) := by
  have h1 := keeps_getPath s tid fd
  unfold handleClose
  generalize s.getPath tid fd = r at h1 ⊢
  obtain ⟨path, s1⟩ := r
  refine .ite (fun _ => h1) fun _ => ?_
  refine .skip fun i => ?_
  refine (s1.sm.object_ends i).weaken.bind fun f hf => ?_
  refine .bind (Q := fun f' : CapioFile => f'.firstWrite = f.firstWrite) ?_ fun f' hFirst => ?_
  · refine .ite (fun _ => ?_) fun _ => rfl
    refine (CapioFile.dump_rebuffers _).imp ?_
    rintro _ ⟨buffer, homeNode, rfl⟩
    rw [CapioFile.setCommitted_eq]
    rfl
  · refine (keeps_removeFromTid { s1 with sm := s1.sm.setObject i f' } tid fd).bind fun sm hsm => ?_
    exact (h1.setObject hf hFirst).trans hsm

/-! ## The lines -/

theorem tableOf_of_ne (hp : p ≠ env.capioDir) :
    tableOf env t p = (t p).map fun n : Nat => ⟨env.nodeName, n, true⟩ :=
  if_neg hp

theorem tableOf_update (hp : p ≠ env.capioDir) (n : Option Nat) : tableOf env (update t p n) =
      update (tableOf env t) p (n.map fun n : Nat => ⟨env.nodeName, n, true⟩) := by grind [tableOf]

theorem Located.load (h : Located env t l) (hFresh : ∀ n ∈ env.cluster.nodes, streams n <+: l.files n)
    (path : Path) : (loadFileLocation env.cluster l path streams).2 = l := by
  unfold loadFileLocation
  split
  · next node recorded offset hSearch =>
    obtain ⟨n, hn, line, hLine, hRecords, hRecorded⟩ := LocationFiles.record_of_searchNodes hSearch
    have hText : streamText (streams n) (l.files n) = l.files n := prefix_iff_eq_append.mp (hFresh n hn)
    rw [hText] at hLine
    dsimp only at hRecorded
    have hSelf : n = env.nodeName := by
      by_contra hNe
      rw [h.others n hn hNe] at hLine
      exact absurd hLine not_mem_nil
    subst hSelf
    obtain ⟨L, hIndex⟩ := h.index
    obtain ⟨q, rfl, hq⟩ := hIndex.exists_of_mem hLine (LocationFiles.records_iff.mp hRecords).1
    have hKey := h.keys q hq
    rw [LocationFiles.recordedPath_locationLine hKey.blank] at hRecorded
    obtain ⟨n, hn⟩ := ne_none_iff_exists'.mp hq
    have hEntry : l.table recorded = some ⟨env.nodeName, n, true⟩ := by
      rw [h.table, ← hRecorded, tableOf_of_ne hKey.ne, hn]
      rfl
    unfold addFileLocation
    rw [hEntry]
  · rfl

theorem Located.write (h : Located env t l) (hSelf : '\n' ∉ env.nodeName) (hKey : Key env p)
    (hNew : t p = none) : Located env (update t p (some (l.files env.nodeName).length))
      (writeFileLocation env.nodeName l p) := by
  obtain ⟨L, hIndex⟩ := h.index
  obtain ⟨hLine, hLength⟩ := LocationFiles.locationLine_formed hSelf hKey.newline
  have hMark : (locationLine env.nodeName p).head? ≠ some CAPIO_SERVER_INVALIDATE_FILE_PATH_CHAR :=
    fun hHead => hKey.mark ((LocationFiles.head?_locationLine _ p).mp hHead)
  refine ⟨⟨L ++ [locationLine env.nodeName p], ?_⟩, fun q hq => ?_, fun n hn hNe => ?_, ?_⟩
  · change Indexes _ _ _ (update l.files env.nodeName _ env.nodeName) _ _
    rw [update_self]
    exact hIndex.append hNew hLine hLength hMark
  · rw [update_apply] at hq
    split at hq
    · next he => exact he ▸ hKey
    · exact h.keys q hq
  · change update l.files env.nodeName _ n = []
    rw [update_of_ne hNe]
    exact h.others n hn hNe
  · rw [tableOf_update hKey.ne]
    change addFileLocation l.table p _ = _
    unfold addFileLocation
    rw [h.table, tableOf_of_ne hKey.ne, hNew]
    rfl

theorem Located.delete (h : Located env t l) (hp : p ≠ env.capioDir) :
    Ends (deleteFromFilesLocation env.nodeName l p)
      (fun r => t p ≠ none ∧ Located env (update t p none) r.2) fun _ => t p = none := by
  obtain ⟨L, hIndex⟩ := h.index
  unfold deleteFromFilesLocation
  rw [h.table, tableOf_of_ne hp]
  cases hn : t p with
  | none => exact rfl
  | some n =>
    dsimp only [map_some]
    refine ⟨some_ne_none n, ?_, fun q hq => ?_, fun m hm hNe => ?_, ?_⟩
    · change ∃ L, Indexes _ _ _ (update l.files env.nodeName _ env.nodeName) _ L
      rw [update_self]
      unfold invalidate
      rw [if_pos rfl]
      exact hIndex.erase (locationLine_injective _) hn (by decide) _
    · rw [update_apply] at hq
      split at hq
      · exact absurd rfl hq
      · exact h.keys q hq
    · change update l.files env.nodeName _ m = []
      rw [update_of_ne hNe]
      exact h.others m hm hNe
    · rw [tableOf_update hp]
      rfl

/-! ## The stored files -/

section

variable {sm sm' : StorageManager} {i : Nat}

theorem isFirstWrite_of_storage (hi : sm.storage p = some i) : isFirstWrite sm p = (flags sm)[i]?.join := by
  rw [isFirstWrite_eq, hi, bind_some]

theorem isFirstWrite_of_object (hi : sm.storage p = some i) (hf : sm.objects[i]? = some (some f)) :
    isFirstWrite sm p = some f.firstWrite := by
  rw [isFirstWrite_of_storage hi, flags, getElem?_map, hf]
  rfl

theorem isFirstWrite_of_not_stored (hp : sm.storage p = none) : isFirstWrite sm p = none := by
  rw [isFirstWrite_eq, hp, bind_none]

theorem isFirstWrite_eq_of (hStorage : sm'.storage q = sm.storage q)
    (hFlags : ∀ j, sm.storage q = some j → (flags sm')[j]? = (flags sm)[j]?) :
    isFirstWrite sm' q = isFirstWrite sm q := by
  rw [isFirstWrite_eq, isFirstWrite_eq, hStorage]
  cases hq : sm.storage q with
  | none => rfl
  | some j => rw [bind_some, bind_some, hFlags j hq]

section

variable (h : Filed env t sm)
include h

theorem Filed.congr (ht : ∀ p, t' p ≠ none ↔ t p ≠ none) : Filed env t' sm :=
  ⟨h.own, h.alive, h.keys, h.root, fun p hp => (h.written p hp).trans (ht p).symm⟩

theorem Filed.offset_of_free (hp : p ≠ env.capioDir) (hFree : sm.storage p = none) : t p = none := by
  by_contra ht
  have hWritten := (h.written p hp).mpr ht
  rw [isFirstWrite_of_not_stored hFree] at hWritten
  cases hWritten

theorem Filed.unpublished (hi : sm.storage p = some i)
    (hf : sm.objects[i]? = some (some f)) (hFirst : f.firstWrite = true) : Key env p ∧ t p = none := by
  have hp : isFirstWrite sm p = some true := hFirst ▸ isFirstWrite_of_object hi hf
  have hNe : p ≠ env.capioDir := by
    rintro rfl
    cases h.root.symm.trans hp
  grind [h.keys, h.written]

theorem Filed.publish (hi : sm.storage p = some i)
    (hf : sm.objects[i]? = some (some f)) (hFirst : f.firstWrite = true) (n : Nat) :
    Filed env (update t p (some n)) (sm.setObject i f.registerFirstWrite) := by
  obtain ⟨hKey, -⟩ := h.unpublished hi hf hFirst
  have hLt : i < sm.objects.length := (List.getElem?_eq_some_iff.mp hf).1
  have hStored : (sm.setObject i f.registerFirstWrite).storage p = some i := hi
  have hSelf : isFirstWrite (sm.setObject i f.registerFirstWrite) p = some false :=
    isFirstWrite_of_object hStored (getElem?_set_self hLt)
  have hOther : ∀ q ≠ p, isFirstWrite (sm.setObject i f.registerFirstWrite) q = isFirstWrite sm q := by
    intro q hq
    refine isFirstWrite_eq_of rfl fun j hj => ?_
    rw [flags_setObject, getElem?_set_ne]
    rintro rfl
    exact hq (h.own.inj q p i hj hi)
  refine ⟨h.own.setObject i _, fun q hq => ?_, h.keys, ?_, fun q hq => ?_⟩
  · by_cases hqp : q = p
    · rw [hqp, hSelf]
      exact some_ne_none _
    · rw [hOther q hqp]
      exact h.alive q hq
  · rw [hOther _ hKey.ne.symm]
    exact h.root
  · by_cases hqp : q = p
    · simp [hqp, hSelf]
    · rw [hOther q hqp, update_of_ne hqp]
      exact h.written q hq

theorem Filed.storageAt (hKey : Key env p) (hNew : f.firstWrite = true) :
    Filed env t (sm.storageAt p f).2 := by
  have hOwn := h.own.storageAt p f
  unfold StorageManager.storageAt at hOwn ⊢
  cases hp : sm.storage p with
  | some i => exact h
  | none =>
    rw [hp] at hOwn
    have hSelf : isFirstWrite { sm with
        objects := sm.objects ++ [some f]
        storage := update sm.storage p (some sm.objects.length) } p = some true := by
      grind [isFirstWrite_of_object, update_self]
    have hOther : ∀ q ≠ p, isFirstWrite { sm with
        objects := sm.objects ++ [some f]
        storage := update sm.storage p (some sm.objects.length) } q = isFirstWrite sm q := by
      intro q hq
      refine isFirstWrite_eq_of (update_of_ne hq ..) fun j hj => ?_
      have hLt : j < (flags sm).length := (length_flags sm).symm ▸ h.own.allocated q j hj
      change ((sm.objects ++ [some f]).map _)[j]? = _
      rw [map_append, getElem?_append_left (by exact hLt)]
      rfl
    refine ⟨hOwn, fun q hq => ?_, fun q hq => ?_, ?_, fun q hq => ?_⟩
    · by_cases hqp : q = p
      · rw [hqp, hSelf]
        exact some_ne_none _
      · rw [hOther q hqp]
        grind [update_of_ne, h.alive]
    · dsimp only at hq
      grind [update_apply, h.keys]
    · rw [hOther _ hKey.ne.symm]
      exact h.root
    · by_cases hqp : q = p
      · rw [hqp, hSelf, h.offset_of_free hKey.ne hp]
        exact iff_of_false (by decide) fun hNone => hNone rfl
      · rw [hOther q hqp]
        exact h.written q hq

theorem Filed.drop (hp : p ≠ env.capioDir) (hi : sm.storage p = some i)
    (hStorage : sm'.storage = update sm.storage p none) (hFlags : ∀ j ≠ i, (flags sm')[j]? = (flags sm)[j]?)
    (hLength : sm'.objects.length = sm.objects.length) : Filed env (update t p none) sm' := by
  have hKept : ∀ q j, sm'.storage q = some j → q ≠ p ∧ sm.storage q = some j := by
    simp [hStorage, update_apply]
  have hOther : ∀ q ≠ p, isFirstWrite sm' q = isFirstWrite sm q := by
    intro q hq
    refine isFirstWrite_eq_of (by rw [hStorage, update_of_ne hq]) fun j hj => hFlags j ?_
    rintro rfl
    exact hq (h.own.inj q p j hj hi)
  have hStored : ∀ q, sm'.storage q ≠ none → q ≠ p ∧ sm.storage q ≠ none := by
    intro q hq
    obtain ⟨j, hj⟩ := ne_none_iff_exists'.mp hq
    obtain ⟨hqp, hj⟩ := hKept q j hj
    exact ⟨hqp, hj ▸ some_ne_none j⟩
  refine ⟨h.own.restrict (fun q j hq => (hKept q j hq).2) hLength, fun q hq => ?_, fun q hq => ?_, ?_,
    fun q hq => ?_⟩
  · obtain ⟨hqp, hq⟩ := hStored q hq
    rw [hOther q hqp]
    exact h.alive q hq
  · exact h.keys q (hStored q hq).2
  · rw [hOther _ hp.symm]
    exact h.root
  · by_cases hqp : q = p
    · rw [hqp, update_self, isFirstWrite_of_not_stored (by rw [hStorage, update_self])]
      exact iff_of_false (by decide) fun hNone => hNone rfl
    · rw [hOther q hqp, update_of_ne hqp]
      exact h.written q hq

end

end

/-! ## The handlers -/

def Holds (env : Env) (s : State) : Prop := ∃ t, Inv env t s

section

variable (h : Holds env s)
include h

theorem Holds.keeps (hKeeps : Keeps s s') : Holds env s' :=
  h.imp fun _ hInv => hInv.keeps hKeeps

theorem Holds.publishPath (hSelf : '\n' ∉ env.nodeName) (hi : s.sm.storage p = some i)
    (hf : s.sm.objects[i]? = some (some f)) (hFirst : f.firstWrite = true) :
    Holds env ({ s with sm := s.sm.setObject i f.registerFirstWrite }.writeLocation env p) := by
  obtain ⟨t, hInv⟩ := h
  obtain ⟨hKey, hNew⟩ := hInv.filed.unpublished hi hf hFirst
  exact ⟨_, hInv.located.write hSelf hKey hNew, hInv.filed.publish hi hf hFirst _⟩

theorem Holds.updateDirectory (hSelf : '\n' ∉ env.nodeName) (tid : Tid)
    (filePath : Path) : Yields (updateDirectory env os s tid filePath) (Holds env) := by
  refine (s.sm.get_ends _).weaken.bind fun i hi => ?_
  refine (s.sm.object_ends i).weaken.bind fun f hf => ?_
  refine (keeps_addDirectoryEntry _ tid filePath _ .regularEntry).imp (fun s' hs' => ?_)
  refine Holds.keeps ?_ hs'
  split
  · next hFirst => exact h.publishPath hSelf hi hf hFirst
  · exact h

theorem Holds.publish (hSelf : '\n' ∉ env.nodeName) (tid : Tid)
    (hi : s.sm.storage path = some i) (hf : s.sm.objects[i]? = some (some f))
    (hFirst : f.firstWrite = true) : Yields (publish env os s tid i path) (Holds env) := by
  unfold Server.publish
  rw [StorageManager.modify_eq hf]
  exact (h.publishPath hSelf hi hf hFirst).updateDirectory hSelf tid path

theorem Holds.updateFileMetadata (hSelf : '\n' ∉ env.nodeName)
    (hKey : Key env path) (tid : Tid) (fd : Fd) (isCreat : Bool) (offset : Int) :
    Yields (updateFileMetadata env os s path tid fd isCreat offset) (Holds env) := by
  have hAt := s.sm.storage_add env path false env.fileInitialSize
  have h1 : Holds env { s with sm := (s.sm.add env path false env.fileInitialSize).2 } :=
    h.imp fun t hInv => ⟨hInv.located, hInv.filed.storageAt hKey rfl⟩
  unfold Server.updateFileMetadata
  generalize s.sm.add env path false env.fileInitialSize = r at hAt h1 ⊢
  obtain ⟨i, sm⟩ := r
  dsimp only at hAt h1 ⊢
  refine (keeps_addNewFd (s := { s with sm := sm }) (hAt ▸ some_ne_none i) tid fd offset true).bind
    fun sm1 hsm1 => ?_
  refine (sm1.object_ends i).weaken.bind fun f hf => ?_
  refine .ite (fun hFirst => ?_) fun _ => h1.keeps hsm1
  have hi : sm1.storage path = some i := hsm1.storage.symm ▸ hAt
  refine Holds.publish ?_ hSelf tid hi hf (Bool.and_eq_true_iff.mp hFirst).1
  exact h1.keeps ⟨hsm1.storage, hsm1.flags, hsm1.locations⟩

theorem Holds.locate (path : Path) : Keeps s (s.locate env path).2 := by
  obtain ⟨t, hInv⟩ := h
  unfold State.locate
  split
  · exact .refl s
  · exact ⟨rfl, rfl, hInv.located.load (fun _ _ => nil_prefix) path⟩

theorem Holds.reply (tid : Tid) (offset : Int) : Yields (s.reply tid offset) (Holds env) :=
  (keeps_reply s tid offset).imp (fun _ => h.keeps)

theorem Holds.unlessExcluded (tid : Tid) (path : Path) (hHandler : Yields handler (Holds env)) :
    Yields (unlessExcluded env s tid path handler) (Holds env) :=
  Ends.ite (fun _ => h.reply tid _) fun _ => hHandler

theorem Holds.handleCreate (hSelf : '\n' ∉ env.nodeName) (hKey : Key env path)
    (tid : Tid) (fd : Fd) : Yields (handleCreate env os s tid fd path) (Holds env) := by
  have hLocate := h.locate path
  unfold Server.handleCreate
  refine ((h.keeps hLocate).updateFileMetadata hSelf hKey tid fd _ 0).bind fun s2 h2 => ?_
  exact h2.reply tid 0

theorem Holds.handleCreateExclusive (hSelf : '\n' ∉ env.nodeName) (hKey : Key env path) (tid : Tid)
    (fd : Fd) : Yields (handleCreateExclusive env os s tid fd path) (Holds env) := by
  unfold Server.handleCreateExclusive
  split
  · exact h.reply tid 1
  · exact (h.reply tid 0).bind fun s1 h1 => h1.updateFileMetadata hSelf hKey tid fd true 0

theorem Holds.registerWrittenData (hSelf : '\n' ∉ env.nodeName) (tid : Tid)
    (hi : s.sm.storage path = some i) (hf : s.sm.objects[i]? = some (some f))
    (hFirst : f'.firstWrite = f.firstWrite) :
    Yields (registerWrittenData env os s tid i path f') (Holds env) := by
  have hLt := (List.getElem?_eq_some_iff.mp hf).1
  have h1 : Holds env
      { s with cm := s.cm.registerProducedFile tid path, sm := s.sm.setObject i f' } :=
    h.keeps ⟨rfl, flags_setObject_of_eq hf hFirst, rfl⟩
  unfold Server.registerWrittenData
  exact .ite (fun hFirst' => h1.publish hSelf tid hi (List.getElem?_set_self hLt) hFirst') fun _ => h1

theorem Holds.writeHandler (hSelf : '\n' ∉ env.nodeName) (tid : Tid) (fd : Fd)
    (data : List Byte) : Yields (writeHandler env os s tid fd data) (Holds env) := by
  have hPath := h.keeps (keeps_getPath s tid fd)
  unfold Server.writeHandler
  refine .skip fun offset => ?_
  generalize s.getPath tid fd = r at hPath ⊢
  obtain ⟨path, s1⟩ := r
  refine (s1.sm.get_ends path).weaken.bind fun i hi => ?_
  refine .ite (fun _ => trivial) fun _ => .ite (fun _ => trivial) fun _ => ?_
  refine (s1.sm.object_ends i).weaken.bind fun f hf => ?_
  refine (CapioFile.writeData_rebuffers _ _ f _ data).bind ?_
  rintro f' ⟨_, ⟨buffer, homeNode, rfl⟩, hf'⟩
  have hFirst : f'.firstWrite = f.firstWrite := (congrArg CapioFile.firstWrite hf').trans rfl
  refine (hPath.registerWrittenData hSelf tid hi hf hFirst).bind fun s2 h2 => ?_
  exact (keeps_setFileOffset s2 tid fd _).bind fun sm hsm => h2.keeps hsm

theorem Holds.copyFileRangeData (hSelf : '\n' ∉ env.nodeName) (copy : CopyRequest) :
    Yields (copyFileRangeData env os s copy) (Holds env) := by
  refine .skip fun src => ?_
  refine .skip fun fIn => ?_
  refine .bind (Q := Holds env) ?_ fun s1 h1 => h1.reply copy.tid _
  refine .ite (fun _ => ?_) fun _ => h
  refine (s.sm.get_ends _).weaken.bind fun dst hDst => ?_
  refine (s.sm.object_ends dst).weaken.bind fun fOut hOut => ?_
  refine (CapioFile.copyData_rebuffers _ _ _ fIn fOut _ _ _).bind ?_
  rintro ⟨bytes, f'⟩ ⟨_, ⟨buffer, homeNode, rfl⟩, hf'⟩
  exact h.registerWrittenData hSelf copy.tid hDst hOut ((congrArg CapioFile.firstWrite hf').trans rfl)

theorem Holds.wait (p : Pending) : Holds env (s.wait p) := h.keeps ⟨rfl, rfl, rfl⟩

theorem Holds.handleCopyFileRange (hSelf : '\n' ∉ env.nodeName) (copy : CopyRequest)
    (isProd : Bool) : Yields (handleCopyFileRange env os s copy isProd) (Holds env) := by
  have hLocal : Yields (handleLocalCopyFileRange env os s copy isProd) (Holds env) := by
    refine .skip fun i => ?_
    refine .skip fun f => ?_
    cases localCopy (env.engine.isFirable copy.pathIn) f copy.offsetIn copy.count isProd with
    | waitForCommit => exact h.wait _
    | waitForData => exact h.wait _
    | endOfFile | send => exact h.copyFileRangeData hSelf copy
  refine .ite (fun _ => hLocal) fun _ => ?_
  refine .skip fun entry => .ite (fun _ => hLocal) fun _ => ?_
  refine .skip fun i => ?_
  refine .skip fun f => ?_
  refine .ite (fun _ => h.copyFileRangeData hSelf copy) fun _ => ?_
  exact .skip fun entry => h.keeps ⟨rfl, rfl, rfl⟩

theorem Holds.copyFileRangeHandler (hSelf : '\n' ∉ env.nodeName) (tid : Tid)
    (fdIn fdOut : Fd) (offsetIn offsetOut count : Nat) :
    Yields (copyFileRangeHandler env os s tid fdIn fdOut offsetIn offsetOut count) (Holds env) := by
  have h1 := h.keeps (keeps_getPath s tid fdIn)
  unfold Server.copyFileRangeHandler
  generalize s.getPath tid fdIn = r at h1 ⊢
  obtain ⟨pathIn, s1⟩ := r
  have h2 := h1.keeps (keeps_getPath s1 tid fdOut)
  dsimp only at h2 ⊢
  exact .ite (fun _ => h2.wait _) fun _ => h2.handleCopyFileRange hSelf _ _

theorem Holds.mkdirHandler (hSelf : '\n' ∉ env.nodeName) (hKey : Key env path)
    (tid : Tid) : Yields (mkdirHandler env os s tid path) (Holds env) := by
  refine .bind (Q := fun r => Holds env r.2) ?_ fun r hr => hr.reply tid r.1
  have hAt := s.sm.storage_add env path true CAPIO_DEFAULT_DIR_INITIAL_SIZE
  have h1 : Holds env { s with sm := (s.sm.add env path true CAPIO_DEFAULT_DIR_INITIAL_SIZE).2 } :=
    h.imp fun t hInv => ⟨hInv.located, hInv.filed.storageAt hKey rfl⟩
  unfold addDirectory
  split
  · exact h
  · generalize s.sm.add env path true CAPIO_DEFAULT_DIR_INITIAL_SIZE = r at hAt h1 ⊢
    obtain ⟨i, sm⟩ := r
    dsimp only at hAt h1 ⊢
    refine (sm.object_ends i).weaken.bind fun f hf => ?_
    refine .ite (fun hFirst => ?_) fun _ => h1
    refine .bind (Q := Holds env) ?_ fun s2 h2 => ?_
    · refine .ite (fun hRoot => absurd hRoot hKey.below) fun _ => ?_
      exact (h1.publishPath hSelf hAt hf hFirst).updateDirectory hSelf tid path
    · refine (keeps_addDirectoryEntry s2 tid path path .dotEntry).bind fun s3 h3 => ?_
      refine (keeps_addDirectoryEntry s3 tid _ path .dotDotEntry).bind fun s4 h4 => ?_
      exact h2.keeps (h3.trans h4)

end

theorem keeps_removeFds (s : State) (i n : Nat) :
    Yields (s.sm.removeFds i n) (fun sm => Keeps s { s with sm := sm }) := by
  refine .foldlM ?_ (Keeps.refl s)
  intro k _ sm hsm
  refine .skip fun f => ?_
  split
  · next tid fd _ =>
    exact (keeps_removeFromTid { s with sm := sm } tid fd).imp (fun _ => hsm.trans)
  · trivial

theorem Holds.remove (h : Holds env s) (hKey : Key env path) :
    Yields (s.sm.remove path) (fun sm => Ends ({ s with sm := sm }.deleteLocation env path)
      (fun r => Holds env r.2) fun _ => True) := by
  obtain ⟨t, hInv⟩ := h
  refine (s.sm.get_ends path).weaken.bind fun i hi => ?_
  refine .skip fun f => ?_
  refine (keeps_removeFds s i _).bind fun sm hsm => ?_
  have h1 := hInv.keeps hsm
  have hi1 : sm.storage path = some i := hsm.storage.symm ▸ hi
  refine (h1.located.delete hKey.ne).weaken.bind fun r hr => ?_
  refine ⟨_, hr.2, h1.filed.drop hKey.ne hi1 rfl (fun j hj => ?_) length_set⟩
  change ((sm.objects.set i none).map _)[j]? = _
  rw [map_set, getElem?_set_ne hj.symm]
  rfl

theorem Holds.unlinkHandler (h : Holds env s) (hKey : Key env path) (tid : Tid) :
    Yields (unlinkHandler env s tid path) (Holds env) := by
  refine h.unlessExcluded tid path ?_
  split
  · exact h.reply tid (-1)
  · refine .skip fun f => ?_
    refine .bind (Q := Holds env) ?_ fun s1 h1 => h1.reply tid 0
    refine .ite (fun _ => ?_) fun _ => h
    exact (h.remove hKey).bind fun sm hsm => hsm.bind fun r hr => hr

theorem Holds.rmdirHandler (h : Holds env s) (hKey : Key env path) (tid : Tid) :
    Yields (rmdirHandler env s tid path) (Holds env) := by
  refine h.unlessExcluded tid path ?_
  exact (h.remove hKey).bind fun sm hsm => hsm.bind fun r hr => hr.reply tid _

/-! ## Renaming -/

section

variable {oldpath newpath : Path}

def relocate (env : Env) (l : Locations) (oldpath newpath : Path) : Locations :=
  let l := if (l.table newpath).isNone then writeFileLocation env.nodeName l newpath else l
  { l with table := renameFileLocation l.table oldpath newpath }

theorem renameFileLocation_of_moved (h : table oldpath = none ∨ oldpath = newpath) :
    renameFileLocation table oldpath newpath = table := by
  unfold renameFileLocation
  cases hOld : table oldpath with
  | none => rfl
  | some entry =>
    obtain hNone | rfl := h
    · cases hNone.symm.trans hOld
    · simp [addFileLocation, eraseFromFilesLocation, hOld]

theorem Located.relocate (h : Located env (update t oldpath none) l)
    (hSelf : '\n' ∉ env.nodeName) (hOld : Key env oldpath) (hNew : Key env newpath) :
    ∃ t2, Located env t2 (relocate env l oldpath newpath) ∧
      ∀ p, t2 p ≠ none ↔ p = newpath ∨ p ≠ oldpath ∧ t p ≠ none := by
  have hEntry := congrFun h.table newpath
  rw [tableOf_of_ne hNew.ne] at hEntry
  have hMoved : ∀ {t1 : Path → Option Nat} {l1 : Locations}, Located env t1 l1 →
      (t1 oldpath = none ∨ oldpath = newpath) →
      Located env t1 { l1 with table := renameFileLocation l1.table oldpath newpath } := by
    intro t1 l1 h1 hGone
    rw [renameFileLocation_of_moved]
    · exact h1
    · refine hGone.imp (fun hNone => ?_) id
      rw [h1.table, tableOf_of_ne hOld.ne, hNone]
      rfl
  unfold LocationTable.relocate
  dsimp only
  cases hFree : update t oldpath none newpath with
  | none =>
    rw [hFree] at hEntry
    rw [if_pos (by rw [hEntry]; rfl)]
    refine ⟨_, hMoved (h.write hSelf hNew hFree) ?_, fun p => ?_⟩
    · grind
    · grind
  | some n =>
    rw [hFree] at hEntry
    grind

theorem Filed.move (h : Filed env t sm) (hOld : Key env oldpath) (hNew : Key env newpath)
    (hi : sm.storage oldpath = some i) (hPublished : t oldpath ≠ none) (hOwn : Rename.OwnObjects sm')
    (hFlags : flags sm' = flags sm)
    (hStorage : sm'.storage = update (update sm.storage oldpath none) newpath (some i))
    (ht : ∀ p, t2 p ≠ none ↔ p = newpath ∨ p ≠ oldpath ∧ t p ≠ none) : Filed env t2 sm' := by
  have hAt : sm'.storage newpath = some i := by rw [hStorage, update_self]
  have hSelf : isFirstWrite sm' newpath = some false := by
    rw [isFirstWrite_of_storage hAt, hFlags, ← isFirstWrite_of_storage hi]
    exact (h.written oldpath hOld.ne).mpr hPublished
  have hGone : oldpath ≠ newpath → sm'.storage oldpath = none := by
    intro hNe
    rw [hStorage, update_of_ne hNe, update_self]
  have hKept : ∀ p, p ≠ newpath → p ≠ oldpath → sm'.storage p = sm.storage p := by
    intro p hpNew hpOld
    rw [hStorage, update_of_ne hpNew, update_of_ne hpOld]
  have hOther : ∀ p, p ≠ newpath → p ≠ oldpath → isFirstWrite sm' p = isFirstWrite sm p :=
    fun p hpNew hpOld => isFirstWrite_eq_of (hKept p hpNew hpOld) fun _ _ => by rw [hFlags]
  refine ⟨hOwn, fun p hp => ?_, fun p hp => ?_, ?_, fun p hp => ?_⟩
  · by_cases hpNew : p = newpath
    · rw [hpNew, hSelf]
      exact some_ne_none _
    · by_cases hpOld : p = oldpath
      · exact absurd (hpOld ▸ hGone (hpOld ▸ hpNew)) hp
      · rw [hOther p hpNew hpOld]
        exact h.alive p (hKept p hpNew hpOld ▸ hp)
  · by_cases hpNew : p = newpath
    · exact .inr (hpNew ▸ hNew)
    · by_cases hpOld : p = oldpath
      · exact .inr (hpOld ▸ hOld)
      · exact h.keys p (hKept p hpNew hpOld ▸ hp)
  · rw [hOther _ hNew.ne.symm hOld.ne.symm]
    exact h.root
  · rw [ht]
    grind [isFirstWrite_of_not_stored, h.written]

theorem rename_cases (hi : sm.storage oldpath = some i) (newpath : Path) :
    (oldpath = newpath ∨ sm.storage newpath = none) ∧ (sm.rename oldpath newpath).storage =
        update (update sm.storage oldpath none) newpath (some i) ∧
      (sm.rename oldpath newpath).objects = sm.objects ∨
    (oldpath ≠ newpath ∧ sm.storage newpath ≠ none) ∧
      (sm.rename oldpath newpath).storage = update sm.storage oldpath none ∧
      (sm.rename oldpath newpath).objects = sm.objects.set i none := by
  grind [StorageManager.rename]

def RenamesOnto (s : State) (oldpath newpath : Path) : Prop :=
  oldpath ≠ newpath ∧ s.locations.table oldpath ≠ none ∧ isFirstWrite s.sm newpath = some true

theorem Inv.rename (h : Inv env t s) (hOld : Key env oldpath) (hNew : Key env newpath)
    (hi : s.sm.storage oldpath = some i) (hPublished : t oldpath ≠ none)
    (hOnto : ¬ RenamesOnto s oldpath newpath)
    (ht : ∀ p, t2 p ≠ none ↔ p = newpath ∨ p ≠ oldpath ∧ t p ≠ none) :
    Filed env t2 (s.sm.rename oldpath newpath) := by
  obtain ⟨-, hStorage, hObjects⟩ | ⟨⟨hNe, hTaken⟩, hStorage, hObjects⟩ := rename_cases hi newpath
  · refine h.filed.move hOld hNew hi hPublished (h.filed.own.rename oldpath newpath) ?_ hStorage ht
    unfold flags
    rw [hObjects]
  · have hTable : s.locations.table oldpath ≠ none := by
      obtain ⟨n, hn⟩ := ne_none_iff_exists'.mp hPublished
      rw [h.located.table, tableOf_of_ne hOld.ne, hn]
      exact some_ne_none _
    have hWritten : t newpath ≠ none := by
      obtain ⟨b, hb⟩ := ne_none_iff_exists'.mp (h.filed.alive newpath hTaken)
      cases b with
      | false => exact (h.filed.written newpath hNew.ne).mp hb
      | true => exact absurd ⟨hNe, hTable, hb⟩ hOnto
    have hDrop := h.filed.drop hOld.ne hi hStorage (fun j hj => ?_) (by rw [hObjects, length_set])
    · refine hDrop.congr fun p => ?_
      by_cases hp : p = newpath
      · grind
      · grind
    · grind [flags]

theorem handleRename_relocates (hi : s.sm.storage oldpath = some i) (tid : Tid) (newpath : Path) :
    handleRename env s tid oldpath newpath =
      ({ s with sm := s.sm.rename oldpath newpath }.deleteLocation env oldpath >>= fun r =>
        { r.2 with locations := relocate env r.2.locations oldpath newpath }.reply tid 0) := by
  unfold handleRename StorageManager.tryGet
  rw [hi]
  refine bind_congr fun r => ?_
  unfold relocate
  dsimp only
  split <;> rfl

section

variable (h : Holds env s) (hSelf : '\n' ∉ env.nodeName) (hOld : Key env oldpath) (hNew : Key env newpath)
include h hSelf hOld hNew

theorem Holds.handleRename (hOnto : ¬ RenamesOnto s oldpath newpath) (tid : Tid) :
    Yields (handleRename env s tid oldpath newpath) (Holds env) := by
  cases hi : s.sm.storage oldpath with
  | none =>
    unfold Server.handleRename StorageManager.tryGet
    rw [hi]
    exact h.reply tid 1
  | some i =>
    obtain ⟨t, hInv⟩ := h
    rw [handleRename_relocates hi]
    refine .bind (Q := fun r => Holds env
      { r.2 with locations := relocate env r.2.locations oldpath newpath }) ?_ fun r hr => hr.reply tid 0
    refine (hInv.located.delete hOld.ne).weaken.bind fun r hr => ?_
    obtain ⟨t2, hLocated, ht2⟩ := hr.2.relocate hSelf hOld hNew
    exact ⟨t2, hLocated, hInv.rename hOld hNew hi hr.1 hOnto ht2⟩

theorem Holds.rename_disagrees (hOnto : RenamesOnto s oldpath newpath)
    (hResponses : s.cm.responses tid = true) :
    ∃ s', Server.handleRename env s tid oldpath newpath = .ok s' ∧ ¬ Agrees env s' := by
  obtain ⟨t, hInv⟩ := h
  obtain ⟨hNe, hTable, hFirst⟩ := hOnto
  have hPublished : t oldpath ≠ none := by
    intro hNone
    rw [hInv.located.table, tableOf_of_ne hOld.ne, hNone] at hTable
    exact hTable rfl
  have hStored : ∀ {p}, isFirstWrite s.sm p ≠ none → ∃ i, s.sm.storage p = some i := by
    intro p hp
    refine ne_none_iff_exists'.mp fun hNone => hp ?_
    exact isFirstWrite_of_not_stored hNone
  obtain ⟨i, hi⟩ := hStored (((hInv.filed.written oldpath hOld.ne).mpr hPublished) ▸ some_ne_none _)
  obtain ⟨j, hj⟩ := hStored (hFirst ▸ some_ne_none _)
  have hDelete := hInv.located.delete hOld.ne
  rw [handleRename_relocates hi]
  cases hRun : deleteFromFilesLocation env.nodeName s.locations oldpath with
  | error e => exact absurd (hDelete.failure hRun) hPublished
  | ok r =>
    obtain ⟨t2, hLocated, ht2⟩ := (hDelete.result hRun).2.relocate hSelf hOld hNew
    have hReply : ∀ l, ∃ s', ({ s with sm := s.sm.rename oldpath newpath, locations := l } : State).reply
        tid 0 = .ok s' ∧ s'.sm = s.sm.rename oldpath newpath ∧ s'.locations = l := by
      intro l
      unfold State.reply ClientManager.reply
      rw [if_pos hResponses]
      exact ⟨_, rfl, rfl, rfl⟩
    obtain ⟨s', hs', hsm, hl⟩ := hReply (relocate env r.2 oldpath newpath)
    refine ⟨s', ?_, fun hAgrees => ?_⟩
    · unfold State.deleteLocation
      rw [hRun]
      exact hs'
    · obtain ⟨L, hIndex⟩ := hLocated.index
      obtain ⟨n, hn⟩ := ne_none_iff_exists'.mp ((ht2 newpath).mpr (.inl rfl))
      have hLine : LineOf env s' newpath n := by
        unfold LineOf
        rw [hl]
        exact (hIndex.lineAt_iff (locationLine_injective env.nodeName) newpath n).mpr hn
      have hFalse := (hAgrees.stored newpath hNew.ne).mpr ⟨n, hLine⟩
      have hTrue : isFirstWrite s'.sm newpath = some true := by
        rw [hsm, ← hFirst]
        obtain ⟨hFree, -⟩ | ⟨-, hStorage, hObjects⟩ := rename_cases hi newpath
        · exact absurd (hFree.resolve_left hNe) (hj ▸ some_ne_none j)
        · refine isFirstWrite_eq_of (by rw [hStorage, update_of_ne hNe.symm]) fun k hk => ?_
          grind [flags, map_set, getElem?_set_ne, hInv.filed.own.inj]
      cases hTrue.symm.trans hFalse

end

end

/-! ## Runs -/

def ResumesCopy : Pending → Prop
  | .copyFile _ | .copyCommit .. | .copyData .. | .clonedChild _ => True
  | _ => False

/-- The requests that are followed, on paths below `CAPIO_DIR`. -/
def Allowed (env : Env) (s : State) (r : Request) : Prop :=
  match r.op with
  | .handshake .. | .write .. | .copyFileRange .. | .close .. => True
  | .create _ _ path | .createExclusive _ _ path | .mkdir _ path | .rmdir _ path | .unlink _ path =>
    Key env path
  | .rename tid oldpath newpath => Key env oldpath ∧ Key env newpath ∧ s.cm.responses tid = true
  | .resume k => ∀ p ∈ s.pending[k]?, ResumesCopy p
  | _ => False

def RenamesClear (s : State) (r : Request) : Prop :=
  match r.op with
  | .rename _ oldpath newpath => ¬ RenamesOnto s oldpath newpath
  | _ => True

/-- The path that a request searches the location files for. -/
def searched (env : Env) (s : State) (r : Request) : Option Path :=
  match r.op with
  | .create _ _ path =>
    if env.engine.isExcluded path = true ∨ s.locations.table path ≠ none then none else some path
  | .resume k => match s.pending[k]? with
    | some (.copyFile copy) => some copy.pathIn
    | _ => none
  | _ => none

abbrev Streamed := State × (Node → List Char)

/-- A step together with the buffers of the streams. The handlers search the files themselves; the
searches through the streams find the same as long as they `ReadsFiles`. -/
def stepStreams (env : Env) (w : Streamed) (r : Request) : Except Failure Streamed := do
  let s ← step env w.1 r
  pure (s, (searched env w.1 r).elim w.2
    fun path => streamsAfter env.cluster w.2 w.1.locations.files path env.cluster.nodes)

def ReadsFiles (env : Env) (w : Streamed) (r : Request) : Prop :=
  (searched env w.1 r).isSome = true → ∀ n ∈ env.cluster.nodes, w.2 n <+: w.1.locations.files n

theorem ReadsFiles.load (hReads : ReadsFiles env w r) (h : Holds env w.1)
    (hPath : searched env w.1 r = some path) : loadFileLocation env.cluster w.1.locations path w.2 =
      loadFileLocation env.cluster w.1.locations path := by
  have hFresh := hReads (hPath ▸ rfl)
  have hFound : ∀ nodes ⊆ env.cluster.nodes,
      (searchNodes env.cluster w.2 w.1.locations.files path nodes).isSome =
        (searchNodes env.cluster (fun _ => []) w.1.locations.files path nodes).isSome := by
    intro nodes hNodes
    induction nodes with
    | nil => rfl
    | cons n nodes ih =>
      rw [cons_subset] at hNodes
      have hText : streamText (w.2 n) (w.1.locations.files n) = streamText [] (w.1.locations.files n) :=
        prefix_iff_eq_append.mp (hFresh n hNodes.1)
      rw [searchNodes, searchNodes, hText]
      split
      · rfl
      · exact ih hNodes.2
  obtain ⟨t, hInv⟩ := h
  refine Prod.ext ?_ ?_
  · rw [(LocationFiles.loadFileLocation_found ..).1, (LocationFiles.loadFileLocation_found ..).1]
    exact hFound _ (Subset.refl _)
  · rw [hInv.located.load hFresh, hInv.located.load fun _ _ => nil_prefix]

def KeepsAgreement (env : Env) (s : State) (r : Request) : Prop :=
  ∀ s', step env s r = .ok s' → Agrees env s'

theorem Holds.resume (h : Holds env s) (hSelf : '\n' ∉ env.nodeName) (os : Nat → Os) (hp : ResumesCopy p) :
    Yields (resume env os s p) (fun r => ∀ s' ∈ r, Holds env s') := by
  have hSome : ∀ {x : Except Failure State}, Yields x (Holds env) →
      Yields (some <$> x) (fun r => ∀ s' ∈ r, Holds env s') := by
    intro x hx
    refine .map (hx.imp (fun s' hs' => ?_))
    rintro _ ⟨⟩
    exact hs'
  have hNone : Yields (pure none : Except Failure (Option State)) (fun r => ∀ s' ∈ r, Holds env s') := by
    rintro _ ⟨⟩
  cases p with
  | copyFile copy =>
    have hLoad : Keeps s (s.load env copy.pathIn).2 := by
      obtain ⟨t, hInv⟩ := h
      exact ⟨rfl, rfl, hInv.located.load (fun _ _ => nil_prefix) copy.pathIn⟩
    refine .ite (fun _ => hSome ?_) fun _ => hNone
    exact (h.keeps hLoad).handleCopyFileRange hSelf copy false
  | copyCommit i copy =>
    refine .skip fun f => ?_
    exact .ite (fun _ => hSome (h.copyFileRangeData hSelf copy)) fun _ => hNone
  | copyData i copy =>
    refine .skip fun f => ?_
    exact .ite (fun _ => hSome (h.copyFileRangeData hSelf copy)) fun _ => hNone
  | clonedChild tid =>
    refine .ite (fun _ => ?_) fun _ => hNone
    refine (h.reply tid 1).bind fun s1 h1 => ?_
    rintro _ ⟨⟩
    exact h1.keeps ⟨rfl, rfl, rfl⟩
  | _ => exact hp.elim

theorem step_holds (hSelf : '\n' ∉ env.nodeName) (h : Holds env s) (hAllowed : Allowed env s r)
    (hRename : RenamesClear s r) : Yields (step env s r) (Holds env) := by
  obtain ⟨op, os⟩ := r
  cases op with
  | handshake tid appName wait =>
    change Holds env (handshakeHandler s tid appName wait)
    unfold handshakeHandler
    split <;> exact h.keeps ⟨rfl, rfl, rfl⟩
  | create tid fd path => exact h.unlessExcluded tid path (h.handleCreate hSelf hAllowed tid fd)
  | createExclusive tid fd path =>
    exact h.unlessExcluded tid path (h.handleCreateExclusive hSelf hAllowed tid fd)
  | write tid fd data => exact h.writeHandler hSelf tid fd data
  | copyFileRange tid fdIn fdOut offsetIn offsetOut count =>
    exact h.copyFileRangeHandler hSelf tid fdIn fdOut offsetIn offsetOut count
  | mkdir tid path => exact h.mkdirHandler hSelf hAllowed tid
  | unlink tid path => exact h.unlinkHandler hAllowed tid
  | rmdir tid path => exact h.rmdirHandler hAllowed tid
  | rename tid oldpath newpath => exact h.handleRename hSelf hAllowed.1 hAllowed.2.1 hRename tid
  | close tid fd => exact (keeps_handleClose s tid fd).imp (fun _ => h.keeps)
  | resume k =>
    unfold step
    dsimp only
    cases hk : s.pending[k]? with
    | none => exact h
    | some p =>
      have h1 : Holds env { s with pending := s.pending.eraseIdx k } := h.keeps ⟨rfl, rfl, rfl⟩
      refine (h1.resume hSelf os (hAllowed p hk)).bind fun r hr => ?_
      cases r with
      | none => exact h
      | some s' => exact hr s' rfl
  | _ => exact hAllowed.elim

theorem keepsAgreement_iff (hSelf : '\n' ∉ env.nodeName) (h : Holds env s) (hAllowed : Allowed env s r) :
    KeepsAgreement env s r ↔ RenamesClear s r := by
  constructor
  · intro hKeeps
    obtain ⟨op, os⟩ := r
    cases op with
    | rename tid oldpath newpath =>
      obtain ⟨hOld, hNew, hResponses⟩ := hAllowed
      intro hOnto
      obtain ⟨s', hs', hDisagrees⟩ := h.rename_disagrees hSelf hOld hNew hOnto hResponses
      exact hDisagrees (hKeeps s' hs')
    | _ => trivial
  · intro hRename s' hs'
    obtain ⟨t, hInv⟩ := (step_holds hSelf h hAllowed hRename).result hs'
    exact hInv.agrees

theorem filed_root (env : Env) (hFirst : f.firstWrite = false) (hObjects : sm.objects = [some f])
    (hStorage : sm.storage = update (fun _ => none) env.capioDir (some 0)) :
    Filed env (fun _ => none) sm := by
  have hOnly : ∀ p i, sm.storage p = some i → p = env.capioDir ∧ i = 0 := by
    simp [hStorage, update_apply]
  have hRoot : isFirstWrite sm env.capioDir = some false := by
    rw [← hFirst]
    refine isFirstWrite_of_object (i := 0) ?_ ?_
    · rw [hStorage, update_self]
    · rw [hObjects]
      rfl
  have hStored : ∀ p, sm.storage p ≠ none → p = env.capioDir := by
    intro p hp
    obtain ⟨i, hi⟩ := ne_none_iff_exists'.mp hp
    exact (hOnly p i hi).1
  refine ⟨⟨fun p q i hp hq => ?_, fun p i hp => ?_⟩, fun p hp => ?_, fun p hp => .inl (hStored p hp), hRoot,
    fun p hp => ?_⟩
  · rw [(hOnly p i hp).1, (hOnly q i hq).1]
  · rw [(hOnly p i hp).2, hObjects]
    exact Nat.zero_lt_one
  · rw [hStored p hp, hRoot]
    exact some_ne_none _
  · have hFree : sm.storage p = none := by
      by_contra hNone
      exact hp (hStored p hNone)
    grind [isFirstWrite_of_not_stored]

theorem located_root (env : Env) :
    Located env (fun _ => none) ⟨fun _ => [], addFileLocation (fun _ => none) env.capioDir
      ⟨env.nodeName, -1, true⟩⟩ where
  index := ⟨[], indexes_nil _ _ _⟩
  keys _ hp := absurd rfl hp
  others _ _ _ := rfl
  table := by
    funext p
    change update (fun _ => none) env.capioDir (some (LocationEntry.mk env.nodeName (-1) true)) p = _
    rw [update_apply]
    rfl

theorem boot_holds (env : Env) (os : Nat → Os) (serverPid : Tid) :
    Yields (boot env os serverPid fun _ => []) (Holds env) := by
  refine .bind (Q := fun r : Int × State => Holds env r.2) ?_ fun r hr => hr
  refine .bind (Q := fun f : CapioFile => f = CapioFile.new true _ _ _ _) rfl ?_
  rintro _ rfl
  refine .ite (fun _ => ?_) fun hNot => absurd rfl hNot
  refine .bind (Q := Holds env) ?_ fun s2 h2 => ?_
  · refine .ite (fun _ => ?_) fun hNot => absurd (SamePath.refl _) hNot
    exact ⟨fun _ => none, located_root env, filed_root env rfl rfl rfl⟩
  · refine (keeps_addDirectoryEntry s2 serverPid _ _ .dotEntry).bind fun s3 h3 => ?_
    refine (keeps_addDirectoryEntry s3 serverPid _ _ .dotDotEntry).bind fun s4 h4 => ?_
    exact h2.keeps (h3.trans h4)

/-- Over every sequence of requests on paths below `CAPIO_DIR` in which the searches read the files, the
table, the location file and the storage agree after each of them exactly if no recorded file is renamed
onto a stored one that is not published. -/
theorem locations_agree_iff {os : Nat → Os} {serverPid : Tid} {s0 : State} (requests : List Request)
    (hSelf : '\n' ∉ env.nodeName) (hBoot : boot env os serverPid (fun _ => []) = .ok s0)
    (hAllowed : Meets (fun w r => Allowed env w.1 r ∧ ReadsFiles env w r) (stepStreams env)
      (s0, fun _ => []) requests) :
    Meets (fun w r => KeepsAgreement env w.1 r) (stepStreams env) (s0, fun _ => []) requests ↔
      Meets (fun w r => RenamesClear w.1 r) (stepStreams env) (s0, fun _ => []) requests :=
  Meets.iff_of_inv (I := fun w : Streamed => Holds env w.1) (E := fun _ => True)
    (fun _ _ h hr => keepsAgreement_iff hSelf h hr.1)
    (fun _ _ h hr hClear => Ends.bind (step_holds hSelf h hr.1 hClear) fun _ hs => hs)
    ((boot_holds env os serverPid).result hBoot) hAllowed

instance (env : Env) (p : Path) : Decidable (Key env p) :=
  decidable_of_iff (¬ SamePath env.capioDir p ∧ ' ' ∉ p ∧ '\n' ∉ p ∧
    p.head? ≠ some CAPIO_SERVER_INVALIDATE_FILE_PATH_CHAR)
    ⟨fun ⟨h1, h2, h3, h4⟩ => ⟨h1, h2, h3, h4⟩, fun ⟨h1, h2, h3, h4⟩ => ⟨h1, h2, h3, h4⟩⟩

instance : DecidablePred ResumesCopy :=
  fun op => by
    apply Pending.casesOn (motive := fun op => Decidable (ResumesCopy op)) op <;> intros <;>
      dsimp only [ResumesCopy] <;> infer_instance

instance (env : Env) (s : State) : DecidablePred (Allowed env s)
  | ⟨op, os⟩ => by
    apply Op.casesOn (motive := fun op => Decidable (Allowed env s ⟨op, os⟩)) op <;> intros <;>
      dsimp only [Allowed] <;> infer_instance

instance (s : State) : DecidablePred (RenamesClear s)
  | ⟨op, os⟩ => by
    apply Op.casesOn (motive := fun op => Decidable (RenamesClear s ⟨op, os⟩)) op <;> intros <;>
      dsimp only [RenamesClear, RenamesOnto] <;> infer_instance

instance (env : Env) (w : Streamed) (r : Request) : Decidable (ReadsFiles env w r) :=
  inferInstanceAs (Decidable (_ → _))

def plain : Env := { Env.plain .onClose false 0 with cluster := ⟨[['n']], 4096⟩ }

def start : Except Failure State := boot plain (fun _ => Os.plain 64) 0 fun _ => []

def filesComeAndGo : List Request :=
  plainRequests 64 [.handshake 1 ['a'] false, .create 1 3 "/d/a".toList, .write 1 3 [7],
    .mkdir 1 "/d/x".toList, .createExclusive 1 4 "/d/x/b".toList, .close 1 4,
    .rename 1 "/d/x/b".toList "/d/a".toList, .rename 1 "/d/a".toList "/d/c".toList,
    .rmdir 1 "/d/x".toList, .close 1 3, .unlink 1 "/d/c".toList, .create 1 3 "/d/a".toList]

theorem locations_agree_comeAndGo : ∃ s0, start = .ok s0 ∧
    Meets (fun w r => KeepsAgreement plain w.1 r) (stepStreams plain) (s0, fun _ => []) filesComeAndGo ∧
    ∃ s, filesComeAndGo.foldlM (step plain) s0 = .ok s ∧
      s.locations.files ['n'] = "#d/a n\n#d/x n\n#d/x/b n\n#d/c n\n/d/a n\n".toList := by
  have hRun : ∃ s0, start = .ok s0 ∧ Meets (fun w r => Allowed plain w.1 r ∧ ReadsFiles plain w r)
        (stepStreams plain) (s0, fun _ => []) filesComeAndGo ∧
      Meets (fun w r => RenamesClear w.1 r) (stepStreams plain) (s0, fun _ => []) filesComeAndGo ∧
      ∃ s, filesComeAndGo.foldlM (step plain) s0 = .ok s ∧
        s.locations.files ['n'] = "#d/a n\n#d/x n\n#d/x/b n\n#d/c n\n/d/a n\n".toList := by
    decide +kernel
  obtain ⟨s0, hBoot, hAllowed, hClear, hRun⟩ := hRun
  exact ⟨s0, hBoot, (locations_agree_iff filesComeAndGo (by decide) hBoot hAllowed).mpr hClear, hRun⟩

def renamedOnto : List Request :=
  plainRequests 64 [.handshake 1 ['a'] false, .create 1 3 "/d/a".toList, .create 1 4 "/d//a".toList,
    .create 1 5 "/d/b".toList, .rename 1 "/d/b".toList "/d//a".toList]

def buffered : List Request :=
  plainRequests 64 [.handshake 1 ['a'] false, .create 1 3 "/d/a".toList, .create 1 4 "/d//a".toList,
    .close 1 3, .unlink 1 "/d/a".toList]

/-- The second spelling has a line and an entry, and its file is not published. A search for a path
whose line was in the buffer when it was deleted finds it, and enters it without a line. -/
theorem rename_onto_unpublished : ∃ s0, start = .ok s0 ∧
    Meets (Allowed plain) (step plain) s0 renamedOnto ∧
    (∃ s, renamedOnto.foldlM (step plain) s0 = .ok s ∧
      s.locations.files ['n'] = "/d/a n\n#d/b n\n/d//a n\n".toList ∧
      s.locations.table "/d//a".toList = some ⟨['n'], 14, true⟩ ∧
      isFirstWrite s.sm "/d//a".toList = some true) ∧
    Meets (Allowed plain) (step plain) s0 buffered ∧
    ∃ w, buffered.foldlM (stepStreams plain) (s0, fun _ => []) = .ok w ∧
      w.1.locations.files ['n'] = "#d/a n\n".toList ∧
      (loadFileLocation plain.cluster w.1.locations "/d/a".toList w.2).2.table "/d/a".toList =
        some ⟨['n'], 7, false⟩ := by
  decide +kernel

end Capio.Server.LocationTable
