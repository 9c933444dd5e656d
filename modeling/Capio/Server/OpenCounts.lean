import Capio.Server.Descriptors
import Capio.Server.Rules

/-! # Open counts

A file counts its opens and is deleted by `unlink` when the count is not positive.  The requests that
open and close descriptors change the count and the descriptors separately; here it is shown which of
them keep the two equal.
-/
namespace Capio.Server.OpenCounts

open Common Lib.Outcome Storage List Option

def openOn (m : FdMap) (i : Nat) : List (Tid × Fd) :=
  (m.entries.filter fun e => e.2.pointer = some i).map Sigma.fst

theorem mem_openOn : k ∈ openOn m i ↔ ∃ d, m.lookup k = some d ∧ d.pointer = some i := by
  unfold openOn
  rw [List.mem_map]
  constructor
  · rintro ⟨⟨k, d⟩, hMem, rfl⟩
    obtain ⟨hEntry, hPointer⟩ := mem_filter.mp hMem
    exact ⟨d, AList.mem_lookup_iff.mpr hEntry, of_decide_eq_true hPointer⟩
  · rintro ⟨d, hd, hPointer⟩
    exact ⟨⟨k, d⟩, mem_filter.mpr ⟨AList.mem_lookup_iff.mp hd, decide_eq_true hPointer⟩, rfl⟩

def held (m : FdMap) (k : Tid × Fd) (i : Nat) : Nat :=
  if (m.lookup k).bind Descriptor.pointer = some i then 1 else 0

theorem length_openOn_erase (m : FdMap) (k : Tid × Fd) (i : Nat) :
    (openOn (m.erase k) i).length + held m k i = (openOn m i).length := by
  obtain ⟨entries, hKeys⟩ := m
  change ((kerase k entries).filter _ |>.map _).length +
    (if (dlookup k entries).bind Descriptor.pointer = some i then 1 else 0) =
      ((entries.filter _).map _).length
  clear hKeys
  induction entries with
  | nil => rfl
  | cons e entries ih =>
    obtain ⟨k', d'⟩ := e
    by_cases hk : k = k'
    · subst hk
      grind [kerase_cons_eq]
    · rw [kerase_cons_ne hk, dlookup_cons_ne _ _ hk, filter_cons, filter_cons]
      by_cases hPointer : d'.pointer = some i
      · grind
      · grind

theorem length_openOn_insert (m : FdMap) (k : Tid × Fd) (d : Descriptor) (i : Nat) :
    (openOn (m.insert k d) i).length + held m k i =
      (openOn m i).length + if d.pointer = some i then 1 else 0 := by
  have hErase := length_openOn_erase m k i
  have hInsert : (openOn (m.insert k d) i).length =
      (openOn (m.erase k) i).length + if d.pointer = some i then 1 else 0 := by
    change (((⟨k, d⟩ :: kerase k m.entries).filter _).map _).length =
      (((kerase k m.entries).filter _).map _).length + _
    grind
  omega

/-- The counts of all objects are right, descriptors point to objects, and a descriptor that points to
none has no offset either. -/
structure Counted (sm : StorageManager) : Prop where
  count : ∀ i (f : CapioFile), sm.objects[i]? = some (some f) →
    f.nOpens = (openOn sm.openedFdMap i).length
  allocated : ∀ k d i, sm.openedFdMap.lookup k = some d → d.pointer = some i → i < sm.objects.length
  blank : ∀ k d, sm.openedFdMap.lookup k = some d → d.pointer = none → d.offset = none

def Closed (sm : StorageManager) (tid : Tid) (fd : Fd) : Prop :=
  (sm.openedFdMap.lookup (tid, fd)).bind Descriptor.pointer = none

instance (sm : StorageManager) (tid : Tid) (fd : Fd) : Decidable (Closed sm tid fd) :=
  inferInstanceAs (Decidable (_ = _))

theorem counted_init : Counted {} :=
  ⟨fun _ _ hf => (nomatch hf), fun _ _ _ hd => (nomatch hd), fun _ _ hd => (nomatch hd)⟩

section

variable (h : Counted sm)
include h

theorem Counted.setObject (hf : sm.objects[i]? = some (some f))
    (hOpens : f'.nOpens = f.nOpens) : Counted (sm.setObject i f') := by
  refine ⟨fun j g hg => ?_, fun k d j hd hPointer => ?_, h.blank⟩
  · obtain ⟨rfl, rfl⟩ | ⟨-, hg⟩ := StorageManager.getElem?_setObject hg
    · exact hOpens.trans (h.count j f hf)
    · exact h.count j g hg
  · change j < (sm.objects.set i (some f')).length
    rw [length_set]
    exact h.allocated k d j hd hPointer

theorem openOn_eq_nil_of_free (hLe : sm.objects.length ≤ i) : openOn sm.openedFdMap i = [] := by
  rw [eq_nil_iff_forall_not_mem]
  intro k hk
  obtain ⟨d, hd, hPointer⟩ := mem_openOn.mp hk
  exact absurd (h.allocated k d i hd hPointer) (Nat.not_lt_of_le hLe)

theorem Counted.storageAt (path : Path) (new : CapioFile)
    (hNew : new.nOpens = 0) : Counted (sm.storageAt path new).2 := by
  unfold StorageManager.storageAt
  split
  · exact h
  · refine ⟨fun j g hg => ?_, fun k d j hd hPointer => ?_, h.blank⟩
    · by_cases hj : j < sm.objects.length
      · rw [getElem?_append_left hj] at hg
        exact h.count j g hg
      · -- the object is the new one, to which no descriptor points yet
        have hLt := (List.getElem?_eq_some_iff.mp hg).1
        rw [length_append, length_singleton] at hLt
        grind [getElem?_concat_length, some.injEq, openOn_eq_nil_of_free]
    · rw [length_append]
      exact Nat.lt_add_right _ (h.allocated k d j hd hPointer)

theorem Counted.insert (hFree : (sm.openedFdMap.lookup k).bind Descriptor.pointer = none)
    (hf : sm.objects[i]? = some (some f)) (hOpens : f'.nOpens = f.nOpens + 1) (hd : d.pointer = some i)
    (hObjects : sm'.objects = (sm.setObject i f').objects)
    (hMap : sm'.openedFdMap = sm.openedFdMap.insert k d) : Counted sm' := by
  have hNone : ∀ j, held sm.openedFdMap k j = 0 := by
    intro j
    unfold held
    rw [hFree]
    rfl
  have hLength : sm'.objects.length = sm.objects.length := by
    rw [hObjects]
    exact length_set
  refine ⟨fun j g hg => ?_, fun k' d' j hd' hPointer => ?_, fun k' d' hd' hPointer => ?_⟩
  · have hInsert := length_openOn_insert sm.openedFdMap k d j
    rw [hNone, Nat.add_zero] at hInsert
    rw [hObjects] at hg
    rw [hMap, hInsert]
    obtain ⟨rfl, rfl⟩ | ⟨hj, hg⟩ := StorageManager.getElem?_setObject hg
    · rw [hOpens, h.count j f hf, if_pos hd]
      push_cast
      rfl
    · have hOther : d.pointer ≠ some j := fun he => hj (some.inj (he.symm.trans hd))
      rw [if_neg hOther, h.count j g hg]
      rfl
  · rw [hLength]
    rw [hMap] at hd'
    by_cases he : k' = k
    · grind [AList.lookup_insert]
    · rw [AList.lookup_insert_ne he] at hd'
      exact h.allocated k' d' j hd' hPointer
  · rw [hMap] at hd'
    grind [AList.lookup_insert, AList.lookup_insert_ne, h.blank]

theorem Counted.erase (hk : sm.openedFdMap.lookup k = some d) (hd : d.pointer = some i)
    (hf : sm.objects[i]? = some (some f)) (hOpens : f'.nOpens = f.nOpens - 1)
    (hObjects : sm'.objects = (sm.setObject i f').objects)
    (hMap : sm'.openedFdMap = sm.openedFdMap.erase k) : Counted sm' := by
  have hSub : ∀ k' d', sm'.openedFdMap.lookup k' = some d' → sm.openedFdMap.lookup k' = some d' := by
    intro k' d' hd'
    grind [AList.lookup_erase, AList.lookup_erase_ne]
  have hLength : sm'.objects.length = sm.objects.length := by
    rw [hObjects]
    exact length_set
  refine ⟨fun j g hg => ?_, fun k' d' j hd' hPointer => ?_,
    fun k' d' hd' => h.blank k' d' (hSub k' d' hd')⟩
  · have hErase := length_openOn_erase sm.openedFdMap k j
    unfold held at hErase
    rw [hk, bind_some] at hErase
    rw [hObjects] at hg
    rw [hMap]
    obtain ⟨rfl, rfl⟩ | ⟨hj, hg⟩ := StorageManager.getElem?_setObject hg
    · rw [if_pos hd] at hErase
      rw [hOpens, h.count j f hf]
      omega
    · rw [if_neg fun he => hj (some.inj (he.symm.trans hd))] at hErase
      rw [h.count j g hg]
      omega
  · rw [hLength]
    exact h.allocated k' d' j (hSub k' d' hd') hPointer

theorem Counted.descriptor (tid : Tid) (fd : Fd) : Counted (sm.descriptor tid fd).2 := by
  unfold StorageManager.descriptor
  split
  · exact h
  · next hNone =>
    have hOpen : ∀ k d, (sm.openedFdMap.insert (tid, fd) {}).lookup k = some d →
        d = {} ∨ sm.openedFdMap.lookup k = some d := by
      grind [AList.lookup_insert, AList.lookup_insert_ne]
    refine ⟨fun i f hf => ?_, fun k d i hd hPointer => ?_, fun k d hd hPointer => ?_⟩
    · have hInsert := length_openOn_insert sm.openedFdMap (tid, fd) {} i
      grind [held, h.count, reduceCtorEq]
    · obtain rfl | hd := hOpen k d hd
      · cases hPointer
      · exact h.allocated k d i hd hPointer
    · obtain rfl | hd := hOpen k d hd
      · rfl
      · exact h.blank k d hd hPointer

theorem Counted.addFileToTid (hFree : Closed sm tid fd) (path : Path)
    (offset : Int) : Yields (sm.addFileToTid tid fd path offset) Counted := by
  have h1 := h.storageAt path {} rfl
  have hMap : (sm.storageAt path).2.openedFdMap = sm.openedFdMap := by
    unfold StorageManager.storageAt
    split <;> rfl
  unfold StorageManager.addFileToTid StorageManager.addNewFd
  generalize sm.storageAt path = r at h1 hMap ⊢
  obtain ⟨i, sm1⟩ := r
  refine (sm1.modify_ends i _).weaken.bind ?_
  rintro _ ⟨f, hf, rfl⟩
  exact h1.insert (hMap ▸ hFree) hf rfl rfl rfl rfl

theorem Counted.dup (tid : Tid) (oldFd : Fd) (hFree : Closed sm tid newFd) :
    Yields (sm.dup tid oldFd newFd) Counted := by
  unfold StorageManager.dup
  split
  · next i offset path hd =>
    refine (StorageManager.modify_ends _ i _).mono ?_ fun _ _ => trivial
    rintro _ ⟨f, hf, rfl⟩
    exact h.insert hFree hf rfl rfl rfl rfl
  · trivial

end

def OpenWait : Pending → Prop
  | .openFile .. | .clonedChild _ => True
  | _ => False

def opensFd : Pending → Option (Tid × Fd)
  | .openFile _ tid fd => some (tid, fd)
  | _ => none

structure Inv (s : State) : Prop where
  counted : Counted s.sm
  waiting : ∀ p ∈ s.pending, OpenWait p

section

variable (h : Inv s)
include h

theorem Inv.reply (tid : Tid) (offset : Int) : Yields (s.reply tid offset) Inv := by
  refine (s.reply_ends tid offset).mono ?_ fun _ _ => trivial
  rintro s' ⟨hsm, -, hPending, -⟩
  exact ⟨hsm ▸ h.counted, hPending ▸ h.waiting⟩

theorem Inv.wait (hp : OpenWait p) : Inv (s.wait p) := by
  refine ⟨h.counted, fun q hq => ?_⟩
  obtain hq | hq := mem_append.mp hq
  · exact h.waiting q hq
  · rwa [mem_singleton.mp hq]

theorem Inv.addDirectoryEntry (tid : Tid) (filePath dir : Path) (type : ManagerDirEntryType) :
    Yields (addDirectoryEntry env os s tid filePath dir type) Inv := by
  refine .skip fun i => ?_
  refine (s.sm.object_ends i).weaken.bind fun f hf => ?_
  refine (CapioFile.appendEntry_rebuffers _ _ f _ _).bind ?_
  rintro ⟨record, f'⟩ ⟨_, ⟨buffer, homeNode, rfl⟩, rfl⟩
  refine ⟨h.counted.setObject hf ?_, h.waiting⟩
  split
  · rw [CapioFile.setCommitted_eq]
    rfl
  · rfl

theorem Inv.updateDirectory (tid : Tid) (filePath : Path) :
    Yields (updateDirectory env os s tid filePath) Inv := by
  refine .skip fun i => ?_
  refine (s.sm.object_ends i).weaken.bind fun f hf => ?_
  refine Inv.addDirectoryEntry ?_ tid filePath _ .regularEntry
  split
  · exact ⟨h.counted.setObject hf rfl, h.waiting⟩
  · exact h

theorem Inv.publish (tid : Tid) (i : Nat) (path : Path) : Yields (publish env os s tid i path) Inv := by
  refine (s.sm.modify_ends i _).weaken.bind ?_
  rintro _ ⟨f, hf, rfl⟩
  refine Inv.updateDirectory ?_ tid path
  exact ⟨h.counted.setObject hf rfl, h.waiting⟩

theorem Inv.addDirectory (tid : Tid) (path : Path) :
    Yields (addDirectory env os s tid path) (fun r => Inv r.2) := by
  unfold Server.addDirectory
  cases s.locations.table path with
  | some entry => exact h
  | none =>
    have hStored : Counted (s.sm.add env path true CAPIO_DEFAULT_DIR_INITIAL_SIZE).2 :=
      h.counted.storageAt path _ rfl
    dsimp only
    generalize s.sm.add env path true CAPIO_DEFAULT_DIR_INITIAL_SIZE = r at hStored ⊢
    obtain ⟨i, sm⟩ := r
    refine (sm.object_ends i).weaken.bind fun f hf => ?_
    refine .ite (fun _ => ?_) fun _ => ⟨hStored, h.waiting⟩
    have hFirst : Counted (sm.setObject i f.registerFirstWrite) := hStored.setObject hf rfl
    refine .bind (Q := Inv) ?_ fun s1 h1 => ?_
    · refine .ite (fun _ => ⟨hFirst, h.waiting⟩) fun _ => ?_
      refine Inv.updateDirectory ?_ tid path
      exact ⟨hFirst, h.waiting⟩
    refine (h1.addDirectoryEntry tid path path .dotEntry).bind fun s2 h2 => ?_
    exact (h2.addDirectoryEntry tid _ path .dotDotEntry).bind fun s3 h3 => h3

theorem Inv.locate (env : Env) (path : Path) :
    Inv (s.locate env path).2 ∧ (s.locate env path).2.sm = s.sm := by
  unfold State.locate
  split
  · exact ⟨h, rfl⟩
  · exact ⟨⟨h.counted, h.waiting⟩, rfl⟩

theorem Inv.updateFileMetadata (hFree : Closed s.sm tid fd) (path : Path) (isCreat : Bool) (offset : Int) :
    Yields (updateFileMetadata env os s path tid fd isCreat offset) Inv := by
  have hStored : Counted (s.sm.add env path false env.fileInitialSize).2 := h.counted.storageAt path _ rfl
  have hFree' : Closed (s.sm.add env path false env.fileInitialSize).2 tid fd := by
    unfold StorageManager.add StorageManager.storageAt
    dsimp only
    split <;> exact hFree
  unfold Server.updateFileMetadata
  generalize s.sm.add env path false env.fileInitialSize = r at hStored hFree' ⊢
  obtain ⟨i, sm⟩ := r
  refine (hStored.addFileToTid hFree' path offset).bind fun sm1 h1 => ?_
  refine .skip fun f => ?_
  refine .ite (fun _ => ?_) fun _ => ⟨h1, h.waiting⟩
  refine Inv.publish ?_ tid i path
  exact ⟨h1, h.waiting⟩

theorem Inv.handleCreate (hFree : Closed s.sm tid fd) (path : Path) :
    Yields (handleCreate env os s tid fd path) Inv := by
  obtain ⟨h1, hsm⟩ := h.locate env path
  unfold Server.handleCreate
  exact (h1.updateFileMetadata (hsm.symm ▸ hFree) path _ 0).bind fun s2 h2 => h2.reply tid 0

theorem Inv.handleCreateExclusive (hFree : Closed s.sm tid fd) (path : Path) :
    Yields (handleCreateExclusive env os s tid fd path) Inv := by
  unfold Server.handleCreateExclusive
  cases s.sm.tryGet path with
  | some i => exact h.reply tid 1
  | none =>
    refine ((h.reply tid 0).and (s.reply_ends tid 0)).bind ?_
    rintro s1 ⟨h1, hsm, -⟩
    exact h1.updateFileMetadata (hsm.symm ▸ hFree) path true 0

theorem Inv.handleOpen (hFree : Closed s.sm tid fd) (path : Path) :
    Yields (handleOpen env os s tid fd path) Inv := by
  obtain ⟨h1, hsm⟩ := h.locate env path
  unfold Server.handleOpen
  refine .ite (fun _ => ?_) fun _ => h1.wait trivial
  exact (h1.updateFileMetadata (hsm.symm ▸ hFree) path false 0).bind fun s2 h2 => h2.reply tid 0

theorem Inv.unlessExcluded (tid : Tid) (path : Path) (hHandler : Yields handler Inv) :
    Yields (unlessExcluded env s tid path handler) Inv :=
  Ends.ite (fun _ => h.reply tid _) fun _ => hHandler

theorem Inv.handleClose (tid : Tid) (fd : Fd) : Yields (handleClose env s tid fd) Inv := by
  have hDescriptor := h.counted.descriptor tid fd
  unfold Server.handleClose State.getPath StorageManager.getPath
  cases hd : s.sm.openedFdMap.lookup (tid, fd) with
  | none =>
    unfold StorageManager.descriptor at hDescriptor ⊢
    rw [hd] at hDescriptor ⊢
    exact ⟨hDescriptor, h.waiting⟩
  | some d =>
    have hSelf : s.sm.descriptor tid fd = (d, s.sm) := by
      unfold StorageManager.descriptor
      rw [hd]
    rw [hSelf]
    refine .ite (fun _ => h) fun hPath => ?_
    refine (s.sm.getOfFd_ends tid fd).weaken.bind ?_
    rintro i ⟨d', hd', hPointer⟩
    obtain rfl : d = d' := some.inj (hd.symm.trans hd')
    refine (s.sm.object_ends i).weaken.bind fun f hf => ?_
    refine .bind (Q := fun f' : CapioFile => f'.nOpens = f.nOpens - 1) ?_ fun f' hOpens => ?_
    · refine .ite (fun _ => ?_) fun _ => rfl
      refine (CapioFile.dump_rebuffers _).imp ?_
      rintro _ ⟨buffer, homeNode, rfl⟩
      rw [CapioFile.setCommitted_eq]
      rfl
    · have hSelf' : (s.sm.setObject i f').descriptor tid fd = (d, s.sm.setObject i f') := by
        unfold StorageManager.descriptor
        rw [show (s.sm.setObject i f').openedFdMap = s.sm.openedFdMap from rfl, hd]
      refine .bind (Q := Counted) ?_ fun sm hsm => ⟨hsm, h.waiting⟩
      unfold StorageManager.removeFromTid
      rw [hSelf']
      refine .ite (fun he => absurd he hPath) fun _ => ?_
      rw [hPointer]
      refine (StorageManager.modify_ends _ i _).weaken.bind ?_
      rintro _ ⟨f1, hf1, rfl⟩
      obtain ⟨-, rfl⟩ | ⟨hNe, -⟩ := StorageManager.getElem?_setObject hf1
      · -- the object is written back twice, first with its new count, then with its new list
        have hTwice : ((s.sm.setObject i f1).setObject i (f1.removeFd tid fd)).objects =
          (s.sm.setObject i (f1.removeFd tid fd)).objects := set_set ..
        have hRemoved : (f1.removeFd tid fd).nOpens = f.nOpens - 1 := hOpens
        exact h.counted.erase hd hPointer hf hRemoved hTwice rfl
      · exact absurd rfl hNe

theorem Inv.dupHandler (tid : Tid) (hFree : oldFd ≠ newFd → Closed s.sm tid newFd) :
    Yields (dupHandler s tid oldFd newFd) Inv := by
  refine .ite (fun hNe => ?_) fun _ => h
  exact (h.counted.dup tid oldFd (hFree hNe)).bind fun sm hsm => ⟨hsm, h.waiting⟩

end

def AllClosed (sm : StorageManager) (tid : Tid) : Prop :=
  ∀ e ∈ sm.openedFdMap.entries, e.1.1 = tid → e.2.pointer = none

instance (sm : StorageManager) (tid : Tid) : Decidable (AllClosed sm tid) :=
  inferInstanceAs (Decidable (∀ _ ∈ _, _ → _))

theorem Inv.cloneHandler (h : Inv s) (hNone : AllClosed s.sm parentTid) (childTid : Tid) :
    Yields (cloneHandler env s parentTid childTid) Inv := by
  refine Ends.bind (Q := Counted) ?_ fun sm hsm => ⟨hsm, h.waiting⟩
  refine (Ends.foldlM (I := fun sm => sm = s.sm) (E := fun _ => True) ?_ rfl).mono
    (fun sm hsm => hsm ▸ h.counted) fun _ => id
  -- what is left in the map has no offset to copy
  rintro fd hfd _ rfl
  obtain ⟨d, hd⟩ := ne_none_iff_exists'.mp ((StorageManager.mem_getFileDescriptors env).mp hfd)
  have hPointer : d.pointer = none := hNone _ (AList.mem_lookup_iff.mp hd) rfl
  have hOffset : s.sm.getFileOffset parentTid fd = .error .nullPointer := by
    unfold StorageManager.getFileOffset StorageManager.descriptor
    rw [hd]
    dsimp only
    rw [h.counted.blank _ d hd hPointer]
    rfl
  rw [hOffset]
  trivial

theorem Inv.handleExitGroup (h : Inv s)
    (hRule : ∀ path ∈ s.cm.produced tid, env.engine.getCommitRule path ≠ .onTermination) :
    Yields (handleExitGroup env s tid) Inv := by
  refine Ends.bind (Q := Inv) ?_ fun s1 h1 => ?_
  · refine Ends.foldlM (fun path hPath s1 h1 => ?_) ⟨h.counted, h.waiting⟩
    have hMem : path ∈ s.cm.produced tid := (env.pathOrder_perm _).mem_iff.mp hPath
    unfold Server.commitOnTermination
    rw [if_neg (hRule path hMem)]
    exact h1
  · refine (Ends.foldlM (fun fd _ s2 h2 => h2.handleClose tid fd) h1).bind fun s2 h2 => ?_
    exact ⟨h2.counted, h2.waiting⟩

theorem Inv.resume (h : Inv s) (hp : OpenWait p) (hFree : ∀ k ∈ opensFd p, Closed s.sm k.1 k.2) :
    Yields (resume env os s p) (fun r => ∀ s' ∈ r, Inv s') := by
  cases p with
  | openFile path tid fd =>
    refine .ite (fun _ => ?_) fun _ => by simp
    have hLoad : Inv (s.load env path).2 := ⟨h.counted, h.waiting⟩
    refine (hLoad.updateFileMetadata (hFree (tid, fd) rfl) path false 0).bind fun s1 h1 => ?_
    refine .map ((h1.reply tid 0).imp (fun s2 h2 => ?_))
    rintro _ ⟨⟩
    exact h2
  | clonedChild tid =>
    refine .ite (fun _ => ?_) fun _ => by simp
    refine (h.reply tid 1).bind fun s1 h1 => ?_
    rintro _ ⟨⟩
    exact ⟨h1.counted, h1.waiting⟩
  | _ => exact hp.elim

/-- The requests that open and close descriptors, with the handshake of a thread and the detached
threads that go on. -/
def Opening : Op → Prop
  | .handshake .. | .create .. | .createExclusive .. | .openFile .. | .dup .. | .clone .. | .close ..
  | .exitGroup _ | .resume _ => True
  | _ => False

/-- When a request changes the count of a file by the number of descriptors it opens or closes on it:
a descriptor is opened under a number that is free in its thread, a thread is cloned before it has
opened anything, and what an exiting thread has produced is not committed on termination. -/
def Balanced (env : Env) (s : State) : Op → Prop
  | .create tid fd _ | .createExclusive tid fd _ | .openFile tid fd _ => Closed s.sm tid fd
  | .dup tid oldFd newFd => oldFd ≠ newFd → Closed s.sm tid newFd
  | .clone parentTid _ => AllClosed s.sm parentTid
  | .exitGroup tid => ∀ path ∈ s.cm.produced tid, env.engine.getCommitRule path ≠ .onTermination
  | .resume k => ∀ p ∈ s.pending[k]?, ∀ key ∈ opensFd p, Closed s.sm key.1 key.2
  | _ => True

instance (env : Env) (s : State) : DecidablePred (Balanced env s) :=
  fun op => by
    apply Op.casesOn (motive := fun op => Decidable (Balanced env s op)) op <;> intros <;>
      dsimp only [Balanced] <;> infer_instance

theorem step_inv (h : Inv s) (hOp : Opening r.op) (hBalanced : Balanced env s r.op) :
    Yields (step env s r) Inv := by
  obtain ⟨op, os⟩ := r
  cases op with
  | handshake tid appName wait =>
    have h1 : Inv { s with cm := s.cm.registerClient tid appName } := ⟨h.counted, h.waiting⟩
    change Inv (handshakeHandler s tid appName wait)
    unfold handshakeHandler
    split
    · exact h1.wait trivial
    · exact h1
  | create tid fd path => exact h.unlessExcluded tid path (h.handleCreate hBalanced path)
  | createExclusive tid fd path =>
    exact h.unlessExcluded tid path (h.handleCreateExclusive hBalanced path)
  | openFile tid fd path => exact h.unlessExcluded tid path (h.handleOpen hBalanced path)
  | close tid fd => exact h.handleClose tid fd
  | dup tid oldFd newFd => exact h.dupHandler tid hBalanced
  | clone parentTid childTid => exact h.cloneHandler hBalanced childTid
  | exitGroup tid => exact h.handleExitGroup hBalanced
  | resume k =>
    unfold Server.step
    dsimp only
    cases hk : s.pending[k]? with
    | none => exact h
    | some p =>
      have hErased : Inv { s with pending := s.pending.eraseIdx k } :=
        ⟨h.counted, fun q hq => h.waiting q (mem_of_mem_eraseIdx hq)⟩
      refine (hErased.resume (h.waiting p (mem_of_getElem? hk)) (hBalanced p hk)).bind fun r hr => ?_
      cases r with
      | none => exact h
      | some s' => exact hr s' rfl
  | _ => exact hOp.elim

theorem boot_inv (env : Env) (os : Nat → Os) (serverPid : Tid) (files : Node → List Char) :
    Yields (boot env os serverPid files) Inv := by
  have hInit : Inv { locations := ⟨files, fun _ => none⟩ } := ⟨counted_init, fun _ hp => nomatch hp⟩
  refine (hInit.addDirectory serverPid env.capioDir).bind ?_
  rintro ⟨result, s⟩ hs
  exact hs

/-- The count of a stored file is the number of its descriptors, so the file is deletable when it has
none, and an unlink leaves a file that has one where it is. -/
structure OpensCounted (env : Env) (s : State) : Prop where
  count : ∀ path i (f : CapioFile), s.sm.storage path = some i → s.sm.objects[i]? = some (some f) →
    f.nOpens = (openOn s.sm.openedFdMap i).length ∧ 0 ≤ f.nOpens
  deletable : ∀ path i (f : CapioFile), s.sm.storage path = some i → s.sm.objects[i]? = some (some f) →
    (f.deletable = true ↔ ∀ k d, s.sm.openedFdMap.lookup k = some d → d.pointer ≠ some i)
  unlink : ∀ tid path i k d s', s.sm.storage path = some i → s.sm.openedFdMap.lookup k = some d →
    d.pointer = some i → unlinkHandler env s tid path = .ok s' → s'.sm = s.sm

theorem Counted.deletable_iff (h : Counted sm) (hf : sm.objects[i]? = some (some f)) :
    f.deletable = true ↔ ∀ k d, sm.openedFdMap.lookup k = some d → d.pointer ≠ some i := by
  unfold CapioFile.deletable
  rw [decide_eq_true_iff, h.count i f hf]
  constructor
  · intro hLe k d hd hPointer
    have hEmpty : openOn sm.openedFdMap i = [] := length_eq_zero_iff.mp (by omega)
    exact ne_nil_of_mem (mem_openOn.mpr ⟨d, hd, hPointer⟩) hEmpty
  · intro hNone
    have hEmpty : openOn sm.openedFdMap i = [] := by
      rw [eq_nil_iff_forall_not_mem]
      grind [mem_openOn]
    rw [hEmpty]
    exact Int.le_refl 0

theorem Inv.opensCounted (h : Inv s) (env : Env) : OpensCounted env s := by
  refine ⟨fun path i f _ hf => ?_, fun path i f _ hf => h.counted.deletable_iff hf,
    fun tid path i k d s' hi hd hPointer hUnlink => ?_⟩
  · have hCount := h.counted.count i f hf
    exact ⟨hCount, hCount ▸ Int.natCast_nonneg _⟩
  · have hKept : Yields (unlinkHandler env s tid path) (fun s' => s'.sm = s.sm) := by
      have hReply : ∀ offset, Yields (s.reply tid offset) (fun s' => s'.sm = s.sm) :=
        fun offset => (s.reply_ends tid offset).mono (fun _ hs' => hs'.1) fun _ _ => trivial
      refine .ite (fun _ => hReply _) fun _ => ?_
      unfold StorageManager.tryGet
      rw [hi]
      refine (s.sm.object_ends i).weaken.bind fun f hf => ?_
      grind [h.counted.deletable_iff]
    exact hKept.result hUnlink

/-- In every state that a server reaches by balanced requests the counts are those of the descriptors. -/
theorem opens_counted {env : Env} {os : Nat → Os} {serverPid : Tid} {files : Node → List Char}
    {s0 s : State} {requests : List Request} (hBoot : boot env os serverPid files = .ok s0)
    (hOps : ∀ r ∈ requests, Opening r.op)
    (hBalanced : Meets (fun s r => Balanced env s r.op) (step env) s0 requests)
    (hRun : requests.foldlM (step env) s0 = .ok s) : OpensCounted env s := by
  have h0 := (boot_inv env os serverPid files).result hBoot
  have hMeets := hBalanced.and_of_forall hOps
  have hEnds := run_ends (fun s r h hr => step_inv h hr.1 hr.2) h0 requests hMeets
  exact (hEnds.result hRun).opensCounted env

def start (env : Env) : Except Failure State :=
  boot env (fun _ => Os.plain 0) 1 fun _ => []

def requests (ops : List Op) : List Request := plainRequests 0 (.handshake 7 ['a'] false :: ops)

def run (rule : CommitRule) (ops : List Op) : Except Failure State := do
  let s ← start (Env.plain rule false 0)
  (requests ops).foldlM (step (Env.plain rule false 0)) s

def duplicated : List Op :=
  [.create 7 3 "/d/a".toList, .dup 7 3 4, .openFile 7 5 "/d/a".toList, .close 7 3, .clone 9 8]

theorem opens_counted_duplicated : ∃ s0 s, start (Env.plain .onClose false 0) = .ok s0 ∧
    (requests duplicated).foldlM (step (Env.plain .onClose false 0)) s0 = .ok s ∧
    openOn s.sm.openedFdMap 1 = [(7, 5), (7, 4)] ∧ OpensCounted (Env.plain .onClose false 0) s := by
  have hSeen : ∃ s, run .onClose duplicated = .ok s ∧ openOn s.sm.openedFdMap 1 = [(7, 5), (7, 4)] := by
    decide +kernel
  obtain ⟨s, hAll, hOpen⟩ := hSeen
  obtain ⟨s0, hBoot, hRun⟩ := exists_of_bind_eq_ok hAll
  have hBalanced : ∀ s0, start (Env.plain .onClose false 0) = .ok s0 →
      Meets (fun s r => Balanced (Env.plain .onClose false 0) s r.op)
        (step (Env.plain .onClose false 0)) s0 (requests duplicated) := by decide +kernel
  refine ⟨s0, s, hBoot, hRun, hOpen, opens_counted hBoot ?_ (hBalanced s0 hBoot) hRun⟩
  simp [requests, plainRequests, duplicated, Opening]

def observe (s : State) (path : Path) : Option (Int × List (Tid × Fd)) := do
  let i ← s.sm.storage path
  let f ← s.sm.objects[i]?.join
  some (f.nOpens, openOn s.sm.openedFdMap i)

/-- The descriptor of a cloned thread is not counted, and an unlink takes the file away from it; the
exit of a producer counts its file down once more; and a descriptor that `dup2` replaces is never
counted down. -/
theorem opens_miscounted :
    (∃ s s', run .onClose [.create 7 3 "/d/a".toList, .clone 7 8, .close 7 3] = .ok s ∧
      observe s "/d/a".toList = some (0, [(8, 3)]) ∧
      unlinkHandler (Env.plain .onClose false 0) s 7 "/d/a".toList = .ok s' ∧
      observe s' "/d/a".toList = none ∧ s'.sm.openedFdMap.lookup (8, 3) = none) ∧
    (∃ s, run .onTermination [.create 7 3 "/d/a".toList, .exitGroup 7] = .ok s ∧
      observe s "/d/a".toList = some (-1, [])) ∧
    ∃ s, run .onClose [.create 7 3 "/d/a".toList, .create 7 4 "/d/b".toList, .dup 7 3 4] = .ok s ∧
      observe s "/d/b".toList = some (1, []) := by
  refine ⟨?_, ?_, ?_⟩
  · have hSeen : ∃ s, run .onClose [.create 7 3 "/d/a".toList, .clone 7 8, .close 7 3] = .ok s ∧
        observe s "/d/a".toList = some (0, [(8, 3)]) ∧
        ∃ s', unlinkHandler (Env.plain .onClose false 0) s 7 "/d/a".toList = .ok s' ∧
          observe s' "/d/a".toList = none ∧ s'.sm.openedFdMap.lookup (8, 3) = none := by
      decide +kernel
    obtain ⟨s, hRun, hBefore, s', hUnlink, hAfter⟩ := hSeen
    exact ⟨s, s', hRun, hBefore, hUnlink, hAfter⟩
  · decide +kernel
  · decide +kernel

end Capio.Server.OpenCounts
