import Capio.Server.StorageManager

/-! # Descriptors with an offset

Every descriptor of a server has an offset, and every stored path an object, as long as only
descriptors that are there are closed.  Then nothing refuses the descriptors of a new thread: it
obtains those of its parent, each with an offset of its own.
-/
namespace Capio.Server.StorageManager

open Common Lib.Outcome Storage List Option

structure WellFormed (sm : StorageManager) : Prop where
  offsets : ∀ k d, sm.openedFdMap.lookup k = some d →
    ∃ cell offset, d.offset = some cell ∧ sm.offsets[cell]? = some offset
  objects : ∀ path i, sm.storage path = some i → ∃ f, sm.objects[i]? = some (some f)

variable {tid : Tid} {fd : Fd}

section

variable {sm : StorageManager}

theorem wellFormed_init : WellFormed {} := ⟨fun _ _ hd => (nomatch hd), fun _ _ hi => (nomatch hi)⟩

theorem WellFormed.setObject (h : sm.WellFormed) (i : Nat) (f : CapioFile) :
    (sm.setObject i f).WellFormed := by
  refine ⟨h.offsets, fun path j hj => ?_⟩
  obtain ⟨f', hf'⟩ := h.objects path j hj
  by_cases hij : i = j
  · subst hij
    exact ⟨f, List.getElem?_set_self (List.getElem?_eq_some_iff.mp hf').1⟩
  · exact ⟨f', (getElem?_set_ne hij).trans hf'⟩

theorem WellFormed.modify (h : sm.WellFormed) (i : Nat) (f : CapioFile → CapioFile) :
    Yields (sm.modify i f) WellFormed := by
  refine (sm.modify_ends i f).mono ?_ fun _ _ => trivial
  rintro _ ⟨c, -, rfl⟩
  exact h.setObject i _

theorem WellFormed.storageAt (h : sm.WellFormed) (path : Path) (new : CapioFile) :
    (sm.storageAt path new).2.WellFormed ∧
      ∃ f, (sm.storageAt path new).2.objects[(sm.storageAt path new).1]? = some (some f) := by
  unfold StorageManager.storageAt
  cases hPath : sm.storage path with
  | some i => exact ⟨h, h.objects path i hPath⟩
  | none =>
    refine ⟨⟨h.offsets, fun path' i hi => ?_⟩, new, getElem?_concat_length⟩
    dsimp only at hi ⊢
    by_cases he : path' = path
    · rw [he, Function.update_self] at hi
      cases hi
      exact ⟨new, getElem?_concat_length⟩
    · rw [Function.update_of_ne he] at hi
      obtain ⟨f, hf⟩ := h.objects path' i hi
      exact ⟨f, (List.getElem?_append_left (List.getElem?_eq_some_iff.mp hf).1).trans hf⟩

theorem storageAt_descriptors (sm : StorageManager) (path : Path) (new : CapioFile) :
    (sm.storageAt path new).2.openedFdMap = sm.openedFdMap ∧
      (sm.storageAt path new).2.offsets = sm.offsets := by grind [StorageManager.storageAt]

theorem modify_eq (hc : sm.objects[i]? = some (some c)) (f : CapioFile → CapioFile) :
    sm.modify i f = .ok (sm.setObject i (f c)) := by
  simp [StorageManager.object, StorageManager.modify, hc]

theorem WellFormed.insert (h : sm.WellFormed) (k : Tid × Fd) (i : Option Nat) (path : Path) (offset : Int) :
    WellFormed { sm with
      openedFdMap := sm.openedFdMap.insert k ⟨i, some sm.offsets.length, path⟩
      offsets := sm.offsets ++ [offset] } := by
  refine ⟨fun k' d hd => ?_, h.objects⟩
  by_cases he : k' = k
  · rw [he, AList.lookup_insert] at hd
    cases hd
    exact ⟨_, offset, rfl, getElem?_concat_length⟩
  · rw [AList.lookup_insert_ne he] at hd
    obtain ⟨cell, v, hCell, hv⟩ := h.offsets k' d hd
    exact ⟨cell, v, hCell, (List.getElem?_append_left (List.getElem?_eq_some_iff.mp hv).1).trans hv⟩

theorem WellFormed.addNewFd (h : sm.WellFormed) (tid : Tid) (fd : Fd) (path : Path) (offset : Int)
    (registerOpen : Bool) : ∃ i sm', sm.addNewFd tid fd path offset registerOpen = .ok sm' ∧
    sm'.WellFormed ∧
      sm'.openedFdMap = sm.openedFdMap.insert (tid, fd) ⟨some i, some sm.offsets.length, path⟩ ∧
      sm'.offsets = sm.offsets ++ [offset] := by
  obtain ⟨h1, f, hf⟩ := h.storageAt path {}
  obtain ⟨hMap, hOffsets⟩ := storageAt_descriptors sm path {}
  unfold StorageManager.addNewFd
  generalize sm.storageAt path = stored at h1 hf hMap hOffsets ⊢
  obtain ⟨i, sm1⟩ := stored
  dsimp only at h1 hf hMap hOffsets ⊢
  rw [modify_eq hf, ← hMap, ← hOffsets]
  exact ⟨i, _, rfl, (h1.setObject i _).insert (tid, fd) (some i) path offset, rfl, rfl⟩

theorem WellFormed.dup (h : sm.WellFormed) (tid : Tid) (oldFd newFd : Fd) :
    Yields (sm.dup tid oldFd newFd) WellFormed := by
  unfold StorageManager.dup
  split
  · next i offset path hd =>
    have h1 : WellFormed { sm with
        openedFdMap := sm.openedFdMap.insert (tid, newFd) ⟨some i, offset, path⟩ } := by
      refine ⟨fun k d hk => ?_, h.objects⟩
      by_cases he : k = (tid, newFd)
      · rw [he, AList.lookup_insert] at hk
        cases hk
        exact h.offsets _ _ hd
      · rw [AList.lookup_insert_ne he] at hk
        exact h.offsets k d hk
    exact h1.modify i _
  · trivial

theorem WellFormed.removeFromTid (h : sm.WellFormed) (hOpen : sm.openedFdMap.lookup (tid, fd) ≠ none) :
    Yields (sm.removeFromTid tid fd) WellFormed := by
  obtain ⟨d, hd⟩ := ne_none_iff_exists'.mp hOpen
  unfold StorageManager.removeFromTid StorageManager.descriptor
  rw [hd]
  refine .ite (fun _ => h) fun _ => ?_
  split
  · trivial
  · next i _ =>
    refine (h.modify i _).bind fun sm1 h1 => ⟨fun k d' hk => ?_, h1.objects⟩
    by_cases he : k = (tid, fd)
    · rw [he, AList.lookup_erase] at hk
      cases hk
    · rw [AList.lookup_erase_ne he] at hk
      exact h1.offsets k d' hk

end

section

variable {sm : StorageManager} {parentTid childTid : Tid}

def offsetOf (sm : StorageManager) (tid : Tid) (fd : Fd) : Option Int :=
  ((sm.openedFdMap.lookup (tid, fd)).bind (·.offset)).bind (sm.offsets[·]?)

theorem getFileOffset_of_offsetOf (h : sm.offsetOf tid fd = some v) : sm.getFileOffset tid fd = .ok v := by
  obtain ⟨cell, hCell, hv⟩ := bind_eq_some_iff.mp h
  grind [getFileOffset, descriptor]

theorem WellFormed.offsetOf (h : sm.WellFormed) (hOpen : sm.openedFdMap.lookup (tid, fd) ≠ none) :
    ∃ v, sm.offsetOf tid fd = some v := by
  obtain ⟨d, hd⟩ := ne_none_iff_exists'.mp hOpen
  grind [StorageManager.offsetOf, h.offsets]

theorem offsetOf_of_old {sm' : StorageManager}
    (hMap : sm'.openedFdMap.lookup (tid, fd) = sm.openedFdMap.lookup (tid, fd))
    (hOld : ∀ (k : Nat) v, sm.offsets[k]? = some v → sm'.offsets[k]? = some v)
    (h : sm.offsetOf tid fd = some v) : sm'.offsetOf tid fd = some v := by
  grind [StorageManager.offsetOf, bind_eq_some_iff]

structure Cloned (parentTid childTid : Tid) (fds : List Fd) (sm sm' : StorageManager) : Prop where
  parent : ∀ fd, sm'.openedFdMap.lookup (parentTid, fd) = sm.openedFdMap.lookup (parentTid, fd)
  others : ∀ fd ∉ fds, sm'.openedFdMap.lookup (childTid, fd) = sm.openedFdMap.lookup (childTid, fd)
  old : ∀ (k : Nat) v, sm.offsets[k]? = some v → sm'.offsets[k]? = some v
  cells : ∀ (k : Nat) fd, fds[k]? = some fd →
    (sm'.openedFdMap.lookup (childTid, fd)).bind (·.offset) = some (sm.offsets.length + k)
  values : ∀ (k : Nat) fd, fds[k]? = some fd →
    sm'.offsets[sm.offsets.length + k]? = sm.offsetOf parentTid fd

theorem clone_fds (hTid : parentTid ≠ childTid) (hFds : fds.Nodup) (h : sm.WellFormed)
    (hOpen : ∀ fd ∈ fds, sm.openedFdMap.lookup (parentTid, fd) ≠ none) : ∃ sm', fds.foldlM (fun sm fd => do
        let offset ← sm.getFileOffset parentTid fd
        sm.addNewFd childTid fd (sm.descriptor parentTid fd).1.path offset false) sm = .ok sm' ∧
      Cloned parentTid childTid fds sm sm' := by
  induction fds generalizing sm with
  | nil =>
    refine ⟨sm, rfl, fun _ => rfl, fun _ _ => rfl, fun _ _ hk => hk, ?_, ?_⟩
    · exact fun k fd hk => absurd hk (by simp)
    · exact fun k fd hk => absurd hk (by simp)
  | cons fd fds ih =>
    obtain ⟨hNot, hFds⟩ := nodup_cons.mp hFds
    obtain ⟨v, hOffset⟩ := h.offsetOf (hOpen fd mem_cons_self)
    obtain ⟨i, sm1, hAdd, h1, hMap, hOffsets⟩ :=
      h.addNewFd childTid fd (sm.descriptor parentTid fd).1.path v false
    have hParent : ∀ fd', sm1.openedFdMap.lookup (parentTid, fd') =
        sm.openedFdMap.lookup (parentTid, fd') := by
      simp_all
    obtain ⟨sm', hRun, hRest⟩ := ih hFds h1 fun fd' hfd' => by
      rw [hParent]
      exact hOpen fd' (mem_cons_of_mem _ hfd')
    have hLength : sm1.offsets.length = sm.offsets.length + 1 := by
      rw [hOffsets, length_append, length_singleton]
    have hOld : ∀ (k : Nat) v, sm.offsets[k]? = some v → sm1.offsets[k]? = some v := by grind
    refine ⟨sm', ?_, fun fd' => (hRest.parent fd').trans (hParent fd'), fun fd' hfd' => ?_,
      fun k v hk => hRest.old k v (hOld k v hk), fun k fd' hk => ?_, fun k fd' hk => ?_⟩
    · rw [foldlM_cons, getFileOffset_of_offsetOf hOffset]
      change (sm.addNewFd childTid fd (sm.descriptor parentTid fd).1.path v false >>= _) = _
      rw [hAdd]
      exact hRun
    · have hNe : fd' ≠ fd := fun he => hfd' (he ▸ mem_cons_self)
      grind [AList.lookup_insert_ne, hRest.others, mem_cons_of_mem, Prod.mk.inj]
    · cases k with
      | zero =>
        obtain rfl : fd = fd' := some.inj hk
        rw [hRest.others fd hNot, hMap, AList.lookup_insert]
        rfl
      | succ k =>
        rw [hRest.cells k fd' hk, hLength]
        congr 1
        omega
    · cases k with
      | zero =>
        obtain rfl : fd = fd' := some.inj hk
        grind [hRest.old]
      | succ k =>
        have hMem := mem_of_getElem? hk
        obtain ⟨v', hv'⟩ := h.offsetOf (hOpen fd' hMem)
        rw [hv', ← offsetOf_of_old (hParent fd') hOld hv', ← hRest.values k fd' hk, hLength]
        congr 1
        omega

theorem nodup_getFileDescriptors (env : Env) (sm : StorageManager) (tid : Tid) :
    (sm.getFileDescriptors env tid).Nodup := by
  refine (env.fdOrder_perm _).nodup_iff.mpr (Nodup.map_on ?_ (sm.openedFdMap.keys_nodup.filter _))
  grind

theorem mem_getFileDescriptors (env : Env) :
    fd ∈ sm.getFileDescriptors env tid ↔ sm.openedFdMap.lookup (tid, fd) ≠ none := by
  rw [getFileDescriptors, (env.fdOrder_perm _).mem_iff, ← isSome_iff_ne_none, AList.lookup_isSome]
  simp [AList.mem_keys]

theorem clone_spec (env : Env) (hTid : parentTid ≠ childTid) (h : sm.WellFormed) :
    ∃ sm', sm.clone env parentTid childTid = .ok sm' ∧
      Cloned parentTid childTid (sm.getFileDescriptors env parentTid) sm sm' :=
  clone_fds hTid (nodup_getFileDescriptors env sm parentTid) h
    fun _ hfd => (mem_getFileDescriptors env).mp hfd

end

end Capio.Server.StorageManager
