import Capio.Server.DescriptorMap

/-! # Removing a file that is open

`StorageManager::remove` closes the descriptors of the file in a loop over the vector of the file's
descriptors, and each pass takes its element out of that vector.  The iterator goes on while the
elements move towards the front, so the loop is right for at most one descriptor.
-/
namespace Capio.Server.Removal

open Common Lib.Outcome Storage StorageManager Rename DescriptorMap List

variable {sm : StorageManager} {path : Path} {i : Nat} {f : CapioFile}

/-- One pass of the loop of `remove`, at a position of the vector. -/
def removeAt (i : Nat) (sm : StorageManager) (position : Nat) : Except Failure StorageManager := do
  let f ← sm.object i
  match f.threadsFd[position]? with
  | some (tid, fd) => sm.removeFromTid tid fd
  | none => throw .iteratorInvalidated

theorem removeFds_eq (sm : StorageManager) (i n : Nat) :
    sm.removeFds i n = (range' 0 n).foldlM (removeAt i) sm := by
  rw [← range_eq_range']
  rfl

theorem object_eq (hf : sm.objects[i]? = some (some f)) : sm.object i = .ok f := by
  unfold StorageManager.object
  rw [hf]

theorem removeAt_eq (hf : sm.objects[i]? = some (some f)) (position : Nat) : removeAt i sm position =
      match f.threadsFd[position]? with
      | some (tid, fd) => sm.removeFromTid tid fd
      | none => .error .iteratorInvalidated := by
  unfold removeAt
  rw [object_eq hf]
  rfl

section

variable (h : Linked sm) (hi : sm.storage path = some i) (hf : sm.objects[i]? = some (some f)) (hPath : path ≠ [])
include h hi hf hPath

theorem removeFromTid_listed (hMem : k ∈ f.threadsFd) :
    ∃ sm', sm.removeFromTid k.1 k.2 = .ok sm' ∧ Linked sm' ∧ sm'.storage = sm.storage ∧
      sm'.objects[i]? = some (some (f.removeFd k.1 k.2)) ∧
      sm'.openedFdMap = sm.openedFdMap.erase k := by
  obtain ⟨d, hd, rfl, hPointer⟩ := (h.mem_iff hi hf).mp hMem
  have hLt := (List.getElem?_eq_some_iff.mp hf).1
  unfold StorageManager.removeFromTid StorageManager.descriptor
  rw [hd]
  dsimp only
  rw [if_neg hPath, hPointer]
  dsimp only
  rw [modify_eq hf]
  refine ⟨_, rfl, h.erase hd hPointer hf rfl rfl rfl rfl rfl, rfl, ?_, rfl⟩
  exact List.getElem?_set_self hLt

theorem removeAt_ok (hPass : removeAt i sm position = .ok sm') :
    position < f.threadsFd.length ∧ Linked sm' ∧
      sm'.storage = sm.storage ∧ ∃ f', sm'.objects[i]? = some (some f') ∧
      f'.threadsFd.length + 1 = f.threadsFd.length := by
  rw [removeAt_eq hf] at hPass
  cases hAt : f.threadsFd[position]? with
  | none =>
    rw [hAt] at hPass
    cases hPass
  | some k =>
    rw [hAt] at hPass
    have hMem := mem_of_getElem? hAt
    obtain ⟨sm1, hRemove, hLinked, hStorage, hObject, -⟩ := removeFromTid_listed h hi hf hPath hMem
    obtain rfl : sm1 = sm' := Except.ok.inj (hRemove.symm.trans hPass)
    refine ⟨(List.getElem?_eq_some_iff.mp hAt).1, hLinked, hStorage, _, hObject, ?_⟩
    exact length_erase_add_one hMem

end

theorem passes_le (hPath : path ≠ []) (h : Linked sm) (hi : sm.storage path = some i)
    (hf : sm.objects[i]? = some (some f))
    (hRun : (range' position (n + 1)).foldlM (removeAt i) sm = .ok sm') :
    position + 2 * (n + 1) ≤ f.threadsFd.length + 1 := by
  induction n generalizing sm f position with
  | zero =>
    obtain ⟨sm1, hPass, -⟩ := exists_of_bind_eq_ok hRun
    obtain ⟨hLt, -⟩ := removeAt_ok h hi hf hPath hPass
    omega
  | succ n ih =>
    obtain ⟨sm1, hPass, hRest⟩ := exists_of_bind_eq_ok hRun
    obtain ⟨hLt, hLinked, hStorage, f1, hf1, hLength⟩ := removeAt_ok h hi hf hPath hPass
    have hLe := ih hLinked (hStorage.symm ▸ hi) hf1 hRest
    omega

theorem passes_nil (h : Linked sm) (hi : sm.storage [] = some i) (hf : sm.objects[i]? = some (some f))
    (hLe : position + n ≤ f.threadsFd.length) : (range' position n).foldlM (removeAt i) sm = .ok sm := by
  induction n generalizing position with
  | zero => rfl
  | succ n ih =>
    have hAt : f.threadsFd[position]? = some (f.threadsFd.get ⟨position, by omega⟩) :=
      getElem?_eq_getElem (by omega)
    have hMem := mem_of_getElem? hAt
    obtain ⟨d, hd, hEmpty, -⟩ := (h.mem_iff hi hf).mp hMem
    grind [StorageManager.removeFromTid, StorageManager.descriptor, removeAt_eq, range'_succ]

/-- The removal ends, and no descriptor of the file is left; the others are as they were. -/
def RemovesAll (sm : StorageManager) (path : Path) (i : Nat) : Prop :=
  ∃ sm', sm.remove path = .ok sm' ∧ sm'.storage = Function.update sm.storage path none ∧
    (∀ k d, sm'.openedFdMap.lookup k = some d → d.pointer ≠ some i) ∧
    ∀ k, (∀ d, sm.openedFdMap.lookup k = some d → d.pointer ≠ some i) →
      sm'.openedFdMap.lookup k = sm.openedFdMap.lookup k

theorem remove_eq (hi : sm.storage path = some i) (hf : sm.objects[i]? = some (some f)) :
    sm.remove path = sm.removeFds i f.threadsFd.length >>= fun sm1 => .ok { sm1 with
      objects := sm1.objects.set i none
      storage := Function.update sm1.storage path none } := by
  have hGet : sm.get path = .ok i := by
    unfold StorageManager.get
    rw [hi]
  unfold StorageManager.remove
  rw [hGet, ok_bind, object_eq hf, ok_bind]
  rfl

section

variable (h : Linked sm) (hi : sm.storage path = some i) (hf : sm.objects[i]? = some (some f))
include h hi hf

omit hi in
theorem mem_of_pointer (hd : sm.openedFdMap.lookup k = some d) (hPointer : d.pointer = some i) :
    k ∈ f.threadsFd := by
  obtain ⟨j, hj, hStored⟩ := h.entry k d hd
  grind [h.mem_iff]

theorem removesAll_of_loop (hRun : sm.removeFds i f.threadsFd.length = .ok sm1)
    (hStorage : sm1.storage = sm.storage)
    (hMap : ∀ k, sm1.openedFdMap.lookup k = if k ∈ f.threadsFd then none else sm.openedFdMap.lookup k) :
    RemovesAll sm path i := by
  refine ⟨_, (remove_eq hi hf).trans (by rw [hRun, ok_bind]),
    congrArg (Function.update · path none) hStorage, fun k d hd hPointer => ?_, fun k hOther => ?_⟩
  · rw [hMap k] at hd
    grind [mem_of_pointer]
  · refine (hMap k).trans (if_neg fun hMem => ?_)
    grind [h.mem_iff]

theorem removesAll_one (hPath : path ≠ []) (hFds : f.threadsFd = [k]) : RemovesAll sm path i := by
  have hMem : k ∈ f.threadsFd := by
    rw [hFds]
    exact mem_singleton_self k
  obtain ⟨sm1, hClose, -, hStorage, -, hMap⟩ := removeFromTid_listed h hi hf hPath hMem
  have hRun : sm.removeFds i f.threadsFd.length = .ok sm1 := by
    rw [hFds, removeFds_eq]
    change removeAt i sm 0 >>= pure = _
    rw [removeAt_eq hf, hFds]
    change sm.removeFromTid k.1 k.2 >>= pure = _
    rw [hClose]
    rfl
  grind [AList.lookup_erase, AList.lookup_erase_ne, removesAll_of_loop]

end

theorem not_removesAll_nil (h : Linked sm) (hi : sm.storage [] = some i)
    (hf : sm.objects[i]? = some (some f)) (hMem : k ∈ f.threadsFd) : ¬ RemovesAll sm [] i := by
  rintro ⟨sm', hRemove, -, hNone, -⟩
  rw [remove_eq hi hf, removeFds_eq, passes_nil h hi hf (Nat.zero_add _).le, ok_bind] at hRemove
  grind [Except.ok.inj, h.mem_iff]

theorem length_of_removesAll (h : Linked sm) (hi : sm.storage path = some i)
    (hf : sm.objects[i]? = some (some f)) (hPath : path ≠ []) (hLength : f.threadsFd.length = n + 1)
    (hAll : RemovesAll sm path i) : n = 0 := by
  obtain ⟨sm', hRemove, -⟩ := hAll
  rw [remove_eq hi hf] at hRemove
  obtain ⟨sm1, hRun, -⟩ := exists_of_bind_eq_ok hRemove
  rw [removeFds_eq, hLength] at hRun
  have hLe := passes_le hPath h hi hf hRun
  omega

/-- The file is removed with its descriptors exactly if it has at most one, and that one has a path. -/
theorem removesAll_iff (h : Linked sm) (hi : sm.storage path = some i) (hf : sm.objects[i]? = some (some f)) :
    RemovesAll sm path i ↔ f.threadsFd.length = 0 ∨ f.threadsFd.length = 1 ∧ path ≠ [] := by
  constructor
  · intro hAll
    cases hFds : f.threadsFd with
    | nil => exact .inl rfl
    | cons k fds =>
      have hMem : k ∈ f.threadsFd := by
        rw [hFds]
        exact mem_cons_self
      have hPath : path ≠ [] := by
        rintro rfl
        exact not_removesAll_nil h hi hf hMem hAll
      have hLength : f.threadsFd.length = fds.length + 1 := by rw [hFds, List.length_cons]
      have hZero := length_of_removesAll h hi hf hPath hLength hAll
      exact .inr ⟨by rw [List.length_cons, hZero], hPath⟩
  · rintro (hNone | ⟨hOne, hPath⟩)
    · have hNil := List.eq_nil_of_length_eq_zero hNone
      refine removesAll_of_loop h hi hf (by rw [hNone]; rfl) rfl fun k => ?_
      rw [hNil, if_neg List.not_mem_nil]
    · obtain ⟨k, hFds⟩ := List.length_eq_one_iff.mp hOne
      exact removesAll_one h hi hf hPath hFds

def openedBy (tids : List Tid) : List DescriptorMap.Op :=
  .add "/d/a".toList true 4096 :: tids.map fun tid => .addFileToTid tid 3 "/d/a".toList 0

def afterOpens (tids : List Tid) : Except Failure Run :=
  (openedBy tids).foldlM (DescriptorMap.step plain) {}

theorem exists_afterOpens (tids : List Tid)
    (hAllowed : Meets (fun s op => Allowed s.sm op ∧ RenamesOnePath s.sm op)
      (DescriptorMap.step plain) {} (openedBy tids))
    (hSeen : ∃ s, afterOpens tids = .ok s ∧ s.sm.storage "/d/a".toList = some 0 ∧
      (s.sm.objects[0]?.join.map CapioFile.threadsFd) = some (tids.map fun tid => (tid, 3))) :
    ∃ s f, afterOpens tids = .ok s ∧ Linked s.sm ∧ s.sm.storage "/d/a".toList = some 0 ∧
      s.sm.objects[0]? = some (some f) ∧ f.threadsFd = tids.map fun tid => (tid, 3) := by
  obtain ⟨s, hRun, hStored, hFds⟩ := hSeen
  have hInv : Returns (afterOpens tids) Inv :=
    run_ends (fun s op h hOp => ends_of_exists (step_inv plain h hOp.1 hOp.2)) inv_init _ hAllowed
  obtain ⟨f, hf, hList⟩ := Option.map_eq_some_iff.mp hFds
  exact ⟨s, f, hRun, (hInv.result hRun).linked, hStored, Option.join_eq_some_iff.mp hf, hList⟩

theorem removesAll_openedOnce : ∃ s, afterOpens [1] = .ok s ∧ RemovesAll s.sm "/d/a".toList 0 := by
  obtain ⟨s, f, hRun, hLinked, hStored, hf, hFds⟩ :=
    exists_afterOpens [1] (by decide +kernel) (by decide +kernel)
  refine ⟨s, hRun, (removesAll_iff hLinked hStored hf).mpr (.inr ⟨?_, by decide⟩)⟩
  rw [hFds]
  rfl

/-- Two processes have the directory open: the second pass looks behind the end of the vector. -/
theorem removal_behind_end : ∃ s, afterOpens [1, 2] = .ok s ∧ Linked s.sm ∧
    s.sm.storage "/d/a".toList = some 0 ∧
    s.sm.remove "/d/a".toList = .error .iteratorInvalidated ∧ ¬ RemovesAll s.sm "/d/a".toList 0 := by
  obtain ⟨s, f, hRun, hLinked, hStored, -⟩ :=
    exists_afterOpens [1, 2] (by decide +kernel) (by decide +kernel)
  obtain ⟨s', hRun', hError⟩ := exists_of_failure_bind
    (show failure (afterOpens [1, 2]) = none by decide +kernel)
    (show failure (afterOpens [1, 2] >>= fun s => s.sm.remove "/d/a".toList) =
      some .iteratorInvalidated by decide +kernel)
  obtain rfl : s = s' := Except.ok.inj (hRun.symm.trans hRun')
  refine ⟨s, hRun, hLinked, hStored, hError, ?_⟩
  rintro ⟨sm', hRemove, -⟩
  cases hError.symm.trans hRemove

end Capio.Server.Removal
