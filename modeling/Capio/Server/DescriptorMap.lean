import Capio.Server.Descriptors
import Capio.Server.Rename

/-! # Descriptors and the files they are open on

Which file a descriptor is open on is kept three times: as the path of its entry, as a pointer to the
file object, and in the list of descriptors of the object.  Each operation of the storage manager
changes the copies one after the other; here they are shown to agree after every operation.
-/
namespace Capio.Server.DescriptorMap

open Common Lib.Outcome Storage StorageManager Rename Function List Option

def pathOf (sm : StorageManager) (k : Tid × Fd) : Option Path :=
  (sm.openedFdMap.lookup k).map Descriptor.path

/-- The three copies agree: the list of the object at a path has each descriptor of that path once, and
no other. -/
structure Linked (sm : StorageManager) : Prop where
  wellFormed : sm.WellFormed
  own : OwnObjects sm
  entry : ∀ k d, sm.openedFdMap.lookup k = some d →
    ∃ i, d.pointer = some i ∧ sm.storage d.path = some i
  count : ∀ p i f, sm.storage p = some i → sm.objects[i]? = some (some f) →
    ∀ k, f.threadsFd.count k = if pathOf sm k = some p then 1 else 0

section

variable {sm : StorageManager} {k : Tid × Fd} {d : Descriptor} {i : Nat} {path : Path}

theorem linked_init : Linked {} :=
  ⟨wellFormed_init, ⟨fun _ _ _ hp => (nomatch hp), fun _ _ hp => (nomatch hp)⟩,
    fun _ _ hd => (nomatch hd), fun _ _ _ hp => (nomatch hp)⟩

theorem pathOf_eq_some (hk : pathOf sm k = some p) : ∃ d, sm.openedFdMap.lookup k = some d ∧ d.path = p :=
  map_eq_some_iff.mp hk

section

variable (h : Linked sm)
include h

theorem Linked.mem_iff (hi : sm.storage path = some i) (hf : sm.objects[i]? = some (some f)) :
    k ∈ f.threadsFd ↔ ∃ d, sm.openedFdMap.lookup k = some d ∧ d.path = path ∧ d.pointer = some i := by
  have hCount := h.count path i f hi hf k
  grind [pathOf, pathOf_eq_some, h.entry]

theorem Linked.storageAt (path : Path) (hNew : new.threadsFd = []) : Linked (sm.storageAt path new).2 := by
  refine ⟨(h.wellFormed.storageAt path new).1, h.own.storageAt path new, ?_, ?_⟩
  · intro k d hd
    rw [(storageAt_descriptors sm path new).1] at hd
    obtain ⟨i, hPointer, hi⟩ := h.entry k d hd
    refine ⟨i, hPointer, ?_⟩
    unfold StorageManager.storageAt
    split
    · exact hi
    · grind
  · intro p i f hp hf k
    unfold pathOf
    rw [(storageAt_descriptors sm path new).1]
    unfold StorageManager.storageAt at hp hf
    split at hp
    · next hStored =>
      rw [hStored] at hf
      exact h.count p i f hp hf k
    · next hFree =>
      rw [hFree] at hf
      obtain ⟨rfl, hi⟩ | ⟨-, hp⟩ := update_eq_some_iff.mp hp
      · obtain rfl := some.inj hi
        obtain rfl : new = f := by
          rw [getElem?_concat_length] at hf
          exact some.inj (some.inj hf)
        rw [hNew, if_neg]
        · rfl
        · intro hk
          obtain ⟨d, hd, rfl⟩ := pathOf_eq_some hk
          grind [h.entry]
      · rw [getElem?_append_left (h.own.allocated p i hp)] at hf
        exact h.count p i f hp hf k

theorem Linked.insert (hFree : sm.openedFdMap.lookup k = none) (hi : sm.storage path = some i)
    (hf : sm.objects[i]? = some (some f)) (hFds : f'.threadsFd = f.threadsFd ++ [k])
    (hObjects : sm'.objects = (sm.setObject i f').objects) (hStorage : sm'.storage = sm.storage)
    (hMap : sm'.openedFdMap = sm.openedFdMap.insert k ⟨some i, some cell, path⟩)
    (hOld : sm.offsets.length ≤ sm'.offsets.length) (hCell : cell < sm'.offsets.length) : Linked sm' := by
  have hOpen : ∀ k' d', sm'.openedFdMap.lookup k' = some d' →
      d' = ⟨some i, some cell, path⟩ ∨ sm.openedFdMap.lookup k' = some d' := by
    grind [AList.lookup_insert, AList.lookup_insert_ne]
  have hPath : ∀ k', pathOf sm' k' = if k' = k then some path else pathOf sm k' := by
    intro k'
    unfold pathOf
    grind [AList.lookup_insert, AList.lookup_insert_ne]
  refine ⟨⟨fun k' d' hd' => ?_, fun p j hp => ?_⟩, h.own.restrict (fun p j hp => ?_) ?_,
    fun k' d' hd' => ?_, fun p j g hp hg k' => ?_⟩
  · obtain rfl | hd' := hOpen k' d' hd'
    · exact ⟨cell, _, rfl, getElem?_eq_getElem hCell⟩
    · obtain ⟨c, v, hc, hv⟩ := h.wellFormed.offsets k' d' hd'
      grind
  · rw [hStorage] at hp
    rw [hObjects]
    exact (h.wellFormed.setObject i f').objects p j hp
  · rwa [hStorage] at hp
  · rw [hObjects]
    exact length_set
  · rw [hStorage]
    grind [h.entry]
  · rw [hStorage] at hp
    rw [hObjects] at hg
    rw [hPath]
    have hNone : pathOf sm k = none := by
      unfold pathOf
      rw [hFree, map_none]
    obtain ⟨rfl, rfl⟩ | ⟨hj, hg⟩ := getElem?_setObject hg
    · -- the object of the path
      grind [h.own.inj, h.count, count_singleton]
    · have hp' : p ≠ path := by
        rintro rfl
        exact hj (some.inj (hp.symm.trans hi))
      grind [h.count, hp'.symm]

theorem Linked.erase (hd : sm.openedFdMap.lookup k = some d) (hi : d.pointer = some i)
    (hf : sm.objects[i]? = some (some f)) (hFds : f'.threadsFd = f.threadsFd.erase k)
    (hObjects : sm'.objects = (sm.setObject i f').objects) (hStorage : sm'.storage = sm.storage)
    (hMap : sm'.openedFdMap = sm.openedFdMap.erase k) (hOffsets : sm'.offsets = sm.offsets) :
    Linked sm' := by
  have hOpen : ∀ k' d', sm'.openedFdMap.lookup k' = some d' → sm.openedFdMap.lookup k' = some d' := by
    intro k' d' hd'
    grind [AList.lookup_erase, AList.lookup_erase_ne]
  have hPath : ∀ k', pathOf sm' k' = if k' = k then none else pathOf sm k' := by
    intro k'
    unfold pathOf
    grind [AList.lookup_erase, AList.lookup_erase_ne]
  have hHere : pathOf sm k = some d.path := by
    unfold pathOf
    rw [hd, map_some]
  obtain ⟨i', hi', hStored⟩ := h.entry k d hd
  obtain rfl : i = i' := some.inj (hi.symm.trans hi')
  refine ⟨⟨fun k' d' hd' => ?_, fun p j hp => ?_⟩, h.own.restrict (fun p j hp => ?_) ?_,
    fun k' d' hd' => ?_, fun p j g hp hg k' => ?_⟩
  · rw [hOffsets]
    exact h.wellFormed.offsets k' d' (hOpen k' d' hd')
  · rw [hStorage] at hp
    rw [hObjects]
    exact (h.wellFormed.setObject i f').objects p j hp
  · rwa [hStorage] at hp
  · rw [hObjects]
    exact length_set
  · rw [hStorage]
    exact h.entry k' d' (hOpen k' d' hd')
  · rw [hStorage] at hp
    rw [hObjects] at hg
    rw [hPath]
    obtain ⟨rfl, rfl⟩ | ⟨hj, hg⟩ := getElem?_setObject hg
    · obtain rfl : p = d.path := h.own.inj p d.path j hp hStored
      grind [h.count]
    · have hp' : p ≠ d.path := by
        rintro rfl
        exact hj (some.inj (hp.symm.trans hStored))
      grind [h.count, hp'.symm]

theorem Linked.addNewFd (hFree : sm.openedFdMap.lookup (tid, fd) = none)
    (hi : sm.storage path = some i) (offset : Int) (registerOpen : Bool) :
    ∃ sm', sm.addNewFd tid fd path offset registerOpen = .ok sm' ∧ Linked sm' ∧
      sm'.storage = sm.storage ∧ sm'.offsets = sm.offsets ++ [offset] ∧
      sm'.openedFdMap = sm.openedFdMap.insert (tid, fd) ⟨some i, some sm.offsets.length, path⟩ := by
  obtain ⟨f, hf⟩ := h.wellFormed.objects path i hi
  unfold StorageManager.addNewFd
  rw [storageAt_of_stored hi]
  dsimp only
  rw [modify_eq hf]
  have hFds : ((if registerOpen then f.openFile else f).addFd tid fd).threadsFd =
      f.threadsFd ++ [(tid, fd)] := by
    cases registerOpen with
    | true => rfl
    | false => rfl
  have hLength : (sm.offsets ++ [offset]).length = sm.offsets.length + 1 := by simp
  refine ⟨_, rfl, h.insert hFree hi hf hFds rfl rfl rfl ?_ ?_, rfl, rfl, rfl⟩
  · exact hLength ▸ Nat.le_succ _
  · exact hLength ▸ Nat.lt_succ_self _

theorem Linked.dup (hOld : sm.openedFdMap.lookup (tid, oldFd) = some d)
    (hFree : sm.openedFdMap.lookup (tid, newFd) = none) :
    ∃ sm', sm.dup tid oldFd newFd = .ok sm' ∧ Linked sm' ∧
      sm'.openedFdMap = sm.openedFdMap.insert (tid, newFd) d := by
  obtain ⟨i, hPointer, hi⟩ := h.entry _ d hOld
  obtain ⟨cell, v, hCell, hv⟩ := h.wellFormed.offsets _ d hOld
  obtain ⟨f, hf⟩ := h.wellFormed.objects _ i hi
  obtain ⟨pointer, offset, path⟩ := d
  obtain rfl : pointer = some i := hPointer
  obtain rfl : offset = some cell := hCell
  let sm1 : StorageManager :=
    { sm with openedFdMap := sm.openedFdMap.insert (tid, newFd) ⟨some i, some cell, path⟩ }
  have hDup : sm.dup tid oldFd newFd = .ok (sm1.setObject i (f.openFile.addFd tid newFd)) := by
    unfold StorageManager.dup
    rw [hOld]
    exact modify_eq (show sm1.objects[i]? = some (some f) from hf) _
  have hCellLt := (List.getElem?_eq_some_iff.mp hv).1
  exact ⟨_, hDup, h.insert hFree hi hf rfl rfl rfl rfl (Nat.le_refl _) hCellLt, rfl⟩

theorem Linked.removeFromTid (hOpen : sm.openedFdMap.lookup (tid, fd) ≠ none) :
    ∃ sm', sm.removeFromTid tid fd = .ok sm' ∧ Linked sm' ∧
      ∀ k d, sm'.openedFdMap.lookup k = some d → sm.openedFdMap.lookup k = some d := by
  obtain ⟨d, hd⟩ := ne_none_iff_exists'.mp hOpen
  obtain ⟨i, hPointer, hi⟩ := h.entry _ d hd
  obtain ⟨f, hf⟩ := h.wellFormed.objects _ i hi
  unfold StorageManager.removeFromTid StorageManager.descriptor
  rw [hd]
  dsimp only
  split
  · exact ⟨sm, rfl, h, fun _ _ => id⟩
  · rw [hPointer]
    dsimp only
    rw [modify_eq hf]
    refine ⟨_, rfl, h.erase hd hPointer hf rfl rfl rfl rfl rfl, fun k d' hk => ?_⟩
    by_cases he : k = (tid, fd)
    · rw [he] at hk
      cases (AList.lookup_erase _ _).symm.trans hk
    · exact (AList.lookup_erase_ne he).symm.trans hk

theorem Linked.setFileOffset (hOpen : sm.openedFdMap.lookup (tid, fd) ≠ none) (offset : Int) :
    ∃ sm', sm.setFileOffset tid fd offset = .ok sm' ∧ Linked sm' ∧ sm'.openedFdMap = sm.openedFdMap := by
  obtain ⟨d, hd⟩ := ne_none_iff_exists'.mp hOpen
  obtain ⟨cell, v, hCell, -⟩ := h.wellFormed.offsets _ d hd
  unfold StorageManager.setFileOffset StorageManager.descriptor
  rw [hd]
  rw [hCell]
  refine ⟨_, rfl, ⟨⟨fun k' d' hd' => ?_, h.wellFormed.objects⟩, ⟨h.own.inj, h.own.allocated⟩, h.entry,
    h.count⟩, rfl⟩
  obtain ⟨cell', v', hCell', hv'⟩ := h.wellFormed.offsets k' d' hd'
  grind

end

end

section

variable {sm : StorageManager} {oldpath newpath : Path} {i : Nat}

/-- A descriptor is renamed if its path compares equal to the old one; those are the descriptors of the
old path if no other spelling of it is open. -/
def Unaliased (sm : StorageManager) (oldpath : Path) : Prop :=
  ∀ e ∈ sm.openedFdMap.entries, SamePath e.2.path oldpath → e.2.path = oldpath

instance (sm : StorageManager) (oldpath : Path) : Decidable (Unaliased sm oldpath) :=
  inferInstanceAs (Decidable (∀ _ ∈ _, _ → _))

theorem Unaliased.path (h : Unaliased sm oldpath) (hd : sm.openedFdMap.lookup k = some d)
    (hSame : SamePath d.path oldpath) : d.path = oldpath :=
  h ⟨k, d⟩ (AList.mem_lookup_iff.mp hd) hSame

theorem offsets_rename (sm : StorageManager) (oldpath newpath : Path) :
    (sm.rename oldpath newpath).offsets = sm.offsets := by grind [StorageManager.rename]

theorem Linked.rename (h : Linked sm) (hi : sm.storage oldpath = some i) (hNew : sm.storage newpath = none)
    (hAlias : Unaliased sm oldpath) : Linked (sm.rename oldpath newpath) := by
  obtain ⟨hStorage, hObjects⟩ := rename_free hi hNew
  have hOpen : ∀ k d', (sm.rename oldpath newpath).openedFdMap.lookup k = some d' →
      ∃ d, sm.openedFdMap.lookup k = some d ∧ d'.pointer = d.pointer ∧ d'.offset = d.offset ∧
        (d.path = oldpath ∧ d'.path = newpath ∨ d.path ≠ oldpath ∧ d'.path = d.path) := by
    intro k d' hd'
    rw [lookup_rename, map_eq_some_iff] at hd'
    obtain ⟨d, hd, rfl⟩ := hd'
    refine ⟨d, hd, rfl, rfl, ?_⟩
    by_cases hSame : SamePath d.path oldpath
    · exact .inl ⟨hAlias.path hd hSame, if_pos hSame⟩
    · refine .inr ⟨?_, if_neg hSame⟩
      intro he
      exact hSame (congrArg collapse he)
  have hUsed : ∀ k d, sm.openedFdMap.lookup k = some d → d.path ≠ newpath := by
    rintro k d hd rfl
    obtain ⟨j, -, hj⟩ := h.entry k d hd
    cases hNew.symm.trans hj
  refine ⟨⟨fun k d' hd' => ?_, fun p j hp => ?_⟩, h.own.rename oldpath newpath, fun k d' hd' => ?_,
    fun p j f hp hf k => ?_⟩
  · obtain ⟨d, hd, -, hOffset, -⟩ := hOpen k d' hd'
    rw [hOffset, offsets_rename]
    exact h.wellFormed.offsets k d hd
  · rw [hObjects]
    obtain ⟨-, hp⟩ | ⟨-, hp⟩ := storage_of_rename hp
    · exact h.wellFormed.objects oldpath j hp
    · exact h.wellFormed.objects p j hp
  · obtain ⟨d, hd, hPointer, -, hPath⟩ := hOpen k d' hd'
    obtain ⟨j, hj, hStored⟩ := h.entry k d hd
    grind [storage_rename_of_ne]
  · rw [hObjects] at hf
    -- the path before
    obtain ⟨q, hq, hMoved⟩ : ∃ q, sm.storage q = some j ∧
        (pathOf (sm.rename oldpath newpath) k = some p ↔ pathOf sm k = some q) := by
      unfold pathOf
      rw [lookup_rename]
      cases hd : sm.openedFdMap.lookup k with
      | none =>
        obtain ⟨-, hp⟩ | ⟨-, hp⟩ := storage_of_rename hp
        · exact ⟨oldpath, hp, by simp⟩
        · exact ⟨p, hp, by simp⟩
      | some d =>
        simp only [map_some, some.injEq]
        obtain ⟨rfl, hOld⟩ | ⟨hOther, hp⟩ := storage_of_rename hp
        · refine ⟨oldpath, hOld, ?_⟩
          split
          · next hSame => simp [hAlias.path hd hSame]
          · next hSame =>
            have hNe : d.path ≠ oldpath := fun he => hSame (congrArg collapse he)
            simp [hUsed k d hd, hNe]
        · refine ⟨p, hp, ?_⟩
          grind [hAlias.path]
    rw [h.count q j f hq hf k]
    exact if_congr hMoved.symm rfl rfl

end

section

variable {sm sm' : StorageManager} {k : Tid × Fd} {α : Type} {origin origin' : Tid × Fd → α}

def Sharing (origin : Tid × Fd → α) (sm : StorageManager) : Prop :=
  ∀ k k' d d', sm.openedFdMap.lookup k = some d → sm.openedFdMap.lookup k' = some d' →
    (d.offset = d'.offset ↔ origin k = origin k')

theorem Sharing.restrict (h : Sharing origin sm) (hSub : ∀ k d, sm'.openedFdMap.lookup k = some d →
      ∃ d0, sm.openedFdMap.lookup k = some d0 ∧ d.offset = d0.offset)
    (hOrigin : ∀ k d, sm'.openedFdMap.lookup k = some d → origin' k = origin k) : Sharing origin' sm' := by
  intro k k' d d' hd hd'
  obtain ⟨d0, hd0, hOffset⟩ := hSub k d hd
  obtain ⟨d0', hd0', hOffset'⟩ := hSub k' d' hd'
  rw [hOffset, hOffset', hOrigin k d hd, hOrigin k' d' hd']
  exact h k k' d0 d0' hd0 hd0'

theorem Sharing.insert (h : Sharing origin sm) (hMap : sm'.openedFdMap = sm.openedFdMap.insert k e)
    (hNew : ∀ k' d', k' ≠ k → sm.openedFdMap.lookup k' = some d' →
      (d'.offset = e.offset ↔ origin k' = origin k)) : Sharing origin sm' := by
  intro k1 k2 d1 d2 h1 h2
  rw [hMap] at h1 h2
  by_cases hk1 : k1 = k
  · rw [hk1, AList.lookup_insert] at h1
    obtain rfl := some.inj h1
    by_cases hk2 : k2 = k
    · grind [AList.lookup_insert]
    · rw [AList.lookup_insert_ne hk2] at h2
      rw [hk1, eq_comm, hNew k2 d2 hk2 h2, eq_comm]
  · rw [AList.lookup_insert_ne hk1] at h1
    by_cases hk2 : k2 = k
    · grind [AList.lookup_insert]
    · rw [AList.lookup_insert_ne hk2] at h2
      exact h k1 k2 d1 d2 h1 h2

theorem Sharing.insertNew (h : Sharing origin sm) (hsm : sm.WellFormed)
    (hMap : sm'.openedFdMap = sm.openedFdMap.insert k ⟨pointer, some sm.offsets.length, path⟩)
    (hNew : ∀ k' d', k' ≠ k → sm.openedFdMap.lookup k' = some d' → origin k' ≠ origin k) :
    Sharing origin sm' := by
  refine h.insert hMap fun k' d' hk' hd' => iff_of_false ?_ (hNew k' d' hk' hd')
  intro hOffset
  obtain ⟨cell, v, hCell, hv⟩ := hsm.offsets k' d' hd'
  grind

end

/-- Where the offset of a descriptor comes from: the descriptor at which the chain of `dup`s to it
starts, and the number of the operation that made that one. -/
abbrev Origin := (Tid × Fd) × Nat

inductive Op
  | add (path : Path) (isDir : Bool) (initSize : Nat)
  | addFileToTid (tid : Tid) (fd : Fd) (path : Path) (offset : Int)
  | dup (tid : Tid) (oldFd newFd : Fd)
  | clone (parentTid childTid : Tid)
  | removeFromTid (tid : Tid) (fd : Fd)
  | setFileOffset (tid : Tid) (fd : Fd) (offset : Int)
  | rename (oldpath newpath : Path)

structure Run where
  sm : StorageManager := {}
  origin : Tid × Fd → Origin := fun k => (k, 0)
  time : Nat := 0

def operate (env : Env) (sm : StorageManager) : Op → Except Failure StorageManager
  | .add path isDir initSize => .ok (sm.add env path isDir initSize).2
  | .addFileToTid tid fd path offset => sm.addFileToTid tid fd path offset
  | .dup tid oldFd newFd => sm.dup tid oldFd newFd
  | .clone parentTid childTid => sm.clone env parentTid childTid
  | .removeFromTid tid fd => sm.removeFromTid tid fd
  | .setFileOffset tid fd offset => sm.setFileOffset tid fd offset
  | .rename oldpath newpath => .ok (sm.rename oldpath newpath)

def Op.origins (time : Nat) (origin : Tid × Fd → Origin) : Op → Tid × Fd → Origin
  | .addFileToTid tid fd _ _ => update origin (tid, fd) ((tid, fd), time)
  | .dup tid oldFd newFd => update origin (tid, newFd) (origin (tid, oldFd))
  | .clone _ childTid => fun k => if k.1 = childTid then (k, time) else origin k
  | _ => origin

def step (env : Env) (s : Run) (op : Op) : Except Failure Run := do
  let sm ← operate env s.sm op
  pure ⟨sm, op.origins s.time s.origin, s.time + 1⟩

def Allowed (sm : StorageManager) : Op → Prop
  | .add .. => True
  | .addFileToTid tid fd path _ => sm.storage path ≠ none ∧ sm.openedFdMap.lookup (tid, fd) = none
  | .dup tid oldFd newFd =>
    sm.openedFdMap.lookup (tid, oldFd) ≠ none ∧ sm.openedFdMap.lookup (tid, newFd) = none
  | .clone _ childTid => ∀ k ∈ sm.openedFdMap.keys, k.1 ≠ childTid
  | .removeFromTid tid fd => sm.openedFdMap.lookup (tid, fd) ≠ none
  | .setFileOffset tid fd _ => sm.openedFdMap.lookup (tid, fd) ≠ none
  | .rename oldpath newpath => sm.storage oldpath ≠ none ∧ sm.storage newpath = none

def RenamesOnePath (sm : StorageManager) : Op → Prop
  | .rename oldpath _ => Unaliased sm oldpath
  | _ => True

instance (sm : StorageManager) : (op : Op) → Decidable (Allowed sm op) :=
  fun op => by cases op <;> dsimp only [Allowed] <;> infer_instance

instance (sm : StorageManager) : (op : Op) → Decidable (RenamesOnePath sm op) :=
  fun op => by cases op <;> dsimp only [RenamesOnePath] <;> infer_instance

/-- The descriptors, the files they are open on and the lists of these files fit together, and an
offset is shared by the descriptors that come from one another by `dup`. -/
structure Consistent (s : Run) : Prop where
  entry : ∀ k d, s.sm.openedFdMap.lookup k = some d → ∃ i f cell offset,
    s.sm.storage d.path = some i ∧ d.pointer = some i ∧ s.sm.objects[i]? = some (some f) ∧
    d.offset = some cell ∧ s.sm.offsets[cell]? = some offset ∧ f.threadsFd.count k = 1
  one_file : ∀ k d, s.sm.openedFdMap.lookup k = some d → ∀ p i f, p ≠ d.path → s.sm.storage p = some i →
    s.sm.objects[i]? = some (some f) → k ∉ f.threadsFd
  listed : ∀ p i f k, s.sm.storage p = some i → s.sm.objects[i]? = some (some f) → k ∈ f.threadsFd →
    ∃ d, s.sm.openedFdMap.lookup k = some d ∧ d.path = p ∧ d.pointer = some i
  shared : Sharing s.origin s.sm

structure Inv (s : Run) : Prop where
  linked : Linked s.sm
  shared : Sharing s.origin s.sm
  dated : ∀ k d, s.sm.openedFdMap.lookup k = some d → (s.origin k).2 < s.time

theorem inv_init : Inv {} := ⟨linked_init, fun _ _ _ _ hd => (nomatch hd), fun _ _ hd => (nomatch hd)⟩

theorem Inv.consistent (h : Inv s) : Consistent s := by
  refine ⟨fun k d hd => ?_, fun k d hd p i f hp hStored hf hMem => ?_, fun p i f k hp hf hMem => ?_,
    h.shared⟩
  · obtain ⟨i, hPointer, hi⟩ := h.linked.entry k d hd
    obtain ⟨cell, v, hCell, hv⟩ := h.linked.wellFormed.offsets k d hd
    obtain ⟨f, hf⟩ := h.linked.wellFormed.objects d.path i hi
    refine ⟨i, f, cell, v, hi, hPointer, hf, hCell, hv, ?_⟩
    rw [h.linked.count d.path i f hi hf k, pathOf, hd, map_some, if_pos rfl]
  · have hCount := h.linked.count p i f hStored hf k
    grind [pathOf]
  · exact (h.linked.mem_iff hp hf).mp hMem

section

variable {s : Run}

theorem clone_inv {origin : Tid × Fd → Origin} {time : Nat} {parentTid childTid : Tid}
    (hTid : parentTid ≠ childTid) (hChild : ∀ k, k.1 = childTid → origin k = (k, time)) {fds : List Fd}
    (hFds : fds.Nodup) (h : Linked sm) (hShared : Sharing origin sm)
    (hOld : ∀ k d, k.1 ≠ childTid → sm.openedFdMap.lookup k = some d → (origin k).2 < time)
    (hOpen : ∀ fd ∈ fds, sm.openedFdMap.lookup (parentTid, fd) ≠ none)
    (hFree : ∀ fd ∈ fds, sm.openedFdMap.lookup (childTid, fd) = none) : ∃ sm', fds.foldlM (fun sm fd => do
        let offset ← sm.getFileOffset parentTid fd
        sm.addNewFd childTid fd (sm.descriptor parentTid fd).1.path offset false) sm = .ok sm' ∧
      Linked sm' ∧ Sharing origin sm' ∧
      ∀ k d, k.1 ≠ childTid → sm'.openedFdMap.lookup k = some d → (origin k).2 < time := by
  induction fds generalizing sm with
  | nil => exact ⟨sm, rfl, h, hShared, hOld⟩
  | cons fd fds ih =>
    obtain ⟨hNot, hFds⟩ := nodup_cons.mp hFds
    obtain ⟨d, hd⟩ := ne_none_iff_exists'.mp (hOpen fd mem_cons_self)
    obtain ⟨v, hOffset⟩ := h.wellFormed.offsetOf (hOpen fd mem_cons_self)
    obtain ⟨i, -, hi⟩ := h.entry _ d hd
    obtain ⟨sm1, hAdd, h1, -, -, hMap⟩ := h.addNewFd (hFree fd mem_cons_self) hi v false
    have hShared1 : Sharing origin sm1 := by
      refine hShared.insertNew h.wellFormed hMap fun k' d' hk' hd' he => ?_
      grind
    have hLookup : ∀ k, k ≠ (childTid, fd) → sm1.openedFdMap.lookup k = sm.openedFdMap.lookup k := by
      intro k hk
      rw [hMap, AList.lookup_insert_ne hk]
    obtain ⟨sm', hRun, hRest⟩ := ih hFds h1 hShared1
      (fun k d hk hd => hOld k d hk (hLookup k (fun he => hk (congrArg Prod.fst he)) ▸ hd))
      (fun fd' hfd' => by
        rw [hLookup _ fun he => hTid (Prod.mk.inj he).1]
        exact hOpen fd' (mem_cons_of_mem _ hfd'))
      (fun fd' hfd' => by
        rw [hLookup _ fun he => hNot ((Prod.mk.inj he).2 ▸ hfd')]
        exact hFree fd' (mem_cons_of_mem _ hfd'))
    refine ⟨sm', ?_, hRest⟩
    rw [foldlM_cons, getFileOffset_of_offsetOf hOffset]
    change (sm.addNewFd childTid fd (sm.descriptor parentTid fd).1.path v false >>= _) = _
    have hDescriptor : (sm.descriptor parentTid fd).1 = d := by
      unfold StorageManager.descriptor
      rw [hd]
    rw [hDescriptor, hAdd]
    exact hRun

theorem Inv.restrict (h : Inv s) (hsm' : Linked sm') (hSub : ∀ k d, sm'.openedFdMap.lookup k = some d →
      ∃ d0, s.sm.openedFdMap.lookup k = some d0 ∧ d.offset = d0.offset) :
    Inv ⟨sm', s.origin, s.time + 1⟩ := by
  refine ⟨hsm', h.shared.restrict hSub fun _ _ _ => rfl, fun k d hd => ?_⟩
  obtain ⟨d0, hd0, -⟩ := hSub k d hd
  exact Nat.lt_succ_of_lt (h.dated k d0 hd0)

theorem Inv.addFileToTid (h : Inv s) (hAllowed : Allowed s.sm (.addFileToTid tid fd path offset)) :
    ∃ sm', s.sm.addFileToTid tid fd path offset = .ok sm' ∧
      Inv ⟨sm', update s.origin (tid, fd) ((tid, fd), s.time), s.time + 1⟩ := by
  obtain ⟨hPath, hFree⟩ := hAllowed
  obtain ⟨i, hi⟩ := ne_none_iff_exists'.mp hPath
  obtain ⟨sm', hAdd, hsm', -, -, hMap⟩ := h.linked.addNewFd hFree hi offset true
  have hOthers : ∀ k' d', k' ≠ (tid, fd) → s.sm.openedFdMap.lookup k' = some d' →
      (s.origin k').2 < s.time := fun k' d' _ hd' => h.dated k' d' hd'
  have hOpenNe : ∀ k' d', s.sm.openedFdMap.lookup k' = some d' → k' ≠ (tid, fd) := by
    rintro _ d' hd' rfl
    cases hFree.symm.trans hd'
  have hShared : Sharing (update s.origin (tid, fd) ((tid, fd), s.time)) s.sm :=
    h.shared.restrict (fun k d hd => ⟨d, hd, rfl⟩) fun k d hd =>
      update_of_ne (hOpenNe k d hd) _ _
  refine ⟨sm', hAdd, hsm', hShared.insertNew h.linked.wellFormed hMap fun k' d' hk' hd' he => ?_,
    fun k d hd => ?_⟩
  · grind
  · dsimp only at hd ⊢
    grind [update_self, AList.lookup_insert_ne, update_of_ne]

theorem Inv.dup (h : Inv s) (hAllowed : Allowed s.sm (.dup tid oldFd newFd)) :
    ∃ sm', s.sm.dup tid oldFd newFd = .ok sm' ∧
      Inv ⟨sm', update s.origin (tid, newFd) (s.origin (tid, oldFd)), s.time + 1⟩ := by
  obtain ⟨hOpen, hFree⟩ := hAllowed
  obtain ⟨d, hd⟩ := ne_none_iff_exists'.mp hOpen
  obtain ⟨sm', hDup, hsm', hMap⟩ := h.linked.dup hd hFree
  have hOpenNe : ∀ k' d', s.sm.openedFdMap.lookup k' = some d' → k' ≠ (tid, newFd) := by
    rintro _ d' hd' rfl
    cases hFree.symm.trans hd'
  have hShared : Sharing (update s.origin (tid, newFd) (s.origin (tid, oldFd))) s.sm :=
    h.shared.restrict (fun k d hd => ⟨d, hd, rfl⟩) fun k d hd =>
      update_of_ne (hOpenNe k d hd) _ _
  refine ⟨sm', hDup, hsm', hShared.insert hMap fun k' d' hk' hd' => ?_, fun k' d' hd' => ?_⟩
  · rw [update_self, update_of_ne hk']
    exact h.shared k' (tid, oldFd) d' d hd' hd
  · dsimp only at hd' ⊢
    by_cases hk : k' = (tid, newFd)
    · rw [hk, update_self]
      exact Nat.lt_succ_of_lt (h.dated _ d hd)
    · rw [hMap, AList.lookup_insert_ne hk] at hd'
      rw [update_of_ne hk]
      exact Nat.lt_succ_of_lt (h.dated k' d' hd')

theorem Inv.clone (h : Inv s) (parentTid : Tid) (hAllowed : Allowed s.sm (.clone parentTid childTid)) :
    ∃ sm', s.sm.clone env parentTid childTid = .ok sm' ∧
      Inv ⟨sm', fun k => if k.1 = childTid then (k, s.time) else s.origin k, s.time + 1⟩ := by
  have hNone : ∀ k d, s.sm.openedFdMap.lookup k = some d → k.1 ≠ childTid := by
    intro k d hd
    exact hAllowed k (AList.mem_keys.mp (AList.lookup_isSome.mp (by rw [hd]; rfl)))
  have hShared : Sharing (fun k => if k.1 = childTid then (k, s.time) else s.origin k) s.sm :=
    h.shared.restrict (fun k d hd => ⟨d, hd, rfl⟩) fun k d hd => if_neg (hNone k d hd)
  by_cases hTid : parentTid = childTid
  · -- a thread without descriptors
    have hEmpty : s.sm.getFileDescriptors env parentTid = [] := by
      rw [eq_nil_iff_forall_not_mem]
      intro fd hfd
      obtain ⟨d, hd⟩ := ne_none_iff_exists'.mp ((mem_getFileDescriptors env).mp hfd)
      exact hNone _ d hd hTid
    unfold StorageManager.clone
    rw [hEmpty]
    refine ⟨s.sm, rfl, h.linked, hShared, fun k d hd => ?_⟩
    dsimp only at hd ⊢
    rw [if_neg (hNone k d hd)]
    exact Nat.lt_succ_of_lt (h.dated k d hd)
  · obtain ⟨sm', hRun, hsm', hShared', hOld⟩ := clone_inv hTid (fun k hk => if_pos hk)
      (nodup_getFileDescriptors env s.sm parentTid) h.linked hShared
      (fun k d hk hd => by rw [if_neg hk]; exact h.dated k d hd)
      (fun fd hfd => (mem_getFileDescriptors env).mp hfd) fun fd _ => by
        rw [← not_isSome_iff_eq_none]
        grind [isSome_iff_exists]
    refine ⟨sm', hRun, hsm', hShared', fun k d hd => ?_⟩
    grind

theorem Inv.rename (h : Inv s) (hAllowed : Allowed s.sm (.rename oldpath newpath))
    (hAlias : Unaliased s.sm oldpath) : Inv ⟨s.sm.rename oldpath newpath, s.origin, s.time + 1⟩ := by
  obtain ⟨i, hi⟩ := ne_none_iff_exists'.mp hAllowed.1
  refine h.restrict (h.linked.rename hi hAllowed.2 hAlias) fun k d hd => ?_
  grind [lookup_rename, map_eq_some_iff]

theorem step_inv (env : Env) (h : Inv s) (hAllowed : Allowed s.sm op) (hAlias : RenamesOnePath s.sm op) :
    ∃ s', step env s op = .ok s' ∧ Inv s' := by
  suffices hOp : ∃ sm', operate env s.sm op = .ok sm' ∧
      Inv ⟨sm', op.origins s.time s.origin, s.time + 1⟩ by
    obtain ⟨sm', hOp, hInv⟩ := hOp
    refine ⟨_, ?_, hInv⟩
    unfold step
    rw [hOp]
    rfl
  cases op with
  | add path isDir initSize =>
    refine ⟨_, rfl, h.restrict (h.linked.storageAt path rfl) fun k d hd => ⟨d, ?_, rfl⟩⟩
    rwa [StorageManager.add, (storageAt_descriptors _ _ _).1] at hd
  | addFileToTid tid fd path offset => exact h.addFileToTid hAllowed
  | dup tid oldFd newFd => exact h.dup hAllowed
  | clone parentTid childTid => exact h.clone parentTid hAllowed
  | removeFromTid tid fd =>
    obtain ⟨sm', hOp, hsm', hSub⟩ := h.linked.removeFromTid hAllowed
    exact ⟨sm', hOp, h.restrict hsm' fun k d hd => ⟨d, hSub k d hd, rfl⟩⟩
  | setFileOffset tid fd offset =>
    obtain ⟨sm', hOp, hsm', hMap⟩ := h.linked.setFileOffset hAllowed offset
    exact ⟨sm', hOp, h.restrict hsm' fun k d hd => ⟨d, hMap ▸ hd, rfl⟩⟩
  | rename oldpath newpath => exact ⟨_, rfl, h.rename hAllowed hAlias⟩

theorem Linked.unaliased (h : Linked s.sm) (hAllowed : Allowed s.sm (.rename oldpath newpath))
    (hConsistent : Consistent ⟨s.sm.rename oldpath newpath, origin, time⟩) : Unaliased s.sm oldpath := by
  rintro ⟨k, d⟩ hMem hSame
  have hd : s.sm.openedFdMap.lookup k = some d := AList.mem_lookup_iff.mpr hMem
  obtain ⟨i, hi⟩ := ne_none_iff_exists'.mp hAllowed.1
  obtain ⟨j, hPointer, hj⟩ := h.entry k d hd
  have hRenamed : (s.sm.rename oldpath newpath).openedFdMap.lookup k =
      some { d with path := newpath } := by
    rw [lookup_rename, hd, map_some, if_pos hSame]
  obtain ⟨i', _, _, _, hStored, hPointer', _⟩ := hConsistent.entry k _ hRenamed
  have hMoved : i = i' := some.inj ((rename_free hi hAllowed.2).1.symm.trans hStored)
  grind [h.own.inj]

end

def KeepsTables (env : Env) (s : Run) (op : Op) : Prop :=
  ∃ s', step env s op = .ok s' ∧ Consistent s'

theorem keepsTables_iff (h : Inv s) (hAllowed : Allowed s.sm op) :
    KeepsTables env s op ↔ RenamesOnePath s.sm op := by
  constructor
  · rintro ⟨s', hs', hConsistent⟩
    cases op with
    | rename oldpath newpath =>
      obtain rfl := Except.ok.inj hs'
      exact h.linked.unaliased hAllowed hConsistent
    | _ => trivial
  · intro hAlias
    obtain ⟨s', hs', h'⟩ := step_inv env h hAllowed hAlias
    exact ⟨s', hs', h'.consistent⟩

/-- In every sequence of operations, each called as it may be, the copies agree after each operation
exactly if no rename meets a descriptor whose path only compares equal to the old one. -/
theorem tables_agree_iff (env : Env) (ops : List Op)
    (hAllowed : Meets (fun s op => Allowed s.sm op) (step env) {} ops) :
    Meets (KeepsTables env) (step env) {} ops ↔
      Meets (fun s op => RenamesOnePath s.sm op) (step env) {} ops :=
  Meets.iff_of_inv (E := fun _ => False) (fun _ _ h => keepsTables_iff h)
    (fun _ _ h hAllowed hOne => ends_of_exists (step_inv env h hAllowed hOne)) inv_init hAllowed

def onePath : List Op :=
  [.add "/d/a".toList false 4, .addFileToTid 1 3 "/d/a".toList 0, .dup 1 3 4, .clone 1 2,
    .setFileOffset 2 3 7, .rename "/d/a".toList "/d/b".toList, .removeFromTid 1 3]

theorem tables_agree_onePath : Meets (KeepsTables plain) (step plain) {} onePath :=
  (tables_agree_iff plain onePath (by decide +kernel)).mpr (by decide +kernel)

def twoSpellings : List Op :=
  [.add "/d/a".toList false 4, .addFileToTid 1 3 "/d/a".toList 0, .add "/d//a".toList true 4,
    .rename "/d//a".toList "/d/b".toList]

theorem twoSpellings_disagree : Meets (fun s op => Allowed s.sm op) (step plain) {} twoSpellings ∧
    ∃ s, twoSpellings.foldlM (step plain) {} = .ok s ∧
      s.sm.openedFdMap.lookup (1, 3) = some ⟨some 0, some 0, "/d/b".toList⟩ ∧
      s.sm.storage "/d/b".toList = some 1 ∧ ¬ Consistent s := by
  refine ⟨by decide +kernel, ?_⟩
  have hSeen : ∃ s, twoSpellings.foldlM (step plain) {} = .ok s ∧
      s.sm.openedFdMap.lookup (1, 3) = some ⟨some 0, some 0, "/d/b".toList⟩ ∧
      s.sm.storage "/d/b".toList = some 1 := by decide +kernel
  obtain ⟨s, hRun, hd, hStored⟩ := hSeen
  refine ⟨s, hRun, hd, hStored, fun hConsistent => ?_⟩
  obtain ⟨i, _, _, _, hi, hPointer, _⟩ := hConsistent.entry (1, 3) _ hd
  cases hPointer
  cases hStored.symm.trans hi

end Capio.Server.DescriptorMap
