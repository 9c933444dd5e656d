import Capio.Server.Rules

/-! # Renaming

What `handle_rename` does to the files and the descriptors of the server, and when that is to move
them.  Only the key of the path itself is changed: the descendants of a directory stay where they
are, and the object is lost if the new path is stored already.
-/
namespace Capio.Server.Rename

open Common Lib.Outcome Storage Function Option

def below (path suffix : Path) : Path := path ++ '/' :: suffix

structure OwnObjects (sm : StorageManager) : Prop where
  inj : ∀ p q i, sm.storage p = some i → sm.storage q = some i → p = q
  allocated : ∀ p i, sm.storage p = some i → i < sm.objects.length

/-- Every descriptor points to a stored object, and those of the object at `oldpath` are the ones
whose path compares equal to it, or is `newpath` already. -/
def DescriptorsFollow (sm : StorageManager) (oldpath newpath : Path) : Prop :=
  ∀ k d i, sm.openedFdMap.lookup k = some d → d.pointer = some i →
    ∃ p, sm.storage p = some i ∧ (p = oldpath → SamePath d.path oldpath ∨ d.path = newpath) ∧
      (SamePath d.path oldpath → p = oldpath ∨ d.path = newpath)

/-- The object at `path` is found unchanged at `path'`, and its descriptors refer to it with their
offsets, under the paths that `report` gives. -/
structure Moves (sm sm' : StorageManager) (path path' : Path) (report : Path → Path) : Prop where
  storage : sm'.storage path' = sm.storage path
  object : ∀ i, sm.storage path = some i → sm'.objects[i]? = sm.objects[i]?
  descriptors : ∀ k d i, sm.storage path = some i → sm.openedFdMap.lookup k = some d →
    d.pointer = some i → sm'.openedFdMap.lookup k = some { d with path := report d.path }

structure RenameMoves (sm sm' : StorageManager) (oldpath newpath : Path) : Prop where
  file : Moves sm sm' oldpath newpath fun _ => newpath
  descendants : ∀ t, sm.storage (below oldpath t) ≠ none →
    Moves sm sm' (below oldpath t) (below newpath t) fun _ => below newpath t
  gone : sm'.storage oldpath = none
  no_dangling : ∀ k d i, sm'.openedFdMap.lookup k = some d → d.pointer = some i →
    ∃ p, sm'.storage p = some i
  others : ∀ p, p ≠ oldpath → p ≠ newpath → (∀ t, p ≠ below oldpath t) →
    (∀ t, sm.storage (below oldpath t) ≠ none → p ≠ below newpath t) → Moves sm sm' p p id

variable {env : Env} {s : State} {p : Path}

theorem handleRename_sm (hOld : s.sm.storage oldpath ≠ none) (tid : Tid) (newpath : Path) :
    Yields (handleRename env s tid oldpath newpath) (fun s' => s'.sm = s.sm.rename oldpath newpath) := by
  obtain ⟨i, hi⟩ := ne_none_iff_exists'.mp hOld
  simp only [handleRename, StorageManager.tryGet, hi]
  refine .bind (Q := fun r => r.2.sm = s.sm.rename oldpath newpath) ?_ fun r hr => ?_
  · exact .skip fun _ => rfl
  · refine (State.reply_ends _ tid 0).mono (fun s' hs' => hs'.1.trans ?_) fun _ _ => trivial
    split <;> exact hr

section

variable {sm : StorageManager} {oldpath newpath : Path} {i : Nat}

theorem lookup_rename (k : Tid × Fd) :
    (sm.rename oldpath newpath).openedFdMap.lookup k = (sm.openedFdMap.lookup k).map
      fun d => { d with path := if SamePath d.path oldpath then newpath else d.path } := by
  have hMap : (sm.rename oldpath newpath).openedFdMap = sm.openedFdMap.mapVal fun d =>
        if SamePath d.path oldpath then { d with path := newpath } else d := by grind [StorageManager.rename]
  rw [hMap, FdMap.lookup_mapVal]
  refine congrArg (Option.map · _) (funext fun d => ?_)
  split <;> rfl

theorem storage_rename_of_ne (hOld : p ≠ oldpath) (hNew : p ≠ newpath) :
    (sm.rename oldpath newpath).storage p = sm.storage p := by
  unfold StorageManager.rename
  dsimp only
  split
  · rfl
  · split
    · simp [hOld, hNew]
    · simp [hOld]

theorem storage_rename_old (hNe : newpath ≠ oldpath) :
    (sm.rename oldpath newpath).storage oldpath = none := by
  unfold StorageManager.rename
  dsimp only
  split
  · assumption
  · split
    · simp [hNe.symm]
    · simp

theorem rename_free (hi : sm.storage oldpath = some i) (hNew : sm.storage newpath = none) :
    (sm.rename oldpath newpath).storage newpath = some i ∧
      (sm.rename oldpath newpath).objects = sm.objects := by
  have hFree : update sm.storage oldpath none newpath = none := by
    by_cases h : newpath = oldpath
    · simp [h]
    · simp [h, hNew]
  simp [StorageManager.rename, hi, hFree]

theorem storage_rename_taken (hNe : newpath ≠ oldpath) (hi : sm.storage oldpath = some i)
    (hj : sm.storage newpath = some j) : (sm.rename oldpath newpath).storage newpath = some j := by
  have hTaken : update sm.storage oldpath none newpath = some j := by simp [hNe, hj]
  simp [StorageManager.rename, hi, hTaken]

theorem below_ne (path suffix : Path) : below path suffix ≠ path := by
  intro h
  have := congrArg List.length h
  simp [below] at this

section

variable (h : OwnObjects sm) (hNe : newpath ≠ oldpath)
include h hNe

theorem OwnObjects.renameMoves (hi : sm.storage oldpath = some i) (hNew : sm.storage newpath = none)
    (hBelow : ∀ t, sm.storage (below oldpath t) = none) (hFollow : DescriptorsFollow sm oldpath newpath) :
    RenameMoves sm (sm.rename oldpath newpath) oldpath newpath := by
  obtain ⟨hStorage, hObjects⟩ := rename_free hi hNew
  refine ⟨⟨hStorage.trans hi.symm, fun _ _ => by rw [hObjects], fun k d j hj hd hPointer => ?_⟩,
    fun t ht => absurd (hBelow t) ht, storage_rename_old hNe, fun k d' j hd' hPointer => ?_,
    fun p hOld hNewNe _ _ =>
      ⟨storage_rename_of_ne hOld hNewNe, fun _ _ => by rw [hObjects], fun k d j hj hd hPointer => ?_⟩⟩
  · obtain ⟨p, hp, hPath, -⟩ := hFollow k d j hd hPointer
    rw [lookup_rename, hd, map_some]
    grind [h.inj]
  · rw [lookup_rename, map_eq_some_iff] at hd'
    obtain ⟨d, hd, rfl⟩ := hd'
    obtain ⟨p, hp, -⟩ := hFollow k d j hd hPointer
    by_cases hOld : p = oldpath
    · exact ⟨newpath, by rw [hStorage, ← hi, ← hOld, hp]⟩
    · have hpNew : p ≠ newpath := by
        rintro rfl
        rw [hNew] at hp
        cases hp
      exact ⟨p, by rw [storage_rename_of_ne hOld hpNew, hp]⟩
  · obtain ⟨q, hq, -, hPath⟩ := hFollow k d j hd hPointer
    have hKept : (if SamePath d.path oldpath then newpath else d.path) = d.path := by
      split
      · next hSame =>
        grind [h.inj]
      · rfl
    rw [lookup_rename, hd, map_some, hKept]
    rfl

theorem OwnObjects.free_of_renameMoves (hi : sm.storage oldpath = some i)
    (hMoves : RenameMoves sm (sm.rename oldpath newpath) oldpath newpath) : sm.storage newpath = none := by
  cases hNew : sm.storage newpath with
  | none => rfl
  | some j =>
    have hj := hMoves.file.storage
    grind [storage_rename_taken, some.injEq, h.inj]

theorem OwnObjects.childless_of_renameMoves
    (hMoves : RenameMoves sm (sm.rename oldpath newpath) oldpath newpath) (t : Path) :
    sm.storage (below oldpath t) = none := by
  by_contra hStored
  obtain ⟨k, hk⟩ := ne_none_iff_exists'.mp hStored
  have hMoved := (hMoves.descendants t hStored).storage
  by_cases hOld : below newpath t = oldpath
  · rw [hOld, storage_rename_old hNe, hk] at hMoved
    cases hMoved
  · rw [storage_rename_of_ne hOld (below_ne newpath t), hk] at hMoved
    have := h.inj _ _ k hMoved hk
    exact hNe (List.append_cancel_right this)

end

theorem descriptorsFollow_of_renameMoves (hNe : newpath ≠ oldpath) (hi : sm.storage oldpath = some i)
    (hNew : sm.storage newpath = none) (hBelow : ∀ t, sm.storage (below oldpath t) = none)
    (hMoves : RenameMoves sm (sm.rename oldpath newpath) oldpath newpath) :
    DescriptorsFollow sm oldpath newpath := by
  intro k d j hd hPointer
  have hRenamed : (sm.rename oldpath newpath).openedFdMap.lookup k =
      some { d with path := if SamePath d.path oldpath then newpath else d.path } := by
    rw [lookup_rename, hd, map_some]
  have hReports : ∀ {path}, (sm.rename oldpath newpath).openedFdMap.lookup k =
      some { d with path := path } → (if SamePath d.path oldpath then newpath else d.path) = path := by
    simp [hRenamed]
  obtain ⟨p, hp⟩ := hMoves.no_dangling k _ j hRenamed hPointer
  by_cases hpNew : p = newpath
  · rw [hpNew, (rename_free hi hNew).1, ← hi] at hp
    refine ⟨oldpath, hp, fun _ => ?_, fun _ => .inl rfl⟩
    have hPath := hReports (hMoves.file.descriptors k d j hp hd hPointer)
    split at hPath
    · exact .inl ‹_›
    · exact .inr hPath
  · have hpOld : p ≠ oldpath := by
      rintro rfl
      rw [storage_rename_old hNe] at hp
      cases hp
    rw [storage_rename_of_ne hpOld hpNew] at hp
    refine ⟨p, hp, fun hOld => absurd hOld hpOld, fun hOld => ?_⟩
    have hMoved : Moves sm (sm.rename oldpath newpath) p p id := by
      apply hMoves.others p hpOld hpNew
      · rintro t rfl
        rw [hBelow t] at hp
        cases hp
      · exact fun t ht => absurd (hBelow t) ht
    have hPath := hReports (hMoved.descriptors k d j hp hd hPointer)
    rw [if_pos hOld] at hPath
    exact .inr hPath.symm

end

section

variable {sm sm' : StorageManager}

theorem OwnObjects.restrict (h : OwnObjects sm)
    (hStorage : ∀ p i, sm'.storage p = some i → sm.storage p = some i)
    (hLength : sm'.objects.length = sm.objects.length) : OwnObjects sm' where
  inj := fun p q i hp hq => h.inj p q i (hStorage p i hp) (hStorage q i hq)
  allocated := fun p i hp => hLength ▸ h.allocated p i (hStorage p i hp)

theorem OwnObjects.setObject (h : OwnObjects sm) (i : Nat) (f : CapioFile) :
    OwnObjects (sm.setObject i f) :=
  h.restrict (fun _ _ => id) List.length_set

theorem OwnObjects.storageAt (h : OwnObjects sm) (path : Path) (new : CapioFile) :
    OwnObjects (sm.storageAt path new).2 := by
  unfold StorageManager.storageAt
  cases hPath : sm.storage path with
  | some i => exact h
  | none =>
    -- the new object is behind all that have been allocated
    have hStored : ∀ p i, update sm.storage path (some sm.objects.length) p = some i →
        p = path ∧ i = sm.objects.length ∨ sm.storage p = some i ∧ i < sm.objects.length := by
      intro p i hp
      by_cases hNe : p = path
      · grind
      · rw [update_of_ne hNe] at hp
        exact .inr ⟨hp, h.allocated p i hp⟩
    refine ⟨fun p q i hp hq => ?_, fun p i hp => ?_⟩
    · obtain ⟨rfl, hi⟩ | ⟨hp, hi⟩ := hStored p i hp
      · grind
      · obtain ⟨-, hi'⟩ | ⟨hq, -⟩ := hStored q i hq
        · omega
        · exact h.inj p q i hp hq
    · grind

theorem storage_of_rename (hp : (sm.rename oldpath newpath).storage p = some i) :
    p = newpath ∧ sm.storage oldpath = some i ∨ p ≠ oldpath ∧ sm.storage p = some i := by
  have hKept : update sm.storage oldpath none p = some i → p ≠ oldpath ∧ sm.storage p = some i := by grind
  unfold StorageManager.rename at hp
  dsimp only at hp
  cases hOld : sm.storage oldpath with
  | none => grind
  | some j =>
    rw [hOld] at hp
    dsimp only at hp
    split at hp
    · grind
    · exact .inr (hKept hp)

theorem length_objects_rename (oldpath newpath : Path) :
    (sm.rename oldpath newpath).objects.length = sm.objects.length := by grind [StorageManager.rename]

theorem OwnObjects.rename (h : OwnObjects sm) (oldpath newpath : Path) :
    OwnObjects (sm.rename oldpath newpath) := by
  refine ⟨fun p q i hp hq => ?_, fun p i hp => ?_⟩
  · obtain ⟨rfl, hOld⟩ | ⟨hpOld, hp⟩ := storage_of_rename hp
    · obtain ⟨rfl, -⟩ | ⟨hqOld, hq⟩ := storage_of_rename hq
      · rfl
      · exact absurd (h.inj q oldpath i hq hOld) hqOld
    · obtain ⟨-, hOld⟩ | ⟨-, hq⟩ := storage_of_rename hq
      · exact absurd (h.inj p oldpath i hp hOld) hpOld
      · exact h.inj p q i hp hq
  · rw [length_objects_rename]
    obtain ⟨-, hOld⟩ | ⟨-, hp⟩ := storage_of_rename hp
    · exact h.allocated oldpath i hOld
    · exact h.allocated p i hp

theorem stable (env : Env) :
    Stable env (fun s => OwnObjects s.sm) (fun _ => True) (fun _ => True) fun _ => True where
  benign := fun _ _ _ => trivial
  frame := fun _ _ hsm _ hs => hsm ▸ hs
  descriptors := fun _ _ _ hs => hs.restrict (fun _ _ => id) rfl
  object := fun _ i _ f' hs _ _ => hs.setObject i f'
  committed := fun _ i _ hs _ => hs.setObject i _
  buffer := fun _ i _ _ _ hs _ => .always (fun _ => hs.setObject i _) _
  entry := fun _ i _ _ _ _ _ _ hs _ _ _ => .always (fun _ => hs.setObject i _) _
  store := fun _ path _ _ hs _ => hs.storageAt path _
  produced := fun _ _ _ hs _ => hs

theorem remove_ownObjects (h : OwnObjects sm) (path : Path) : Yields (sm.remove path) OwnObjects := by
  refine (sm.remove_ends path).imp ?_
  rintro sm' ⟨hStorage, hLength⟩
  refine h.restrict (fun p i hp => ?_) hLength
  rw [hStorage] at hp
  grind

theorem reply_ownObjects (hs : OwnObjects s.sm) (tid : Tid) (offset : Int) :
    Yields (s.reply tid offset) (fun s' => OwnObjects s'.sm) :=
  (s.reply_ends tid offset).mono (fun _ hs' => hs'.1 ▸ hs) fun _ _ => trivial

theorem deleteLocation_ownObjects (env : Env) (hs : OwnObjects s.sm) (path : Path) :
    Yields (s.deleteLocation env path) (fun r => OwnObjects r.2.sm) := by
  exact .skip fun _ => hs

theorem step_ownObjects (hs : OwnObjects s.sm) (r : Request) :
    Yields (step env s r) (fun s' => OwnObjects s'.sm) := by
  apply (stable env).step_of_object (fun _ i f hs => hs.setObject i f)
    (fun _ path hs => hs.storageAt path {}) hs
  obtain ⟨op, os⟩ := r
  cases op with
  | unlink tid path =>
    refine .ite (fun _ => reply_ownObjects hs tid _) fun _ => ?_
    cases s.sm.tryGet path with
    | none => exact reply_ownObjects hs tid (-1)
    | some i =>
      refine .skip fun f => ?_
      refine .bind ?_ fun s1 hs1 => reply_ownObjects hs1 tid 0
      refine .ite (fun _ => ?_) fun _ => hs
      refine (remove_ownObjects hs path).bind fun sm hsm => ?_
      exact (deleteLocation_ownObjects env hsm path).bind fun r hr => hr
  | rmdir tid path =>
    refine .ite (fun _ => reply_ownObjects hs tid _) fun _ => ?_
    refine (remove_ownObjects hs path).bind fun sm hsm => ?_
    exact (deleteLocation_ownObjects env hsm path).bind fun r hr => reply_ownObjects hr tid r.1
  | rename tid oldpath newpath =>
    by_cases hOld : s.sm.storage oldpath = none
    · change Ends (handleRename env s tid oldpath newpath) _ _
      unfold handleRename StorageManager.tryGet
      rw [hOld]
      exact reply_ownObjects hs tid 1
    · refine (handleRename_sm hOld tid newpath).imp (fun s' hs' => ?_)
      rw [hs']
      exact hs.rename oldpath newpath
  | _ => trivial

theorem boot_ownObjects (env : Env) (os : Nat → Os) (serverPid : Tid) (files : Node → List Char) :
    Yields (boot env os serverPid files) (fun s => OwnObjects s.sm) := by
  have hEmpty : OwnObjects ({} : StorageManager) :=
    ⟨fun _ _ _ hp => (nomatch hp), fun _ _ hp => (nomatch hp)⟩
  refine ((stable env).addDirectory hEmpty serverPid trivial fun _ => trivial).bind ?_
  rintro ⟨result, s⟩ hs
  exact hs

theorem run_ownObjects {serverPid : Tid} {files : Node → List Char} {s0 : State} {requests : List Request}
    (hBoot : boot env os serverPid files = .ok s0) (hRun : requests.foldlM (step env) s0 = .ok s) :
    OwnObjects s.sm := by
  have hs0 := (boot_ownObjects env os serverPid files).result hBoot
  exact (Ends.foldlM (fun r _ s hs => step_ownObjects hs r) hs0).result hRun

end

/-- A rename moves the data exactly when the new path is not stored, nothing is stored below the old
one and the descriptors of the old path are those of its object. -/
theorem rename_moves_iff {env : Env} {s s' : State} {tid : Tid} {oldpath newpath : Path}
    (hs : OwnObjects s.sm) (hOld : s.sm.storage oldpath ≠ none) (hNe : newpath ≠ oldpath)
    (hReply : handleRename env s tid oldpath newpath = .ok s') : RenameMoves s.sm s'.sm oldpath newpath ↔
      s.sm.storage newpath = none ∧ (∀ t, s.sm.storage (below oldpath t) = none) ∧
        DescriptorsFollow s.sm oldpath newpath := by
  obtain ⟨i, hi⟩ := Option.ne_none_iff_exists'.mp hOld
  rw [(handleRename_sm hOld tid newpath).result hReply]
  constructor
  · intro hMoves
    have hNew := hs.free_of_renameMoves hNe hi hMoves
    have hBelow := hs.childless_of_renameMoves hNe hMoves
    exact ⟨hNew, hBelow, descriptorsFollow_of_renameMoves hNe hi hNew hBelow hMoves⟩
  · rintro ⟨hNew, hBelow, hFollow⟩
    exact hs.renameMoves hNe hi hNew hBelow hFollow

def plain : Env := Env.plain .onTermination false 0

def oneFile : State where
  sm := {
    objects := [some { threadsFd := [(7, 3)] }]
    storage := update (fun _ => none) "/d/a".toList (some 0)
    openedFdMap := (∅ : FdMap).insert (7, 3) ⟨some 0, some 0, "/d/a".toList⟩
    offsets := [0] }
  cm := { responses := fun _ => true }
  locations := writeFileLocation ['n'] ⟨fun _ => [], fun _ => none⟩ "/d/a".toList

theorem oneFile_stored (h : oneFile.sm.storage p = some i) : p = "/d/a".toList ∧ i = 0 := by
  by_cases hp : p = "/d/a".toList
  · subst hp
    exact ⟨rfl, (some.inj h).symm⟩
  · change update (fun _ => none) "/d/a".toList (some 0) p = some i at h
    rw [update_of_ne hp] at h
    cases h

theorem oneFile_ownObjects : OwnObjects oneFile.sm where
  inj := fun p q i hp hq => (oneFile_stored hp).1.trans (oneFile_stored hq).1.symm
  allocated := by
    intro p i hp
    obtain ⟨_, rfl⟩ := oneFile_stored hp
    decide

theorem oneFile_follow (newpath : Path) : DescriptorsFollow oneFile.sm "/d/a".toList newpath := by
  intro k d i hd hPointer
  change ((∅ : FdMap).insert (7, 3) ⟨some 0, some 0, "/d/a".toList⟩).lookup k = some d at hd
  by_cases hk : k = (7, 3)
  · rw [hk, AList.lookup_insert] at hd
    cases hd
    cases hPointer
    exact ⟨"/d/a".toList, rfl, fun _ => .inl rfl, fun _ => .inl rfl⟩
  · rw [AList.lookup_insert_ne hk, AList.lookup_empty] at hd
    cases hd

theorem rename_moves_oneFile : ∃ s', handleRename plain oneFile 7 "/d/a".toList "/d/b".toList = .ok s' ∧
      RenameMoves oneFile.sm s'.sm "/d/a".toList "/d/b".toList := by
  obtain ⟨s', hReply⟩ := exists_of_failure_eq_none
    (show failure (handleRename plain oneFile 7 "/d/a".toList "/d/b".toList) = none by decide +kernel)
  refine ⟨s', hReply, (rename_moves_iff oneFile_ownObjects (by decide) (by decide) hReply).mpr
    ⟨by decide, ?_, oneFile_follow _⟩⟩
  intro t
  cases ht : oneFile.sm.storage (below "/d/a".toList t) with
  | none => rfl
  | some i => exact absurd (oneFile_stored ht).1 (below_ne _ t)

def run (ops : List Op) : Except Failure State :=
  boot plain (fun _ => Os.plain 0) 1 (fun _ => []) >>= fun s =>
    (plainRequests 0 (.handshake 7 ['a'] false :: ops)).foldlM (step plain) s

def taken : List Op := [.create 7 3 "/d/a".toList, .create 7 4 "/d/b".toList]

def nested : List Op := [.mkdir 7 "/d/a".toList, .create 7 3 "/d/a/f".toList]

def renamed (ops : List Op) : Except Failure (State × State) := do
  let s ← run ops
  let s' ← handleRename plain s 7 "/d/a".toList "/d/b".toList
  return (s, s')

def LosesData (ops : List Op) : Prop :=
  ∃ s s', run ops = .ok s ∧ s.sm.storage "/d/a".toList ≠ none ∧
    handleRename plain s 7 "/d/a".toList "/d/b".toList = .ok s' ∧
    ¬ RenameMoves s.sm s'.sm "/d/a".toList "/d/b".toList

theorem run_of_renamed (h : renamed ops = .ok (s, s')) :
    run ops = .ok s ∧ handleRename plain s 7 "/d/a".toList "/d/b".toList = .ok s' := by
  obtain ⟨s1, hRun, hRest⟩ := exists_of_bind_eq_ok h
  obtain ⟨s2, hReply, hPair⟩ := exists_of_bind_eq_ok hRest
  cases hPair
  exact ⟨hRun, hReply⟩

theorem rename_loses_data : LosesData taken ∧ LosesData nested := by
  constructor
  · -- the object of the old path is lost, the one that was stored at the new path stays
    have hSeen : ∃ p, renamed taken = .ok p ∧ p.1.sm.storage "/d/a".toList = some 1 ∧
        p.2.sm.storage "/d/b".toList = some 2 := by decide +kernel
    obtain ⟨⟨s, s'⟩, hRenamed, hOld, hNew⟩ := hSeen
    obtain ⟨hRun, hReply⟩ := run_of_renamed hRenamed
    refine ⟨s, s', hRun, by rw [hOld]; simp, hReply, fun hMoves => ?_⟩
    have hMoved := hMoves.file.storage
    rw [hNew, hOld] at hMoved
    cases hMoved
  · -- the file below the old path is left behind
    have hSeen : ∃ p, renamed nested = .ok p ∧ p.1.sm.storage "/d/a".toList = some 1 ∧
        p.1.sm.storage (below "/d/a".toList ['f']) = some 2 ∧
        p.2.sm.storage (below "/d/b".toList ['f']) = none := by decide +kernel
    obtain ⟨⟨s, s'⟩, hRenamed, hOld, hBelow, hBehind⟩ := hSeen
    obtain ⟨hRun, hReply⟩ := run_of_renamed hRenamed
    refine ⟨s, s', hRun, by rw [hOld]; simp, hReply, fun hMoves => ?_⟩
    have hMoved := (hMoves.descendants ['f'] (by rw [hBelow]; simp)).storage
    rw [hBehind, hBelow] at hMoved
    cases hMoved

end Capio.Server.Rename
