import Capio.Server.LocationFiles

/-! # Deletions of locations

The files follow the intended map as long as every deletion goes through an entry that the deleting
node made when it wrote the record: such an entry gives the offset at which its line starts. No
buffer of a stream may hold the record then, or that stream finds it again.
-/
namespace Capio.Server.LocationRecords

open Common Lib.Lines Lib.Outcome Server.LocationFiles Function List

/-- The entry was made by the `write_file_location` of the node, not by a load, and its line is in
no buffer. -/
def DeletesOwn (s : State) : Op → Prop
  | .delete n path => ∃ entry, s.tables n path = some entry ∧ entry.own = true ∧
      ∀ k, (s.streams k n).length ≤ entry.offset
  | _ => True

def OwnLine (path : Path) (l : List Char) : Prop :=
  RecordsOnly path l ∧ (path.head? = some CAPIO_SERVER_INVALIDATE_FILE_PATH_CHAR ∨
    records path l = true ∧ recordedPath l = path)

def EntryAt (ls : List (List Char)) (offset : Int) (P : List Char → Prop) : Prop :=
  ∃ i l, ls[i]? = some l ∧ offset = (ls.take i).flatten.length ∧ P l

theorem EntryAt.append (h : EntryAt ls offset P) (ls' : List (List Char)) :
    EntryAt (ls ++ ls') offset P := by
  obtain ⟨i, l, hl, hOffset, hP⟩ := h
  have hi : i < ls.length := (List.getElem?_eq_some_iff.mp hl).1
  refine ⟨i, l, ?_, ?_, hP⟩
  · rw [getElem?_append_left hi, hl]
  · rw [take_append_of_le_length (Nat.le_of_lt hi), hOffset]

structure Tracks (c : Cluster) (s : State) (m : Path → Option Node) (L : Node → List (List Char)) :
    Prop where
  mirrors : Mirrors c s.files m L
  own : ∀ n p entry, s.tables n p = some entry → entry.own = true →
    entry.node = n ∧ EntryAt (L n) entry.offset (OwnLine p)
  fresh : ∀ k n, s.streams k n <+: s.files n

theorem tracks_init (c : Cluster) : Tracks c init (fun _ => none) fun _ => [] where
  mirrors :=
    { content := fun _ => rfl
      formed := fun _ _ hl => absurd hl not_mem_nil
      sound := fun _ _ hl => absurd hl not_mem_nil
      complete := fun _ _ hp => by cases hp
      apart := fun _ => Pairwise.nil }
  own _ _ _ h := by cases h
  fresh _ _ := nil_prefix

theorem Tracks.load (h : Tracks c s m L) (n : Node) (path : Path) : Tracks c (s.load c n path) m L := by
  have hFiles : (s.load c n path).files = s.files := (loadFileLocation_found c (s.view n) path _).2
  refine ⟨hFiles ▸ h.mirrors, ?_, ?_⟩
  · intro k p entry hEntry hOwn
    simp only [State.load, State.put] at hEntry
    by_cases hk : k = n
    · subst hk
      rw [update_self, loadFileLocation] at hEntry
      apply h.own k p entry ?_ hOwn
      split at hEntry
      · obtain hEntry | ⟨-, rfl⟩ := addFileLocation_eq_some hEntry
        · exact hEntry
        · cases hOwn
      · exact hEntry
    · rw [update_of_ne hk] at hEntry
      exact h.own k p entry hEntry hOwn
  · intro k node
    rw [hFiles]
    by_cases hk : k = n
    · simp only [State.load, hk, update_self]
      rcases streamsAfter_cases c (s.streams n) s.files path c.nodes node with hStream | ⟨_, hStream⟩ <;>
        rw [hStream]
      · exact h.fresh n node
      · exact take_prefix _ _
    · simp only [State.load, update_of_ne hk]
      exact h.fresh k node

theorem Tracks.write (h : Tracks c s m L) (hOp : Admissible c s (.write n path)) :
    Tracks c (s.put n (writeFileLocation n (s.view n) path)) (recordStep m (.write n path))
      (update L n (L n ++ [locationLine n path])) := by
  obtain ⟨hNode, hSelf, hBlank, hPath, hNew⟩ := hOp
  rw [h.mirrors.foundOn] at hNew
  refine ⟨h.mirrors.write hNode hSelf hBlank hPath hNew, ?_, fun k node => ?_⟩
  rotate_left
  · refine (h.fresh k node).trans ?_
    by_cases hk : node = n
    · simp [State.put, State.view, writeFileLocation, hk]
    · simp [State.put, State.view, writeFileLocation, hk]
  intro k p entry hEntry hOwn
  have hOld : s.tables k p = some entry → entry.node = k ∧
      EntryAt (update L n (L n ++ [locationLine n path]) k) entry.offset (OwnLine p) := by
    intro hEntry
    obtain ⟨hk, hAt⟩ := h.own k p entry hEntry hOwn
    grind [update_self, update_of_ne, hAt.append]
  simp only [State.put, State.view, writeFileLocation] at hEntry
  by_cases hk : k = n
  · subst hk
    rw [update_self] at hEntry
    obtain hEntry | ⟨rfl, rfl⟩ := addFileLocation_eq_some hEntry
    · exact hOld hEntry
    · refine ⟨rfl, (L k).length, locationLine k p, by simp, ?_, ?_, ?_⟩
      · simp [h.mirrors.content k]
      · exact fun q hq => ((records_locationLine hBlank q).mp hq).1
      · rw [records_locationLine hBlank]
        by_cases hHead : p.head? = some CAPIO_SERVER_INVALIDATE_FILE_PATH_CHAR
        · exact .inl hHead
        · exact .inr ⟨⟨.refl p, hHead⟩, recordedPath_locationLine hBlank⟩
  · rw [update_of_ne hk] at hEntry
    exact hOld hEntry

theorem EntryAt.invalidate (h : EntryAt ls offset (OwnLine p)) (hj : ls[j]? = some (a :: l))
    (hLine : OwnLine path (a :: l)) (hp : p ≠ path) :
    EntryAt (ls.set j (CAPIO_SERVER_INVALIDATE_FILE_PATH_CHAR :: l)) offset (OwnLine p) := by
  obtain ⟨i, x, hx, hOffset, hOwn⟩ := h
  by_cases hij : j = i
  · subst hij
    rw [hj] at hx
    cases hx
    have hlt : j < ls.length := (List.getElem?_eq_some_iff.mp hj).1
    refine ⟨j, _, getElem?_set_self hlt, ?_, ?_, ?_⟩
    · rw [hOffset, length_flatten_take_set hj (by simp)]
    · intro q hq
      cases hq
    · left
      obtain hHead | ⟨hRecords, hSpelled⟩ := hOwn.2
      · exact hHead
      · obtain hHead | ⟨-, hSpelled'⟩ := hLine.2
        · rw [(hLine.1 p hRecords).head?, hHead]
        · exact absurd (hSpelled.symm.trans hSpelled') hp
  · refine ⟨i, x, ?_, ?_, hOwn⟩
    · rw [getElem?_set_ne hij, hx]
    · rw [hOffset, length_flatten_take_set hj (by simp)]

theorem Tracks.delete (h : Tracks c s m L) (hOwn : DeletesOwn s (.delete n path)) :
    ∃ s' L', step c s (.delete n path) = .ok s' ∧ Tracks c s' (setPath m path none) L' := by
  obtain ⟨⟨node, offset, own⟩, hEntry, hFlag, hUnread⟩ := hOwn
  obtain ⟨hNode, i, l, hl, hOffset, hLine⟩ := h.own n path _ hEntry hFlag
  dsimp only at hNode hOffset
  subst hNode hOffset
  obtain ⟨hi, hGet⟩ := List.getElem?_eq_some_iff.mp hl
  have hMem : l ∈ L node := hGet ▸ getElem_mem hi
  cases l with
  | nil => simpa using (h.mirrors.formed node _ hMem).2
  | cons a l =>
    have hSplit : L node = (L node).take i ++ (a :: l) :: (L node).drop (i + 1) := by
      rw [← hGet, ← drop_eq_getElem_cons hi, take_append_drop]
    have hGone : m path = none ∨ records path (a :: l) = true := hLine.2.imp h.mirrors.invisible And.left
    have hMirrors := h.mirrors.invalidate hSplit hLine.1 hGone
    have hSet : (L node).set i (CAPIO_SERVER_INVALIDATE_FILE_PATH_CHAR :: l) =
        (L node).take i ++ (CAPIO_SERVER_INVALIDATE_FILE_PATH_CHAR :: l) :: (L node).drop (i + 1) := by
      rw [set_eq_take_append_cons_drop, if_pos hi]
    rw [← hSet] at hMirrors
    have hDelete : deleteFromFilesLocation node (s.view node) path = .ok (1,
        ⟨update s.files node
            (Server.invalidate node node (s.files node) ((L node).take i).flatten.length),
          eraseFromFilesLocation (s.tables node) path⟩) := by
      have hOffset : ¬ ((((L node).take i).flatten.length : Nat) : Int) = -1 := by omega
      simp only [deleteFromFilesLocation, State.view, hEntry, if_neg hOffset, Int.toNat_natCast]
    refine ⟨_, _, by simp only [step, hDelete]; rfl, hMirrors, ?_, fun k n => ?_⟩
    rotate_left
    · by_cases hn : n = node
      · simp only [State.put, hn, update_self, Server.invalidate, if_pos]
        exact prefix_overwrite (h.fresh k node) (Int.ofNat_le.mp (hUnread k)) _ _
      · simp only [State.put, update_of_ne hn]
        exact h.fresh k n
    intro k p entry hp hpOwn
    simp only [State.put, eraseFromFilesLocation] at hp
    by_cases hk : k = node
    · subst hk
      rw [update_self] at hp
      have hne : p ≠ path := by grind
      rw [update_of_ne hne] at hp
      obtain ⟨hNode, hAt⟩ := h.own k p entry hp hpOwn
      rw [update_self]
      exact ⟨hNode, hAt.invalidate hl hLine hne⟩
    · rw [update_of_ne hk] at hp
      rw [update_of_ne hk]
      exact h.own k p entry hp hpOwn

theorem step_tracks (h : ∃ L, Tracks c s m L) (hOp : Admissible c s op) (hOwn : DeletesOwn s op) :
    Returns (step c s op) (fun s' => ∃ L, Tracks c s' (recordStep m op) L) := by
  obtain ⟨L, h⟩ := h
  cases op with
  | write n path => exact ⟨_, h.write hOp⟩
  | load n path => exact ⟨L, h.load n path⟩
  | delete n path =>
    obtain ⟨s', L', hStep, h'⟩ := h.delete hOwn
    rw [hStep]
    exact ⟨L', h'⟩

theorem run_tracks (h : ∃ L, Tracks c s m L)
    (hOps : Meets (fun s op => Admissible c s op ∧ DeletesOwn s op) (step c) s ops) :
    Returns (ops.foldlM (step c) s) (fun s' => ∃ L, Tracks c s' (ops.foldl recordStep m) L) := by
  induction ops generalizing s m with
  | nil => exact h
  | cons op ops ih =>
    rw [foldlM_cons]
    have hStep := step_tracks h hOps.1.1 hOps.1.2
    cases hs : step c s op with
    | error e => exact hStep.failure hs
    | ok s' => exact ih (hStep.result hs) (hOps.2 s' hs)

theorem recordStep_congr (h : m q = m' q) (op : Op) : recordStep m op q = recordStep m' op q := by
  cases op with
  | write n path =>
    simp only [recordStep]
    split
    · exact h
    · simp only [setPath, h]
  | load n path => exact h
  | delete n path => simp only [recordStep, setPath, h]

theorem foldl_recordStep_congr (h : m q = m' q) (ops : List Op) :
    ops.foldl recordStep m q = ops.foldl recordStep m' q := by
  induction ops generalizing m m' with
  | nil => exact h
  | cons op ops ih => exact ih (recordStep_congr h op)

theorem recorded_delete_of_not_same (hq : ¬ SamePath q p) (n : Node) (pre post : List Op) :
    recorded (pre ++ .delete n p :: post) q = recorded (pre ++ post) q := by
  rw [recorded, recorded, foldl_append, foldl_append, foldl_cons]
  apply foldl_recordStep_congr
  rw [recordStep, setPath_of_not_same hq]

theorem foldl_recordStep_eq_none (h : m p = none) {ops : List Op}
    (hOps : ∀ n q, SamePath q p → Op.write n q ∉ ops) : ops.foldl recordStep m p = none := by
  induction ops generalizing m with
  | nil => exact h
  | cons op ops ih =>
    apply ih
    · cases op with
      | write n path =>
        have hOther : ¬ SamePath p path := fun hSame => hOps n path hSame.symm mem_cons_self
        rw [recordStep_write_of_not_same hOther, h]
      | load n path => exact h
      | delete n path =>
        rw [recordStep, setPath]
        split
        · rfl
        · exact h
    · grind

theorem recorded_delete_self (p : Path) (n : Node) (pre : List Op)
    (hPost : ∀ k q, SamePath q p → Op.write k q ∉ post) :
    recorded (pre ++ .delete n p :: post) p = none := by
  rw [recorded, foldl_append, foldl_cons]
  apply foldl_recordStep_eq_none _ hPost
  rw [recordStep, setPath_of_same (.refl p)]

/-- A deletion removes its path from every later search until the path is written again, and
changes nothing for the others; spellings that compare equal are one path. -/
def DeletionsRespected (c : Cluster) (guard : State → Op → Prop) : Prop :=
  ∀ pre post n p, Meets guard (step c) init (pre ++ .delete n p :: post) →
    Ends ((pre ++ .delete n p :: post).foldlM (step c) init)
      (fun s =>
        ((∀ k q, SamePath q p → Op.write k q ∉ post) → ∀ k, s.finds c k p = false) ∧
        ∀ q, ¬ SamePath q p → foundOn c s q = recorded (pre ++ post) q ∧
          ∀ k, s.finds c k q = (recorded (pre ++ post) q).isSome)
      (fun _ => False)

theorem Tracks.finds (h : Tracks c s m L) (k : Node) (p : Path) : s.finds c k p = (m p).isSome := by
  rw [State.finds, (loadFileLocation_found c (s.view k) p _).1, ← h.mirrors.search (h.fresh k),
    Option.isSome_map]
  rfl

/-- Deletions are respected in every run in which each goes through an entry that the deleting
node made when it wrote the record. -/
theorem deletions_respected_through_own_records (c : Cluster) :
    DeletionsRespected c fun s op => Admissible c s op ∧ DeletesOwn s op := by
  intro pre post n p hOps
  refine (run_tracks ⟨_, tracks_init c⟩ hOps).imp ?_
  rintro s ⟨L, h⟩
  refine ⟨fun hPost k => ?_, fun q hq => ?_⟩
  · rw [h.finds]
    exact congrArg Option.isSome (recorded_delete_self p n pre hPost)
  · rw [← recorded_delete_of_not_same hq n pre post]
    exact ⟨h.mirrors.foundOn q, fun k => h.finds k q⟩

def twoNodes : Cluster := ⟨[['a'], ['b']], 4096⟩

/-- Node `a` records two paths and deletes the first; node `b` has loaded it, and its next search went
to the end of the file. -/
theorem deletions_respected_through_own_records_run :
    ∃ s, ([.write ['a'] ['/', 'p'], .write ['a'] ['/', 'q'], .load ['b'] ['/', 'p'],
        .load ['b'] ['/', 'x'], .delete ['a'] ['/', 'p']].foldlM (step twoNodes) init = .ok s) ∧
      s.finds twoNodes ['b'] ['/', 'p'] = false ∧ s.finds twoNodes ['b'] ['/', 'q'] = true := by
  have hMeets : Meets (fun s op => Admissible twoNodes s op ∧ DeletesOwn s op) (step twoNodes) init
      ([.write ['a'] ['/', 'p'], .write ['a'] ['/', 'q'], .load ['b'] ['/', 'p'],
        .load ['b'] ['/', 'x']] ++ .delete ['a'] ['/', 'p'] :: []) := by
    refine ⟨⟨by decide, trivial⟩, ?_⟩
    rintro _ ⟨⟩
    refine ⟨⟨by decide, trivial⟩, ?_⟩
    rintro _ ⟨⟩
    refine ⟨⟨trivial, trivial⟩, ?_⟩
    rintro _ ⟨⟩
    refine ⟨⟨trivial, trivial⟩, ?_⟩
    rintro _ ⟨⟩
    refine ⟨⟨by decide, _, rfl, rfl, fun k => ?_⟩, ?_⟩
    · by_cases hk : k = ['b']
      · subst hk
        decide
      · simp [State.load, State.put, hk, init]
    rintro _ _
    trivial
  have hRun := deletions_respected_through_own_records twoNodes _ _ _ _ hMeets
  refine ⟨_, rfl, hRun.1 (by simp) _, ?_⟩
  exact (hRun.2 ['/', 'q'] (by decide)).2 _

def deleteLoaded : List Op :=
  [.write ['a'] ['/', 'p'], .load ['b'] ['/', 'p']] ++
    .delete ['b'] ['/', 'p'] :: [.write ['a'] ['/', 'q']]

/-- Node `b` deletes a path it has loaded from the file of node `a`: the path is still found, and
the next path that `a` records is not. Where `a` deletes the path, the buffer of `b` still has it. -/
theorem deletion_through_loaded_entry_lost :
    (∃ s, deleteLoaded.foldlM (step twoNodes) init = .ok s ∧ s.finds twoNodes ['b'] ['/', 'p'] = true ∧
      s.finds twoNodes ['b'] ['/', 'q'] = false) ∧
    (∃ s, ([.write ['a'] ['/', 'p'], .load ['b'] ['/', 'p'], .delete ['a'] ['/', 'p']].foldlM
        (step twoNodes) init = .ok s) ∧ s.finds twoNodes ['b'] ['/', 'p'] = true) ∧
    ¬ DeletionsRespected twoNodes (Admissible twoNodes) := by
  refine ⟨⟨_, rfl, by decide, by decide⟩, ⟨_, rfl, by decide⟩, fun h => ?_⟩
  have hMeets : Meets (Admissible twoNodes) (step twoNodes) init deleteLoaded := by
    refine ⟨by decide, ?_⟩
    rintro _ ⟨⟩
    refine ⟨trivial, ?_⟩
    rintro _ ⟨⟩
    refine ⟨by decide, ?_⟩
    rintro _ ⟨⟩
    refine ⟨by decide, ?_⟩
    rintro _ _
    trivial
  have hRun := h _ _ _ _ hMeets
  have hOther : ∀ k q, SamePath q ['/', 'p'] → Op.write k q ∉ [Op.write ['a'] ['/', 'q']] := by
    intro k q hSame hMem
    obtain ⟨-, rfl⟩ := Op.write.inj (mem_singleton.mp hMem)
    exact absurd hSame (by decide)
  exact absurd (hRun.1 hOther ['b']) (by decide)

end Capio.Server.LocationRecords
