import Capio.Lib.Outcome
import Capio.Server.Location

/-! # Lines of the location files

Any node writes, loads and deletes locations.  The intended meaning of such a history is a map
from paths to nodes that a write extends and a deletion shrinks.  `Mirrors` relates the map to the
lines of the files: an appended line and the first letter of a line overwritten keep the relation.
A node sees a file through the buffer of its stream.
-/
namespace Capio.Server.LocationFiles

open Common Lib.Lines Lib.Outcome Function List

variable {c : Cluster} {streams files : Node → List Char} {path p : Path} {m : Path → Option Node}
  {L : Node → List (List Char)} {self n : Node} {A B : List (List Char)}

inductive Op
  | write (self : Node) (path : Path)
  | load (self : Node) (path : Path)
  | delete (self : Node) (path : Path)

/-- `streams` has the buffer of each node for each file. -/
structure State where
  files : Node → List Char
  tables : Node → FilesLocation
  streams : Node → Node → List Char := fun _ _ => []

def State.view (s : State) (n : Node) : Locations := ⟨s.files, s.tables n⟩

def State.put (s : State) (n : Node) (l : Locations) : State :=
  { s with files := l.files, tables := update s.tables n l.table }

def State.finds (c : Cluster) (s : State) (n : Node) (path : Path) : Bool :=
  (loadFileLocation c (s.view n) path (s.streams n)).1

def State.load (c : Cluster) (s : State) (n : Node) (path : Path) : State :=
  { s.put n (loadFileLocation c (s.view n) path (s.streams n)).2 with
    streams := update s.streams n (streamsAfter c (s.streams n) s.files path c.nodes) }

def init : State := { files := fun _ => [], tables := fun _ _ => none }

def step (c : Cluster) (s : State) : Op → Except Failure State
  | .write n path => .ok (s.put n (writeFileLocation n (s.view n) path))
  | .load n path => .ok (s.load c n path)
  | .delete n path => do
    let (_, l) ← deleteFromFilesLocation n (s.view n) path
    pure (s.put n l)

def foundOn (c : Cluster) (s : State) (path : Path) : Option Node :=
  (searchNodes c (fun _ => []) s.files path c.nodes).map Prod.fst

def setPath (m : Path → Option Node) (path : Path) (value : Option Node) : Path → Option Node :=
  fun q => if SamePath q path then value else m q

def recordStep (m : Path → Option Node) : Op → Path → Option Node
  | .write n path =>
    if path.head? = some CAPIO_SERVER_INVALIDATE_FILE_PATH_CHAR then m else setPath m path (some n)
  | .load _ _ => m
  | .delete _ path => setPath m path none

def recorded (ops : List Op) : Path → Option Node :=
  ops.foldl recordStep fun _ => none

/-- The use made of the functions: nodes of the cluster write paths that no file records, and
delete paths of their table. -/
def Admissible (c : Cluster) (s : State) : Op → Prop
  | .write n path => n ∈ c.nodes ∧ '\n' ∉ n ∧ ' ' ∉ path ∧ '\n' ∉ path ∧ foundOn c s path = none
  | .load _ _ => True
  | .delete n path => s.tables n path ≠ none

instance (c : Cluster) (s : State) : DecidablePred (Admissible c s)
  | .write n path => inferInstanceAs (Decidable (n ∈ c.nodes ∧ '\n' ∉ n ∧ ' ' ∉ path ∧ '\n' ∉ path ∧ _ = none))
  | .load _ _ => inferInstanceAs (Decidable True)
  | .delete _ _ => inferInstanceAs (Decidable (_ ≠ none))

theorem loadFileLocation_found (c : Cluster) (l : Locations) (path : Path) (streams : Node → List Char) :
    (loadFileLocation c l path streams).1 = (searchNodes c streams l.files path c.nodes).isSome ∧
      (loadFileLocation c l path streams).2.files = l.files := by grind [loadFileLocation]

theorem streamsAfter_cases (c : Cluster) (streams files : Node → List Char) (path : Path)
    (nodes : List Node) (n : Node) : streamsAfter c streams files path nodes n = streams n ∨
      ∃ k, streamsAfter c streams files path nodes n = (files n).take k := by
  induction nodes with
  | nil => exact .inl rfl
  | cons node nodes ih =>
    rw [streamsAfter]
    rcases findRecord (streamText (streams node) (files node)) path with _ | ⟨_, lineEnd⟩ <;> dsimp only
    · by_cases hn : n = node
      · exact .inr ⟨0, by rw [hn, update_self, take_zero]⟩
      · rw [update_of_ne hn]
        exact ih
    · by_cases hn : n = node
      · subst hn
        rw [update_self, keptBuffer]
        split
        · exact .inl rfl
        · split
          · exact .inr ⟨_, rfl⟩
          · exact .inr ⟨0, rfl⟩
      · exact .inl (update_of_ne hn ..)

theorem record_of_searchNodes (h : searchNodes c streams files path nodes = some r) :
    ∃ n ∈ nodes, ∃ line ∈ lines '\n' (streamText (streams n) (files n)), records path line = true ∧
      recordedPath line = r.2.1 := by
  induction nodes with
  | nil => cases h
  | cons node nodes ih =>
    rw [searchNodes] at h
    split at h
    · next hFind =>
      obtain rfl := Option.some.inj h
      obtain ⟨hLine, hRecords⟩ := line_of_findLine hFind
      exact ⟨node, mem_cons_self, _, hLine, hRecords, rfl⟩
    · grind

/-- The files consist of whole lines, and the live ones among them are those of the map. -/
structure Mirrors (c : Cluster) (files : Node → List Char) (m : Path → Option Node)
    (L : Node → List (List Char)) : Prop where
  content : ∀ n, files n = (L n).flatten
  formed : ∀ n, ∀ l ∈ L n, IsLine '\n' l ∧ 2 ≤ l.length
  sound : ∀ n, ∀ l ∈ L n, ∀ p, records p l = true → m p = some n
  complete : ∀ p n, m p = some n → n ∈ c.nodes ∧ ∃ l ∈ L n, records p l = true
  apart : ∀ n, (L n).Pairwise fun x y => ∀ p, records p x = true → records p y = false

theorem Mirrors.findRecord_isSome (h : Mirrors c files m L) (n : Node) (p : Path) :
    (findRecord (files n) p).isSome = true ↔ m p = some n := by
  rw [findRecord, h.content n, lines_flatten fun l hl => (h.formed n l hl).1, findLine_isSome_iff]
  constructor
  · rintro ⟨l, hl, hp⟩
    exact h.sound n l hl p hp
  · intro hm
    exact (h.complete p n hm).2

theorem records_invalidated (p : Path) (l : List Char) :
    records p (CAPIO_SERVER_INVALIDATE_FILE_PATH_CHAR :: l) = false := by
  simp [records]

theorem records_iff : records p l = true ↔
    l.head? ≠ some CAPIO_SERVER_INVALIDATE_FILE_PATH_CHAR ∧ SamePath (recordedPath l) p := by
  rw [records, Bool.and_eq_true, bne_iff_ne, decide_eq_true_iff]

theorem recordedPath_locationLine (hBlank : ' ' ∉ path) : recordedPath (locationLine self path) = path := by
  have hAll : ∀ x ∈ path, (x != ' ') = true := by
    intro x hx
    rw [bne_iff_ne]
    rintro rfl
    exact hBlank hx
  rw [recordedPath, locationLine, append_assoc, append_assoc, takeWhile_append_of_pos hAll]
  simp

theorem head?_locationLine (self : Node) (path : Path) :
    (locationLine self path).head? = some CAPIO_SERVER_INVALIDATE_FILE_PATH_CHAR ↔
      path.head? = some CAPIO_SERVER_INVALIDATE_FILE_PATH_CHAR := by
  cases path with
  | nil => simp [locationLine, CAPIO_SERVER_INVALIDATE_FILE_PATH_CHAR]
  | cons a path => simp [locationLine]

theorem records_locationLine (hBlank : ' ' ∉ path) (p : Path) : records p (locationLine self path) = true ↔
      SamePath p path ∧ path.head? ≠ some CAPIO_SERVER_INVALIDATE_FILE_PATH_CHAR := by
  rw [records_iff, recordedPath_locationLine hBlank, Ne, head?_locationLine]
  exact ⟨fun h => ⟨h.2.symm, h.1⟩, fun h => ⟨h.2, h.1.symm⟩⟩

theorem locationLine_formed (hSelf : '\n' ∉ self) (hPath : '\n' ∉ path) :
    IsLine '\n' (locationLine self path) ∧ 2 ≤ (locationLine self path).length := by
  refine ⟨⟨path ++ [' '] ++ self, ?_, rfl⟩, ?_⟩
  · simp [hSelf, hPath]
  · grind [locationLine]

theorem searchNodes_eq
    (hFind : ∀ n p, (findRecord (streamText (streams n) (files n)) p).isSome = true ↔ m p = some n)
    (p : Path) (nodes : List Node) (hNodes : ∀ n, m p = some n → n ∈ nodes) :
    (searchNodes c streams files p nodes).map Prod.fst = m p := by
  induction nodes with
  | nil =>
    cases hm : m p with
    | none => rfl
    | some n => exact absurd (hNodes n hm) not_mem_nil
  | cons node nodes ih =>
    rw [searchNodes]
    grind

theorem Mirrors.search (h : Mirrors c files m L) (hFresh : ∀ n, streams n <+: files n) (p : Path) :
    (searchNodes c streams files p c.nodes).map Prod.fst = m p := by
  refine searchNodes_eq (fun n p => ?_) p c.nodes fun n hn => (h.complete p n hn).1
  have hText : streamText (streams n) (files n) = files n := prefix_iff_eq_append.mp (hFresh n)
  rw [hText]
  exact h.findRecord_isSome n p

theorem Mirrors.foundOn (h : Mirrors c s.files m L) (p : Path) : foundOn c s p = m p :=
  h.search (fun _ => nil_prefix) p

section

variable {L : Node → List (List Char)} {n k : Node} {x : List Char}

theorem mem_appended : x ∈ update L n (L n ++ [line]) k ↔ k = n ∧ x = line ∨ x ∈ L k := by grind

theorem mem_replaced (hL : L n = A ++ line :: B) (hx : x ∈ update L n (A ++ line' :: B) k) :
    k = n ∧ x = line' ∨ x ∈ L k ∧ (k = n → x ∈ A ++ B) := by
  grind

end

theorem setPath_of_same (hp : SamePath p path) (value : Option Node) : setPath m path value p = value :=
  if_pos hp

theorem setPath_of_not_same (hp : ¬ SamePath p path) (value : Option Node) : setPath m path value p = m p :=
  if_neg hp

theorem recordStep_write_of_not_same (hp : ¬ SamePath p path) : recordStep m (.write n path) p = m p := by
  rw [recordStep]
  split
  · rfl
  · exact setPath_of_not_same hp _

theorem recordStep_write_of_same (hp : SamePath p path) (hNew : m p = none) :
    recordStep m (.write n path) p = some k ↔
      k = n ∧ path.head? ≠ some CAPIO_SERVER_INVALIDATE_FILE_PATH_CHAR := by
  rw [recordStep]
  grind [setPath_of_same]

theorem Mirrors.eq_none_of_same (h : Mirrors c files m L) (hSame : SamePath p q) (hq : m q = none) :
    m p = none := by
  cases hp : m p with
  | none => rfl
  | some n =>
    obtain ⟨-, l, hl, hr⟩ := h.complete p n hp
    obtain ⟨hHead, hRecorded⟩ := records_iff.mp hr
    cases hq.symm.trans (h.sound n l hl q (records_iff.mpr ⟨hHead, hRecorded.trans hSame⟩))

theorem Mirrors.write (h : Mirrors c files m L) (hNode : n ∈ c.nodes) (hSelf : '\n' ∉ n)
    (hBlank : ' ' ∉ path) (hPath : '\n' ∉ path) (hNew : m path = none) :
    Mirrors c (update files n (files n ++ locationLine n path))
      (recordStep m (.write n path)) (update L n (L n ++ [locationLine n path])) where
  content k := by
    by_cases hk : k = n
    · subst hk
      simp [h.content]
    · simp [hk, h.content]
  formed k l hl := by
    obtain ⟨-, rfl⟩ | hl := mem_appended.mp hl
    · exact locationLine_formed hSelf hPath
    · exact h.formed k l hl
  sound k l hl p hp := by
    obtain ⟨rfl, rfl⟩ | hl := mem_appended.mp hl
    · obtain ⟨hSame, hHead⟩ := (records_locationLine hBlank p).mp hp
      exact (recordStep_write_of_same hSame (h.eq_none_of_same hSame hNew)).mpr ⟨rfl, hHead⟩
    · have hm := h.sound k l hl p hp
      grind [recordStep_write_of_not_same, h.eq_none_of_same]
  complete p k hp := by
    by_cases hSame : SamePath p path
    · obtain ⟨rfl, hHead⟩ := (recordStep_write_of_same hSame (h.eq_none_of_same hSame hNew)).mp hp
      exact ⟨hNode, locationLine k path, mem_appended.mpr (.inl ⟨rfl, rfl⟩),
        (records_locationLine hBlank p).mpr ⟨hSame, hHead⟩⟩
    · rw [recordStep_write_of_not_same hSame] at hp
      grind [h.complete, mem_appended]
  apart k := by
    by_cases hk : k = n
    · subst hk
      rw [update_self, pairwise_append]
      refine ⟨h.apart k, pairwise_singleton _ _, ?_⟩
      intro x hx y hy p hp
      rw [mem_singleton.mp hy, ← Bool.not_eq_true, records_locationLine hBlank]
      rintro ⟨hSame, _⟩
      cases (h.eq_none_of_same hSame hNew).symm.trans (h.sound k x hx p hp)
    · rw [update_of_ne hk]
      exact h.apart k

def RecordsOnly (path : Path) (l : List Char) : Prop :=
  ∀ p, records p l = true → SamePath p path

section

variable (h : Mirrors c files m L)
include h

theorem Mirrors.other_lines (hL : L n = A ++ l :: B)
    (hl : records path l = true) : ∀ x ∈ A ++ B, records path x = false := by
  have hApart := h.apart n
  grind

theorem Mirrors.not_same_of_records (hL : L n = A ++ l :: B) (hGone : m path = none ∨ records path l = true)
    (hx : x ∈ L k) (hOther : k = n → x ∈ A ++ B) (hr : records p x = true) : ¬ SamePath p path := by
  intro hSame
  obtain ⟨hHead, hRecorded⟩ := records_iff.mp hr
  have hx' : records path x = true := records_iff.mpr ⟨hHead, hRecorded.trans hSame⟩
  have hm := h.sound k x hx path hx'
  obtain hNone | hl := hGone
  · cases hNone.symm.trans hm
  · have hLine := h.sound n l (by simp [hL]) path hl
    grind [Option.some.inj, h.other_lines]

theorem Mirrors.invalidate (hL : L n = A ++ (a :: l) :: B) (hLine : RecordsOnly path (a :: l))
    (hGone : m path = none ∨ records path (a :: l) = true) :
    Mirrors c (update files n (invalidate n n (files n) A.flatten.length))
      (setPath m path none)
      (update L n (A ++ (CAPIO_SERVER_INVALIDATE_FILE_PATH_CHAR :: l) :: B)) := by
  constructor
  case content =>
    intro k
    grind [update_self, Server.invalidate, h.content, overwrite_flatten]
  case formed =>
    intro k x hx
    obtain ⟨rfl, rfl⟩ | ⟨hx, -⟩ := mem_replaced hL hx
    · obtain ⟨hFormed, hLen⟩ := h.formed k (a :: l) (by simp [hL])
      refine ⟨hFormed.overwrite_head ?_ (by decide), hLen⟩
      rintro rfl
      simp at hLen
    · exact h.formed k x hx
  case sound =>
    intro k x hx p hp
    obtain ⟨rfl, rfl⟩ | ⟨hx, hOther⟩ := mem_replaced hL hx
    · rw [records_invalidated] at hp
      cases hp
    · rw [setPath_of_not_same (h.not_same_of_records hL hGone hx hOther hp), h.sound k x hx p hp]
  case complete =>
    intro p k hp
    by_cases hSame : SamePath p path
    · rw [setPath_of_same hSame] at hp
      cases hp
    · rw [setPath_of_not_same hSame] at hp
      obtain ⟨hk, x, hx, hr⟩ := h.complete p k hp
      refine ⟨hk, x, ?_, hr⟩
      by_cases hkn : k = n
      · subst hkn
        rw [update_self]
        rw [hL, mem_append, mem_cons] at hx
        obtain hx | rfl | hx := hx
        · exact mem_append_left _ hx
        · exact absurd (hLine p hr) hSame
        · exact mem_append_right _ (mem_cons_of_mem _ hx)
      · rwa [update_of_ne hkn]
  case apart =>
    intro k
    by_cases hk : k = n
    · subst hk
      have hApart := h.apart k
      grind [pairwise_cons, update_self, records_invalidated]
    · rw [update_of_ne hk]
      exact h.apart k

theorem Mirrors.invisible
    (hPath : path.head? = some CAPIO_SERVER_INVALIDATE_FILE_PATH_CHAR) : m path = none := by
  cases hm : m path with
  | none => rfl
  | some n =>
    obtain ⟨_, l, _, hl⟩ := h.complete path n hm
    obtain ⟨hHead, hRecorded⟩ := records_iff.mp hl
    rw [← hRecorded.head?] at hPath
    cases l with
    | nil => cases hPath
    | cons a l => grind [recordedPath, takeWhile_cons]

end

end Capio.Server.LocationFiles
