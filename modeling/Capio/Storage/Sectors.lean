import Capio.Lib.Segments

/-! # The sector set of a file

`CapioFile::_sectors` is an ordered set of pairs compared by their first component only.  It is
modelled by the list of its elements in order, and an iterator by its position in that list.
`insertSector` keeps the list separated; what it replaces is described once, by `Splice`, and
every later fact about an insertion is read off that description.
-/
namespace Capio.Storage.Sectors

open Lib.Segments List

abbrev Sector := Nat × Nat

variable {S : List Sector} {start s e : Nat} {t : Sector}

def lowerBound (S : List Sector) (start : Nat) : Nat :=
  S.findIdx fun t => decide (start ≤ t.1)

def upperBound (S : List Sector) (start : Nat) : Nat :=
  S.findIdx fun t => decide (start < t.1)

def emplace (S : List Sector) (t : Sector) : List Sector :=
  let it := lowerBound S t.1
  match S[it]? with
  | some u => if u.1 = t.1 then S else S.take it ++ t :: S.drop it
  | none => S.take it ++ t :: S.drop it

/-- The left edge: `it_start`, `new_start` and `new_end` once the previous sector was checked. -/
def absorbLeft (S : List Sector) (newStart newEnd : Nat) : Nat × Nat × Nat :=
  let itStart := lowerBound S newStart
  match (S.take itStart).getLast? with
  | some prev =>
    if newStart ≤ prev.2 then (itStart - 1, prev.1, max newEnd prev.2)
    else (itStart, newStart, newEnd)
  | none => (itStart, newStart, newEnd)

/-- The right edge: `new_end` once the last sector before `it_end` was checked. -/
def absorbRight (S : List Sector) (itEnd newEnd : Nat) : Nat :=
  match (S.take itEnd).getLast? with
  | some last => if newEnd < last.2 then last.2 else newEnd
  | none => newEnd

def insertSector (S : List Sector) (newStart newEnd : Nat) : List Sector :=
  let left := absorbLeft S newStart newEnd
  -- the sectors that start right after `new_end` are meant to be included by the `+ 1`
  let itEnd := upperBound S (left.2.2 + 1)
  emplace (S.take left.1 ++ S.drop itEnd) (left.2.1, absorbRight S itEnd left.2.2)

def getFileSize (S : List Sector) : Nat :=
  match S.getLast? with
  | some t => t.2
  | none => 0

def getSectorEnd (S : List Sector) (offset : Nat) : Option Nat :=
  match (S.take (upperBound S offset)).getLast? with
  | some t => if offset ≤ t.2 then some t.2 else none
  | none => none

/-- What `insertSector S s e` does to a separated list: `before` and `after` stay, `merged` is
replaced by the one sector from `start` to `stop`.  `mid` is the right edge before the last merged
sector is taken into account. -/
structure Splice (S : List Sector) (s e : Nat) where
  before : List Sector
  merged : List Sector
  after : List Sector
  start : Nat
  mid : Nat
  stop : Nat
  split : S = before ++ (merged ++ after)
  start_le : start ≤ s
  le_mid : e ≤ mid
  mid_le : mid ≤ stop
  before_lt : ∀ t ∈ before, t.2 < start
  merged_start : ∀ t ∈ merged, start ≤ t.1 ∧ t.1 ≤ mid + 1
  merged_stop : ∀ t ∈ merged, t.2 ≤ stop
  after_lt : ∀ t ∈ after, mid + 1 < t.1 ∧ stop < t.1
  left_covered : ∀ b, start ≤ b → b < mid → Covers S b ∨ (s ≤ b ∧ b < e)
  right_covered : ∀ b, mid ≤ b → b < stop → b = mid ∧ (∃ t ∈ merged, t.1 = mid + 1) ∨ Covers S b
  gap_lt : ∀ t ∈ merged, t.1 = mid + 1 → mid < stop
  mid_cases : (mid = e ∧ ∀ t ∈ S, t.1 < s → t.2 ≤ e) ∨ ∃ t ∈ S, t.1 < s ∧ e < t.2 ∧ mid = t.2
  stop_cases : stop = mid ∨ ∃ t ∈ merged, stop = t.2

theorem lowerBound_take (h : t ∈ S.take (lowerBound S start)) : t.1 < start := by
  simpa using mem_take_findIdx h

theorem lowerBound_drop (hS : Separated S) (h : t ∈ S.drop (lowerBound S start)) : start ≤ t.1 := by
  have hp : S.Pairwise fun a b => decide (start ≤ a.1) → decide (start ≤ b.1) := by
    refine hS.starts_lt.imp fun {a b} hab ha => ?_
    simp only [decide_eq_true_eq] at ha ⊢
    exact ha.trans hab.le
  simpa using mem_drop_findIdx hp h

theorem upperBound_take (h : t ∈ S.take (upperBound S start)) : t.1 ≤ start := by
  simpa using mem_take_findIdx h

theorem upperBound_drop (hS : Separated S) (h : t ∈ S.drop (upperBound S start)) : start < t.1 := by
  have hp : S.Pairwise fun a b => decide (start < a.1) → decide (start < b.1) := by
    refine hS.starts_lt.imp fun {a b} hab ha => ?_
    simp only [decide_eq_true_eq] at ha ⊢
    exact lt_trans ha hab
  simpa using mem_drop_findIdx hp h

theorem emplace_between (hA : ∀ u ∈ A, u.1 < t.1) (hV : ∀ u ∈ V, t.1 < u.1) :
    emplace (A ++ V) t = A ++ t :: V := by
  have hBound : lowerBound (A ++ V) t.1 = A.length := by
    have hA' : ∀ u ∈ A, decide (t.1 ≤ u.1) = false := by
      intro u hu
      simpa using hA u hu
    rw [lowerBound, findIdx_append, findIdx_eq_length.mpr hA']
    cases V with
    | nil => simp
    | cons v V => simp [findIdx_cons, (hV v mem_cons_self).le]
  unfold emplace
  simp only [hBound, take_left, drop_left]
  cases V with
  | nil => simp
  | cons v V =>
    have hv := hV v mem_cons_self
    simp [hv.ne']

theorem absorbLeft_cases (hS : Separated S) (s e : Nat) :
    (∃ A prev B, S = A ++ prev :: B ∧ prev.1 < s ∧ s ≤ prev.2 ∧ (∀ t ∈ B, s ≤ t.1) ∧
      absorbLeft S s e = (A.length, prev.1, max e prev.2)) ∨
    (∃ A B, S = A ++ B ∧ (∀ t ∈ A, t.2 < s) ∧ (∀ t ∈ B, s ≤ t.1) ∧
      absorbLeft S s e = (A.length, s, e)) := by
  have hSplit : S.take (lowerBound S s) ++ S.drop (lowerBound S s) = S := take_append_drop _ _
  have hLen : (S.take (lowerBound S s)).length = lowerBound S s := by
    rw [length_take, min_eq_left]
    exact findIdx_le_length
  have hB : ∀ t ∈ S.drop (lowerBound S s), s ≤ t.1 := fun t ht => lowerBound_drop hS ht
  rcases eq_nil_or_concat (S.take (lowerBound S s)) with hNil | ⟨A, prev, hLast⟩
  · refine Or.inr ⟨[], S.drop (lowerBound S s), ?_, by simp, hB, ?_⟩
    · rw [← hNil, hSplit]
    · grind [absorbLeft]
  · rw [concat_eq_append] at hLast
    have hPrev : prev.1 < s := lowerBound_take (by rw [hLast]; simp)
    have hIdx : A.length + 1 = lowerBound S s := by rw [← hLen, hLast]; simp
    have hGet : (S.take (lowerBound S s)).getLast? = some prev := by rw [hLast]; simp
    by_cases hReach : s ≤ prev.2
    · refine Or.inl ⟨A, prev, S.drop (lowerBound S s), ?_, hPrev, hReach, hB, ?_⟩
      · rw [append_cons, ← hLast, hSplit]
      · simp only [absorbLeft, hGet, if_pos hReach]
        rw [← hIdx, Nat.add_sub_cancel]
    · refine Or.inr ⟨A ++ [prev], S.drop (lowerBound S s), ?_, ?_, hB, ?_⟩
      · rw [← hLast, hSplit]
      · intro t ht
        rw [← hLast] at ht
        have hApart := (separated_append.mp (hSplit ▸ hS)).1
        rw [hLast] at hApart ht
        rcases mem_append.mp ht with ht | ht
        · have hlt := (separated_append.mp hApart).2.2 t ht prev (by simp)
          exact hlt.trans hPrev
        · rw [mem_singleton.mp ht]
          exact not_le.mp hReach
      · simp only [absorbLeft, hGet, if_neg hReach]
        rw [← hIdx, length_append, length_singleton]

theorem le_last (hS : Separated (S ++ [last])) (ht : t ∈ S ++ [last]) : t.2 ≤ last.2 := by
  obtain ⟨_, hLast, hLt⟩ := separated_append.mp hS
  rcases mem_append.mp ht with ht | ht
  · exact (hLt t ht last (by simp)).le.trans (hLast.ordered last (by simp))
  · rw [mem_singleton.mp ht]

theorem absorbRight_cases (hS : Separated (A ++ B)) (hA : ∀ t ∈ A, t.2 < start) (hMid : start ≤ mid) :
    ∃ M V stop, B = M ++ V ∧ (A ++ B).drop (upperBound (A ++ B) (mid + 1)) = V ∧
      absorbRight (A ++ B) (upperBound (A ++ B) (mid + 1)) mid = stop ∧
      (∀ t ∈ M, t.1 ≤ mid + 1) ∧ (∀ t ∈ V, mid + 1 < t.1) ∧
      mid ≤ stop ∧ (∀ t ∈ M, t.2 ≤ stop) ∧ (stop = mid ∨ ∃ t ∈ M, stop = t.2) := by
  obtain ⟨hSepA, hSepB, _⟩ := separated_append.mp hS
  have hFail : ∀ t ∈ A, decide (mid + 1 < t.1) = false := by
    intro t ht
    have h1 := hSepA.ordered t ht
    have h2 := hA t ht
    simp only [decide_eq_false_iff_not]
    omega
  have hBound : upperBound (A ++ B) (mid + 1) = A.length + upperBound B (mid + 1) := by grind [upperBound]
  have hTake : (A ++ B).take (upperBound (A ++ B) (mid + 1)) = A ++ B.take (upperBound B (mid + 1)) := by
    rw [hBound, take_length_add_append]
  have hDrop : (A ++ B).drop (upperBound (A ++ B) (mid + 1)) = B.drop (upperBound B (mid + 1)) := by
    rw [hBound, drop_length_add_append]
  refine ⟨B.take (upperBound B (mid + 1)), B.drop (upperBound B (mid + 1)), _,
    (take_append_drop _ _).symm, hDrop, rfl, fun t ht => upperBound_take ht,
    fun t ht => upperBound_drop hSepB ht, ?_⟩
  simp only [absorbRight, hTake]
  rcases eq_nil_or_concat (B.take (upperBound B (mid + 1))) with hNil | ⟨M, last, hLast⟩
  · -- nothing is merged on the right: the last sector before `it_end` ends before the new start
    rw [hNil, append_nil]
    cases hGet : A.getLast? with
    | none => simp
    | some last =>
      have hLt := hA last (mem_of_getLast? hGet)
      have hNot : ¬ mid < last.2 := by omega
      simp [hNot]
  · rw [concat_eq_append] at hLast
    have hSepM : Separated (M ++ [last]) := by
      rw [← hLast]
      exact (separated_append.mp ((take_append_drop _ B).symm ▸ hSepB)).1
    rw [hLast, ← append_assoc, getLast?_append_of_ne_nil _ (by simp)]
    simp only [getLast?_singleton]
    split
    · rename_i hlt
      exact ⟨hlt.le, fun t ht => le_last hSepM ht, Or.inr ⟨last, by simp, rfl⟩⟩
    · rename_i hge
      exact ⟨le_rfl, fun t ht => (le_last hSepM ht).trans (not_lt.mp hge), Or.inl rfl⟩

structure LeftEdge (S : List Sector) (s e : Nat) (A B : List Sector) (start mid : Nat) : Prop where
  split : S = A ++ B
  eq : absorbLeft S s e = (A.length, start, mid)
  start_le : start ≤ s
  le_mid : e ≤ mid
  before_lt : ∀ t ∈ A, t.2 < start
  from_start : ∀ t ∈ B, start ≤ t.1
  covered : ∀ b, start ≤ b → b < mid → Covers S b ∨ (s ≤ b ∧ b < e)
  mid_cases : (mid = e ∧ ∀ t ∈ S, t.1 < s → t.2 ≤ e) ∨ ∃ t ∈ S, t.1 < s ∧ e < t.2 ∧ mid = t.2

section

variable (hS : Separated S) (hse : s ≤ e)
include hS hse

theorem exists_leftEdge :
    ∃ A B start mid, LeftEdge S s e A B start mid := by
  rcases absorbLeft_cases hS s e with ⟨A, prev, B, hSplit, hPrev, hReach, hB, hEq⟩ |
    ⟨A, B, hSplit, hA, hB, hEq⟩
  · have hMem : prev ∈ S := by simp [hSplit]
    have hSep := separated_append.mp (hSplit ▸ hS)
    refine ⟨A, prev :: B, prev.1, max e prev.2, hSplit, hEq, hPrev.le, le_max_left _ _,
      fun t ht => hSep.2.2 t ht prev mem_cons_self, ?_, ?_, ?_⟩
    · grind
    · intro b hb hbMid
      by_cases hbPrev : b < prev.2
      · exact Or.inl ⟨prev, hMem, hb, hbPrev⟩
      · exact Or.inr ⟨by omega, by omega⟩
    · by_cases hLonger : e < prev.2
      · exact Or.inr ⟨prev, hMem, hPrev, hLonger, max_eq_right hLonger.le⟩
      · refine Or.inl ⟨max_eq_left (not_lt.mp hLonger), fun t ht hts => ?_⟩
        grind
  · refine ⟨A, B, s, e, hSplit, hEq, le_rfl, le_rfl, hA, hB, fun b hb hbe => Or.inr ⟨hb, hbe⟩,
      Or.inl ⟨rfl, fun t ht hts => ?_⟩⟩
    grind

theorem exists_splice :
    ∃ p : Splice S s e, insertSector S s e = p.before ++ (p.start, p.stop) :: p.after := by
  obtain ⟨A, B, start, mid, hEdge⟩ := exists_leftEdge hS hse
  have hStart : start ≤ mid := hEdge.start_le.trans (hse.trans hEdge.le_mid)
  have hSplit := hEdge.split
  subst hSplit
  obtain ⟨M, V, stop, hB, hDrop, hStop, hM, hV, hMidStop, hMStop, hStopCases⟩ :=
    absorbRight_cases hS hEdge.before_lt hStart
  obtain ⟨hSepA, hSepB, _⟩ := separated_append.mp hS
  have hSepMV := separated_append.mp (hB ▸ hSepB)
  have hVStop : ∀ t ∈ V, stop < t.1 := by grind
  refine ⟨⟨A, M, V, start, mid, stop, by rw [hB], hEdge.start_le, hEdge.le_mid, hMidStop,
    hEdge.before_lt, fun t ht => ⟨hEdge.from_start t (by simp [hB, ht]), hM t ht⟩, hMStop,
    fun t ht => ⟨hV t ht, hVStop t ht⟩, hEdge.covered, ?_, ?_, hEdge.mid_cases,
    hStopCases⟩, ?_⟩
  · intro b hb hbStop
    rcases hStopCases with hEq | ⟨t, ht, hEq⟩
    · omega
    · have htMid := hM t ht
      by_cases htb : t.1 ≤ b
      · exact Or.inr ⟨t, by simp [hB, ht], htb, hEq ▸ hbStop⟩
      · exact Or.inl ⟨by omega, t, ht, by omega⟩
  · intro t ht hGap
    have h1 := hSepMV.1.ordered t ht
    have h2 := hMStop t ht
    omega
  · have hIns : insertSector (A ++ B) s e = emplace (A ++ V) (start, stop) := by
      simp only [insertSector, hEdge.eq, hDrop, hStop, take_left]
    rw [hIns]
    apply emplace_between
    · intro t ht
      exact (hSepA.ordered t ht).trans_lt (hEdge.before_lt t ht)
    · grind

theorem insertSector_separated : Separated (insertSector S s e) := by
  obtain ⟨p, hp⟩ := exists_splice hS hse
  have hStart : p.start ≤ p.stop := p.start_le.trans (hse.trans (p.le_mid.trans p.mid_le))
  obtain ⟨hBefore, hRest, _⟩ := separated_append.mp (p.split ▸ hS)
  have hAfter := (separated_append.mp hRest).2.1
  rw [hp, separated_append]
  refine ⟨hBefore, ⟨?_, ?_⟩, ?_⟩
  · intro t ht
    rcases mem_cons.mp ht with rfl | ht
    · exact hStart
    · exact hAfter.ordered t ht
  · exact pairwise_cons.mpr ⟨fun t ht => (p.after_lt t ht).2, hAfter.apart⟩
  · intro a ha b hb
    rcases mem_cons.mp hb with rfl | hb
    · exact p.before_lt a ha
    · exact (p.before_lt a ha).trans (hStart.trans_lt (p.after_lt b hb).2)

theorem exists_mem_insertSector :
    ∃ t ∈ insertSector S s e, t.1 ≤ s ∧ e ≤ t.2 := by
  obtain ⟨p, hp⟩ := exists_splice hS hse
  refine ⟨(p.start, p.stop), ?_, p.start_le, p.le_mid.trans p.mid_le⟩
  rw [hp]
  exact mem_append_right _ mem_cons_self

theorem exists_end_ge (ht : t ∈ S) : ∃ u ∈ insertSector S s e, t.2 ≤ u.2 := by
  obtain ⟨p, hp⟩ := exists_splice hS hse
  rw [p.split, mem_append, mem_append] at ht
  rw [hp]
  rcases ht with ht | ht | ht
  · exact ⟨t, mem_append_left _ ht, le_rfl⟩
  · exact ⟨(p.start, p.stop), mem_append_right _ mem_cons_self, p.merged_stop t ht⟩
  · exact ⟨t, mem_append_right _ (mem_cons_of_mem _ ht), le_rfl⟩

theorem insertSector_le (hLe : ∀ t ∈ S, t.2 ≤ n) (he : e ≤ n) : ∀ t ∈ insertSector S s e, t.2 ≤ n := by
  obtain ⟨p, hp⟩ := exists_splice hS hse
  have hMem : ∀ t, t ∈ p.before ∨ t ∈ p.merged ∨ t ∈ p.after → t.2 ≤ n := by
    intro t ht
    refine hLe t ?_
    rw [p.split]
    simpa using ht
  have hMid : p.mid ≤ n := by
    rcases p.mid_cases with ⟨hEq, _⟩ | ⟨t, ht, _, _, hEq⟩
    · exact hEq.trans_le he
    · exact hEq.trans_le (hLe t ht)
  grind [p.stop_cases]

end

theorem getSectorEnd_eq_some (h : getSectorEnd S offset = some stop) :
    ∃ t ∈ S, t.1 ≤ offset ∧ offset ≤ stop ∧ stop = t.2 := by
  unfold getSectorEnd at h
  split at h
  · rename_i t ht
    split at h
    · rename_i hLe
      cases h
      have hMem := mem_of_getLast? ht
      exact ⟨t, mem_of_mem_take hMem, upperBound_take hMem, hLe, rfl⟩
    · cases h
  · cases h

theorem getSectorEnd_of_mem (hS : Separated S) (ht : t ∈ S) (hStart : t.1 ≤ offset) (hStop : offset ≤ t.2) :
    getSectorEnd S offset = some t.2 := by
  have hTake : t ∈ S.take (upperBound S offset) := by
    rw [← take_append_drop (upperBound S offset) S] at ht
    rcases mem_append.mp ht with ht | ht
    · exact ht
    · exact absurd (upperBound_drop hS ht) (not_lt.mpr hStart)
  obtain ⟨A, last, hLast⟩ : ∃ A last, S.take (upperBound S offset) = A ++ [last] := by
    rcases eq_nil_or_concat (S.take (upperBound S offset)) with hNil | ⟨A, last, hLast⟩
    · rw [hNil] at hTake
      cases hTake
    · exact ⟨A, last, hLast.trans (concat_eq_append ..)⟩
  have hFrom : last.1 ≤ offset := upperBound_take (by rw [hLast]; simp)
  have hMem : last ∈ S := mem_of_mem_take (i := upperBound S offset) (by rw [hLast]; simp)
  have hSame : last = t := by
    have hSep := (separated_append.mp ((take_append_drop (upperBound S offset) S).symm ▸ hS)).1
    have hEnds : t.2 ≤ last.2 := le_last (hLast ▸ hSep) (hLast ▸ hTake)
    rcases hS.trichotomy hMem ht with hEq | hlt | hlt
    · exact hEq
    · have := hS.ordered t ht
      omega
    · omega
  grind [getSectorEnd, getLast?_append_of_ne_nil, getLast?_singleton]

theorem getFileSize_le (h : ∀ t ∈ S, t.2 ≤ n) : getFileSize S ≤ n := by
  grind [getFileSize]

theorem le_getFileSize (hS : Separated S) (ht : t ∈ S) : t.2 ≤ getFileSize S := by
  rcases eq_nil_or_concat S with rfl | ⟨A, last, rfl⟩
  · cases ht
  · rw [concat_eq_append] at hS ht ⊢
    simpa [getFileSize] using le_last hS ht

theorem getFileSize_insertSector (hS : Separated S) (hse : s ≤ e) :
    getFileSize (insertSector S s e) = max (getFileSize S) e := by
  have hSep := insertSector_separated hS hse
  apply le_antisymm
  · apply getFileSize_le
    apply insertSector_le hS hse
    · intro t ht
      exact (le_getFileSize hS ht).trans (le_max_left _ _)
    · exact le_max_right _ _
  · apply max_le
    · apply getFileSize_le
      intro t ht
      obtain ⟨u, hu, hLe⟩ := exists_end_ge hS hse ht
      exact hLe.trans (le_getFileSize hSep hu)
    · obtain ⟨u, hu, _, hLe⟩ := exists_mem_insertSector hS hse
      exact hLe.trans (le_getFileSize hSep hu)

end Capio.Storage.Sectors
