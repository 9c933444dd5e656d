import Mathlib.Data.List.Induction
import Mathlib.Order.Bounds.Basic
import Capio.Storage.CapioFile

/-! # Look-ups in the sector set

The set that insertions build, empty ranges included, is separated and ends at the largest end that
was inserted, so `getSectorEnd` finds the only sector around an offset.  `seekData` and `seekHole`
make the same search and take the end of a sector for one of its bytes.
-/
namespace Capio.Storage.SectorSearch

open Lib.Segments Storage.Sectors List

variable {S : List Sector} {o : Nat}

def inserted (rs : List Sector) : List Sector :=
  rs.foldl (fun S r => insertSector S r.1 r.2) []

@[simp] theorem inserted_concat (rs : List Sector) (r : Sector) :
    inserted (rs ++ [r]) = insertSector (inserted rs) r.1 r.2 := by
  simp [inserted]

def largestEnd (rs : List Sector) : Nat :=
  (rs.map Prod.snd).foldl max 0

@[simp] theorem largestEnd_concat (rs : List Sector) (r : Sector) :
    largestEnd (rs ++ [r]) = max (largestEnd rs) r.2 := by
  simp [largestEnd]

theorem inserted_separated_size (h : ∀ r ∈ rs, r.1 ≤ r.2) :
    Separated (inserted rs) ∧ getFileSize (inserted rs) = largestEnd rs := by
  induction rs using reverseRecOn with
  | nil => exact ⟨separated_nil, rfl⟩
  | append_singleton rs r ih =>
    obtain ⟨hSep, hSize⟩ := ih fun u hu => h u (mem_append_left _ hu)
    have hr : r.1 ≤ r.2 := h r (by simp)
    rw [inserted_concat, largestEnd_concat, getFileSize_insertSector hSep hr, hSize]
    exact ⟨insertSector_separated hSep hr, rfl⟩

theorem getSectorEnd_eq_some_iff (hS : Separated S) (o e : Nat) :
    getSectorEnd S o = some e ↔ ∃ t ∈ S, t.1 ≤ o ∧ o ≤ t.2 ∧ t.2 = e := by
  constructor
  · intro h
    grind [getSectorEnd_eq_some]
  · rintro ⟨t, ht, hStart, hStop, rfl⟩
    exact getSectorEnd_of_mem hS ht hStart hStop

theorem getSectorEnd_eq_none_iff (hS : Separated S) (o : Nat) :
    getSectorEnd S o = none ↔ ∀ t ∈ S, ¬ (t.1 ≤ o ∧ o ≤ t.2) := by
  constructor
  · rintro h t ht ⟨hStart, hStop⟩
    rw [getSectorEnd_of_mem hS ht hStart hStop] at h
    cases h
  · intro h
    cases hEnd : getSectorEnd S o with
    | none => rfl
    | some e =>
      obtain ⟨t, ht, hStart, hStop, -⟩ := (getSectorEnd_eq_some_iff hS o e).mp hEnd
      exact absurd ⟨hStart, hStop⟩ (h t ht)

theorem eq_of_around (hS : Separated S) (ht : t ∈ S) (hu : u ∈ S) (hto : t.1 ≤ o ∧ o ≤ t.2)
    (huo : u.1 ≤ o ∧ o ≤ u.2) : t = u := by
  rcases hS.trichotomy ht hu with hEq | hlt | hlt
  · exact hEq
  · omega
  · omega

/-- However the ranges are ordered and however they overlap, the stored sectors are ordered and
apart, the size is the largest end, and a look-up finds the one sector around an offset. -/
theorem sectors_represent (rs : List Sector) (h : ∀ r ∈ rs, r.1 ≤ r.2) :
    (∀ t ∈ inserted rs, t.1 ≤ t.2) ∧ (inserted rs).Pairwise (fun a b => a.1 < b.1) ∧
    (inserted rs).IsChain (fun a b => a.2 < b.1) ∧
    getFileSize (inserted rs) = largestEnd rs ∧
    (∀ f : CapioFile, f.sectors = inserted rs → f.getStoredSize = largestEnd rs) ∧
    ∀ o, (∀ e, getSectorEnd (inserted rs) o = some e ↔
        ∃! t, t ∈ inserted rs ∧ t.1 ≤ o ∧ o ≤ e ∧ e = t.2) ∧
      (∀ e t, getSectorEnd (inserted rs) o = some e → t ∈ inserted rs → t.1 ≤ o → o ≤ t.2 →
        e = t.2 ∧ (∀ b, o ≤ b → b < e → t.1 ≤ b ∧ b < t.2) ∧ ¬ Covers (inserted rs) e) ∧
      (getSectorEnd (inserted rs) o = none ↔ ∀ t ∈ inserted rs, ¬ (t.1 ≤ o ∧ o ≤ t.2)) := by
  obtain ⟨hSep, hSize⟩ := inserted_separated_size h
  refine ⟨hSep.ordered, hSep.starts_lt, hSep.apart.isChain, hSize, ?_, fun o => ⟨fun e => ?_, ?_, ?_⟩⟩
  · intro f hf
    rw [← hSize, ← hf]
    rfl
  · constructor
    · intro hEnd
      obtain ⟨t, ht, hStart, hStop, rfl⟩ := (getSectorEnd_eq_some_iff hSep o e).mp hEnd
      refine ⟨t, ⟨ht, hStart, hStop, rfl⟩, ?_⟩
      rintro u ⟨hu, huStart, huStop, hEq⟩
      exact eq_of_around hSep hu ht ⟨huStart, hEq ▸ huStop⟩ ⟨hStart, hStop⟩
    · rintro ⟨t, ⟨ht, hStart, hStop, hEq⟩, -⟩
      exact (getSectorEnd_eq_some_iff hSep o e).mpr ⟨t, ht, hStart, hEq ▸ hStop, hEq.symm⟩
  · intro e t hEnd ht hStart hStop
    rw [getSectorEnd_of_mem hSep ht hStart hStop] at hEnd
    cases hEnd
    exact ⟨rfl, fun b hb hbe => ⟨hStart.trans hb, hbe⟩, hSep.not_covers_end ht⟩
  · exact getSectorEnd_eq_none_iff hSep o

theorem sectors_represent_overlapping : (∀ r ∈ [((4, 9) : Sector), (0, 0), (2, 4)], r.1 ≤ r.2) ∧
      getFileSize (inserted [(4, 9), (0, 0), (2, 4)]) = 9 :=
  ⟨by decide, (sectors_represent [(4, 9), (0, 0), (2, 4)] (by decide)).2.2.2.1⟩

/-! The searches of `lseek`.  An offset is an `off64_t`, and `-1` is the answer of a search that
finds nothing. -/

/-- `_sectors.upper_bound(std::make_pair(offset, 0))`. -/
def boundAfter (S : List Sector) (offset : Int) : Nat :=
  S.findIdx fun t => decide (offset < t.1)

def nextSector (S : List Sector) (offset : Int) : Option Sector :=
  S[boundAfter S offset]?

def seekData (S : List Sector) (offset : Int) : Int :=
  if S = [] then
    if offset = 0 then 0 else -1
  else
    match (S.take (boundAfter S offset)).getLast?, nextSector S offset with
    | some prev, next => if offset ≤ prev.2 then offset else next.elim (-1) fun t => t.1
    | none, next => next.elim (-1) fun t => t.1

def seekHole (S : List Sector) (offset : Int) : Int :=
  if S = [] then
    if offset = 0 then 0 else -1
  else
    match (S.take (boundAfter S offset)).getLast?, nextSector S offset with
    | some prev, next => if offset ≤ prev.2 then prev.2 else next.elim (-1) fun _ => offset
    | none, _ => offset

theorem boundAfter_natCast (S : List Sector) (o : Nat) : boundAfter S o = upperBound S o := by
  simp [boundAfter, upperBound]

theorem nextSector_eq_some (hS : Separated S) (h : nextSector S o = some u) :
    u ∈ S ∧ o < u.1 ∧ ∀ t ∈ S, o < t.1 → u.1 ≤ t.1 := by
  unfold nextSector at h
  rw [boundAfter_natCast] at h
  obtain ⟨V, hDrop⟩ : ∃ V, S.drop (upperBound S o) = u :: V := by
    obtain ⟨hlt, rfl⟩ := List.getElem?_eq_some_iff.mp h
    exact ⟨_, drop_eq_getElem_cons hlt⟩
  have hSplit : S.take (upperBound S o) ++ u :: V = S := by
    rw [← hDrop]
    exact take_append_drop _ _
  refine ⟨mem_of_getElem? h, upperBound_drop hS (by rw [hDrop]; exact mem_cons_self), ?_⟩
  intro t ht hAfter
  rw [← hSplit] at ht
  rcases mem_append.mp ht with ht | ht
  · exact absurd hAfter (not_lt.mpr (upperBound_take ht))
  · rcases mem_cons.mp ht with rfl | ht
    · exact le_rfl
    · have hApart := (separated_append.mp (hSplit.symm ▸ hS)).2.1
      exact (hApart.ordered u mem_cons_self).trans (hApart.head_lt ht).le

theorem nextSector_eq_none (hS : Separated S) : nextSector S o = none ↔ ∀ t ∈ S, t.1 ≤ o := by
  constructor
  · intro h t ht
    unfold nextSector at h
    rw [boundAfter_natCast, getElem?_eq_none_iff] at h
    have hTake : S.take (upperBound S o) = S := take_of_length_le h
    exact upperBound_take (hTake.symm ▸ ht)
  · intro h
    cases hNext : nextSector S o with
    | none => rfl
    | some u =>
      obtain ⟨hu, hAfter, -⟩ := nextSector_eq_some hS hNext
      exact absurd (h u hu) (not_le.mpr hAfter)

theorem seekData_natCast (hNe : S ≠ []) (o : Nat) : seekData S o = match getSectorEnd S o with
    | some _ => (o : Int)
    | none => (nextSector S o).elim (-1) fun t => t.1 := by
  unfold seekData getSectorEnd
  grind [boundAfter_natCast]

theorem seekHole_natCast (hNe : S ≠ []) (o : Nat) : seekHole S o = match getSectorEnd S o with
    | some e => (e : Int)
    | none => (nextSector S o).elim (-1) fun _ => o := by
  unfold seekHole getSectorEnd
  rw [if_neg hNe, boundAfter_natCast]
  cases hTake : (S.take (upperBound S o)).getLast? with
  | none =>
    -- no sector starts at the offset or before, so the first one starts after it
    have hFirst : upperBound S o = 0 ∨ S = [] := by
      simpa [take_eq_nil_iff, or_comm] using getLast?_eq_none_iff.mp hTake
    grind [nextSector, boundAfter_natCast]
  | some prev => grind

def FindsData (S : List Sector) (o : Nat) : Prop :=
  (∃ r : Nat, seekData S o = r ∧ IsLeast {b | o ≤ b ∧ Covers S b} r) ∨
    (seekData S o = -1 ∧ ∀ b, o ≤ b → ¬ Covers S b)

def FindsHole (S : List Sector) (o : Nat) : Prop :=
  if o < getFileSize S then ∃ r : Nat, seekHole S o = r ∧ IsLeast {b | o ≤ b ∧ ¬ Covers S b} r
  else seekHole S o = -1

theorem not_findsData {r : Nat} (hr : seekData S o = r) (hCovers : ¬ Covers S r) : ¬ FindsData S o := by
  rintro (⟨r', hr', hLeast⟩ | ⟨hNone, -⟩)
  · have hEq : r' = r := by exact_mod_cast hr'.symm.trans hr
    exact hCovers (hEq ▸ hLeast.1.2)
  · omega

theorem findsData_gap (hS : Separated S) (hNe : S ≠ []) (hGap : getSectorEnd S o = none) :
    FindsData S o ↔ ∀ u, nextSector S o = some u → u.1 < u.2 := by
  have hSeek := seekData_natCast hNe o
  rw [hGap] at hSeek
  have hAround := (getSectorEnd_eq_none_iff hS o).mp hGap
  have hAfter : ∀ b, o ≤ b → ∀ t ∈ S, t.1 ≤ b → b < t.2 → o < t.1 := by grind
  cases hNext : nextSector S o with
  | none =>
    rw [hNext] at hSeek
    refine ⟨fun _ u hu => (by cases hu), fun _ => .inr ⟨hSeek, ?_⟩⟩
    rintro b hb ⟨t, ht, hStart, hStop⟩
    grind [nextSector_eq_none, not_lt]
  | some u =>
    rw [hNext] at hSeek
    obtain ⟨hu, hou, hFirst⟩ := nextSector_eq_some hS hNext
    constructor
    · rintro hFinds v hv
      grind [le_antisymm, hS.ordered, not_lt, not_findsData, hS.not_covers_end]
    · intro hFull
      refine .inl ⟨u.1, hSeek, ⟨hou.le, u, hu, le_rfl, hFull u rfl⟩, ?_⟩
      rintro b ⟨hb, t, ht, hStart, hStop⟩
      exact (hFirst t ht (hAfter b hb t ht hStart hStop)).trans hStart

theorem findsData_iff (hS : Separated S) (hNe : S ≠ []) (o : Nat) : FindsData S o ↔
      Covers S o ∨ (∀ t ∈ S, t.2 ≠ o) ∧ ∀ u, nextSector S o = some u → u.1 < u.2 := by
  cases hEnd : getSectorEnd S o with
  | none =>
    have hAround := (getSectorEnd_eq_none_iff hS o).mp hEnd
    rw [findsData_gap hS hNe hEnd]
    constructor
    · refine fun h => .inr ⟨?_, h⟩
      rintro t ht rfl
      exact hAround t ht ⟨hS.ordered t ht, le_rfl⟩
    · rintro (⟨t, ht, hStart, hStop⟩ | h)
      · exact absurd ⟨hStart, hStop.le⟩ (hAround t ht)
      · exact h.2
  | some e =>
    have hSeek := seekData_natCast hNe o
    rw [hEnd] at hSeek
    obtain ⟨t, ht, hStart, hStop, rfl⟩ := (getSectorEnd_eq_some_iff hS o e).mp hEnd
    rcases hStop.lt_or_eq with hlt | rfl
    · have hCovers : Covers S o := ⟨t, ht, hStart, hlt⟩
      exact ⟨fun _ => .inl hCovers, fun _ => .inl ⟨o, hSeek, ⟨le_rfl, hCovers⟩, fun b hb => hb.1⟩⟩
    · have hOpen := hS.not_covers_end ht
      refine ⟨fun h => absurd h (not_findsData hSeek hOpen), ?_⟩
      grind

theorem exists_end_eq (hNe : S ≠ []) : ∃ t ∈ S, t.2 = getFileSize S := by
  obtain ⟨A, last, hLast⟩ := eq_nil_or_concat S |>.resolve_left hNe
  exact ⟨last, by simp [hLast], by simp [getFileSize, hLast]⟩

section

variable (hS : Separated S) (hNe : S ≠ [])
include hS hNe

theorem behind_iff (o : Nat) : getSectorEnd S o = none ∧ nextSector S o = none ↔ getFileSize S < o := by
  rw [getSectorEnd_eq_none_iff hS, nextSector_eq_none hS]
  constructor
  · rintro ⟨hAround, hStart⟩
    obtain ⟨t, ht, hEnd⟩ := exists_end_eq hNe
    have hNot := hAround t ht
    have hLe := hStart t ht
    omega
  · intro hBehind
    refine ⟨fun t ht hAround => ?_, fun t ht => ?_⟩
    · have hLe := le_getFileSize hS ht
      omega
    · exact ((hS.ordered t ht).trans (le_getFileSize hS ht)).trans hBehind.le

theorem seekData_eq_neg_one_iff (o : Nat) : seekData S o = -1 ↔ getFileSize S < o := by
  rw [← behind_iff hS hNe, seekData_natCast hNe]
  cases getSectorEnd S o with
  | some e => simp
  | none =>
    cases nextSector S o with
    | some t => simp
    | none => simp

theorem seekHole_eq_neg_one_iff (o : Nat) : seekHole S o = -1 ↔ getFileSize S < o := by
  rw [← behind_iff hS hNe, seekHole_natCast hNe]
  cases getSectorEnd S o with
  | some e => simp
  | none =>
    cases nextSector S o with
    | some t => simp
    | none => simp

theorem seekData_eq_iff (hr : Covers S r) (o : Nat) :
    seekData S o = r ↔ o = r ∨ o < r ∧ ∀ t ∈ S, t.2 < o ∨ r ≤ t.1 := by
  obtain ⟨u, hu, hStart, hStop⟩ := hr
  rw [seekData_natCast hNe]
  cases hEnd : getSectorEnd S o with
  | some e =>
    obtain ⟨t, ht, hts, hte, rfl⟩ := (getSectorEnd_eq_some_iff hS o e).mp hEnd
    grind
  | none =>
    have hAround := (getSectorEnd_eq_none_iff hS o).mp hEnd
    have hNeu : o ≠ r := by
      rintro rfl
      exact hAround u hu ⟨hStart, hStop.le⟩
    cases hNext : nextSector S o with
    | none =>
      have hSize := (behind_iff hS hNe o).mp ⟨hEnd, hNext⟩
      have hLe := le_getFileSize hS hu
      simp only [Option.elim_none]
      omega
    | some v =>
      obtain ⟨hv, hov, hFirst⟩ := nextSector_eq_some hS hNext
      simp only [Option.elim_some, Int.natCast_inj]
      constructor
      · grind
      · rintro (rfl | ⟨hBefore, hApart⟩)
        · exact absurd rfl hNeu
        · have hOut := hApart v hv
          have hOrdered := hS.ordered v hv
          grind

theorem seekHole_eq_iff (hr : ¬ Covers S r) (hSize : r ≤ getFileSize S) (o : Nat) :
    seekHole S o = r ↔ o = r ∨ ∃ t ∈ S, t.1 ≤ o ∧ o ≤ t.2 ∧ t.2 = r := by
  rw [seekHole_natCast hNe]
  cases hEnd : getSectorEnd S o with
  | some e =>
    obtain ⟨t, ht, hts, hte, rfl⟩ := (getSectorEnd_eq_some_iff hS o e).mp hEnd
    rw [Int.natCast_inj]
    constructor
    · exact fun h => .inr ⟨t, ht, hts, hte, h⟩
    · rintro (rfl | ⟨u, hu, hus, hue, rfl⟩)
      · by_contra hne
        exact hr ⟨t, ht, hts, by omega⟩
      · rw [eq_of_around hS ht hu ⟨hts, hte⟩ ⟨hus, hue⟩]
  | none =>
    have hAround := (getSectorEnd_eq_none_iff hS o).mp hEnd
    have hNone : ¬ ∃ t ∈ S, t.1 ≤ o ∧ o ≤ t.2 ∧ t.2 = r :=
      fun ⟨t, ht, hts, hte, _⟩ => hAround t ht ⟨hts, hte⟩
    cases hNext : nextSector S o with
    | none =>
      have hBehind := (behind_iff hS hNe o).mp ⟨hEnd, hNext⟩
      simp only [Option.elim_none, hNone, or_false]
      omega
    | some v =>
      simp only [Option.elim_some, hNone, or_false, Int.natCast_inj]

theorem findsHole_iff (o : Nat) : FindsHole S o ↔ o ≠ getFileSize S := by
  have hSeek := seekHole_natCast hNe o
  unfold FindsHole
  cases hEnd : getSectorEnd S o with
  | none =>
    have hAround := (getSectorEnd_eq_none_iff hS o).mp hEnd
    rw [hEnd] at hSeek
    have hNot : ¬ Covers S o := by
      rintro ⟨t, ht, hStart, hStop⟩
      exact hAround t ht ⟨hStart, hStop.le⟩
    cases hNext : nextSector S o with
    | none =>
      -- every sector ends before the offset
      rw [hNext] at hSeek
      have hBefore := (behind_iff hS hNe o).mp ⟨hEnd, hNext⟩
      rw [if_neg (by omega)]
      exact ⟨fun _ => hBefore.ne', fun _ => hSeek⟩
    | some u =>
      rw [hNext] at hSeek
      obtain ⟨hu, hou, -⟩ := nextSector_eq_some hS hNext
      have hLt : o < getFileSize S := hou.trans_le ((hS.ordered u hu).trans (le_getFileSize hS hu))
      rw [if_pos hLt]
      exact ⟨fun _ => hLt.ne, fun _ => ⟨o, hSeek, ⟨le_rfl, hNot⟩, fun b hb => hb.1⟩⟩
  | some e =>
    rw [hEnd] at hSeek
    obtain ⟨t, ht, hStart, hStop, rfl⟩ := (getSectorEnd_eq_some_iff hS o e).mp hEnd
    have hSize := le_getFileSize hS ht
    rcases (hStop.trans hSize).lt_or_eq with hlt | hEq
    · rw [if_pos hlt]
      refine ⟨fun _ => hlt.ne, fun _ => ⟨t.2, hSeek, ⟨hStop, hS.not_covers_end ht⟩, ?_⟩⟩
      rintro b ⟨hb, hOpen⟩
      by_contra hBefore
      exact hOpen ⟨t, ht, hStart.trans hb, not_le.mp hBefore⟩
    · grind

end

/-- `seekData` is right at an offset of data, and at one that no sector ends at if the next sector
is not empty; `seekHole` is right at every offset but the end of the file. -/
theorem searches_find_iff (rs : List Sector) (h : ∀ r ∈ rs, r.1 ≤ r.2)
    (hData : ∃ t ∈ inserted rs, t.1 < t.2) (o : Nat) : (FindsData (inserted rs) o ↔ Covers (inserted rs) o ∨
      (∀ t ∈ inserted rs, t.2 ≠ o) ∧ ∀ u, nextSector (inserted rs) o = some u → u.1 < u.2) ∧
    (FindsHole (inserted rs) o ↔ o ≠ getFileSize (inserted rs)) := by
  have hSep := (inserted_separated_size h).1
  obtain ⟨t, ht, -⟩ := hData
  have hNe := List.ne_nil_of_mem ht
  exact ⟨findsData_iff hSep hNe o, findsHole_iff hSep hNe o⟩

theorem searches_find_between :
    FindsData (inserted [(2, 4), (6, 9)]) 5 ∧ FindsHole (inserted [(2, 4), (6, 9)]) 5 := by
  obtain ⟨hData, hHole⟩ := searches_find_iff [(2, 4), (6, 9)] (by decide) ⟨(2, 4), by decide, by decide⟩ 5
  exact ⟨hData.mpr (.inr ⟨by decide, fun u hu => by cases hu; decide⟩), hHole.mpr (by decide)⟩

/-- With one sector from 2 to 4, both searches answer 4 at offset 4, where no data follows. -/
theorem searches_answer_end : seekData (inserted [(2, 4)]) 4 = 4 ∧ ¬ FindsData (inserted [(2, 4)]) 4 ∧
    seekHole (inserted [(2, 4)]) 4 = 4 ∧ ¬ FindsHole (inserted [(2, 4)]) 4 := by
  have hSep := (inserted_separated_size (show ∀ r ∈ [((2, 4) : Sector)], r.1 ≤ r.2 by decide)).1
  refine ⟨by decide, ?_, by decide, ?_⟩
  · exact not_findsData (show _ = ((4 : Nat) : Int) by decide) (by decide)
  · rw [findsHole_iff hSep (by decide)]
    decide

end Capio.Storage.SectorSearch
