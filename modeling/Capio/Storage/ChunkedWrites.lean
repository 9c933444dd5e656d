import Mathlib.Algebra.GroupWithZero.Nat
import Capio.Storage.Coverage

/-! # A range written in chunks

One insertion replaces the sectors between a start and a stop by one sector.  Inserting a range piece
by piece has the same start; its stop is found in steps, and each step looks one byte behind the stop of
the step before.  The pieces and the whole range give the same sectors exactly if no piece meets a
sector that reaches past the end of the whole range and has another sector one byte behind it.
-/
namespace Capio.Storage.ChunkedWrites

open Lib.Segments Storage.Sectors List

def spliced (S : List Sector) (a b : Nat) : List Sector :=
  S.filter (fun t => decide (t.2 < a)) ++ (a, b) :: S.filter fun t => decide (b < t.1)

/-- The stop of an insertion with the given start, once its end is known up to the sectors that
start right behind it. -/
structure StopsAt (S : List Sector) (a m b : Nat) : Prop where
  le : m ≤ b
  reached : ∀ t ∈ S, a ≤ t.1 → t.1 ≤ m + 1 → t.2 ≤ b
  eq : b = m ∨ ∃ t ∈ S, a ≤ t.1 ∧ t.1 ≤ m + 1 ∧ t.2 = b

section

variable {S : List Sector}

theorem mem_spliced : t ∈ spliced S a b ↔ t ∈ S ∧ t.2 < a ∨ t = (a, b) ∨ t ∈ S ∧ b < t.1 := by
  simp [spliced]

theorem StopsAt.mono (h : StopsAt S a m b) (h' : StopsAt S a m' b') (hLe : m ≤ m') : b ≤ b' := by
  rcases h.eq with rfl | ⟨t, ht, hStart, hNear, rfl⟩
  · exact hLe.trans h'.le
  · exact h'.reached t ht hStart (by omega)

section

variable (hS : Separated S)
include hS

theorem StopsAt.closed (h : StopsAt S a m b) (ht : t ∈ S) (hStart : a ≤ t.1) (hStop : t.1 ≤ b) :
    t.2 ≤ b := by
  by_cases hNear : t.1 ≤ m + 1
  · exact h.reached t ht hStart hNear
  · rcases h.eq with rfl | ⟨u, hu, -, hNear', rfl⟩
    · omega
    · rcases hS.trichotomy hu ht with rfl | hlt | hlt
      · exact le_rfl
      · omega
      · omega

theorem spliced_spliced (hab : a ≤ b) (hbb : b ≤ b') : spliced (spliced S a b) a b' = spliced S a b' := by
  have hNone : ∀ c, a ≤ c → S.filter (fun t => decide (t.2 < a) && decide (c < t.1)) = [] := by
    intro c hac
    refine filter_eq_nil_iff.mpr fun t ht => ?_
    have hOrdered := hS.ordered t ht
    simp only [Bool.and_eq_true, decide_eq_true_eq]
    omega
  have hBefore : (spliced S a b).filter (fun t => decide (t.2 < a)) =
      S.filter fun t => decide (t.2 < a) := by
    unfold spliced
    rw [filter_append, filter_filter, filter_cons_of_neg (by simpa using hab),
      filter_filter, hNone b hab, append_nil]
    simp
  have hAfter : (spliced S a b).filter (fun t => decide (b' < t.1)) =
      S.filter fun t => decide (b' < t.1) := by
    have hSwap : S.filter (fun t => decide (b' < t.1) && decide (t.2 < a)) = [] := by
      simpa only [Bool.and_comm] using hNone b' (hab.trans hbb)
    unfold spliced
    rw [filter_append, filter_filter, hSwap, nil_append,
      filter_cons_of_neg (by simp; omega), filter_filter]
    refine filter_congr fun t _ => ?_
    simp only [← Bool.decide_and, decide_eq_decide]
    omega
  rw [spliced, hBefore, hAfter, spliced]

theorem splice_start (hse : s ≤ e) (p : Splice S s e) :
    (p.start = s ∧ p.mid = e ∧ ∀ t ∈ S, t.1 < s → t.2 < s) ∨
      ∃ t ∈ S, t.1 < s ∧ s ≤ t.2 ∧ p.start = t.1 ∧ p.mid = max e t.2 := by
  -- between the start and the first sector that ends before the range there is no data
  have hFrom : ∀ t ∈ S, p.start ≤ t.1 → t.2 < s → False := by
    intro t ht hStart hBefore
    have hOrdered := hS.ordered t ht
    rcases p.left_covered t.2 (by omega) (by have := p.le_mid; omega) with hCovers | hIn
    · exact hS.not_covers_end ht hCovers
    · omega
  have hCovered : p.start < s → ∃ t ∈ S, p.start = t.1 ∧ s ≤ t.2 := by
    intro hlt
    rcases p.left_covered p.start le_rfl (by have := p.le_mid; omega) with ⟨t, ht, hLe, hLt⟩ | hIn
    · have hMem : p.start ≤ t.1 := by
        rw [p.split] at ht
        rcases mem_append.mp ht with ht | ht
        · have := p.before_lt t ht
          omega
        · rcases mem_append.mp ht with ht | ht
          · exact (p.merged_start t ht).1
          · have := (p.after_lt t ht).1
            have := p.le_mid
            omega
      grind
    · omega
  by_cases hReach : ∃ t ∈ S, t.1 < s ∧ s ≤ t.2
  · obtain ⟨t, ht, hts, hst⟩ := hReach
    have hStart : p.start ≤ t.1 := by
      rw [p.split] at ht
      rcases mem_append.mp ht with ht | ht
      · have := p.before_lt t ht
        have := p.start_le
        omega
      · rcases mem_append.mp ht with ht | ht
        · exact (p.merged_start t ht).1
        · have := (p.after_lt t ht).1
          have := p.le_mid
          omega
    obtain ⟨u, hu, hEq, hsu⟩ := hCovered (hStart.trans_lt hts)
    have hSame : u = t := by
      rcases hS.trichotomy hu ht with rfl | hlt | hlt
      · rfl
      · omega
      · omega
    subst hSame
    refine .inr ⟨u, hu, hts, hst, hEq, ?_⟩
    rcases p.mid_cases with ⟨hMid, hNone⟩ | ⟨v, hv, hvs, hev, hMid⟩
    · rw [hMid, max_eq_left (hNone u hu hts)]
    · rcases hS.trichotomy hv hu with rfl | hlt | hlt
      · rw [hMid, max_eq_right hev.le]
      · omega
      · omega
  · have hNone : ∀ t ∈ S, t.1 < s → t.2 < s := by
      grind
    refine .inl ⟨?_, ?_, hNone⟩
    · by_contra hne
      have hlt : p.start < s := lt_of_le_of_ne p.start_le hne
      grind
    · rcases p.mid_cases with ⟨hMid, -⟩ | ⟨t, ht, hts, het, -⟩
      · exact hMid
      · have := hNone t ht hts
        omega

theorem insertSector_eq_spliced (hse : s ≤ e) (p : Splice S s e)
    (hp : insertSector S s e = p.before ++ (p.start, p.stop) :: p.after) :
    insertSector S s e = spliced S p.start p.stop ∧ StopsAt S p.start p.mid p.stop := by
  have hStart : p.start ≤ p.stop := p.start_le.trans (hse.trans (p.le_mid.trans p.mid_le))
  have hOrdered : ∀ t ∈ p.before ++ (p.merged ++ p.after), t.1 ≤ t.2 := fun t ht =>
    hS.ordered t (p.split.symm ▸ ht)
  have hFilter : ∀ P : Sector → Bool, S.filter P = (p.before ++ (p.merged ++ p.after)).filter P :=
    fun P => congrArg (filter P) p.split
  constructor
  · rw [hp, spliced]
    congr 1
    · rw [hFilter, filter_append, filter_eq_self.mpr, filter_eq_nil_iff.mpr, append_nil]
      · intro t ht
        have := hOrdered t (mem_append_right _ ht)
        rcases mem_append.mp ht with ht | ht
        · have := (p.merged_start t ht).1
          simp only [decide_eq_true_eq]
          omega
        · have := (p.after_lt t ht).2
          simp only [decide_eq_true_eq]
          omega
      · intro t ht
        simpa using p.before_lt t ht
    · congr 1
      rw [hFilter, ← append_assoc, filter_append, filter_eq_nil_iff.mpr, nil_append, filter_eq_self.mpr]
      · intro t ht
        simpa using (p.after_lt t ht).2
      · intro t ht
        have := hOrdered t (by rw [← append_assoc]; exact mem_append_left _ ht)
        rcases mem_append.mp ht with ht | ht
        · have := p.before_lt t ht
          simp only [decide_eq_true_eq]
          omega
        · have := p.merged_stop t ht
          simp only [decide_eq_true_eq]
          omega
  · refine ⟨p.mid_le, fun t ht hFrom hNear => ?_, ?_⟩
    · rw [p.split] at ht
      rcases mem_append.mp ht with ht | ht
      · have := p.before_lt t ht
        omega
      · rcases mem_append.mp ht with ht | ht
        · exact p.merged_stop t ht
        · have := (p.after_lt t ht).1
          omega
    · rcases p.stop_cases with hEq | ⟨t, ht, hEq⟩
      · exact .inl hEq
      · have hMem : t ∈ S := by
          rw [p.split]
          simp [ht]
        exact .inr ⟨t, hMem, (p.merged_start t ht).1, (p.merged_start t ht).2, hEq.symm⟩

theorem exists_spliced (s : Nat) : ∃ a E, a ≤ s ∧ s ≤ E ∧
    ∀ e, s ≤ e → ∃ b, insertSector S s e = spliced S a b ∧ StopsAt S a (max e E) b := by
  by_cases hReach : ∃ t ∈ S, t.1 < s ∧ s ≤ t.2
  · obtain ⟨t, ht, hts, hst⟩ := hReach
    refine ⟨t.1, t.2, hts.le, hst, fun e hse => ?_⟩
    obtain ⟨p, hp⟩ := exists_splice hS hse
    obtain ⟨hEq, hStops⟩ := insertSector_eq_spliced hS hse p hp
    rcases splice_start hS hse p with ⟨-, -, hNone⟩ | ⟨u, hu, hus, hsu, hStart, hMid⟩
    · exact absurd (hNone t ht hts) (not_lt.mpr hst)
    · obtain rfl : u = t := by
        rcases hS.trichotomy hu ht with rfl | hlt | hlt
        · rfl
        · omega
        · omega
      grind
  · refine ⟨s, s, le_rfl, le_rfl, fun e hse => ?_⟩
    obtain ⟨p, hp⟩ := exists_splice hS hse
    grind [insertSector_eq_spliced, splice_start]

theorem insertSector_spliced (hSep : Separated (spliced S a b)) (h : StopsAt S a m b)
    (hStart : a < s) (hStop : s ≤ b) (hse : s ≤ e) :
    ∃ b', insertSector (spliced S a b) s e = spliced S a b' ∧ StopsAt S a (max e b) b' := by
  have hMem : (a, b) ∈ spliced S a b := mem_spliced.mpr (.inr (.inl rfl))
  obtain ⟨p, hp⟩ := exists_splice hSep hse
  obtain ⟨hEq, hStops⟩ := insertSector_eq_spliced hSep hse p hp
  rcases splice_start hSep hse p with ⟨-, -, hNone⟩ | ⟨u, hu, hus, hsu, hFrom, hMid⟩
  · exact absurd (hNone (a, b) hMem hStart) (not_lt.mpr hStop)
  obtain rfl : u = (a, b) := by
    rcases hSep.trichotomy hu hMem with hEq | hlt | hlt
    · exact hEq
    · omega
    · omega
  rw [hFrom] at hEq hStops
  rw [hMid] at hStops
  have hbb : b ≤ p.stop := (le_max_right e b).trans hStops.le
  rw [spliced_spliced hS (hStart.le.trans hStop) hbb] at hEq
  refine ⟨p.stop, hEq, hStops.le, fun t ht hta hNear => ?_, ?_⟩
  · by_cases hIn : t.1 ≤ b
    · exact (h.closed hS ht hta hIn).trans hbb
    · exact hStops.reached t (mem_spliced.mpr (.inr (.inr ⟨ht, not_le.mp hIn⟩))) hta hNear
  · rcases hStops.eq with hEq | ⟨t, ht, hta, hNear, hEq⟩
    · exact .inl hEq
    · rcases mem_spliced.mp ht with ⟨ht, hBefore⟩ | rfl | ⟨ht, -⟩
      · omega
      · exact .inl (le_antisymm (hEq.symm.trans_le (le_max_right e b)) hStops.le)
      · exact .inr ⟨t, ht, hta, hNear, hEq⟩

end

end

def insertChunks : List Sector → Nat → List Nat → List Sector
  | S, _, [] => S
  | S, o, l :: L => insertChunks (insertSector S o (o + l)) (o + l) L

/-- A sector that holds the byte before an offset reaches past another one, and the next sector starts
one byte behind it. -/
def ReachesGap (S : List Sector) (o q : Nat) : Prop :=
  ∃ t ∈ S, t.1 < o ∧ o ≤ t.2 ∧ q < t.2 ∧ ∃ u ∈ S, u.1 = t.2 + 1

instance (S : List Sector) (o q : Nat) : Decidable (ReachesGap S o q) :=
  inferInstanceAs (Decidable (∃ t ∈ S, _))

/-- No piece meets such a sector; the pieces end at `q`. -/
def MeetsNoGap (q : Nat) : List Sector → Nat → List Nat → Prop
  | _, _, [] => True
  | S, o, l :: L => ¬ ReachesGap S o q ∧ MeetsNoGap q (insertSector S o (o + l)) (o + l) L

instance decidableMeetsNoGap (q : Nat) : ∀ (S : List Sector) (o : Nat) (L : List Nat),
    Decidable (MeetsNoGap q S o L)
  | _, _, [] => inferInstanceAs (Decidable True)
  | S, o, l :: L =>
    have := decidableMeetsNoGap q (insertSector S o (o + l)) (o + l) L
    inferInstanceAs (Decidable (_ ∧ _))

theorem reachesGap_spliced (hSep : Separated (spliced S a b)) (hap : a < p) (hpb : p ≤ b) :
    ReachesGap (spliced S a b) p q ↔ q < b ∧ ∃ u ∈ S, u.1 = b + 1 := by
  have hMem : (a, b) ∈ spliced S a b := mem_spliced.mpr (.inr (.inl rfl))
  constructor
  · rintro ⟨t, ht, htp, hpt, hqt, u, hu, hGap⟩
    have hSame := hSep.trichotomy ht hMem
    grind [mem_spliced]
  · rintro ⟨hqb, u, hu, hGap⟩
    exact ⟨(a, b), hMem, hap, hpb, hqb, u, mem_spliced.mpr (.inr (.inr ⟨hu, by omega⟩)), hGap⟩

theorem spliced_injective (hab : a ≤ b) (hab0 : a ≤ b0) (h : spliced S a b = spliced S a b0) : b = b0 := by
  have hMem : (a, b) ∈ spliced S a b0 := h ▸ mem_spliced.mpr (.inr (.inl rfl))
  grind [mem_spliced, not_le, Prod.mk.inj]

theorem exists_insertChunks (hS : Separated S) (hSep : Separated (spliced S a b)) (h : StopsAt S a m b)
    (hap : a < p) (hpb : p ≤ b) (L : List Nat) :
    ∃ b', insertChunks (spliced S a b) p L = spliced S a b' ∧ b ≤ b' := by
  induction L generalizing b m p with
  | nil => exact ⟨b, rfl, le_rfl⟩
  | cons l L ih =>
    obtain ⟨b1, hEq, h1⟩ := insertSector_spliced hS hSep h hap hpb (Nat.le_add_right p l)
    have hSep1 : Separated (spliced S a b1) := hEq ▸ insertSector_separated hSep (Nat.le_add_right p l)
    have hLe := h1.le
    obtain ⟨b', hEq', hbb⟩ := ih hSep1 h1 (show a < p + l by omega) (by omega)
    rw [insertChunks, hEq, hEq']
    exact ⟨b', rfl, by omega⟩

section

variable (hS : Separated S) (hWhole : StopsAt S a (max q E) b0)
include hS hWhole

theorem StopsAt.within (h : StopsAt S a m b) (hb : b ≤ b0) (hpq : p ≤ q)
    (hNoGap : ¬ (q < b ∧ ∃ u ∈ S, u.1 = b + 1)) (h1 : StopsAt S a (max p b) b1) : b1 ≤ b0 := by
  have hq := hWhole.le
  rcases h1.eq with rfl | ⟨t, ht, hta, hNear, rfl⟩
  · omega
  · by_cases hIn : t.1 ≤ max q E + 1
    · exact hWhole.reached t ht hta hIn
    · by_cases hClosed : t.1 ≤ b
      · exact (h.closed hS ht hta hClosed).trans hb
      · exact absurd ⟨by omega, t, ht, by omega⟩ hNoGap

theorem StopsAt.beyond (h : StopsAt S a m b) (hE : E ≤ m) (hab : a ≤ b)
    (hGap : q < b ∧ ∃ u ∈ S, u.1 = b + 1) (h1 : StopsAt S a (max p b) b1) : b0 < b1 := by
  obtain ⟨hqb, u, hu, huGap⟩ := hGap
  have hmb := h.le
  have hOrdered := hS.ordered u hu
  have hPast : u.2 ≤ b1 := h1.reached u hu (by omega) (by omega)
  rcases hWhole.eq with rfl | ⟨t, ht, hta, hNear, rfl⟩
  · omega
  · by_cases hClosed : t.1 ≤ b
    · have := h.closed hS ht hta hClosed
      omega
    · -- the sector behind the gap was met by the first piece already
      have hMet : u.2 ≤ b := h.reached u hu (by omega) (by omega)
      omega

theorem insertChunks_eq_iff (hSep : Separated (spliced S a b)) (h : StopsAt S a m b) (hE : E ≤ m)
    (hap : a < p) (hpb : p ≤ b) (hb : b ≤ b0) (hq : p + L.sum = q) (hDone : L = [] → b0 ≤ b) :
    insertChunks (spliced S a b) p L = spliced S a b0 ↔ MeetsNoGap q (spliced S a b) p L := by
  induction L generalizing b m p with
  | nil =>
    rw [insertChunks, le_antisymm hb (hDone rfl)]
    exact iff_of_true rfl trivial
  | cons l L ih =>
    rw [sum_cons] at hq
    obtain ⟨b1, hEq, h1⟩ := insertSector_spliced hS hSep h hap hpb (Nat.le_add_right p l)
    have hSep1 : Separated (spliced S a b1) := hEq ▸ insertSector_separated hSep (Nat.le_add_right p l)
    have hLe := h1.le
    have hmb := h.le
    have hap1 : a < p + l := by omega
    rw [insertChunks, MeetsNoGap, hEq, reachesGap_spliced hSep hap hpb]
    by_cases hGap : q < b ∧ ∃ u ∈ S, u.1 = b + 1
    · have hBeyond := hWhole.beyond hS h hE (by omega) hGap h1
      obtain ⟨b', hEq', hbb⟩ := exists_insertChunks hS hSep1 h1 hap1 (by omega) L
      refine iff_of_false ?_ fun hBoth => hBoth.1 hGap
      rw [hEq']
      intro hSame
      have := spliced_injective (by omega) (by omega) hSame
      omega
    · have hWithin := hWhole.within hS h hb (show p + l ≤ q by omega) hGap h1
      rw [ih hSep1 h1 (by omega) hap1 (by omega) hWithin (by omega) ?_]
      · exact (and_iff_right hGap).symm
      · rintro rfl
        rw [sum_nil] at hq
        exact hWhole.mono h1 (by omega)

end

theorem insertChunks_cons_iff (hS : Separated S) (hl : 0 < l) (L : List Nat) :
    insertChunks S o (l :: L) = insertSector S o (o + (l :: L).sum) ↔
      MeetsNoGap (o + (l :: L).sum) (insertSector S o (o + l)) (o + l) L := by
  obtain ⟨a, E, hao, hoE, hInsert⟩ := exists_spliced hS o
  obtain ⟨b1, hEq1, h1⟩ := hInsert (o + l) (Nat.le_add_right o l)
  obtain ⟨b0, hEq0, h0⟩ := hInsert (o + (l :: L).sum) (Nat.le_add_right o _)
  have hSep1 : Separated (spliced S a b1) := hEq1 ▸ insertSector_separated hS (Nat.le_add_right o l)
  have hLe := h1.le
  rw [insertChunks, hEq1, hEq0]
  refine insertChunks_eq_iff hS h0 hSep1 h1 (by omega) (by omega) (by omega) ?_ ?_ ?_
  · refine h1.mono h0 ?_
    rw [sum_cons]
    omega
  · rw [sum_cons]
    omega
  · rintro rfl
    exact h0.mono h1 (by rw [sum_singleton])

end Capio.Storage.ChunkedWrites
