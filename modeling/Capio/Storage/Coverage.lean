import Mathlib.Data.List.Induction
import Capio.Storage.Sectors

/-! # Which bytes the sector set reports as data

One insertion adds the bytes of its range and, because the right edge is searched from
`new_end + 1`, the one byte in front of a sector that starts right after a one-byte hole.
Over a whole sequence of insertions the reported bytes are the written ones exactly when no
insertion meets such a hole, and then the set is determined by the written bytes alone.
-/
namespace Capio.Storage.Coverage

open Lib.Segments Storage.Sectors List

/-- The hole an insertion closes without its byte being written: a sector starts right after it,
and it lies at the end of the inserted range, or at the end of the stored sector that holds the
range and the byte before it. -/
def Swallowed (S : List Sector) (s e g : Nat) : Prop :=
  (∃ u ∈ S, u.1 = g + 1) ∧ (g = e ∨ ∃ t ∈ S, t.1 < s ∧ e < t.2 ∧ g = t.2)

def ClosesGap (S : List Sector) (s e : Nat) : Prop :=
  ∃ u ∈ S, u.1 = e + 1 ∨ ∃ t ∈ S, t.1 < s ∧ e < t.2 ∧ u.1 = t.2 + 1

instance (S : List Sector) (s e : Nat) : Decidable (ClosesGap S s e) :=
  inferInstanceAs (Decidable (∃ u ∈ S, u.1 = e + 1 ∨ ∃ t ∈ S, t.1 < s ∧ e < t.2 ∧ u.1 = t.2 + 1))

theorem Swallowed.closesGap (h : Swallowed S s e g) : ClosesGap S s e := by
  obtain ⟨⟨u, hu, hug⟩, rfl | ⟨t, ht, hts, het, rfl⟩⟩ := h
  · exact ⟨u, hu, .inl hug⟩
  · exact ⟨u, hu, .inr ⟨t, ht, hts, het, hug⟩⟩

theorem swallowed_eq_mid (hS : Separated S) (hse : s ≤ e) (p : Splice S s e) (h : Swallowed S s e g) :
    g = p.mid := by
  obtain ⟨⟨u, hu, hug⟩, hg⟩ := h
  rcases p.mid_cases with ⟨hMid, hNone⟩ | ⟨t, ht, hts, het, hMid⟩
  · grind
  · rcases hg with hg | ⟨v, hv, hvs, hev, hgv⟩
    · rcases hS.trichotomy ht hu with rfl | hlt | hlt
      · omega
      · omega
      · have := hS.ordered u hu
        omega
    · rcases hS.trichotomy ht hv with rfl | hlt | hlt <;> omega

theorem covers_insertSector_iff (hS : Separated S) (hse : s ≤ e) (b : Nat) :
    Covers (insertSector S s e) b ↔ Covers S b ∨ (s ≤ b ∧ b < e) ∨ Swallowed S s e b := by
  obtain ⟨p, hp⟩ := exists_splice hS hse
  have hSplit : Covers S b ↔ Covers p.before b ∨ Covers p.merged b ∨ Covers p.after b := by
    conv_lhs => rw [p.split]
    simp only [covers_append]
  rw [hp, covers_append, covers_cons]
  constructor
  · rintro (hb | ⟨hb, hbStop⟩ | hb)
    · exact Or.inl (hSplit.mpr (Or.inl hb))
    · rcases lt_or_ge b p.mid with hbMid | hbMid
      · rcases p.left_covered b hb hbMid with h | h
        · exact Or.inl h
        · exact Or.inr (Or.inl h)
      · rcases p.right_covered b hbMid hbStop with ⟨hEq, t, ht, htMid⟩ | h
        · have htS : t ∈ S := by
            rw [p.split]
            simp [ht]
          refine Or.inr (Or.inr ⟨⟨t, htS, by rw [htMid, hEq]⟩, ?_⟩)
          grind [p.mid_cases]
        · exact Or.inl h
    · exact Or.inl (hSplit.mpr (Or.inr (Or.inr hb)))
  · rintro (hb | ⟨hsb, hbe⟩ | hb)
    · rcases hSplit.mp hb with hb | ⟨t, ht, htb, hbt⟩ | hb
      · exact Or.inl hb
      · exact Or.inr (Or.inl ⟨(p.merged_start t ht).1.trans htb, hbt.trans_le (p.merged_stop t ht)⟩)
      · exact Or.inr (Or.inr hb)
    · exact Or.inr (Or.inl ⟨p.start_le.trans hsb, hbe.trans_le (p.le_mid.trans p.mid_le)⟩)
    · have hEq := swallowed_eq_mid hS hse p hb
      obtain ⟨⟨u, hu, hub⟩, _⟩ := hb
      have hMerged : u ∈ p.merged := by
        have hOrd := hS.ordered u hu
        rw [p.split, mem_append, mem_append] at hu
        rcases hu with hu | hu | hu
        · have h1 := p.before_lt u hu
          have h2 := p.start_le
          omega
        · exact hu
        · have := (p.after_lt u hu).1
          omega
      refine Or.inr (Or.inl ⟨?_, ?_⟩)
      · rw [hEq]
        exact p.start_le.trans (hse.trans p.le_mid)
      · rw [hEq]
        exact p.gap_lt u hMerged (by rw [hub, hEq])

theorem insertSector_nonempty (hS : Separated S) (hse : s < e) (hNonempty : ∀ t ∈ S, t.1 < t.2) :
    ∀ t ∈ insertSector S s e, t.1 < t.2 := by
  obtain ⟨p, hp⟩ := exists_splice hS hse.le
  intro t ht
  grind [p.split, lt_of_le_of_lt, p.start_le, p.le_mid, p.mid_le]

structure Range where
  start : Nat
  stop : Nat
  start_lt_stop : start < stop
  deriving DecidableEq

def insertAll (rs : List Range) : List Sector :=
  rs.foldl (fun S r => insertSector S r.start r.stop) []

def Written (rs : List Range) (b : Nat) : Prop :=
  ∃ r ∈ rs, r.start ≤ b ∧ b < r.stop

instance (rs : List Range) (b : Nat) : Decidable (Written rs b) :=
  inferInstanceAs (Decidable (∃ r ∈ rs, r.start ≤ b ∧ b < r.stop))

def Exact (rs : List Range) : Prop :=
  ∀ b, Covers (insertAll rs) b ↔ Written rs b

/-- With the ranges `rs` written, `r` ends one byte before written data, that byte not being
written, or `r` and the byte before it lie in written data that ends so. -/
def ClosesHole (rs : List Range) (r : Range) : Prop :=
  ∃ g, ¬ Written rs g ∧ Written rs (g + 1) ∧
    (g = r.stop ∨
      (r.stop < g ∧ 0 < r.start ∧ ∀ b, r.start - 1 ≤ b → b < g → Written rs b))

def NeverClosesHole (rs : List Range) : Prop :=
  ∀ pre r, pre ++ [r] <+: rs → ¬ ClosesHole pre r

@[simp] theorem insertAll_concat (rs : List Range) (r : Range) :
    insertAll (rs ++ [r]) = insertSector (insertAll rs) r.start r.stop := by
  simp [insertAll]

theorem written_concat (rs : List Range) (r : Range) (b : Nat) :
    Written (rs ++ [r]) b ↔ Written rs b ∨ (r.start ≤ b ∧ b < r.stop) := by
  simp [Written, or_and_right, exists_or]

theorem insertAll_separated (rs : List Range) :
    Separated (insertAll rs) ∧ ∀ t ∈ insertAll rs, t.1 < t.2 := by
  induction rs using reverseRecOn with
  | nil => exact ⟨separated_nil, by simp [insertAll]⟩
  | append_singleton rs r ih =>
    rw [insertAll_concat]
    exact ⟨insertSector_separated ih.1 r.start_lt_stop.le,
      insertSector_nonempty ih.1 r.start_lt_stop ih.2⟩

theorem exists_start_iff (hS : Separated S) (hNonempty : ∀ t ∈ S, t.1 < t.2) (g : Nat) :
    (∃ u ∈ S, u.1 = g + 1) ↔ ¬ Covers S g ∧ Covers S (g + 1) := by
  constructor
  · rintro ⟨u, hu, hug⟩
    refine ⟨?_, u, hu, hug.le, hug ▸ hNonempty u hu⟩
    rintro ⟨t, ht, htg, hgt⟩
    rcases hS.trichotomy ht hu with rfl | hlt | hlt
    · omega
    · omega
    · have := hS.ordered u hu
      omega
  · rintro ⟨hHole, t, ht, htg, hgt⟩
    refine ⟨t, ht, le_antisymm htg ?_⟩
    by_contra hlt
    exact hHole ⟨t, ht, by omega, by omega⟩

theorem exists_around_iff (hS : Separated S) (hse : s < e) (hHole : ¬ Covers S g) :
    (∃ t ∈ S, t.1 < s ∧ e < t.2 ∧ g = t.2) ↔ e < g ∧ 0 < s ∧ ∀ b, s - 1 ≤ b → b < g → Covers S b := by
  constructor
  · rintro ⟨t, ht, hts, het, rfl⟩
    exact ⟨het, by omega, fun b hsb hbt => ⟨t, ht, by omega, hbt⟩⟩
  · rintro ⟨heg, hs, hAll⟩
    obtain ⟨t, ht, hts, hst⟩ := hAll (s - 1) le_rfl (by omega)
    have hEnd : t.2 = g := by
      rcases lt_trichotomy t.2 g with hlt | hEq | hlt
      · exact absurd (hAll t.2 (by omega) hlt) (hS.not_covers_end ht)
      · exact hEq
      · exact absurd ⟨t, ht, by omega, hlt⟩ hHole
    exact ⟨t, ht, by omega, by omega, hEnd.symm⟩

theorem exists_swallowed_iff (hExact : Exact rs) (r : Range) :
    (∃ g, Swallowed (insertAll rs) r.start r.stop g) ↔ ClosesHole rs r := by
  obtain ⟨hS, hNonempty⟩ := insertAll_separated rs
  apply exists_congr
  intro g
  rw [Swallowed, exists_start_iff hS hNonempty, ← hExact g, ← hExact (g + 1), and_assoc]
  apply and_congr_right
  intro hHole
  apply and_congr_right
  intro _
  rw [exists_around_iff hS r.start_lt_stop hHole]
  simp only [← hExact _]

theorem swallowed_not_written (hExact : Exact rs) (h : Swallowed (insertAll rs) r.start r.stop g) :
    ¬ Written (rs ++ [r]) g := by
  obtain ⟨hS, hNonempty⟩ := insertAll_separated rs
  have hHole := ((exists_start_iff hS hNonempty g).mp h.1).1
  have hStop : r.stop ≤ g := by
    rcases h.2 with hg | ⟨t, _, _, hlt, hg⟩ <;> omega
  rw [written_concat, ← hExact g]
  rintro (hg | hg)
  · exact hHole hg
  · omega

theorem exact_concat_iff (hExact : Exact rs) (r : Range) : Exact (rs ++ [r]) ↔ ¬ ClosesHole rs r := by
  rw [← exists_swallowed_iff hExact r]
  have hIff := covers_insertSector_iff (insertAll_separated rs).1 r.start_lt_stop.le
  constructor
  · rintro h ⟨g, hg⟩
    refine swallowed_not_written hExact hg ((h g).mp ?_)
    rw [insertAll_concat, hIff]
    exact Or.inr (Or.inr hg)
  · intro h b
    rw [insertAll_concat, hIff, written_concat, hExact b]
    constructor <;> grind

theorem exact_nil : Exact [] := by
  intro b
  simp [Written, insertAll]

theorem prefixes_exact_iff (rs : List Range) : (∀ pre, pre <+: rs → Exact pre) ↔ NeverClosesHole rs := by
  induction rs using reverseRecOn with
  | nil =>
    constructor
    · rintro _ pre r h
      simp at h
    · intro _ pre h
      rw [prefix_nil.mp h]
      exact exact_nil
  | append_singleton rs r ih =>
    constructor
    · intro h pre q hpre
      rcases prefix_concat_iff.mp hpre with hEq | hpre
      · obtain ⟨rfl, hq⟩ := append_inj' hEq rfl
        grind [singleton_inj, prefix_append, exact_concat_iff, prefix_refl]
      · exact ih.mp (fun p hp => h p (hp.trans (prefix_append _ _))) pre q hpre
    · intro h pre hpre
      have hAll := ih.mpr fun p q hp => h p q (hp.trans (prefix_append _ _))
      rcases prefix_concat_iff.mp hpre with rfl | hpre
      · exact (exact_concat_iff (hAll rs (prefix_refl _)) r).mpr (h rs r (prefix_refl _))
      · exact hAll pre hpre

/-- After every insertion of a sequence the sector set covers exactly the written bytes if and only
if no insertion of it closes a one-byte hole; and sequences that close none and write the same
bytes, in whatever order, end with the same set. -/
theorem insertSector_covers_written (rs : List Range) :
    ((∀ pre, pre <+: rs → Exact pre) ↔ NeverClosesHole rs) ∧
      ∀ qs, NeverClosesHole rs → NeverClosesHole qs → (∀ b, Written rs b ↔ Written qs b) →
        insertAll rs = insertAll qs := by
  refine ⟨prefixes_exact_iff rs, fun qs hrs hqs hSame => ?_⟩
  have hExactR := (prefixes_exact_iff rs).mpr hrs rs (List.prefix_refl _)
  have hExactQ := (prefixes_exact_iff qs).mpr hqs qs (List.prefix_refl _)
  obtain ⟨hSepR, hNonR⟩ := insertAll_separated rs
  obtain ⟨hSepQ, hNonQ⟩ := insertAll_separated qs
  exact hSepR.eq_of_covers hSepQ hNonR hNonQ fun b => by rw [hExactR b, hExactQ b, hSame b]

/-- `[0, 2)` after `[3, 4)` reports byte 2, and the same ranges in the other order do not. -/
theorem insertSector_covers_unwritten : ¬ (∀ rs : List Range, Exact rs) ∧
      ¬ (∀ rs qs : List Range, (∀ b, Written rs b ↔ Written qs b) → insertAll rs = insertAll qs) := by
  constructor
  · intro h
    have hIff := h [⟨3, 4, by decide⟩, ⟨0, 2, by decide⟩] 2
    exact absurd (hIff.mp (by decide)) (by decide)
  · intro h
    have hEq := h [⟨3, 4, by decide⟩, ⟨0, 2, by decide⟩] [⟨0, 2, by decide⟩, ⟨3, 4, by decide⟩]
      (fun b => by simp [Written, or_comm])
    exact absurd hEq (by decide)

end Capio.Storage.Coverage
