import Mathlib.Order.Lattice
import Mathlib.Data.List.Basic

/-! # Ordered lists of separated segments

A segment is a pair of bounds and holds the points from the first bound up to the second one,
excluded.  An ordered list of segments with an uncovered point between any two of them is a
canonical representation of the points it covers: it is determined by them.
-/
namespace Capio.Lib.Segments

open List

section

variable {α : Type*} [LinearOrder α]

def Covers (S : List (α × α)) (b : α) : Prop :=
  ∃ t ∈ S, t.1 ≤ b ∧ b < t.2

structure Separated (S : List (α × α)) : Prop where
  ordered : ∀ t ∈ S, t.1 ≤ t.2
  apart : S.Pairwise fun a b => a.2 < b.1

@[simp] theorem covers_nil (b : α) : ¬ Covers ([] : List (α × α)) b := by
  rintro ⟨t, ht, _⟩
  cases ht

@[simp] theorem covers_cons (t : α × α) (S : List (α × α)) (b : α) :
    Covers (t :: S) b ↔ (t.1 ≤ b ∧ b < t.2) ∨ Covers S b := by
  simp [Covers]

@[simp] theorem covers_append (S T : List (α × α)) (b : α) :
    Covers (S ++ T) b ↔ Covers S b ∨ Covers T b := by
  simp only [Covers, mem_append, or_and_right, exists_or]

theorem separated_nil : Separated ([] : List (α × α)) := ⟨by simp, Pairwise.nil⟩

theorem Separated.tail {t : α × α} {S : List (α × α)} (h : Separated (t :: S)) : Separated S :=
  ⟨fun u hu => h.ordered u (mem_cons_of_mem _ hu), (pairwise_cons.mp h.apart).2⟩

theorem Separated.head_lt {t u : α × α} {S : List (α × α)} (h : Separated (t :: S))
    (hu : u ∈ S) : t.2 < u.1 :=
  (pairwise_cons.mp h.apart).1 u hu

theorem Separated.head_le_of_covers {t : α × α} {S : List (α × α)} (h : Separated (t :: S))
    {b : α} (hb : Covers (t :: S) b) : t.1 ≤ b := by
  rcases (covers_cons t S b).mp hb with hb | ⟨u, hu, hub, _⟩
  · exact hb.1
  · exact (h.ordered t mem_cons_self).trans ((h.head_lt hu).le.trans hub)

theorem Separated.not_covers_head_end {t : α × α} {S : List (α × α)} (h : Separated (t :: S)) :
    ¬ Covers (t :: S) t.2 := by
  rw [covers_cons]
  rintro (hb | ⟨u, hu, hub, _⟩)
  · exact lt_irrefl _ hb.2
  · exact absurd hub (not_le.mpr (h.head_lt hu))

theorem Separated.covers_tail_iff {t : α × α} {S : List (α × α)} (h : Separated (t :: S)) (b : α) :
    Covers S b ↔ Covers (t :: S) b ∧ t.2 ≤ b := by
  rw [covers_cons]
  constructor
  · rintro ⟨u, hu, hub, hbu⟩
    exact ⟨Or.inr ⟨u, hu, hub, hbu⟩, (h.head_lt hu).le.trans hub⟩
  · grind

theorem Separated.head_start_le {t u : α × α} {S T : List (α × α)} (hT : Separated (u :: T))
    (ht : t.1 < t.2) (h : ∀ b, Covers (t :: S) b ↔ Covers (u :: T) b) : u.1 ≤ t.1 :=
  hT.head_le_of_covers ((h t.1).mp ((covers_cons t S t.1).mpr (Or.inl ⟨le_rfl, ht⟩)))

theorem Separated.head_end_le {t u : α × α} {S T : List (α × α)} (hS : Separated (t :: S))
    (hStart : u.1 = t.1) (ht : t.1 < t.2) (h : ∀ b, Covers (t :: S) b ↔ Covers (u :: T) b) : u.2 ≤ t.2 := by
  by_contra hlt
  refine hS.not_covers_head_end ((h t.2).mpr ((covers_cons u T t.2).mpr (Or.inl ⟨?_, not_le.mp hlt⟩)))
  rw [hStart]
  exact ht.le

theorem Separated.eq_of_covers {S T : List (α × α)} (hS : Separated S) (hT : Separated T)
    (hS' : ∀ t ∈ S, t.1 < t.2) (hT' : ∀ t ∈ T, t.1 < t.2) (h : ∀ b, Covers S b ↔ Covers T b) : S = T := by
  induction S generalizing T with
  | nil =>
    cases T with
    | nil => rfl
    | cons u T =>
      have hu := hT' u mem_cons_self
      exact absurd ((h u.1).mpr ((covers_cons u T u.1).mpr (Or.inl ⟨le_rfl, hu⟩))) (covers_nil u.1)
  | cons t S ih =>
    have ht := hS' t mem_cons_self
    cases T with
    | nil =>
      exact absurd ((h t.1).mp ((covers_cons t S t.1).mpr (Or.inl ⟨le_rfl, ht⟩))) (covers_nil t.1)
    | cons u T =>
      have hu := hT' u mem_cons_self
      have hsymm : ∀ b, Covers (u :: T) b ↔ Covers (t :: S) b := fun b => (h b).symm
      have hStart : u.1 = t.1 := le_antisymm (hT.head_start_le ht h) (hS.head_start_le hu hsymm)
      have hStop : u.2 = t.2 :=
        le_antisymm (hS.head_end_le hStart ht h) (hT.head_end_le hStart.symm hu hsymm)
      grind [Prod.ext, hS.tail, hT.tail, mem_cons_of_mem, hS.covers_tail_iff, hT.covers_tail_iff]

instance (S : List (α × α)) (b : α) : Decidable (Covers S b) :=
  inferInstanceAs (Decidable (∃ t ∈ S, t.1 ≤ b ∧ b < t.2))

theorem Separated.trichotomy {S : List (α × α)} (h : Separated S) {t u : α × α} (ht : t ∈ S)
    (hu : u ∈ S) : t = u ∨ t.2 < u.1 ∨ u.2 < t.1 := by
  induction S with
  | nil => cases ht
  | cons v S ih =>
    rcases mem_cons.mp ht with rfl | ht'
    · rcases mem_cons.mp hu with rfl | hu'
      · exact Or.inl rfl
      · exact Or.inr (Or.inl (h.head_lt hu'))
    · rcases mem_cons.mp hu with rfl | hu'
      · exact Or.inr (Or.inr (h.head_lt ht'))
      · exact ih h.tail ht' hu'

theorem Separated.not_covers_end {S : List (α × α)} (h : Separated S) {t : α × α} (ht : t ∈ S) :
    ¬ Covers S t.2 := by
  rintro ⟨u, hu, hLe, hLt⟩
  rcases h.trichotomy ht hu with rfl | hlt | hlt
  · exact lt_irrefl _ hLt
  · exact absurd hLe (not_le.mpr hlt)
  · exact absurd (hLt.trans hlt) (not_lt.mpr (h.ordered t ht))

theorem Separated.starts_lt {S : List (α × α)} (h : Separated S) : S.Pairwise fun a b => a.1 < b.1 :=
  h.apart.imp_of_mem fun ha _ hab => (h.ordered _ ha).trans_lt hab

theorem separated_append {S T : List (α × α)} : Separated (S ++ T) ↔
      Separated S ∧ Separated T ∧ ∀ a ∈ S, ∀ b ∈ T, a.2 < b.1 := by
  constructor
  · rintro ⟨hOrdered, hApart⟩
    obtain ⟨hS, hT, hST⟩ := pairwise_append.mp hApart
    exact ⟨⟨fun t ht => hOrdered t (mem_append_left _ ht), hS⟩,
      ⟨fun t ht => hOrdered t (mem_append_right _ ht), hT⟩, hST⟩
  · rintro ⟨hS, hT, hST⟩
    refine ⟨fun t ht => ?_, pairwise_append.mpr ⟨hS.apart, hT.apart, hST⟩⟩
    grind [hS.ordered, hT.ordered]

end

section

variable {α : Type*}

theorem mem_take_findIdx {p : α → Bool} {l : List α} {x : α} (h : x ∈ l.take (l.findIdx p)) :
    p x = false := by
  obtain ⟨i, hi, rfl⟩ := mem_take_iff_getElem.mp h
  exact not_of_lt_findIdx (lt_of_lt_of_le hi (min_le_left _ _))

/-- When the test is passed from one element to every later one, the elements from the position
the search stops at pass it. -/
theorem mem_drop_findIdx {p : α → Bool} {l : List α} (hp : l.Pairwise fun a b => p a → p b)
    {x : α} (h : x ∈ l.drop (l.findIdx p)) : p x = true := by
  induction l with
  | nil => simp at h
  | cons y l ih =>
    obtain ⟨hy, hl⟩ := pairwise_cons.mp hp
    cases hpy : p y with
    | true => grind
    | false => grind

end

end Capio.Lib.Segments
