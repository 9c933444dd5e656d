import Mathlib.Data.List.Basic

/-! # Searching a text

`find` is `std::string::find`: the first place of a piece at a position or behind it.  Nothing stands
for `npos`.
-/
namespace Capio.Lib.TextSearch

open List

variable {α : Type*} [DecidableEq α] {text piece : List α} {pos i : Nat}

def find (text piece : List α) (pos : Nat) : Option Nat :=
  (range' pos (text.length + 1 - pos)).find? fun i => decide (piece <+: text.drop i)

/-- `npos` plus one is the beginning of the text. -/
def next : Option Nat → Nat
  | some i => i + 1
  | none => 0

theorem find_eq_some_iff :
    find text piece pos = some i ↔ (pos ≤ i ∧ i ≤ text.length) ∧ piece <+: text.drop i ∧
      ∀ j, pos ≤ j → j < i → ¬ piece <+: text.drop j := by
  grind [find, find?_range'_eq_some]

theorem find_eq_none (h : find text piece pos = none) {j : Nat} (hLow : pos ≤ j)
    (hHigh : j ≤ text.length) : ¬ piece <+: text.drop j := by
  grind [find, find?_range'_eq_none]

theorem singleton_isPrefix_drop {α : Type*} {text : List α} {c : α} {i : Nat} :
    [c] <+: text.drop i ↔ text[i]? = some c := by
  rw [singleton_prefix_iff_head?_eq_some, head?_drop]

/-! ## One character -/

variable {c : α} {before back : List α}

theorem find_first (front after : List α) (hc : c ∉ before) :
    find (front ++ (before ++ c :: after)) [c] front.length = some (front.length + before.length) := by
  rw [find_eq_some_iff, singleton_isPrefix_drop]
  refine ⟨⟨by omega, by simp⟩, by simp, fun j hLow hHigh hAt => hc ?_⟩
  rw [singleton_isPrefix_drop, getElem?_append_right hLow, getElem?_append_left (by omega)] at hAt
  exact mem_of_getElem? hAt

theorem find_eq_none_iff (front : List α) : find (front ++ back) [c] front.length = none ↔ c ∉ back := by
  constructor
  · intro hNone hc
    obtain ⟨before, after, rfl, hFirst⟩ := eq_append_cons_of_mem hc
    rw [find_first front after hFirst] at hNone
    cases hNone
  · intro hc
    cases hFind : find (front ++ back) [c] front.length with
    | none => rfl
    | some i =>
      obtain ⟨⟨hLow, -⟩, hAt, -⟩ := find_eq_some_iff.mp hFind
      rw [singleton_isPrefix_drop, getElem?_append_right hLow] at hAt
      exact absurd (mem_of_getElem? hAt) hc

end Capio.Lib.TextSearch
