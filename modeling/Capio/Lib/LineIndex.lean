import Mathlib.Logic.Function.Basic
import Capio.Lib.Lines

/-! # An index of the lines of a text

Keys are appended to a text as lines, and a table has for each key the offset at which its line starts.
A line is taken back by overwriting its first letter with a mark.  An index is kept by both, and it tells
for every key whether and where it has a line.
-/
namespace Capio.Lib.LineIndex

open Lib.Lines Function List

variable {α κ : Type*}

def startOf (L : List (List α)) (j : Nat) : Nat := (L.take j).flatten.length

variable {L : List (List α)} {j j' : Nat} {l : List α}

theorem startOf_append {M : List (List α)} (hj : j ≤ L.length) : startOf (L ++ M) j = startOf L j := by
  unfold startOf
  rw [take_append_of_le_length hj]

theorem startOf_length (L : List (List α)) : startOf L L.length = L.flatten.length := by
  unfold startOf
  rw [take_length]

theorem startOf_succ (hl : L[j]? = some l) :
    startOf L (j + 1) = startOf L j + l.length := by simp [startOf, take_add_one, hl]

theorem startOf_mono (L : List (List α)) (h : j ≤ j') : startOf L j ≤ startOf L j' := by
  obtain ⟨d, rfl⟩ := Nat.exists_eq_add_of_le h
  unfold startOf
  rw [take_add, flatten_append, length_append]
  exact Nat.le_add_right _ _

theorem startOf_lt (hl : L[j]? = some l) (hNe : l ≠ []) (h : j < j') : startOf L j < startOf L j' := by
  have hSucc := startOf_mono L (Nat.succ_le_of_lt h)
  have hLength := length_pos_of_ne_nil hNe
  rw [Nat.succ_eq_add_one, startOf_succ hl] at hSucc
  omega

theorem startOf_inj (hNe : ∀ l ∈ L, l ≠ []) {l' : List α} (hl : L[j]? = some l)
    (hl' : L[j']? = some l') (h : startOf L j = startOf L j') : j = j' := by
  have hl1 := hNe l (mem_of_getElem? hl)
  have hl2 := hNe l' (mem_of_getElem? hl')
  rcases Nat.lt_trichotomy j j' with hLt | hEq | hLt
  · exact absurd h (Nat.ne_of_lt (startOf_lt hl hl1 hLt))
  · exact hEq
  · exact absurd h.symm (Nat.ne_of_lt (startOf_lt hl' hl2 hLt))

section

variable (sep mark : α) (line : κ → List α)

def LineAt [DecidableEq α] (s : List α) (k : κ) (n : Nat) : Prop :=
  (line k).head? ≠ some mark ∧
    ∃ j, (lines sep s)[j]? = some (line k) ∧ n = startOf (lines sep s) j

structure Indexes (s : List α) (t : κ → Option Nat) (L : List (List α)) : Prop where
  content : s = L.flatten
  formed : ∀ l ∈ L, IsLine sep l ∧ 2 ≤ l.length
  sound : ∀ (j : Nat) l, L[j]? = some l →
    l.head? = some mark ∨ ∃ k, l = line k ∧ t k = some (startOf L j)
  complete : ∀ k n, t k = some n → (line k).head? ≠ some mark ∧
    ∃ j : Nat, L[j]? = some (line k) ∧ n = startOf L j

end

section

variable {sep mark : α} {line : κ → List α} {s : List α} {t : κ → Option Nat} {L : List (List α)} {k : κ}

theorem indexes_nil (sep mark : α) (line : κ → List α) : Indexes sep mark line [] (fun _ => none) [] where
  content := rfl
  formed _ h := absurd h not_mem_nil
  sound _ _ h := by cases h
  complete _ _ h := by cases h

section

variable (h : Indexes sep mark line s t L)
include h

theorem Indexes.ne_nil : ∀ l ∈ L, l ≠ [] := by
  rintro _ hl rfl
  exact absurd (h.formed _ hl).2 (by simp)

theorem Indexes.lines [DecidableEq α] : lines sep s = L := by
  rw [h.content, lines_flatten fun l hl => (h.formed l hl).1]

theorem Indexes.lineAt_iff [DecidableEq α]
    (hInj : Function.Injective line) (k : κ) (n : Nat) : LineAt sep mark line s k n ↔ t k = some n := by
  grind [LineAt, h.lines, h.sound, h.complete]

theorem Indexes.exists_of_mem [DecidableEq α]
    (hl : l ∈ Lines.lines sep s) (hMark : l.head? ≠ some mark) : ∃ k, l = line k ∧ t k ≠ none := by
  rw [h.lines] at hl
  obtain ⟨j, hj⟩ := mem_iff_getElem?.mp hl
  grind [h.sound]

theorem Indexes.append [DecidableEq κ] (hNew : t k = none)
    (hLine : IsLine sep (line k)) (hLength : 2 ≤ (line k).length) (hMark : (line k).head? ≠ some mark) :
    Indexes sep mark line (s ++ line k) (update t k (some s.length)) (L ++ [line k]) where
  content := by rw [h.content, flatten_append, flatten_singleton]
  formed l hl := by
    rcases mem_append.mp hl with hl | hl
    · exact h.formed l hl
    · rw [mem_singleton.mp hl]
      exact ⟨hLine, hLength⟩
  sound j l hl := by
    rcases Nat.lt_or_ge j L.length with hj | hj
    · rw [getElem?_append_left hj] at hl
      refine (h.sound j l hl).imp id ?_
      grind [update_of_ne, startOf_append]
    · rw [getElem?_append_right hj, getElem?_singleton] at hl
      grind [update_self, startOf_append, startOf_length, h.content]
  complete k' n hk' := by
    rw [update_apply] at hk'
    split at hk'
    · next hEq =>
      subst hEq
      obtain rfl := Option.some.inj hk'
      refine ⟨hMark, L.length, getElem?_concat_length, ?_⟩
      rw [startOf_append (Nat.le_refl _), startOf_length, h.content]
    · obtain ⟨hMark', j, hj, rfl⟩ := h.complete k' n hk'
      have hLt := (List.getElem?_eq_some_iff.mp hj).1
      exact ⟨hMark', j, (getElem?_append_left hLt).trans hj, (startOf_append (Nat.le_of_lt hLt)).symm⟩

theorem Indexes.erase [DecidableEq κ]
    (hInj : Function.Injective line) {n : Nat} (hk : t k = some n) (hMark : mark ≠ sep) (fill : α) :
    ∃ L', Indexes sep mark line (overwrite fill s n mark) (update t k none) L' := by
  obtain ⟨-, j, hj, rfl⟩ := h.complete k n hk
  obtain ⟨hLt, hGet⟩ := List.getElem?_eq_some_iff.mp hj
  obtain ⟨hLine, hLength⟩ := h.formed _ (mem_of_getElem? hj)
  cases hText : line k with
  | nil => simp [hText] at hLength
  | cons a l =>
    rw [hText] at hj hLine hLength hGet
    have hStart : ∀ i, startOf (L.set j (mark :: l)) i = startOf L i := length_flatten_take_set hj rfl
    refine ⟨L.set j (mark :: l), ?_, fun m hm => ?_, fun i m hm => ?_, fun k' n hk' => ?_⟩
    · have hSplit : L = L.take j ++ (a :: l) :: L.drop (j + 1) := by
        rw [← hGet, ← drop_eq_getElem_cons hLt, take_append_drop]
      have hOverwrite := overwrite_flatten fill (L.take j) (L.drop (j + 1)) a mark l
      rw [← hSplit] at hOverwrite
      rw [h.content, set_eq_take_append_cons_drop, if_pos hLt]
      exact hOverwrite
    · rcases mem_or_eq_of_mem_set hm with hm | rfl
      · exact h.formed m hm
      · refine ⟨hLine.overwrite_head ?_ hMark, hLength⟩
        rintro rfl
        simp at hLength
    · by_cases hij : j = i
      · grind
      · rw [getElem?_set_ne hij] at hm
        grind [update_of_ne, h.sound, startOf_inj, h.ne_nil, Option.some.inj]
    · rw [update_apply] at hk'
      grind [h.complete]

end

end

end Capio.Lib.LineIndex
