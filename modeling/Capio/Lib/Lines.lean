import Mathlib.Data.List.Basic

/-! # Text as lines

A text is cut after every separator; a last line without a separator is kept as it is.  Texts that
are built from whole lines are cut into these lines again, and overwriting the first letter of one
line leaves the others alone.
-/
namespace Capio.Lib.Lines

open List Option

variable {α : Type*}

structure IsLine (sep : α) (l : List α) : Prop where
  exists_body : ∃ body, sep ∉ body ∧ l = body ++ [sep]

variable {c : α} {l : List α} {ls : List (List α)} {j offset : Nat} {P : List α → Bool}

theorem IsLine.overwrite_head {sep d : α} (h : IsLine sep (c :: l)) (hl : l ≠ []) (hd : d ≠ sep) :
    IsLine sep (d :: l) := by
  obtain ⟨body, hBody, hEq⟩ := h.exists_body
  cases body with
  | nil => grind
  | cons b body =>
    rw [cons_append, cons.injEq] at hEq
    rw [mem_cons, not_or] at hBody
    refine ⟨d :: body, ?_, by rw [hEq.2, cons_append]⟩
    rw [mem_cons, not_or]
    exact ⟨Ne.symm hd, hBody.2⟩

section

variable [DecidableEq α] (sep : α)

def lines : List α → List (List α)
  | [] => []
  | c :: s =>
    if c = sep then [c] :: lines s
    else match lines s with
      | [] => [[c]]
      | l :: ls => (c :: l) :: ls

variable {sep}

theorem lines_append_of_isLine (hl : IsLine sep l) (s : List α) :
    lines sep (l ++ s) = l :: lines sep s := by
  obtain ⟨body, hBody, rfl⟩ := hl.exists_body
  induction body with
  | nil => simp [lines]
  | cons c body ih =>
    rw [mem_cons, not_or] at hBody
    have hRest := ih hBody.2 ⟨body, hBody.2, rfl⟩
    rw [cons_append, cons_append, lines, if_neg (Ne.symm hBody.1), hRest]

theorem lines_flatten (h : ∀ l ∈ ls, IsLine sep l) : lines sep ls.flatten = ls := by
  induction ls with
  | nil => rfl
  | cons l ls ih =>
    rw [flatten_cons, lines_append_of_isLine (h l mem_cons_self),
      ih fun m hm => h m (mem_cons_of_mem _ hm)]

theorem flatten_lines (sep : α) (s : List α) : (lines sep s).flatten = s := by
  induction s with
  | nil => rfl
  | cons c s ih => grind [lines]

theorem isLine_of_lines {s : List α} {A B : List (List α)} (hs : lines sep s = A ++ l :: B)
    (hB : B ≠ []) : l.getLast? = some sep := by
  induction s generalizing A l with
  | nil => simp [lines] at hs
  | cons c s ih =>
    rw [lines] at hs
    split at hs
    · next hc =>
      cases A with
      | nil =>
        obtain ⟨rfl, -⟩ := cons.inj hs
        simp [hc]
      | cons a A => exact ih (cons.inj hs).2
    · split at hs
      · cases A with
        | nil => exact absurd (cons.inj hs).2.symm hB
        | cons a A =>
          have hNil := (cons.inj hs).2
          simp at hNil
      · next l0 ls hLines =>
        cases A with
        | nil =>
          obtain ⟨rfl, rfl⟩ := cons.inj hs
          have hLast := ih (A := []) hLines
          grind
        | cons a A => grind

end

structure WordAt (sep gap : α) (w s : List α) (n : Nat) : Prop where
  start : n = 0 ∨ s[n - 1]? = some sep
  letters : ∀ j < w.length, s[n + j]? = w[j]?
  stop : s[n + w.length]? = some gap ∨ s[n + w.length]? = none

/-- Every line that is begun holds one of the stops, so a word cannot be completed by what is appended
to the text. -/
def Stopped (sep : α) (stops : List α) (s : List α) : Prop :=
  ∀ n < s.length, (n = 0 ∨ s[n - 1]? = some sep) → ∃ j, n ≤ j ∧ ∃ c ∈ stops, s[j]? = some c

section

variable {sep gap : α} {w s s' : List α} {n : Nat}

theorem getElem?_takeWhile {P : α → Bool} (hj : j < (l.takeWhile P).length) :
    l[j]? = (l.takeWhile P)[j]? := by
  conv_lhs => rw [← takeWhile_append_dropWhile (p := P) (l := l)]
  rw [getElem?_append_left hj]

theorem exists_wordAt_of_mem_lines [DecidableEq α] (hl : l ∈ lines sep s)
    (hw : l.takeWhile (· != gap) = w) (hSep : sep ∉ w) : ∃ n, WordAt sep gap w s n := by
  obtain ⟨A, B, hLines⟩ := append_of_mem hl
  have hText : s = A.flatten ++ (l ++ B.flatten) := by
    rw [← flatten_lines sep s, hLines]
    simp
  have hLine : ∀ j, j < l.length → s[A.flatten.length + j]? = l[j]? := by grind
  have hFront := takeWhile_prefix (l := l) fun x => x != gap
  rw [hw] at hFront
  have hShort := hFront.length_le
  refine ⟨A.flatten.length, ?_, fun j hj => ?_, ?_⟩
  · rcases eq_nil_or_concat A with rfl | ⟨A0, a, rfl⟩
    · exact .inl rfl
    · -- the line before ends with the separator
      have hLast : a.getLast? = some sep := by
        rw [concat_eq_append, append_assoc, singleton_append] at hLines
        exact isLine_of_lines hLines (by simp)
      obtain ⟨body, rfl⟩ := getLast?_eq_some_iff.mp hLast
      right
      rw [hText, getElem?_append_left]
      · simp
      · simp
  · rw [hLine j (Nat.lt_of_lt_of_le hj hShort), ← hw]
    exact getElem?_takeWhile (hw ▸ hj)
  · by_cases hLt : w.length < l.length
    · left
      rw [hLine _ hLt]
      have hRest := takeWhile_append_dropWhile (p := fun x => x != gap) (l := l)
      rw [hw] at hRest
      cases hDrop : l.dropWhile (fun x => x != gap) with
      | nil => grind
      | cons c rest =>
        have hc : c = gap := by
          have hHead := head?_dropWhile_not (fun x => x != gap) l
          rw [hDrop] at hHead
          simpa using hHead
        rw [← hRest, hDrop, getElem?_append_right (Nat.le_refl _), Nat.sub_self, hc]
        rfl
    · right
      have hWhole : w = l := hFront.eq_of_length (by omega)
      have hB : B = [] := by
        by_contra hB
        have hLast := isLine_of_lines hLines hB
        exact hSep (hWhole ▸ mem_of_getLast? hLast)
      rw [hText, hB]
      simp [hWhole]

end

def overwrite (fill : α) (s : List α) (offset : Nat) (c : α) : List α :=
  s.take offset ++ replicate (offset - s.length) fill ++ c :: s.drop (offset + 1)

theorem overwrite_flatten (fill : α) (A B : List (List α)) (c d : α) (l : List α) :
    overwrite fill (A ++ (c :: l) :: B).flatten A.flatten.length d = (A ++ (d :: l) :: B).flatten := by
  have hText : (A ++ (c :: l) :: B).flatten = A.flatten ++ c :: (l ++ B.flatten) := by simp
  have hShort : A.flatten.length - (A ++ (c :: l) :: B).flatten.length = 0 := by
    rw [hText, length_append]
    omega
  rw [overwrite, hShort, hText, take_left, drop_length_add_append]
  simp

theorem getElem?_overwrite (fill : α) (s : List α) (k : Nat) (c : α) (j : Nat) :
    (overwrite fill s k c)[j]? =
      if j = k then some c else if s.length ≤ j ∧ j < k then some fill else s[j]? := by
  have hLength : (s.take k ++ replicate (k - s.length) fill).length = k := by grind
  unfold overwrite
  by_cases hj : j < k
  · rw [getElem?_append_left (hLength.symm ▸ hj), if_neg (Nat.ne_of_lt hj)]
    by_cases hs : j < s.length
    · have hTake : j < (s.take k).length := by
        rw [length_take]
        omega
      rw [getElem?_append_left hTake, getElem?_take_of_lt hj, if_neg (by omega)]
    · grind
  · rw [getElem?_append_right (by omega), hLength]
    by_cases he : j = k
    · rw [if_pos he, he, Nat.sub_self]
      rfl
    · obtain ⟨m, rfl⟩ : ∃ m, j = k + 1 + m := ⟨j - (k + 1), by omega⟩
      rw [if_neg he, if_neg (by omega), show k + 1 + m - k = m + 1 by omega, getElem?_cons_succ,
        getElem?_drop]

theorem prefix_overwrite {b s : List α} (h : b <+: s) {k : Nat} (hk : b.length ≤ k) (fill : α) (c : α) :
    b <+: overwrite fill s k c := by
  rw [overwrite, append_assoc]
  exact (prefix_take_iff.mpr ⟨h, hk⟩).trans (prefix_append ..)

section

variable {sep gap : α} {w s s' : List α} {n : Nat} {stops : List α}

theorem WordAt.unmark {marks : List α} (h : WordAt sep gap w s' n) (hw : ∀ c ∈ w, c ∉ marks)
    (hSep : sep ∉ marks) (hGap : gap ∉ marks)
    (hKept : ∀ (j : Nat) c, s'[j]? = some c → c ∉ marks → s[j]? = some c)
    (hEnd : ∀ j : Nat, s'[j]? = none → s[j]? = none) : WordAt sep gap w s n := by
  refine ⟨h.start.imp id fun hs => hKept _ _ hs hSep, fun j hj => ?_, ?_⟩
  · have hLetter := h.letters j hj
    grind
  · exact h.stop.imp (fun hs => hKept _ _ hs hGap) (hEnd _)

theorem getElem?_of_overwrite {fill d : α} {k : Nat} (h : (overwrite fill s k c)[j]? = some d)
    (hd : d ∉ [fill, c]) : s[j]? = some d := by
  rw [getElem?_overwrite] at h
  grind

theorem getElem?_eq_none_of_overwrite {fill : α} {k : Nat} (h : (overwrite fill s k c)[j]? = none) :
    s[j]? = none := by
  rw [getElem?_overwrite] at h
  split at h
  · cases h
  · split at h
    · cases h
    · exact h

theorem Stopped.overwrite (h : Stopped sep stops s) (hc : c ∈ stops) (hSep : c ≠ sep) (fill : α)
    (k : Nat) : Stopped sep stops (overwrite fill s k c) := by
  have hMark : (Lines.overwrite fill s k c)[k]? = some c := by rw [getElem?_overwrite, if_pos rfl]
  intro n hn hStart
  by_cases hk : n ≤ k
  · exact ⟨k, hk, c, hc, hMark⟩
  · -- the line begins behind the letter and is as it was
    have hSame : ∀ j, k < j → (Lines.overwrite fill s k c)[j]? = s[j]? := by
      intro j hj
      rw [getElem?_overwrite, if_neg (by omega), if_neg (by omega)]
    have hLt : n < s.length := by grind
    have hStart' : n = 0 ∨ s[n - 1]? = some sep := by grind
    obtain ⟨j, hj, d, hd, hsj⟩ := h n hLt hStart'
    exact ⟨j, hj, d, hd, by rw [hSame j (by omega), hsj]⟩

theorem stopped_append (hc : c ∈ stops) (s : List α) : Stopped sep stops (s ++ [c]) := by
  intro n hn _
  rw [length_append, length_singleton] at hn
  exact ⟨s.length, by omega, c, hc, getElem?_concat_length⟩

theorem WordAt.of_line {v u : List α} (h : WordAt sep gap w (s ++ (v ++ gap :: u ++ [sep])) n) (hw : w ≠ [])
    (hGap : gap ∉ w) (hStops : ∀ c ∈ stops, c ∉ w) (hStopped : Stopped sep stops s) (hv : gap ∉ v)
    (hLine : sep ∉ v ++ gap :: u) : WordAt sep gap w s n ∨ w = v := by
  have hOld : ∀ j, j < s.length → (s ++ (v ++ gap :: u ++ [sep]))[j]? = s[j]? :=
    fun j hj => getElem?_append_left hj
  have hNew : ∀ j, (s ++ (v ++ gap :: u ++ [sep]))[s.length + j]? = (v ++ gap :: u ++ [sep])[j]? := by
    intro j
    rw [getElem?_append_right (Nat.le_add_right _ _), Nat.add_sub_cancel_left]
  by_cases hn : n < s.length
  · left
    have hStart : n = 0 ∨ s[n - 1]? = some sep :=
      h.start.imp id fun hs => (hOld (n - 1) (by omega)).symm.trans hs
    have hEnd : n + w.length ≤ s.length := by
      by_contra hLong
      obtain ⟨j, hj, c, hc, hsj⟩ := hStopped n hn hStart
      have hLt := (List.getElem?_eq_some_iff.mp hsj).1
      have hLetter := h.letters (j - n) (by omega)
      rw [show n + (j - n) = j by omega, hOld j hLt, hsj] at hLetter
      exact hStops c hc (mem_of_getElem? hLetter.symm)
    refine ⟨hStart, fun j hj => (hOld _ (by omega)).symm.trans (h.letters j hj), ?_⟩
    grind [h.stop]
  · obtain ⟨m, rfl⟩ : ∃ m, n = s.length + m := ⟨n - s.length, by omega⟩
    cases m with
    | zero =>
      right
      have hLetters : ∀ j < w.length, (v ++ gap :: u ++ [sep])[j]? = w[j]? := by
        intro j hj
        rw [← hNew j]
        exact h.letters j hj
      have hStop := h.stop
      rw [Nat.add_zero, hNew] at hStop
      have hLe : v.length ≤ w.length := by
        by_contra hShort
        rw [append_assoc, getElem?_append_left (by omega), getElem?_eq_getElem (by omega)] at hStop
        grind
      have hGe : w.length ≤ v.length := by
        by_contra hLong
        have hLetter := hLetters v.length (by omega)
        rw [append_assoc, getElem?_append_right (Nat.le_refl _), Nat.sub_self] at hLetter
        exact hGap (mem_of_getElem? hLetter.symm)
      refine ext_getElem? fun j => ?_
      by_cases hj : j < w.length
      · rw [← hLetters j hj, append_assoc, getElem?_append_left (by omega)]
      · rw [getElem?_eq_none (by omega), getElem?_eq_none (by omega)]
    | succ m =>
      -- a line begins behind the appended one, where the text ends
      have hStart := h.start.resolve_left (by omega)
      rw [show s.length + (m + 1) - 1 = s.length + m by omega, hNew] at hStart
      have hEnd : (v ++ gap :: u).length ≤ m := by grind
      have hLetter := h.letters 0 (length_pos_of_ne_nil hw)
      rw [Nat.add_zero, hNew, getElem?_eq_none
        (by rw [length_append, length_singleton]; omega),
        getElem?_eq_getElem (length_pos_of_ne_nil hw)] at hLetter
      cases hLetter

end

theorem length_flatten_take_set {l' : List α} (h : ls[j]? = some l) (hLen : l'.length = l.length)
    (i : Nat) : ((ls.set j l').take i).flatten.length = (ls.take i).flatten.length := by
  have hSame : (ls.set j l').map length = ls.map length := by
    rw [map_set, hLen]
    apply ext_getElem?
    intro k
    rw [getElem?_set]
    split
    · grind
    · rfl
  rw [length_flatten, length_flatten, map_take, map_take, hSame]

def findLine (P : List α → Bool) : Nat → List (List α) → Option (Nat × Nat)
  | _, [] => none
  | offset, l :: ls =>
    if P l then some (offset, offset + l.length) else findLine P (offset + l.length) ls

theorem findLine_eq_none_iff : findLine P offset ls = none ↔ ∀ l ∈ ls, P l = false := by
  induction ls generalizing offset with
  | nil => simp [findLine]
  | cons l ls ih => grind [findLine]

theorem findLine_isSome_iff : (findLine P offset ls).isSome = true ↔ ∃ l ∈ ls, P l = true := by
  rw [← not_iff_not, Bool.not_eq_true, isSome_eq_false_iff, isNone_iff_eq_none, findLine_eq_none_iff]
  simp

theorem findLine_eq_some {a b : Nat} (h : findLine P offset ls = some (a, b)) :
    ∃ A l B, ls = A ++ l :: B ∧ P l = true ∧ a = offset + A.flatten.length ∧ b = a + l.length := by
  induction ls generalizing offset with
  | nil => cases h
  | cons l ls ih =>
    rw [findLine] at h
    split at h
    · next hl =>
      obtain ⟨rfl, rfl⟩ := Prod.mk.inj (some.inj h)
      exact ⟨[], l, ls, rfl, hl, rfl, rfl⟩
    · grind

theorem line_of_findLine [DecidableEq α] {sep : α} {s : List α} {a b : Nat}
    (h : findLine P 0 (lines sep s) = some (a, b)) :
    (s.take b).drop a ∈ lines sep s ∧ P ((s.take b).drop a) = true := by
  obtain ⟨A, l, B, hLines, hl, rfl, rfl⟩ := findLine_eq_some h
  have hLine : (s.take (0 + A.flatten.length + l.length)).drop (0 + A.flatten.length) = l := by
    rw [← flatten_lines sep s, hLines, Nat.zero_add, flatten_append, flatten_cons,
      ← append_assoc, take_left' (by rw [length_append]), drop_left]
  rw [hLine]
  exact ⟨hLines ▸ mem_append_right _ mem_cons_self, hl⟩

end Capio.Lib.Lines
