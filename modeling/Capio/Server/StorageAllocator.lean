import Capio.Lib.Format
import Capio.Lib.TextSearch

/-! # The limits the kernel reports

The storage allocator takes its limits from texts with one key and one number a line, as
`/proc/meminfo` and the statistics of a control group have them.
-/
namespace Capio.Server.StorageAllocator

open Lib.Format Lib.TextSearch List

def numberAt (text : List Char) : Option Nat :=
  match scanNat (text.dropWhile (· == ' ')) with
  | none => none
  | some (n, _) => if n < 18446744073709551616 then some n else none

/-- The loop of `find_key` with as many turns as it is given; the inner value is `out` if it returns
`true`. -/
def findKey (text key : List Char) : Nat → Nat → Option (Option Nat)
  | 0, _ => none
  | turns + 1, pos =>
    match find text key pos with
    | none => some none
    | some pos =>
      let stop := pos + key.length
      if (pos = 0 ∨ text[pos - 1]? = some '\n') ∧ stop < text.length ∧
          (text[stop]? = some ' ' ∨ key.getLast? = some ':') then some (numberAt (text.drop stop))
      else findKey text key turns (pos + key.length)

/-! ## The lines of a text -/

def LineStart (text : List Char) (p : Nat) : Prop := p = 0 ∨ text[p - 1]? = some '\n'

def lineAt (text : List Char) (p : Nat) : List Char := (text.drop p).takeWhile (· != '\n')

/-- The line at `p` has the key: a space follows it, or any character a key that ends with ':'. -/
structure KeyLine (text key : List Char) (p : Nat) : Prop where
  start : LineStart text p
  begins : key <+: lineAt text p
  next : ∃ c, text[p + key.length]? = some c ∧ (c = ' ' ∨ key.getLast? = some ':')

/-- Spaces, then a longest run of digits with a value of 64 bits. -/
def HasValue (line : List Char) (v : Nat) : Prop :=
  ∃ spaces digits rest, line = spaces ++ (digits ++ rest) ∧ (∀ c ∈ spaces, c = ' ') ∧
    (digits ≠ [] ∧ ∀ c ∈ digits, c.isDigit = true) ∧ (∀ c ∈ rest.head?, c.isDigit = false) ∧
    Nat.ofDigitChars 10 digits 0 = v ∧ v < 18446744073709551616

theorem head_dropWhile {p : Char → Bool} {l : List Char} : ∀ c ∈ (l.dropWhile p).head?, p c = false := by
  intro c hc
  have hNot := head?_dropWhile_not p l
  rw [Option.mem_def.mp hc] at hNot
  exact hNot

theorem numberAt_eq_some_iff : numberAt t = some v ↔ HasValue t v := by
  unfold numberAt scanNat
  constructor
  · intro h
    dsimp only at h
    split at h
    · cases h
    · next n rest hScan =>
      split at hScan
      · cases hScan
      · next hSome =>
        cases hScan
        split at h
        · next hFits =>
          cases h
          refine ⟨t.takeWhile (· == ' '), _, (t.dropWhile (· == ' ')).dropWhile Char.isDigit, ?_,
            fun c hc => ?_, ⟨hSome, fun c hc => ?_⟩, head_dropWhile, rfl, hFits⟩
          · rw [takeWhile_append_dropWhile, takeWhile_append_dropWhile]
          · simpa using mem_takeWhile_imp hc
          · exact mem_takeWhile_imp hc
        · cases h
  · rintro ⟨spaces, digits, rest, rfl, hSpaces, ⟨hSome, hDigits⟩, hRest, rfl, hFits⟩
    have hNext : ∀ c ∈ (digits ++ rest).head?, (c == ' ') = false := by
      intro c hc
      obtain ⟨d, more, rfl⟩ := exists_cons_of_ne_nil hSome
      obtain rfl : d = c := by simpa using hc
      have hDigit := hDigits d mem_cons_self
      rw [beq_eq_false_iff_ne]
      rintro rfl
      cases hDigit
    grind [dropWhile_token, takeWhile_token]

theorem hasValue_takeWhile : HasValue (t.takeWhile (· != '\n')) v ↔ HasValue t v := by
  constructor
  · rintro ⟨spaces, digits, rest, hLine, hSpaces, hDigits, hRest, hValue⟩
    refine ⟨spaces, digits, rest ++ t.dropWhile (· != '\n'), ?_, hSpaces, hDigits, fun c hc => ?_, hValue⟩
    · rw [← append_assoc, ← append_assoc, append_assoc spaces, ← hLine, takeWhile_append_dropWhile]
    · cases rest with
      | cons d rest => exact hRest c hc
      | nil =>
        obtain rfl : c = '\n' := by simpa using head_dropWhile c hc
        rfl
  · rintro ⟨spaces, digits, rest, rfl, hSpaces, hDigits, hRest, hValue⟩
    refine ⟨spaces, digits, rest.takeWhile (· != '\n'), ?_, hSpaces, hDigits, fun c hc => ?_, hValue⟩
    · rw [takeWhile_append_of_pos fun c hc => by rw [hSpaces c hc]; rfl,
        takeWhile_append_of_pos fun c hc => ?_]
      rw [bne_iff_ne]
      rintro rfl
      cases hDigits.2 _ hc
    · cases rest with
      | nil => cases hc
      | cons d rest =>
        rw [takeWhile_cons] at hc
        split at hc
        · exact hRest c hc
        · cases hc

theorem lineAt_eq (hKey : '\n' ∉ key) (hMore : text.drop p = key ++ more) :
    lineAt text p = key ++ more.takeWhile (· != '\n') := by
  unfold lineAt
  grind [takeWhile_append_of_pos]

theorem begins_iff (hKey : '\n' ∉ key) : key <+: lineAt text p ↔ key <+: text.drop p := by
  constructor
  · intro h
    exact h.trans <| takeWhile_prefix _
  · rintro ⟨more, hMore⟩
    rw [lineAt_eq hKey hMore.symm]
    exact prefix_append key _

theorem not_lineStart (hKey : '\n' ∉ key) (hBegins : key <+: text.drop p) (hLow : p < q)
    (hHigh : q < p + key.length) : ¬ LineStart text q := by
  rintro (rfl | hBreak)
  · omega
  · obtain ⟨more, hMore⟩ := hBegins
    have hAt : (key ++ more)[q - 1 - p]? = text[q - 1]? := by
      rw [hMore, getElem?_drop]
      congr 1
      omega
    grind

def FirstKeyLine (text key : List Char) (p : Nat) : Prop :=
  KeyLine text key p ∧ ∀ q < p, ¬ KeyLine text key q

theorem FirstKeyLine.unique (h : FirstKeyLine text key p) (h' : FirstKeyLine text key q) : p = q := by
  rcases Nat.lt_trichotomy p q with hLt | rfl | hLt
  · exact absurd h.1 (h'.2 p hLt)
  · rfl
  · exact absurd h'.1 (h.2 q hLt)

/-- The result of the scan from a position that no line of the key is before. -/
theorem findKey_from (hKey : '\n' ∉ key) (hSome : key ≠ []) (hPos : pos ≤ text.length)
    (hTurns : text.length < pos + turns) (hBefore : ∀ q < pos, ¬ KeyLine text key q) :
    ∃ r, findKey text key turns pos = some r ∧ ∀ v, r = some v ↔
      ∃ p, FirstKeyLine text key p ∧ HasValue ((lineAt text p).drop key.length) v := by
  induction turns generalizing pos with
  | zero => omega
  | succ turns ih =>
    rw [findKey]
    have hAhead {q : Nat} (hLine : KeyLine text key q) : pos ≤ q ∧ q ≤ text.length := by
      refine ⟨Nat.le_of_not_lt fun hLt => hBefore q hLt hLine, ?_⟩
      obtain ⟨c, hc, -⟩ := hLine.next
      have := (List.getElem?_eq_some_iff.mp hc).1
      omega
    cases hFind : find text key pos with
    | none =>
      refine ⟨none, rfl, fun v => iff_of_false (fun h => by cases h) ?_⟩
      rintro ⟨p, ⟨hLine, -⟩, -⟩
      grind [begins_iff, hLine.begins, find_eq_none]
    | some i =>
      obtain ⟨⟨hLow, hHigh⟩, hBegins, hFirst⟩ := find_eq_some_iff.mp hFind
      have hEarlier : ∀ q < i, ¬ KeyLine text key q := fun q hq hLine =>
        hFirst q (hAhead hLine).1 hq ((begins_iff hKey).mp hLine.begins)
      obtain ⟨more, hMore⟩ := hBegins
      have hLength : i + key.length ≤ text.length := by
        have := congrArg length hMore
        simp at this
        omega
      have hKeyLength := length_pos_iff.mpr hSome
      dsimp only
      split
      · next hTest =>
        obtain ⟨hStart, hStop, hNext⟩ := hTest
        have hLine : FirstKeyLine text key i := by
          refine ⟨⟨hStart, (begins_iff hKey).mpr ⟨more, hMore⟩, _, getElem?_eq_getElem hStop, ?_⟩,
            hEarlier⟩
          rwa [getElem?_eq_getElem hStop, Option.some_inj] at hNext
        have hRest : text.drop (i + key.length) = more := by
          rw [← drop_drop, ← hMore, drop_left]
        refine ⟨_, rfl, fun v => ?_⟩
        rw [hRest, numberAt_eq_some_iff, ← hasValue_takeWhile]
        have hDrop : (lineAt text i).drop key.length = more.takeWhile (· != '\n') := by
          rw [lineAt_eq hKey hMore.symm, drop_left]
        constructor
        · intro hValue
          exact ⟨i, hLine, hDrop ▸ hValue⟩
        · rintro ⟨p, hFirstLine, hValue⟩
          rw [hFirstLine.unique hLine, hDrop] at hValue
          exact hValue
      · next hTest =>
        refine ih hLength (by omega) fun q hq hLine => ?_
        rcases Nat.lt_trichotomy q i with hLt | rfl | hGt
        · exact hEarlier q hLt hLine
        · obtain ⟨c, hc, hNext⟩ := hLine.next
          refine hTest ⟨hLine.start, (List.getElem?_eq_some_iff.mp hc).1, ?_⟩
          rw [hc, Option.some_inj]
          exact hNext
        · exact not_lineStart hKey ⟨more, hMore⟩ hGt hq hLine.start

/-- `find_key` returns the value on the first line that has the key, and nothing if there is no such
line or no value on it. -/
theorem find_key_iff (hKey : '\n' ∉ key) (hSome : key ≠ []) (hTurns : text.length < turns) :
    ∃ r, findKey text key turns 0 = some r ∧ ∀ v, r = some v ↔
      ∃ p, FirstKeyLine text key p ∧ HasValue ((lineAt text p).drop key.length) v :=
  findKey_from hKey hSome (Nat.zero_le _) (by omega) fun q hq => absurd hq (Nat.not_lt_zero q)

theorem find_key_meminfo :
    ∃ r, findKey "xkey 7\nkey  42\nkey 1".toList "key".toList 30 0 = some r ∧ ∀ v, r = some v ↔
      ∃ p, FirstKeyLine "xkey 7\nkey  42\nkey 1".toList "key".toList p ∧
        HasValue ((lineAt "xkey 7\nkey  42\nkey 1".toList p).drop "key".toList.length) v :=
  find_key_iff (by decide) (by decide) (by decide)

end Capio.Server.StorageAllocator
