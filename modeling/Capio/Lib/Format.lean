import Mathlib.Data.List.Forall2
import Mathlib.Data.List.TakeWhile
import Mathlib.Data.Nat.Digits.Defs

/-! # Texts written by `printf` and read by `scanf`

The formats are conversions with white space between them.  A text is a list of characters, each
one a byte, and ends at its first null character.
-/
namespace Capio.Lib.Format

open List

def nul : Char := '\x00'

/-- `isspace` in the C locale. -/
def isSpace (c : Char) : Bool := c == ' ' || (9 ≤ c.toNat && c.toNat ≤ 13)

def isEnd (c : Char) : Bool := isSpace c || c == nul

structure IsToken (s : List Char) : Prop where
  ne_nil : s ≠ []
  not_end : ∀ c ∈ s, isEnd c = false

instance (s : List Char) : Decidable (IsToken s) :=
  decidable_of_iff (s ≠ [] ∧ (s.all fun c => !isEnd c) = true)
    ⟨fun h => ⟨h.1, by simpa using h.2⟩, fun h => ⟨h.ne_nil, by simpa using h.not_end⟩⟩

def AtEnd (t : List Char) : Prop := ∀ c ∈ t.head?, isEnd c = true

theorem atEnd_nil : AtEnd [] := by simp [AtEnd]

variable {c : Char} {t s rest tail : List Char} {n : Int}

theorem atEnd_cons (hEnd : isEnd c = true) : AtEnd (c :: t) := by
  simpa [AtEnd] using hEnd

theorem atEnd_nul (t : List Char) : AtEnd (nul :: t) := atEnd_cons rfl

theorem isEnd_of_isSpace (hSpace : isSpace c = true) : isEnd c = true := by
  simp [isEnd, hSpace]

theorem isEnd_of_isDigit (hDigit : c.isDigit = true) : isEnd c = false := by
  have hLow : 48 ≤ c.toNat := (Char.isDigit_iff_toNat.mp hDigit).1
  have hNe {d : Char} (hd : d.toNat < 48) : c ≠ d := fun h => by rw [h] at hLow; omega
  have hSpace : c ≠ ' ' := hNe (by decide)
  have hNul : c ≠ nul := hNe (by decide)
  grind [isEnd, isSpace]

theorem takeWhile_token {p : Char → Bool} (hAll : ∀ c ∈ s, p c = true)
    (hRest : ∀ c ∈ rest.head?, p c = false) : (s ++ rest).takeWhile p = s := by
  rw [takeWhile_append_of_pos hAll]
  cases rest with
  | nil => simp
  | cons c rest => simp [hRest c (by simp)]

theorem dropWhile_token {p : Char → Bool} (hAll : ∀ c ∈ s, p c = true)
    (hRest : ∀ c ∈ rest.head?, p c = false) : (s ++ rest).dropWhile p = rest := by
  rw [dropWhile_append_of_pos hAll]
  cases rest with
  | nil => simp
  | cons c rest => simp [hRest c (by simp)]

/-! ## Numbers -/

def decimal : Int → List Char
  | .ofNat n => Nat.toDigits 10 n
  | .negSucc n => '-' :: Nat.toDigits 10 (n + 1)

def scanNat (t : List Char) : Option (Nat × List Char) :=
  let digits := t.takeWhile Char.isDigit
  if digits = [] then none
  else some (Nat.ofDigitChars 10 digits 0, t.dropWhile Char.isDigit)

/-- The number that `strtol` reads, before it is made to fit. -/
def scanInt : List Char → Option (Int × List Char)
  | '-' :: t => (scanNat t).map fun r => (-(r.1 : Int), r.2)
  | '+' :: t => (scanNat t).map fun r => ((r.1 : Int), r.2)
  | t => (scanNat t).map fun r => ((r.1 : Int), r.2)

/-- `std::from_chars`, which takes no white space and no plus sign. -/
def fromChars : List Char → Option (Int × List Char)
  | '-' :: t => (scanNat t).map fun r => (-(r.1 : Int), r.2)
  | t => (scanNat t).map fun r => ((r.1 : Int), r.2)

theorem isDigit_of_mem_toDigits {n : Nat} (hMem : c ∈ Nat.toDigits 10 n) : c.isDigit = true :=
  Nat.isDigit_of_mem_toDigits (by decide) (by decide) hMem

theorem isDigit_eq_false (hEnd : isEnd c = true) : c.isDigit = false := by
  cases hDigit : c.isDigit with
  | false => rfl
  | true => rw [isEnd_of_isDigit hDigit] at hEnd; contradiction

theorem scanNat_toDigits (n : Nat) (hRest : AtEnd rest) :
    scanNat (Nat.toDigits 10 n ++ rest) = some (n, rest) := by
  have hAll : ∀ c ∈ Nat.toDigits 10 n, c.isDigit = true := fun c => isDigit_of_mem_toDigits
  have hStop : ∀ c ∈ rest.head?, c.isDigit = false := fun c hc => isDigit_eq_false (hRest c hc)
  unfold scanNat
  rw [takeWhile_token hAll hStop, dropWhile_token hAll hStop, if_neg Nat.toDigits_ne_nil,
    Nat.ofDigitChars_toDigits (by decide) (by decide)]

theorem toDigits_eq_cons (n : Nat) : ∃ c t, Nat.toDigits 10 n = c :: t ∧ c.isDigit = true := by
  obtain ⟨c, t, hEq⟩ := exists_cons_of_ne_nil (Nat.toDigits_ne_nil (n := n) (b := 10))
  exact ⟨c, t, hEq, isDigit_of_mem_toDigits (hEq ▸ mem_cons_self)⟩

theorem scanInt_decimal (n : Int) (hRest : AtEnd rest) : scanInt (decimal n ++ rest) = some (n, rest) := by
  cases n with
  | negSucc n =>
      rw [decimal, cons_append, scanInt, scanNat_toDigits _ hRest]
      rfl
  | ofNat n =>
      obtain ⟨c, t, hEq, hDigit⟩ := toDigits_eq_cons n
      have hMinus : c ≠ '-' := by rintro rfl; contradiction
      have hPlus : c ≠ '+' := by rintro rfl; contradiction
      have hScan := scanNat_toDigits n hRest
      rw [decimal]
      rw [hEq, cons_append] at hScan ⊢
      rw [scanInt.eq_3 _ (by simpa using hMinus) (by simpa using hPlus), hScan]
      rfl

theorem isToken_decimal (n : Int) : IsToken (decimal n) := by
  cases n with
  | ofNat n => exact ⟨Nat.toDigits_ne_nil, fun c hc => isEnd_of_isDigit (isDigit_of_mem_toDigits hc)⟩
  | negSucc n =>
      refine ⟨by simp [decimal], fun c hc => ?_⟩
      rcases mem_cons.mp hc with rfl | hc
      · decide
      · exact isEnd_of_isDigit (isDigit_of_mem_toDigits hc)

/-- The type of the variable that a number is read into. -/
inductive Width
  | int
  | long
  deriving DecidableEq

def Width.Fits : Width → Int → Prop
  | .int, n => -2147483648 ≤ n ∧ n < 2147483648
  | .long, n => -9223372036854775808 ≤ n ∧ n < 9223372036854775808

instance (w : Width) (n : Int) : Decidable (w.Fits n) := by
  cases w with
  | int => exact inferInstanceAs (Decidable (-2147483648 ≤ n ∧ n < 2147483648))
  | long => exact inferInstanceAs (Decidable (-9223372036854775808 ≤ n ∧ n < 9223372036854775808))

/-- `strtol` stops at the bounds of a `long`; a `%d` keeps the lower half of it. -/
def Width.convert : Width → Int → Int
  | .long, n => max (-9223372036854775808) (min n 9223372036854775807)
  | .int, n => (max (-9223372036854775808) (min n 9223372036854775807)).bmod 4294967296

variable {w : Width}

theorem Width.convert_eq (hFits : w.Fits n) : w.convert n = n := by
  cases w with
  | int => grind [Width.Fits, Width.convert]
  | long => grind [Width.Fits, Width.convert]

theorem Width.fits_convert (w : Width) (n : Int) : w.Fits (w.convert n) := by
  cases w with
  | int =>
      have hLow := Int.le_bmod (x := max (-9223372036854775808) (min n 9223372036854775807))
        (m := 4294967296) (by decide)
      have hHigh := Int.bmod_lt (x := max (-9223372036854775808) (min n 9223372036854775807))
        (m := 4294967296) (by decide)
      exact ⟨by simp only [Width.convert]; omega, by simp only [Width.convert]; omega⟩
  | long => exact ⟨by simp only [Width.convert]; omega, by simp only [Width.convert]; omega⟩

/-! ## Formats -/

inductive Arg
  | int (n : Int)
  | str (s : List Char)
  deriving DecidableEq

def boolArg (b : Bool) : Arg := .int b.toNat

theorem fits_bool (b : Bool) : Width.int.Fits b.toNat := by
  cases b with
  | false => decide
  | true => decide

theorem bool_ne_zero (b : Bool) : decide ((b.toNat : Int) ≠ 0) = b := by
  cases b with
  | false => rfl
  | true => rfl

inductive Conversion
  | padded
  | int
  | long
  | size
  | string
  deriving DecidableEq

inductive Directive
  | char (c : Char)
  | conv (k : Conversion)
  deriving DecidableEq

def printFormat : List Char → List Directive
  | '%' :: '0' :: '4' :: 'd' :: t => .conv .padded :: printFormat t
  | '%' :: 'd' :: t => .conv .int :: printFormat t
  | '%' :: 'l' :: 'd' :: t => .conv .long :: printFormat t
  | '%' :: 'z' :: 'u' :: t => .conv .size :: printFormat t
  | '%' :: 's' :: t => .conv .string :: printFormat t
  | c :: t => .char c :: printFormat t
  | [] => []

def printArg : Conversion → Arg → List Char
  | .padded, .int n => (decimal n).leftpad 4 '0'
  | .int, .int n => decimal n
  | .long, .int n => decimal n
  | .size, .int n => decimal (n % 18446744073709551616)
  | .string, .str s => s.takeWhile (· != nul)
  | _, _ => []

def printf : List Directive → List Arg → List Char
  | .char c :: fs, args => c :: printf fs args
  | .conv k :: fs, a :: args => printArg k a ++ printf fs args
  | _, _ => []

inductive Scan
  | num (w : Width)
  | string (size : Nat)
  deriving DecidableEq

/-- The conversions of a `scanf` format, with the sizes of the buffers of its `%s`.  White space in the
format skips what the conversion after it skips too. -/
def scanFormat : List Char → List Nat → List Scan
  | '%' :: 'd' :: t, sizes => .num .int :: scanFormat t sizes
  | '%' :: 'l' :: 'd' :: t, sizes => .num .long :: scanFormat t sizes
  | '%' :: 's' :: t, size :: sizes => .string size :: scanFormat t sizes
  | _ :: t, sizes => scanFormat t sizes
  | [], _ => []

/-- There is no result if nothing matches, and when a word and its null character are longer than the
buffer: the variables are then not set, or the memory after the buffer is. -/
def scanArg : Scan → List Char → Option (Arg × List Char)
  | .num w, t => (scanInt (t.dropWhile isSpace)).map fun r => (.int (w.convert r.1), r.2)
  | .string size, t =>
    let token := (t.dropWhile isSpace).takeWhile (fun c => !isEnd c)
    if token = [] ∨ size ≤ token.length then none
    else some (.str token, (t.dropWhile isSpace).dropWhile (fun c => !isEnd c))

def scanf : List Scan → List Char → Option (List Arg)
  | [], _ => some []
  | k :: ks, t =>
    match scanArg k t with
    | none => none
    | some r => (scanf ks r.2).map (r.1 :: ·)

variable {a : Arg} {args : List Arg} {k : Conversion} {q : Scan} {ks : List Scan}

theorem scanf_cons_eq_some {k : Scan} : scanf (k :: ks) t = some (a :: args) ↔
      ∃ rest, scanArg k t = some (a, rest) ∧ scanf ks rest = some args := by
  grind [scanf, Option.map_eq_some_iff]

theorem scanf_cons_ne_nil (k : Scan) (ks : List Scan) (t : List Char) : scanf (k :: ks) t ≠ some [] := by
  rw [scanf]
  cases scanArg k t with
  | none => simp
  | some r => simp

theorem scanf_space (hSpace : isSpace c = true) : scanf ks (c :: t) = scanf ks t := by
  cases ks with
  | nil => rfl
  | cons k ks =>
      have hSkip : (c :: t).dropWhile isSpace = t.dropWhile isSpace := by simp [hSpace]
      have hArg : scanArg k (c :: t) = scanArg k t := by
        cases k with
        | num w => simp only [scanArg, hSkip]
        | string size => simp only [scanArg, hSkip]
      rw [scanf, scanf, hArg]

def Exact : Conversion → Scan → Arg → Prop
  | .int, .num w, .int n => w.Fits n
  | .long, .num w, .int n => w.Fits n
  | .size, .num .long, .int n => 0 ≤ n ∧ Width.long.Fits n
  | .string, .string size, .str s => IsToken s ∧ s.length < size
  | _, _, _ => False

def compatible : Conversion → Scan → Bool
  | .int, .num _ => true
  | .long, .num _ => true
  | .size, .num .long => true
  | .string, .string _ => true
  | _, _ => false

theorem dropWhile_isSpace_token (hToken : IsToken s) (rest : List Char) :
    (s ++ rest).dropWhile isSpace = s ++ rest := by
  obtain ⟨c, t, rfl⟩ := exists_cons_of_ne_nil hToken.ne_nil
  have hEnd := hToken.not_end c mem_cons_self
  have hSpace : isSpace c = false := by
    cases hSpace : isSpace c with
    | false => rfl
    | true => rw [isEnd_of_isSpace hSpace] at hEnd; contradiction
  simp [hSpace]

theorem scanArg_decimal (w : Width) (n : Int) (hRest : AtEnd rest) :
    scanArg (.num w) (decimal n ++ rest) = some (.int (w.convert n), rest) := by
  rw [scanArg, dropWhile_isSpace_token (isToken_decimal n), scanInt_decimal n hRest]
  rfl

theorem scanArg_token (hToken : IsToken s) {size : Nat} (hSize : s.length < size) (hRest : AtEnd rest) :
    scanArg (.string size) (s ++ rest) = some (.str s, rest) := by
  have hAll : ∀ c ∈ s, (!isEnd c) = true := fun c hc => by simp [hToken.not_end c hc]
  have hStop : ∀ c ∈ rest.head?, (!isEnd c) = false := fun c hc => by simp [hRest c hc]
  grind [scanArg, dropWhile_isSpace_token, takeWhile_token, dropWhile_token, hToken.ne_nil]

theorem IsToken.takeWhile_ne_nul (hToken : IsToken s) : s.takeWhile (· != nul) = s := by
  have hAll : ∀ c ∈ s, (c != nul) = true := by
    intro c hc
    have hEnd := hToken.not_end c hc
    simp only [isEnd, Bool.or_eq_false_iff] at hEnd
    simp [bne, hEnd.2]
  exact takeWhile_eq_self_iff.mpr hAll

theorem scanArg_printArg (hExact : Exact k q a) (hRest : AtEnd rest) :
    scanArg q (printArg k a ++ rest) = some (a, rest) := by
  unfold Exact at hExact
  split at hExact
  · rw [printArg, scanArg_decimal _ _ hRest, Width.convert_eq hExact]
  · rw [printArg, scanArg_decimal _ _ hRest, Width.convert_eq hExact]
  · obtain ⟨hNonneg, hFits⟩ := hExact
    grind [Width.Fits, printArg, scanArg_decimal, Width.convert_eq]
  · rw [printArg, hExact.1.takeWhile_ne_nul, scanArg_token hExact.1 hExact.2 hRest]
  · exact hExact.elim

theorem fits_of_scanArg (hScan : scanArg (.num w) t = some (a, rest)) : ∃ n, a = .int n ∧ w.Fits n := by
  simp only [scanArg, Option.map_eq_some_iff, Prod.mk.injEq] at hScan
  obtain ⟨r, -, rfl, -⟩ := hScan
  exact ⟨_, rfl, w.fits_convert _⟩

theorem isToken_of_scanArg {size : Nat} (hScan : scanArg (.string size) t = some (a, rest)) :
    ∃ s, a = .str s ∧ IsToken s ∧ s.length < size := by
  simp only [scanArg] at hScan
  split at hScan
  · contradiction
  next hToken =>
    obtain ⟨rfl, -⟩ := Prod.mk.inj (Option.some.inj hScan)
    refine ⟨_, rfl, ⟨fun hNil => hToken (.inl hNil), fun c hc => ?_⟩, by omega⟩
    simpa using mem_takeWhile_imp hc

def Valid : Scan → Arg → Prop
  | .num w, .int n => w.Fits n
  | .string size, .str s => IsToken s ∧ s.length < size
  | _, _ => False

theorem valid_of_scanArg {k : Scan} (hScan : scanArg k t = some (a, rest)) : Valid k a := by
  cases k with
  | num w =>
      obtain ⟨n, rfl, hFits⟩ := fits_of_scanArg hScan
      exact hFits
  | string size =>
      obtain ⟨s, rfl, hToken⟩ := isToken_of_scanArg hScan
      exact hToken

theorem valid_of_scanf (hScan : scanf ks t = some args) : List.Forall₂ Valid ks args := by
  induction ks generalizing t args with
  | nil =>
      cases hScan
      exact .nil
  | cons k ks ih =>
      cases args with
      | nil => exact (scanf_cons_ne_nil k ks t hScan).elim
      | cons a args =>
          obtain ⟨rest, hArg, hRest⟩ := scanf_cons_eq_some.mp hScan
          exact .cons (valid_of_scanArg hArg) (ih hRest)

theorem exact_of_scanArg {rest' : List Char} (hCompatible : compatible k q = true)
    (hRest : AtEnd rest) (hScan : scanArg q (printArg k a ++ rest) = some (a, rest')) : Exact k q a := by
  unfold compatible at hCompatible
  split at hCompatible
  · obtain ⟨n, rfl, hFits⟩ := fits_of_scanArg hScan
    exact hFits
  · obtain ⟨n, rfl, hFits⟩ := fits_of_scanArg hScan
    exact hFits
  · obtain ⟨n, rfl, hFits⟩ := fits_of_scanArg hScan
    -- what was read is not negative, so what was printed was not
    rw [printArg, scanArg_decimal _ _ hRest] at hScan
    have hEq := Arg.int.inj (Prod.mk.inj (Option.some.inj hScan)).1
    simp only [Width.convert] at hEq
    exact ⟨by omega, hFits⟩
  · obtain ⟨word, rfl, hToken⟩ := isToken_of_scanArg hScan
    exact hToken
  · contradiction

def startsBlank : List Directive → Bool
  | [] => true
  | .char c :: _ => isSpace c
  | .conv _ :: _ => false

def aligned : List Directive → List Scan → Bool
  | [], [] => true
  | .char c :: fs, ks => isSpace c && aligned fs ks
  | .conv k :: fs, q :: ks => compatible k q && startsBlank fs && aligned fs ks
  | _, _ => false

def ExactArgs : List Directive → List Scan → List Arg → Prop
  | [], [], [] => True
  | .char _ :: fs, ks, args => ExactArgs fs ks args
  | .conv k :: fs, q :: ks, a :: args => Exact k q a ∧ ExactArgs fs ks args
  | _, _, _ => False

theorem atEnd_printf {fs : List Directive} (hBlank : startsBlank fs = true) (args : List Arg)
    (hTail : AtEnd tail) : AtEnd (printf fs args ++ tail) := by
  unfold startsBlank at hBlank
  grind [printf, atEnd_cons, isEnd_of_isSpace]

/-- A text that is printed with one format is read back with the other one if and only if each
argument is. -/
theorem scanf_printf (fs : List Directive) (ks : List Scan) (hAligned : aligned fs ks = true)
    (args : List Arg) (hTail : AtEnd tail) :
    scanf ks (printf fs args ++ tail) = some args ↔ ExactArgs fs ks args := by
  induction fs generalizing ks args with
  | nil =>
      cases ks with
      | cons q ks => contradiction
      | nil => grind [scanf, ExactArgs]
  | cons f fs ih =>
      cases f with
      | char c =>
          simp only [aligned, Bool.and_eq_true] at hAligned
          rw [printf, cons_append, scanf_space hAligned.1, ih ks hAligned.2, ExactArgs]
      | conv k =>
          cases ks with
          | nil => contradiction
          | cons q ks =>
              simp only [aligned, Bool.and_eq_true] at hAligned
              obtain ⟨⟨hCompatible, hBlank⟩, hRest⟩ := hAligned
              cases args with
              | nil => simp [ExactArgs, scanf_cons_ne_nil]
              | cons a args =>
                  have hEnd := atEnd_printf hBlank args hTail
                  rw [scanf_cons_eq_some, printf, append_assoc, ExactArgs, ← ih ks hRest args]
                  grind [scanArg_printArg, exact_of_scanArg]

theorem nul_notMem_printArg (k : Conversion) (a : Arg) : nul ∉ printArg k a := by
  have hDecimal (n : Int) : nul ∉ decimal n := fun hMem => by
    have hEnd := (isToken_decimal n).not_end nul hMem
    exact absurd hEnd (by decide)
  unfold printArg
  split
  · intro hMem
    rcases mem_append.mp hMem with hPad | hMem
    · exact absurd (eq_of_mem_replicate hPad) (by decide)
    · exact hDecimal _ hMem
  · exact hDecimal _
  · exact hDecimal _
  · exact hDecimal _
  · intro hMem
    simpa using mem_takeWhile_imp hMem
  · simp

theorem nul_notMem_printf {fs : List Directive} (hAligned : aligned fs ks = true) (args : List Arg) :
    nul ∉ printf fs args := by
  induction fs generalizing ks args with
  | nil => simp [printf]
  | cons f fs ih =>
      cases f with
      | char c =>
          simp only [aligned, Bool.and_eq_true] at hAligned
          rw [printf, mem_cons, not_or]
          refine ⟨?_, ih hAligned.2 args⟩
          rintro rfl
          exact absurd hAligned.1 (by decide)
      | conv k =>
          cases ks with
          | nil => contradiction
          | cons q ks =>
              simp only [aligned, Bool.and_eq_true] at hAligned
              cases args with
              | nil => simp [printf]
              | cons a args =>
                  rw [printf, mem_append, not_or]
                  exact ⟨nul_notMem_printArg k a, ih hAligned.2 args⟩

theorem takeWhile_nul (hNul : nul ∉ s) (t : List Char) : (s ++ nul :: t).takeWhile (· != nul) = s := by
  refine takeWhile_token (fun c hc => ?_) (by simp)
  simp only [bne_iff_ne, ne_eq]
  rintro rfl
  exact hNul hc

/-! ## Formats that keep all values of some types -/

inductive CType
  | num (w : Width)
  | string
  deriving DecidableEq

def CType.Has : CType → Arg → Prop
  | .num w, .int n => w.Fits n
  | .string, .str _ => True
  | _, _ => False

instance : DecidableRel CType.Has
  | .num w, .int n => inferInstanceAs (Decidable (w.Fits n))
  | .string, .str _ => .isTrue trivial
  | .num _, .str _ => .isFalse id
  | .string, .int _ => .isFalse id

def Width.le : Width → Width → Bool
  | .long, .int => false
  | _, _ => true

theorem Width.Fits.of_le {v : Width} (hLe : v.le w = true) (hFits : v.Fits n) : w.Fits n := by
  cases v with
  | int =>
      cases w with
      | int => exact hFits
      | long => exact ⟨by simp only [Width.Fits] at hFits; omega, by simp only [Width.Fits] at hFits; omega⟩
  | long =>
      cases w with
      | int => contradiction
      | long => exact hFits

def keeps (bound : Nat) : Conversion → Scan → CType → Bool
  | .int, .num w, .num v => v.le w
  | .long, .num w, .num v => v.le w
  | .size, .num .long, .num _ => true
  | .string, .string size, .string => bound ≤ size
  | _, _, _ => false

def keepsAll (bound : Nat) : List Directive → List Scan → List CType → Bool
  | [], [], [] => true
  | .char c :: fs, ks, ts => isSpace c && keepsAll bound fs ks ts
  | .conv k :: fs, q :: ks, t :: ts => keeps bound k q t && startsBlank fs && keepsAll bound fs ks ts
  | _, _, _ => false

def sizeArgs : List Directive → List Arg → List Int
  | .char _ :: fs, args => sizeArgs fs args
  | .conv .size :: fs, .int n :: args => n :: sizeArgs fs args
  | .conv _ :: fs, _ :: args => sizeArgs fs args
  | _, _ => []

section

variable {bound : Nat} {fs : List Directive} {ks : List Scan} {ts : List CType} {args : List Arg}

theorem compatible_of_keeps {t : CType} (hKeeps : keeps bound k q t = true) : compatible k q = true := by
  unfold keeps at hKeeps
  split at hKeeps
  · rfl
  · rfl
  · rfl
  · rfl
  · contradiction

section

variable (hKeeps : keepsAll bound fs ks ts = true)
include hKeeps

theorem aligned_of_keepsAll : aligned fs ks = true := by
  induction fs generalizing ks ts with
  | nil =>
      cases ks with
      | nil => rfl
      | cons q ks => contradiction
  | cons f fs ih =>
      cases f with
      | char c => grind [keepsAll, aligned]
      | conv k =>
          cases ks with
          | nil => contradiction
          | cons q ks =>
              cases ts with
              | nil => contradiction
              | cons t ts =>
                  simp only [keepsAll, Bool.and_eq_true] at hKeeps
                  grind [aligned, compatible_of_keeps, Bool.and_self]

theorem length_eq_of_keepsAll : ks.length = ts.length := by
  induction fs generalizing ks ts with
  | nil =>
      cases ks with
      | cons q ks => contradiction
      | nil =>
          cases ts with
          | nil => rfl
          | cons t ts => contradiction
  | cons f fs ih =>
      cases f with
      | char c => grind [keepsAll]
      | conv k =>
          cases ks with
          | nil => contradiction
          | cons q ks =>
              cases ts with
              | nil => contradiction
              | cons t ts => grind [keepsAll]

theorem length_le_length_printf (hTypes : List.Forall₂ CType.Has ts args) (hMem : .str s ∈ args)
    (hToken : IsToken s) : s.length ≤ (printf fs args).length := by
  induction fs generalizing ks ts args with
  | nil =>
      cases hTypes with
      | nil => simp at hMem
      | cons hType hRest =>
          cases ks with
          | nil => contradiction
          | cons q ks => contradiction
  | cons f fs ih =>
      cases f with
      | char c => grind [keepsAll, printf]
      | conv k =>
          cases hTypes with
          | nil => simp at hMem
          | @cons t a ts args hType hRest =>
              cases ks with
              | nil => contradiction
              | cons q ks =>
                  simp only [keepsAll, Bool.and_eq_true] at hKeeps
                  simp only [printf, length_append]
                  rcases mem_cons.mp hMem with rfl | hMem
                  · have hString : k = .string := by
                      have hKeep := hKeeps.1.1
                      unfold keeps at hKeep
                      split at hKeep
                      · exact hType.elim
                      · exact hType.elim
                      · exact hType.elim
                      · rfl
                      · contradiction
                    grind [printArg, hToken.takeWhile_ne_nul]
                  · grind

end

theorem exact_iff_of_keeps {t : CType} (hKeeps : keeps bound k q t = true) (hType : t.Has a)
    (hShort : ∀ s, a = .str s → IsToken s → s.length < bound) :
    Exact k q a ↔ (∀ s, a = .str s → IsToken s) ∧ ∀ n, k = .size → a = .int n → 0 ≤ n := by
  unfold keeps at hKeeps
  split at hKeeps
  · cases a with
    | int n => simpa [Exact] using Width.Fits.of_le hKeeps hType
    | str s => exact hType.elim
  · cases a with
    | int n => simpa [Exact] using Width.Fits.of_le hKeeps hType
    | str s => exact hType.elim
  · cases a with
    | int n =>
        have hLong : Width.long.Fits n := Width.Fits.of_le (by cases ‹Width› <;> rfl) hType
        simp [Exact, hLong]
    | str s => exact hType.elim
  · cases a with
    | int n => exact hType.elim
    | str s => grind [Exact]
  · contradiction

/-- Of values of these types, all numbers are read back, except those that are printed with `%zu` and
are negative, and those texts that are words. -/
theorem exactArgs_iff (hKeeps : keepsAll bound fs ks ts = true) (hTypes : List.Forall₂ CType.Has ts args)
    (hShort : ∀ s, .str s ∈ args → IsToken s → s.length < bound) :
    ExactArgs fs ks args ↔ (∀ s, .str s ∈ args → IsToken s) ∧ ∀ n ∈ sizeArgs fs args, 0 ≤ n := by
  induction fs generalizing ks ts args with
  | nil =>
      cases ks with
      | cons q ks => contradiction
      | nil =>
          cases ts with
          | cons t ts => contradiction
          | nil =>
              cases hTypes
              simp [ExactArgs, sizeArgs]
  | cons f fs ih =>
      cases f with
      | char c =>
          simp only [keepsAll, Bool.and_eq_true] at hKeeps
          simp only [ExactArgs, sizeArgs, ih hKeeps.2 hTypes hShort]
      | conv k =>
          cases ks with
          | nil => contradiction
          | cons q ks =>
              cases hTypes with
              | nil => contradiction
              | @cons t a ts args hType hRest =>
                  simp only [keepsAll, Bool.and_eq_true] at hKeeps
                  have hHead := exact_iff_of_keeps hKeeps.1.1 hType
                    (fun s hs => hShort s (hs ▸ mem_cons_self))
                  have hSizes : (∀ n ∈ sizeArgs (.conv k :: fs) (a :: args), 0 ≤ n) ↔
                      (∀ n, k = .size → a = .int n → 0 ≤ n) ∧ ∀ n ∈ sizeArgs fs args, 0 ≤ n := by
                    cases k with
                    | size =>
                        cases a with
                        | int n => simp [sizeArgs]
                        | str s => simp [sizeArgs]
                    | _ => simp [sizeArgs]
                  grind [ExactArgs]

def Arg.Word : Arg → Prop
  | .str s => IsToken s
  | .int _ => True

instance : DecidablePred Arg.Word
  | .str s => inferInstanceAs (Decidable (IsToken s))
  | .int _ => .isTrue trivial

def readBack : Conversion → Arg → Arg
  | .size, .int n => .int (Width.long.convert (n % 18446744073709551616))
  | _, a => a

def readBackAll : List Directive → List Arg → List Arg
  | .char _ :: fs, args => readBackAll fs args
  | .conv k :: fs, a :: args => readBack k a :: readBackAll fs args
  | _, _ => []

theorem scanArg_readBack {t : CType} (hKeeps : keeps bound k q t = true) (hType : t.Has a)
    (hWord : ∀ s, a = .str s → IsToken s ∧ s.length < bound) (hRest : AtEnd rest) :
    scanArg q (printArg k a ++ rest) = some (readBack k a, rest) := by
  have hExact := exact_iff_of_keeps hKeeps hType (fun s hs _ => (hWord s hs).2)
  unfold readBack
  split
  · next n =>
      unfold keeps at hKeeps
      grind [printArg, scanArg_decimal]
  · next hSize =>
      grind [scanArg_printArg]

theorem scanf_readBackAll (hKeeps : keepsAll bound fs ks ts = true)
    (hTypes : List.Forall₂ CType.Has ts args) (hWords : ∀ s, .str s ∈ args → IsToken s ∧ s.length < bound)
    (hTail : AtEnd tail) : scanf ks (printf fs args ++ tail) = some (readBackAll fs args) := by
  induction fs generalizing ks ts args with
  | nil =>
      cases ks with
      | cons q ks => contradiction
      | nil => rfl
  | cons f fs ih =>
      cases f with
      | char c =>
          simp only [keepsAll, Bool.and_eq_true] at hKeeps
          rw [printf, cons_append, scanf_space hKeeps.1, ih hKeeps.2 hTypes hWords, readBackAll]
      | conv k =>
          cases ks with
          | nil => contradiction
          | cons q ks =>
              cases hTypes with
              | nil => contradiction
              | @cons t a ts args hType hRest =>
                  simp only [keepsAll, Bool.and_eq_true] at hKeeps
                  obtain ⟨⟨hHead, hBlank⟩, hKeeps⟩ := hKeeps
                  rw [printf, append_assoc, readBackAll, scanf_cons_eq_some]
                  exact ⟨_, scanArg_readBack hHead hType
                    (fun s hs => hWords s (hs ▸ mem_cons_self)) (atEnd_printf hBlank args hTail),
                    ih hKeeps hRest fun s hs => hWords s (mem_cons_of_mem _ hs)⟩

end

def printed (format : String) : List Directive := printFormat format.toList

def scanned (format : String) (sizes : List Nat) : List Scan := scanFormat format.toList sizes

theorem length_decimal_le (hLow : -10 ^ 19 < n) (hHigh : n < 10 ^ 20) : (decimal n).length ≤ 20 := by
  cases n with
  | ofNat n =>
    exact Nat.toDigits_length 10 n 20 (by decide) (by
      rw [Int.ofNat_eq_natCast] at hHigh
      omega)
  | negSucc n =>
    have hDigits := Nat.toDigits_length 10 (n + 1) 19 (by decide) (by omega)
    rw [decimal, length_cons]
    omega

theorem length_printArg_le (k : Conversion) (hFits : Width.long.Fits n) :
    (printArg k (.int n)).length ≤ 20 := by
  obtain ⟨hLow, hHigh⟩ := hFits
  have hDecimal := length_decimal_le (n := n) (by omega) (by omega)
  cases k with
  | padded =>
    change ((decimal n).leftpad 4 '0').length ≤ 20
    rw [length_leftpad]
    omega
  | int => exact hDecimal
  | long => exact hDecimal
  | size => exact length_decimal_le (by omega) (by omega)
  | string => exact Nat.zero_le _

theorem length_printf_le (hArgs : ∀ a ∈ args, ∃ n, a = .int n ∧ Width.long.Fits n)
    (fs : List Directive) : (printf fs args).length ≤ 20 * fs.length := by
  induction fs generalizing args with
  | nil => cases args <;> exact Nat.zero_le _
  | cons f fs ih =>
    cases f with
    | char c => grind [printf]
    | conv k =>
      cases args with
      | nil => exact Nat.zero_le _
      | cons a args =>
        obtain ⟨n, rfl, hFits⟩ := hArgs a mem_cons_self
        have hFirst := length_printArg_le k hFits
        grind [printf, length_append, length_cons]
end Capio.Lib.Format
