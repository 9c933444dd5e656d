import Mathlib.Data.List.Basic

/-! # Lexical operations on path names

What `std::filesystem::path` computes from the text of a name alone, where '/' is the only separator
and there are no root names: the names between the separators, the normal form, the elements of a
path and one path relative to another.
-/
namespace Capio.Lib.LexicalPath

open List

abbrev Name := List Char

def dot : Name := ['.']

def dotDot : Name := ['.', '.']

def isAbsolute (p : List Char) : Bool := p.head? == some '/'

/-- The texts between the separators.  An empty one stands where separators are adjacent, or at an end
of the path. -/
def names (p : List Char) : List Name := p.splitOn '/'

theorem not_mem_of_mem_names {p : List Char} {name : Name} (h : name ∈ names p) : '/' ∉ name := by
  unfold names at h
  induction p generalizing name with
  | nil => grind [splitOn_nil]
  | cons c rest ih =>
    rw [splitOn_cons_eq_if_modifyHead] at h
    split at h
    · grind
    · next hc =>
      cases hNames : rest.splitOn '/' with
      | nil => exact absurd hNames (splitOn_ne_nil '/' rest)
      | cons first others => grind [modifyHead_cons]

/-! ## The normal form -/

def push (absolute : Bool) (stack : List Name) (name : Name) : List Name :=
  if name = [] ∨ name = dot then stack
  else if name = dotDot then
    match stack with
    | [] => if absolute then [] else [dotDot]
    | top :: rest => if top = dotDot then dotDot :: top :: rest else rest
  else name :: stack

/-- The names of the normal form: empty names and "." dropped, "x/.." cancelled, ".." of the root
directory dropped. -/
def normalNames (p : List Char) : List Name :=
  ((names p).foldl (push (isAbsolute p)) []).reverse

def namesDirectory (p : List Char) : Bool :=
  ((names p).getLast?.any fun last => last == [] || last == dot || last == dotDot) &&
    (normalNames p).getLast?.any (· != dotDot)

def lexicallyNormal (p : List Char) : List Char :=
  let joined := ['/'].intercalate (normalNames p)
  let text := if namesDirectory p then joined ++ ['/'] else joined
  if p = [] then []
  else if isAbsolute p then '/' :: text
  else if text = [] then dot
  else text

theorem mem_push {absolute : Bool} {stack : List Name} {name x : Name}
    (h : x ∈ push absolute stack name) : x ∈ stack ∨ x = dotDot ∨ (x = name ∧ name ≠ []) := by
  unfold push at h
  grind

theorem mem_foldl_push {absolute : Bool} {ns : List Name} {stack : List Name} {x : Name}
    (h : x ∈ ns.foldl (push absolute) stack) : x ∈ stack ∨ x = dotDot ∨ (x ∈ ns ∧ x ≠ []) := by
  induction ns generalizing stack with
  | nil => exact .inl h
  | cons name rest ih =>
    rcases ih h with hx | hx | ⟨hx, hSome⟩
    · rcases mem_push hx with hx | hx | ⟨rfl, hSome⟩
      · exact .inl hx
      · exact .inr (.inl hx)
      · exact .inr (.inr ⟨mem_cons_self, hSome⟩)
    · exact .inr (.inl hx)
    · exact .inr (.inr ⟨mem_cons_of_mem name hx, hSome⟩)

theorem mem_normalNames {p : List Char} {x : Name} (h : x ∈ normalNames p) : x ≠ [] ∧ '/' ∉ x := by
  rcases mem_foldl_push (mem_reverse.mp h) with hx | rfl | ⟨hx, hSome⟩
  · exact absurd hx not_mem_nil
  · exact ⟨by decide, by decide⟩
  · exact ⟨hSome, not_mem_of_mem_names hx⟩

theorem intercalate_eq_concat {ns : List Name} (hSome : ns ≠ []) (h : ∀ x ∈ ns, x ≠ [] ∧ '/' ∉ x) :
    ∃ front c, ['/'].intercalate ns = front ++ [c] ∧ c ≠ '/' := by
  induction ns with
  | nil => exact absurd rfl hSome
  | cons name rest ih =>
    cases rest with
    | nil =>
      obtain ⟨hName, hSep⟩ := h name mem_cons_self
      obtain ⟨front, c, rfl⟩ := (eq_nil_or_concat name).resolve_left hName
      refine ⟨front, c, by simp [intercalate], ?_⟩
      rintro rfl
      exact hSep (by simp)
    | cons next others =>
      obtain ⟨front, c, hJoined, hc⟩ := ih (cons_ne_nil _ _) fun x hx => h x (mem_cons_of_mem name hx)
      grind [intercalate_cons_cons]

/-! ## The elements of a path -/

def filenames (p : List Char) : List Name := (names p).filter (· ≠ [])

def elements (p : List Char) : List Name :=
  (if isAbsolute p then [['/']] else []) ++ filenames p ++
    (if filenames p ≠ [] ∧ p.getLast? = some '/' then [[]] else [])

def mismatch : List Name → List Name → List Name × List Name
  | a :: as, b :: bs => if a = b then mismatch as bs else (a :: as, b :: bs)
  | as, bs => (as, bs)

def levels (b : List Name) : Int :=
  (b.countP fun x => x ≠ [] ∧ x ≠ dot ∧ x ≠ dotDot : Nat) - (b.countP fun x => x = dotDot : Nat)

def lexicallyRelative (p base : List Char) : List Char :=
  if isAbsolute p ≠ isAbsolute base then []
  else
    let (a, b) := mismatch (elements p) (elements base)
    if a = [] ∧ b = [] then dot
    else if levels b = 0 ∧ (a = [] ∨ a.head? = some []) then dot
    else if levels b < 0 then []
    else ['/'].intercalate (replicate (levels b).toNat dotDot ++ a)

def append (p q : List Char) : List Char :=
  if isAbsolute q then q
  else if p = [] ∨ p.getLast? = some '/' then p ++ q
  else p ++ '/' :: q

/-! ## Absolute paths in normal form -/

def Ordinary (name : Name) : Prop := name ≠ [] ∧ name ≠ dot ∧ name ≠ dotDot ∧ '/' ∉ name

instance : DecidablePred Ordinary := fun _ => inferInstanceAs (Decidable (_ ∧ _))

def absolute (ns : List Name) : List Char := '/' :: ['/'].intercalate ns

theorem elements_absolute {ns : List Name} (hNames : ∀ x ∈ ns, Ordinary x) :
    elements (absolute ns) = ['/'] :: ns := by
  unfold absolute
  cases ns with
  | nil => rfl
  | cons first rest =>
    have hSplit : names ('/' :: ['/'].intercalate (first :: rest)) = [] :: first :: rest := by
      unfold names
      rw [splitOn_cons_eq_if_modifyHead, if_pos (by decide),
        splitOn_intercalate '/' (fun x hx => (hNames x hx).2.2.2) (cons_ne_nil first rest)]
    have hKept : filenames ('/' :: ['/'].intercalate (first :: rest)) = first :: rest := by
      unfold filenames
      rw [hSplit, filter_cons_of_neg (by simp), filter_eq_self]
      exact fun x hx => decide_eq_true (hNames x hx).1
    obtain ⟨front, c, hJoined, hc⟩ := intercalate_eq_concat (cons_ne_nil first rest)
      fun x hx => ⟨(hNames x hx).1, (hNames x hx).2.2.2⟩
    have hAbsolute : isAbsolute ('/' :: ['/'].intercalate (first :: rest)) = true := rfl
    grind [elements]

theorem mismatch_eq (as bs : List Name) :
    ∃ common, as = common ++ (mismatch as bs).1 ∧ bs = common ++ (mismatch as bs).2 ∧
      ((mismatch as bs).1 = [] ∨ (mismatch as bs).2 = [] ∨
        (mismatch as bs).1.head? ≠ (mismatch as bs).2.head?) := by
  induction as, bs using mismatch.induct with
  | case1 as b bs ih =>
    obtain ⟨common, hAs, hBs, hHeads⟩ := ih
    grind [mismatch]
  | case2 a as b bs hDiffer =>
    rw [mismatch, if_neg hDiffer]
    exact ⟨[], rfl, rfl, .inr (.inr (by simpa using hDiffer))⟩
  | case3 as bs hEnd =>
    cases as with
    | nil => exact ⟨[], rfl, by simp [mismatch], .inl (by simp [mismatch])⟩
    | cons a as =>
      cases bs with
      | nil => exact ⟨[], by simp [mismatch], rfl, .inr (.inl (by simp [mismatch]))⟩
      | cons b bs => exact absurd rfl (hEnd a as b bs rfl)

theorem levels_eq {b : List Name} (hNames : ∀ x ∈ b, Ordinary x) : levels b = b.length := by
  have hAll : b.countP (fun x => x ≠ [] ∧ x ≠ dot ∧ x ≠ dotDot) = b.length :=
    countP_eq_length.mpr fun x hx => by
      obtain ⟨hSome, hDot, hUp, -⟩ := hNames x hx
      exact decide_eq_true ⟨hSome, hDot, hUp⟩
  have hNone : b.countP (fun x => x = dotDot) = 0 :=
    countP_eq_zero.mpr fun x hx => by simpa using (hNames x hx).2.2.1
  unfold levels
  rw [hAll, hNone]
  rfl

theorem dotDot_prefix_intercalate {first : Name} (hFirst : Ordinary first) (rest : List Name) :
    dotDot <+: ['/'].intercalate (first :: rest) ↔ dotDot <+: first := by
  cases rest with
  | nil => simp [intercalate]
  | cons next others =>
    obtain ⟨hSome, -⟩ := hFirst
    match first with
    | [] => exact absurd rfl hSome
    | [c] => simp [dotDot]
    | c :: d :: more => simp [dotDot]

theorem lexicallyRelative_absolute {p q : List Name} (hp : ∀ x ∈ p, Ordinary x) (hq : ∀ x ∈ q, Ordinary x) :
    ∃ common a b, q = common ++ a ∧ p = common ++ b ∧ (a = [] ∨ b = [] ∨ a.head? ≠ b.head?) ∧
      lexicallyRelative (absolute q) (absolute p) =
        if a = [] ∧ b = [] then dot else ['/'].intercalate (replicate b.length dotDot ++ a) := by
  obtain ⟨common, hCommonQ, hCommonP, hHeads⟩ := mismatch_eq q p
  refine ⟨common, _, _, hCommonQ, hCommonP, hHeads, ?_⟩
  have hSame : mismatch (['/'] :: q) (['/'] :: p) = mismatch q p := if_pos rfl
  unfold lexicallyRelative
  rw [if_neg fun h => h rfl, elements_absolute hp, elements_absolute hq, hSame]
  generalize mismatch q p = r at *
  obtain ⟨a, b⟩ := r
  dsimp only at *
  have hLevels : levels b = b.length := levels_eq fun x hx => hp x (hCommonP ▸ mem_append_right common hx)
  have hNoName : a.head? ≠ some [] := fun h =>
    (hq [] (hCommonQ ▸ mem_append_right common (mem_of_head? h))).1 rfl
  grind [Int.toNat_natCast]

end Capio.Lib.LexicalPath
