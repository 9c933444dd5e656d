import Mathlib.Logic.Function.Basic

/-! # Values shared by the clients and the servers

The CAPIO-CL engine and the operating system are not part of the repository.  The engine is a
record of its queries, and what the system answers while a buffer is allocated is a record of one
answer each; both are arbitrary everywhere.
-/
namespace Capio.Common

abbrev Byte := UInt8

abbrev Path := List Char

def collapse : Path → Path
  | [] => []
  | c :: rest => if c = '/' ∧ rest.head? = some '/' then collapse rest else c :: collapse rest

/-- `==` of paths compares their elements, so it does not see how many separators are between them; a
key of a map is a string. -/
def SamePath (p q : Path) : Prop := collapse p = collapse q

instance (p q : Path) : Decidable (SamePath p q) := inferInstanceAs (Decidable (_ = _))

theorem head?_collapse (p : Path) : (collapse p).head? = p.head? := by
  induction p with
  | nil => rfl
  | cons c rest ih => grind [collapse]

theorem mem_collapse (p : Path) (x : Char) : x ∈ collapse p ↔ x ∈ p := by
  induction p with
  | nil => rfl
  | cons c rest ih =>
    rw [collapse]
    split
    · next hBoth =>
      rw [ih, List.mem_cons]
      refine ⟨.inr, fun h => h.elim (fun hx => ?_) id⟩
      rw [hx, hBoth.1]
      exact List.mem_of_head? hBoth.2
    · rw [List.mem_cons, List.mem_cons, ih]

namespace SamePath

theorem refl (p : Path) : SamePath p p := rfl

theorem symm {p q : Path} (h : SamePath p q) : SamePath q p := Eq.symm h

theorem trans {p q r : Path} (h : SamePath p q) (h' : SamePath q r) : SamePath p r := Eq.trans h h'

theorem head? {p q : Path} (h : SamePath p q) : p.head? = q.head? := by
  rw [← head?_collapse p, h, head?_collapse q]

theorem mem {p q : Path} (h : SamePath p q) (x : Char) : x ∈ p ↔ x ∈ q := by
  rw [← mem_collapse p, h, mem_collapse q]

end SamePath

abbrev Node := List Char

abbrev AppName := List Char

abbrev Tid := Nat

abbrev Fd := Int

def CAPIO_POSIX_SYSCALL_REQUEST_SKIP : Int := -2

def PATH_MAX : Nat := 4096

def INT_MAX : Nat := 2147483647

def CAPIO_DEFAULT_DIR_INITIAL_SIZE : Nat := 1024 * 1024 * 1024

def CAPIO_DEFAULT_APP_NAME : AppName := "default_app".toList

/-- `sizeof(linux_dirent64)`: 274 bytes of fields, padded to a multiple of eight. -/
def DIRENT_SIZE : Nat := 280

def asInt (n : Int) : Int := n.bmod 4294967296

theorem asInt_le {n : Int} (hPos : 0 ≤ n) : asInt n ≤ n := by
  unfold asInt
  rw [Int.bmod_def]
  split <;> omega

theorem asInt_natCast {n : Nat} (hLt : n < 2147483648) : asInt n = n :=
  Int.bmod_eq_of_le (by omega) (by omega)

inductive CommitRule
  | onClose
  | onFile
  | onNFiles
  | onTermination
  deriving DecidableEq, Repr

structure CapioCLEngine where
  isExcluded : Path → Bool
  isPermanent : Path → Bool
  isFirable : Path → Bool
  isProducer : Path → AppName → Bool
  getCommitRule : Path → CommitRule
  getCommitCloseCount : Path → Nat
  getDirectoryFileCount : Path → Nat

/-- `emplace` and `insert` of a map: an existing entry stays. -/
def emplace {α β : Type} [DecidableEq α] (m : α → Option β) (key : α) (value : β) : α → Option β :=
  match m key with
  | some _ => m
  | none => Function.update m key (some value)

theorem emplace_of_none {α β : Type} [DecidableEq α] {m : α → Option β} {key : α} (h : m key = none)
    (value : β) : emplace m key value = Function.update m key (some value) := by
  unfold emplace
  rw [h]

theorem emplace_apply {α β : Type} [DecidableEq α] (m : α → Option β) (key k : α) (value : β) :
    emplace m key value k = if k = key then some ((m key).getD value) else m k := by
  unfold emplace
  cases hKey : m key with
  | none => exact Function.update_apply m key (some value) k
  | some v => grind

theorem update_eq_some_iff {α β : Type} [DecidableEq α] {m : α → Option β} {key k : α}
    {value : Option β} {v : β} : Function.update m key value k = some v ↔
      k = key ∧ value = some v ∨ k ≠ key ∧ m k = some v := by grind

/-- What the system answers while one buffer is allocated or grown: the memory still available,
the bytes a new block happens to hold, and the descriptor of a file it opens. -/
structure Os where
  memAvailable : Nat
  junk : Nat → Byte
  fd : Nat

def Os.plain (memAvailable : Nat) : Os := ⟨memAvailable, fun _ => 0, 3⟩

/-- The ways a server request ends without an answer.  The first group are the `ERR_EXIT`s, which
end the server; the second group are uses of memory that the language leaves undefined. -/
inductive Failure
  | mmapBuffer
  | growBuffer
  | commitBuffer
  | fileNotFound (path : Path)
  | descriptorNotOpen (tid : Tid) (fd : Fd)
  | locationNotFound (path : Path)
  | noClientBuffers (tid : Tid)
  | outOfBounds
  | nullPointer
  | iteratorInvalidated
  deriving DecidableEq, Repr

end Capio.Common
