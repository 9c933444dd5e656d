import Mathlib.Data.List.Induction

/-! # Numbers as a fixed number of bytes, the most significant byte first -/
namespace Capio.Lib.BigEndian

def bound : Nat → Nat
  | 0 => 1
  | k + 1 => bound k * 256

theorem bound_mono {k l : Nat} (hLe : k ≤ l) : bound k ≤ bound l := by
  induction hLe with
  | refl => exact Nat.le_refl _
  | step _ ih => exact Nat.le_trans ih (Nat.le_mul_of_pos_right _ (by decide))

def encode : Nat → Nat → List UInt8
  | 0, _ => []
  | k + 1, value => encode k (value / 256) ++ [UInt8.ofNat value]

def decode (bytes : List UInt8) : Nat :=
  bytes.foldl (fun value byte => value * 256 + byte.toNat) 0

@[simp] theorem length_encode (k value : Nat) : (encode k value).length = k := by
  induction k generalizing value with
  | zero => rfl
  | succ k ih => simp [encode, ih]

theorem decode_append_singleton (bytes : List UInt8) (byte : UInt8) :
    decode (bytes ++ [byte]) = decode bytes * 256 + byte.toNat := by
  simp [decode]

theorem decode_lt (bytes : List UInt8) : decode bytes < bound bytes.length := by
  induction bytes using List.reverseRecOn with
  | nil => decide
  | append_singleton bytes byte ih =>
      have hByte := byte.toNat_lt
      rw [decode_append_singleton]
      simp only [List.length_append, List.length_singleton, bound]
      omega

theorem decode_encode {k value : Nat} (hValue : value < bound k) : decode (encode k value) = value := by
  induction k generalizing value with
  | zero =>
      simp only [bound] at hValue
      obtain rfl : value = 0 := by omega
      rfl
  | succ k ih =>
      simp only [bound] at hValue
      have hRest : value / 256 < bound k := by omega
      have hLast : (UInt8.ofNat value).toNat = value % 256 := by simp
      rw [encode, decode_append_singleton, ih hRest, hLast]
      omega

theorem encode_decode (bytes : List UInt8) : encode bytes.length (decode bytes) = bytes := by
  induction bytes using List.reverseRecOn with
  | nil => rfl
  | append_singleton bytes byte ih =>
      have hByte := byte.toNat_lt
      have hRest : (decode bytes * 256 + byte.toNat) / 256 = decode bytes := by omega
      have hLast : UInt8.ofNat (decode bytes * 256 + byte.toNat) = byte := by simp
      rw [decode_append_singleton, List.length_append, List.length_singleton, encode, hRest, hLast, ih]

end Capio.Lib.BigEndian
