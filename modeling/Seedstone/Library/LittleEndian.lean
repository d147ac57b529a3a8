import Mathlib.Tactic.Ring

/-!
# Little-endian numbers

A number as bytes, the least significant first, in a given width.
-/

namespace LittleEndian

def bytes : Nat → Nat → List UInt8
  | 0, _ => []
  | width + 1, number => UInt8.ofNat number :: bytes width (number / 256)

def value : List UInt8 → Nat
  | [] => 0
  | byte :: rest => byte.toNat + 256 * value rest

@[simp]
theorem length_bytes (width number : Nat) : (bytes width number).length = width := by
  induction width generalizing number with
  | zero => rfl
  | succ width induction => rw [bytes, List.length_cons, induction]

@[simp]
theorem drop_bytes {width count : Nat} (past : width ≤ count) (number : Nat) :
    (bytes width number).drop count = [] :=
  List.drop_of_length_le (by rwa [length_bytes])

theorem value_bytes {width number : Nat} (fits : number < 256 ^ width) :
    value (bytes width number) = number := by
  induction width generalizing number with
  | zero =>
    rw [Nat.pow_zero] at fits
    rw [bytes, value]
    omega
  | succ width induction =>
    have rest : number / 256 < 256 ^ width := by
      rw [Nat.div_lt_iff_lt_mul (by omega)]
      rwa [Nat.pow_succ] at fits
    have low : (UInt8.ofNat number).toNat = number % 256 := by simp
    rw [bytes, value, induction rest, low]
    omega

theorem value_lt {digits : List UInt8} {width : Nat} (length : digits.length = width) :
    value digits < 256 ^ width := by
  subst length
  induction digits with
  | nil => decide
  | cons byte rest induction =>
    have small := byte.toNat_lt
    rw [value, List.length_cons, Nat.pow_succ]
    omega

theorem bytes_value {digits : List UInt8} {width : Nat} (length : digits.length = width) :
    bytes width (value digits) = digits := by
  subst length
  induction digits with
  | nil => rfl
  | cons byte rest induction =>
    have small := byte.toNat_lt
    have low : UInt8.ofNat (byte.toNat + 256 * value rest) = byte := by
      rw [← UInt8.toNat_inj, UInt8.toNat_ofNat']
      omega
    have high : (byte.toNat + 256 * value rest) / 256 = value rest := by omega
    rw [List.length_cons, value, bytes, low, high, induction]

end LittleEndian
