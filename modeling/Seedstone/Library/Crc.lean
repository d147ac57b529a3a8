import Seedstone.Library.LittleEndian

/-!
# Reflected cyclic redundancy checks

The 32-bit register of a reflected CRC, for any polynomial.  A step is linear over
exclusive or, so a run over bytes is the register moved on over as many zero bytes,
and the run from zero on top.  Where the polynomial has its highest coefficient no
step loses anything: registers that differ go on differing, and bytes that differ
within the width of the register make registers that differ.
-/

namespace Crc

/-- One bit through the register. -/
def bit (poly crc : UInt32) : UInt32 :=
  if crc &&& 1 ≠ 0 then (crc >>> 1) ^^^ poly else crc >>> 1

/-- So many zero bytes through the register. -/
def advance (poly : UInt32) (bytes : Nat) (crc : UInt32) : UInt32 :=
  (bit poly)^[8 * bytes] crc

/-- Bytes through the register, bit by bit. -/
def run (poly crc : UInt32) (data : List UInt8) : UInt32 :=
  data.foldl (fun crc byte => advance poly 1 (crc ^^^ byte.toUInt32)) crc

variable {poly : UInt32}

theorem lowest_ne_zero_iff (crc : UInt32) : crc &&& 1 ≠ 0 ↔ crc.toNat % 2 = 1 := by
  rw [Ne, ← UInt32.toNat_inj, UInt32.toNat_and, UInt32.toNat_one, Nat.and_one_is_mod,
    UInt32.toNat_zero]
  omega

theorem bit_xor (first second : UInt32) :
    bit poly (first ^^^ second) = bit poly first ^^^ bit poly second := by
  have lowest : (first ^^^ second).toNat % 2 = first.toNat % 2 ^^^ second.toNat % 2 := by
    rw [UInt32.toNat_xor]
    exact Nat.xor_mod_two_pow (n := 1)
  unfold bit
  simp only [lowest_ne_zero_iff, lowest, UInt32.shiftRight_xor]
  rcases Nat.mod_two_eq_zero_or_one first.toNat with one | one <;>
    rcases Nat.mod_two_eq_zero_or_one second.toNat with two | two
  · simp [one, two]
  · simp [one, two, UInt32.xor_assoc]
  · simp only [one, two, if_true]
    rw [UInt32.xor_assoc, UInt32.xor_comm (second >>> 1), ← UInt32.xor_assoc]
    rfl
  · simp only [one, two, if_true]
    rw [UInt32.xor_comm (second >>> 1) poly, UInt32.xor_assoc _ poly (poly ^^^ _),
      ← UInt32.xor_assoc poly poly, UInt32.xor_self, UInt32.zero_xor]
    rfl

theorem iterate_bit_xor (count : Nat) (first second : UInt32) :
    (bit poly)^[count] (first ^^^ second) =
      (bit poly)^[count] first ^^^ (bit poly)^[count] second := by
  induction count generalizing first second with
  | zero => rfl
  | succ count induction =>
    rw [Function.iterate_succ_apply, Function.iterate_succ_apply, Function.iterate_succ_apply,
      bit_xor, induction]

theorem advance_xor (bytes : Nat) (first second : UInt32) :
    advance poly bytes (first ^^^ second) =
      advance poly bytes first ^^^ advance poly bytes second :=
  iterate_bit_xor _ first second

theorem advance_advance (first second : Nat) (crc : UInt32) :
    advance poly first (advance poly second crc) = advance poly (first + second) crc := by
  unfold advance
  rw [Nat.mul_add, Function.iterate_add_apply]

theorem toNat_iterate_bit (count : Nat) :
    ∀ {crc : UInt32}, 2 ^ count ∣ crc.toNat →
      ((bit poly)^[count] crc).toNat = crc.toNat / 2 ^ count := by
  induction count with
  | zero => simp
  | succ count induction =>
    intro crc clear
    obtain ⟨quotient, whole⟩ := clear
    rw [Nat.pow_succ, Nat.mul_assoc, Nat.mul_left_comm] at whole
    have shifted : (bit poly crc).toNat = 2 ^ count * quotient := by
      have even : ¬(crc &&& 1 ≠ 0) := by
        rw [lowest_ne_zero_iff]
        omega
      rw [bit, if_neg even, UInt32.toNat_shiftRight, Nat.shiftRight_eq_div_pow]
      change crc.toNat / 2 = _
      omega
    rw [Function.iterate_succ_apply, induction ⟨quotient, shifted⟩, shifted, whole,
      Nat.pow_succ, Nat.mul_comm (2 ^ count) 2, Nat.mul_div_mul_left _ _ (by decide)]

/-- A byte through the register: the low byte on its own, and the rest shifted down. -/
theorem advance_one (crc : UInt32) :
    advance poly 1 crc = advance poly 1 crc.toUInt8.toUInt32 ^^^ (crc >>> 8) := by
  have low : crc.toUInt8.toUInt32.toNat = crc.toNat % 2 ^ 8 := by
    rw [UInt8.toNat_toUInt32, UInt32.toNat_toUInt8]
  have high : (crc.toUInt8.toUInt32 ^^^ crc).toNat = crc.toNat / 2 ^ 8 * 2 ^ 8 := by
    have same : (crc.toUInt8.toUInt32 ^^^ crc).toNat / 2 ^ 8 = crc.toNat / 2 ^ 8 := by
      rw [UInt32.toNat_xor, Nat.xor_div_two_pow, low,
        Nat.div_eq_of_lt (Nat.mod_lt _ (by decide)), Nat.zero_xor]
    have clear : (crc.toUInt8.toUInt32 ^^^ crc).toNat % 2 ^ 8 = 0 := by
      rw [UInt32.toNat_xor, Nat.xor_mod_two_pow, low, Nat.mod_mod, Nat.xor_self]
    omega
  have rest : advance poly 1 (crc.toUInt8.toUInt32 ^^^ crc) = crc >>> 8 := by
    rw [← UInt32.toNat_inj]
    refine (toNat_iterate_bit 8 (high ▸ Nat.dvd_mul_left _ _)).trans ?_
    rw [high, Nat.mul_div_cancel _ (by decide), UInt32.toNat_shiftRight, Nat.shiftRight_eq_div_pow]
    rfl
  rw [← rest, ← advance_xor, ← UInt32.xor_assoc, UInt32.xor_self, UInt32.zero_xor]

theorem run_xor (first second : UInt32) (data : List UInt8) :
    run poly (first ^^^ second) data = advance poly data.length first ^^^ run poly second data := by
  induction data generalizing first second with
  | nil => rfl
  | cons byte rest induction =>
    simp only [run, List.foldl_cons, List.length_cons] at induction ⊢
    rw [UInt32.xor_assoc, advance_xor, induction, advance_advance]

theorem run_eq (crc : UInt32) (data : List UInt8) :
    run poly crc data = advance poly data.length crc ^^^ run poly 0 data := by
  conv_lhs => rw [← UInt32.xor_zero (a := crc), run_xor]

/-- The bytes of the register may be folded into the data ahead. -/
theorem run_folded (bytes : List UInt8) :
    ∀ crc : UInt32, crc.toNat < 256 ^ bytes.length →
      run poly 0 (List.zipWith (· ^^^ ·) bytes (LittleEndian.bytes bytes.length crc.toNat)) =
        run poly crc bytes := by
  induction bytes with
  | nil =>
    intro crc small
    have zero : crc = 0 := by
      rw [← UInt32.toNat_inj]
      exact Nat.lt_one_iff.mp small
    rw [zero]
    rfl
  | cons byte rest induction =>
    intro crc small
    have shifted : (crc >>> 8).toNat = crc.toNat / 256 := by
      rw [UInt32.toNat_shiftRight, Nat.shiftRight_eq_div_pow]
      rfl
    have later := induction (crc >>> 8) (by
      rw [shifted]
      rw [List.length_cons, Nat.pow_succ] at small
      omega)
    rw [shifted] at later
    have low : UInt8.ofNat crc.toNat = crc.toUInt8 := by
      rw [← UInt8.toNat_inj, UInt32.toNat_toUInt8, UInt8.toNat_ofNat']
    have split : advance poly 1 (crc ^^^ byte.toUInt32) =
        advance poly 1 (byte ^^^ crc.toUInt8).toUInt32 ^^^ (crc >>> 8) := by
      have gone : byte.toUInt32 >>> 8 = 0 := by
        rw [← UInt32.toNat_inj, UInt32.toNat_shiftRight, UInt8.toNat_toUInt32,
          Nat.shiftRight_eq_div_pow]
        exact Nat.div_eq_of_lt byte.toNat_lt
      rw [advance_one, UInt32.toUInt8_xor, UInt8.toUInt8_toUInt32, UInt8.xor_comm,
        UInt32.shiftRight_xor, gone, UInt32.xor_zero]
    have front : ∀ (start : UInt32) (first : UInt8) (data : List UInt8),
        run poly start (first :: data) =
          run poly (advance poly 1 (start ^^^ first.toUInt32)) data := fun _ _ _ => rfl
    rw [List.length_cons, LittleEndian.bytes, List.zipWith_cons_cons, low, front, front,
      UInt32.zero_xor, split, run_xor, run_eq, later]
    congr 2
    simp

theorem run_zeroes (count : Nat) (crc : UInt32) :
    run poly crc (List.replicate count 0) = advance poly count crc := by
  induction count generalizing crc with
  | zero => rfl
  | succ count induction =>
    rw [← advance_advance, ← induction, List.replicate_succ]
    change run poly (advance poly 1 (crc ^^^ 0)) _ = _
    rw [UInt32.xor_zero]

/-- A run over no more bytes than the register holds takes them all at once. -/
theorem run_eq_advance {data : List UInt8} (short : data.length ≤ 4) :
    run poly 0 data = advance poly data.length (UInt32.ofNat (LittleEndian.value data)) := by
  have fits : LittleEndian.value data < 256 ^ 4 :=
    Nat.lt_of_lt_of_le (LittleEndian.value_lt rfl) (Nat.pow_le_pow_right (by decide) short)
  have packed : (UInt32.ofNat (LittleEndian.value data)).toNat = LittleEndian.value data :=
    UInt32.toNat_ofNat_of_lt' fits
  have whole : List.zipWith (· ^^^ ·) (List.replicate data.length 0) data = data := by
    apply List.ext_getElem
    · simp
    · simp
  have folded : run poly 0 _ = run poly _ _ := run_folded (List.replicate data.length 0)
    (UInt32.ofNat (LittleEndian.value data))
    (by rw [packed, List.length_replicate]; exact LittleEndian.value_lt rfl)
  rw [packed, List.length_replicate, LittleEndian.bytes_value rfl, run_zeroes, whole] at folded
  exact folded

section

variable (top : 2 ^ 31 ≤ poly.toNat)
include top

theorem bit_injective : Function.Injective (bit poly) := by
  intro first second same
  rw [← UInt32.xor_eq_zero_iff] at same ⊢
  rw [← bit_xor] at same
  generalize first ^^^ second = crc at same ⊢
  have half : (crc >>> 1).toNat = crc.toNat / 2 := by
    rw [UInt32.toNat_shiftRight, Nat.shiftRight_eq_div_pow]
    rfl
  have bounded := crc.toNat_lt
  unfold bit at same
  split at same
  · rw [UInt32.xor_eq_zero_iff] at same
    rw [same] at half
    omega
  · next even =>
    rw [lowest_ne_zero_iff] at even
    rw [same, UInt32.toNat_zero] at half
    rw [← UInt32.toNat_inj, UInt32.toNat_zero]
    omega

theorem advance_injective (bytes : Nat) : Function.Injective (advance poly bytes) :=
  (bit_injective top).iterate _

theorem run_injective (data : List UInt8) : Function.Injective fun crc => run poly crc data := by
  intro first second same
  dsimp only at same
  rw [run_eq first, run_eq second, UInt32.xor_left_inj] at same
  exact advance_injective top _ same

theorem run_short {first second : List UInt8} (length : first.length = second.length)
    (short : first.length ≤ 4) (crc : UInt32) (same : run poly crc first = run poly crc second) :
    first = second := by
  rw [run_eq crc first, run_eq crc second, length, UInt32.xor_right_inj, run_eq_advance short,
    run_eq_advance (length ▸ short), length] at same
  have packed := advance_injective top _ same
  have below : ∀ data : List UInt8, data.length ≤ 4 → LittleEndian.value data < UInt32.size :=
    fun data fits =>
      Nat.lt_of_lt_of_le (LittleEndian.value_lt rfl) (Nat.pow_le_pow_right (by decide) fits)
  rw [← UInt32.toNat_inj, UInt32.toNat_ofNat_of_lt' (below first short),
    UInt32.toNat_ofNat_of_lt' (below second (length ▸ short))] at packed
  rw [← LittleEndian.bytes_value length, packed, LittleEndian.bytes_value rfl]

end

end Crc
