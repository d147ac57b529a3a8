import Mathlib.Data.Nat.Bitwise
import Mathlib.Tactic.Ring

/-!
# Counting in reverse binary order

A walk over the buckets of a table whose size is a power of two may count its
cursor with the carry running from the high bit downwards.  The `rank` of a
word is the number its reversed bits spell.  A cursor under a mask of `bits`
ones stands for the words whose rank lies in one interval of `2 ^ (w - bits)`
numbers, and an increment moves to the next interval, so that the intervals of
a larger table refine those of a smaller one.
-/

namespace ReverseBinary

variable {w bits : Nat} {cursor : BitVec w}

/-- The number spelled by a word's bits, lowest bit first. -/
def rank (word : BitVec w) : Nat :=
  word.reverse.toNat

/-- A run of `bits` low ones. -/
def lowMask (w bits : Nat) : BitVec w :=
  BitVec.ofNat w (2 ^ bits - 1)

/-- One step in reverse binary order: the bits outside the mask are set, so the
carry of the reversed word runs into the masked region. -/
def increment (cursor mask : BitVec w) : BitVec w :=
  ((cursor ||| ~~~mask).reverse + 1).reverse

theorem rank_lt (word : BitVec w) : rank word < 2 ^ w :=
  word.reverse.isLt

theorem testBit_rank (word : BitVec w) (index : Nat) :
    (rank word).testBit index = (decide (index < w) && word.getLsbD (w - 1 - index)) := by
  unfold rank
  rw [BitVec.testBit_toNat, BitVec.getLsbD_reverse, BitVec.getMsbD_eq_getLsbD]

theorem getLsbD_eq_testBit_rank {index : Nat} (below : index < w) (word : BitVec w) :
    word.getLsbD index = (rank word).testBit (w - 1 - index) := by
  rw [testBit_rank]
  have inside : w - 1 - index < w := by omega
  have back : w - 1 - (w - 1 - index) = index := by omega
  simp [inside, back]

theorem rank_eq_zero_iff (word : BitVec w) : rank word = 0 ↔ word = 0 := by
  unfold rank
  constructor
  · intro zero
    have reversed : word.reverse = 0#w := by
      apply BitVec.eq_of_toNat_eq
      simpa using zero
    exact BitVec.reverse_eq_zero_iff.mp reversed
  · intro zero
    have reversed : word.reverse = 0#w := BitVec.reverse_eq_zero_iff.mpr zero
    simp [reversed]

theorem getLsbD_lowMask (index : Nat) :
    (lowMask w bits).getLsbD index = (decide (index < w) && decide (index < bits)) := by
  unfold lowMask
  rw [BitVec.getLsbD_ofNat, Nat.testBit_two_pow_sub_one]

section

variable (fits : bits ≤ w)

include fits

/-- A word that fits `bits` bits is one whose rank is a multiple of the size of
that table's intervals. -/
theorem lt_two_pow_iff_rank_mod (word : BitVec w) :
    word.toNat < 2 ^ bits ↔ rank word % 2 ^ (w - bits) = 0 := by
  constructor
  · intro below
    apply Nat.eq_of_testBit_eq
    intro index
    rw [Nat.testBit_mod_two_pow, testBit_rank, Nat.zero_testBit]
    by_cases low : index < w - bits
    · have high : word.getLsbD (w - 1 - index) = false := by
        rw [← BitVec.testBit_toNat]
        apply Nat.testBit_lt_two_pow
        exact lt_of_lt_of_le below (Nat.pow_le_pow_right (by omega) (by omega))
      simp [high]
    · simp [low]
  · intro aligned
    apply Nat.lt_pow_two_of_testBit
    intro index outside
    by_cases inside : index < w
    · rw [BitVec.testBit_toNat, getLsbD_eq_testBit_rank inside]
      have cleared : (rank word % 2 ^ (w - bits)).testBit (w - 1 - index) = false := by
        rw [aligned, Nat.zero_testBit]
      rw [Nat.testBit_mod_two_pow] at cleared
      have low : w - 1 - index < w - bits := by omega
      simpa [low] using cleared
    · rw [BitVec.testBit_toNat]
      exact BitVec.getLsbD_of_ge word index (by omega)

variable (below : cursor.toNat < 2 ^ bits)

include below

/-- Setting every bit outside the mask fills the interval the cursor opens. -/
theorem rank_widened :
    rank (cursor ||| ~~~(lowMask w bits)) = rank cursor + (2 ^ (w - bits) - 1) := by
  have aligned := (lt_two_pow_iff_rank_mod fits cursor).mp below
  have split : rank cursor = 2 ^ (w - bits) * (rank cursor / 2 ^ (w - bits)) := by
    have division := Nat.div_add_mod (rank cursor) (2 ^ (w - bits))
    omega
  have positive : 0 < 2 ^ (w - bits) := Nat.two_pow_pos _
  rw [split, Nat.two_pow_add_eq_or_of_lt (by omega), ← split]
  apply Nat.eq_of_testBit_eq
  intro index
  rw [Nat.testBit_or, testBit_rank, testBit_rank, Nat.testBit_two_pow_sub_one,
    BitVec.getLsbD_or, BitVec.getLsbD_not, getLsbD_lowMask]
  by_cases inside : index < w
  · have reflected : w - 1 - index < w := by omega
    by_cases low : index < w - bits
    · have high : ¬ w - 1 - index < bits := by omega
      simp [inside, reflected, low, high]
    · have high : w - 1 - index < bits := by omega
      simp [inside, reflected, low, high]
  · have outside : ¬ index < w - bits := by omega
    simp [inside, outside]

theorem rank_increment_eq :
    rank (increment cursor (lowMask w bits)) = (rank cursor + 2 ^ (w - bits)) % 2 ^ w := by
  have widened := rank_widened fits below
  have positive : 0 < 2 ^ (w - bits) := Nat.two_pow_pos _
  unfold rank at widened
  unfold increment
  unfold rank
  rw [BitVec.reverse_reverse_eq, BitVec.toNat_add, widened]
  have sum :
      cursor.reverse.toNat + (2 ^ (w - bits) - 1) + 1 =
        cursor.reverse.toNat + 2 ^ (w - bits) := by omega
  cases w with
  | zero => simp [Nat.mod_one]
  | succ width =>
    have one : (1 : BitVec (width + 1)).toNat = 1 := by simp
    rw [one, sum]

theorem rank_add_le : rank cursor + 2 ^ (w - bits) ≤ 2 ^ w := by
  have aligned := (lt_two_pow_iff_rank_mod fits cursor).mp below
  have bound := rank_lt cursor
  have whole : 2 ^ w = 2 ^ (w - bits) * 2 ^ bits := by
    rw [← pow_add]
    congr 1
    omega
  have split : rank cursor = 2 ^ (w - bits) * (rank cursor / 2 ^ (w - bits)) := by
    have division := Nat.div_add_mod (rank cursor) (2 ^ (w - bits))
    omega
  rw [split, whole] at bound
  have quotient : rank cursor / 2 ^ (w - bits) < 2 ^ bits := Nat.lt_of_mul_lt_mul_left bound
  rw [split, whole, ← Nat.mul_succ]
  exact Nat.mul_le_mul_left _ quotient

theorem rank_increment_cases :
    (rank (increment cursor (lowMask w bits)) = rank cursor + 2 ^ (w - bits)) ∨
      (increment cursor (lowMask w bits) = 0 ∧ rank cursor + 2 ^ (w - bits) = 2 ^ w) := by
  have next := rank_increment_eq fits below
  rcases Nat.lt_or_eq_of_le (rank_add_le fits below) with inside | whole
  · left
    rw [next, Nat.mod_eq_of_lt inside]
  · right
    refine ⟨?_, whole⟩
    rw [← rank_eq_zero_iff, next, whole, Nat.mod_self]

theorem increment_lt : (increment cursor (lowMask w bits)).toNat < 2 ^ bits := by
  rw [lt_two_pow_iff_rank_mod fits]
  have aligned := (lt_two_pow_iff_rank_mod fits cursor).mp below
  rcases rank_increment_cases fits below with next | ⟨zero, -⟩
  · rw [next, Nat.add_mod_right, aligned]
  · rw [zero, (rank_eq_zero_iff _).mpr rfl, Nat.zero_mod]

end

theorem and_mask_or_not (cursor mask : BitVec w) :
    cursor &&& mask ||| ~~~mask = cursor ||| ~~~mask := by
  apply BitVec.eq_of_getLsbD_eq
  intro index inside
  simp only [BitVec.getLsbD_or, BitVec.getLsbD_and, BitVec.getLsbD_not, inside]
  cases cursor.getLsbD index <;> cases mask.getLsbD index <;> rfl

theorem increment_and_mask (cursor mask : BitVec w) :
    increment (cursor &&& mask) mask = increment cursor mask := by
  unfold increment
  rw [and_mask_or_not]

theorem and_lowMask_lt (fits : bits ≤ w) (cursor : BitVec w) :
    (cursor &&& lowMask w bits).toNat < 2 ^ bits := by
  have positive : 0 < 2 ^ bits := Nat.two_pow_pos bits
  have mask : (lowMask w bits).toNat = 2 ^ bits - 1 := by
    unfold lowMask
    rw [BitVec.toNat_ofNat, Nat.mod_eq_of_lt]
    have bound : 2 ^ bits ≤ 2 ^ w := Nat.pow_le_pow_right (by omega) fits
    omega
  have below : cursor.toNat &&& (2 ^ bits - 1) ≤ 2 ^ bits - 1 := Nat.and_le_right
  rw [BitVec.toNat_and, mask]
  omega

theorem increment_lt_two_pow (fits : bits ≤ w) (cursor : BitVec w) :
    (increment cursor (lowMask w bits)).toNat < 2 ^ bits := by
  rw [← increment_and_mask]
  exact increment_lt fits (and_lowMask_lt fits cursor)

/-- Wherever a cursor comes from, its increment ranks above it or ends the cycle. -/
theorem rank_lt_rank_increment (fits : bits ≤ w) (cursor : BitVec w) :
    increment cursor (lowMask w bits) = 0 ∨
      rank cursor < rank (increment cursor (lowMask w bits)) := by
  have below := and_lowMask_lt fits cursor
  have widened := rank_widened fits below
  have positive : 0 < 2 ^ (w - bits) := Nat.two_pow_pos _
  have inside : rank cursor ≤ rank (cursor &&& lowMask w bits ||| ~~~(lowMask w bits)) := by
    have split : rank (cursor ||| ~~~(lowMask w bits)) =
        rank cursor ||| rank (~~~(lowMask w bits)) := by
      apply Nat.eq_of_testBit_eq
      intro index
      rw [Nat.testBit_or, testBit_rank, testBit_rank, testBit_rank, BitVec.getLsbD_or]
      cases decide (index < w) <;> simp
    rw [and_mask_or_not, split]
    exact Nat.left_le_or
  rw [← increment_and_mask]
  rcases rank_increment_cases fits below with next | ⟨zero, -⟩
  · right
    omega
  · left
    exact zero

/-- The words of a cursor's interval are those the mask sends to the cursor. -/
theorem and_lowMask_eq_of_rank (fits : bits ≤ w) {word : BitVec w}
    (below : cursor.toNat < 2 ^ bits) (lower : rank cursor ≤ rank word)
    (upper : rank word < rank cursor + 2 ^ (w - bits)) : word &&& lowMask w bits = cursor := by
  have aligned := (lt_two_pow_iff_rank_mod fits cursor).mp below
  have positive : 0 < 2 ^ (w - bits) := Nat.two_pow_pos _
  have quotients : rank word / 2 ^ (w - bits) = rank cursor / 2 ^ (w - bits) := by
    have division := Nat.div_add_mod (rank cursor) (2 ^ (w - bits))
    rw [aligned, Nat.add_zero] at division
    apply Nat.div_eq_of_lt_le
    · rw [Nat.mul_comm]
      omega
    · rw [Nat.succ_mul, Nat.mul_comm]
      omega
  apply BitVec.eq_of_getLsbD_eq
  intro index inside
  rw [BitVec.getLsbD_and, getLsbD_lowMask]
  by_cases low : index < bits
  · have same := congrArg (fun number => number.testBit (bits - 1 - index)) quotients
    simp only [Nat.testBit_div_two_pow] at same
    have position : w - bits + (bits - 1 - index) = w - 1 - index := by omega
    have position' : bits - 1 - index + (w - bits) = w - 1 - index := by omega
    rw [getLsbD_eq_testBit_rank inside, getLsbD_eq_testBit_rank inside]
    simp only [position'] at same
    simp [low, inside, same]
  · have high : cursor.getLsbD index = false := by
      rw [← BitVec.testBit_toNat]
      apply Nat.testBit_lt_two_pow
      exact lt_of_lt_of_le below (Nat.pow_le_pow_right (by omega) (by omega))
    simp [low, high]

theorem rank_and_lowMask (fits : bits ≤ w) (word : BitVec w) :
    rank (word &&& lowMask w bits) ≤ rank word ∧
      rank word < rank (word &&& lowMask w bits) + 2 ^ (w - bits) := by
  have aligned := (lt_two_pow_iff_rank_mod fits _).mp (and_lowMask_lt fits word)
  have quotients : rank word / 2 ^ (w - bits) =
      rank (word &&& lowMask w bits) / 2 ^ (w - bits) := by
    apply Nat.eq_of_testBit_eq
    intro index
    rw [Nat.testBit_div_two_pow, Nat.testBit_div_two_pow, testBit_rank, testBit_rank,
      BitVec.getLsbD_and, getLsbD_lowMask]
    by_cases inside : index + (w - bits) < w
    · have low : w - 1 - (index + (w - bits)) < bits := by omega
      have below : w - 1 - (index + (w - bits)) < w := by omega
      simp [low, below]
    · simp [inside]
  have division := Nat.div_add_mod (rank word) (2 ^ (w - bits))
  have division' := Nat.div_add_mod (rank (word &&& lowMask w bits)) (2 ^ (w - bits))
  have remainder := Nat.mod_lt (rank word) (Nat.two_pow_pos (w - bits))
  rw [quotients] at division
  omega

theorem rank_injective {first second : BitVec w}
    (same : rank first = rank second) : first = second := by
  have reversed : first.reverse = second.reverse := BitVec.eq_of_toNat_eq same
  rw [← BitVec.reverse_reverse_eq (x := first), reversed, BitVec.reverse_reverse_eq]

theorem and_lowMask_xor_eq_zero_iff {bits : Nat} (inside : bits < w) (word : BitVec w) :
    word &&& (lowMask w bits ^^^ lowMask w (bits + 1)) = 0 ↔ word.getLsbD bits = false := by
  constructor
  · intro zero
    have bit := congrArg (fun value => BitVec.getLsbD value bits) zero
    simp only [BitVec.getLsbD_and, BitVec.getLsbD_xor, getLsbD_lowMask] at bit
    simpa [inside] using bit
  · intro clear
    apply BitVec.eq_of_getLsbD_eq
    intro index below
    rw [BitVec.getLsbD_and, BitVec.getLsbD_xor, getLsbD_lowMask, getLsbD_lowMask]
    by_cases same : index = bits
    · subst index
      simp [clear]
    · have agree : index < bits ↔ index < bits + 1 := by omega
      simp [agree]

theorem getLsbD_eq_false_iff_lt {bits : Nat} {word : BitVec w}
    (below : word.toNat < 2 ^ (bits + 1)) :
    word.getLsbD bits = false ↔ word.toNat < 2 ^ bits := by
  rw [← BitVec.testBit_toNat]
  constructor
  · intro clear
    apply Nat.lt_pow_two_of_testBit
    intro index above
    rcases Nat.lt_or_eq_of_le above with higher | same
    · apply Nat.testBit_lt_two_pow
      exact lt_of_lt_of_le below (Nat.pow_le_pow_right (by omega) higher)
    · rw [← same]
      exact clear
  · exact Nat.testBit_lt_two_pow

section Doubled

variable {bits : Nat} {cursor : BitVec w}

theorem rank_increment_half (inside : bits < w) (below : cursor.toNat < 2 ^ bits) :
    rank (increment cursor (lowMask w (bits + 1))) = rank cursor + 2 ^ (w - (bits + 1)) := by
  have larger : cursor.toNat < 2 ^ (bits + 1) :=
    lt_trans below (Nat.pow_lt_pow_right (by omega) (by omega))
  have room := rank_add_le (Nat.le_of_lt inside) below
  have halves : 2 ^ (w - bits) = 2 ^ (w - (bits + 1)) + 2 ^ (w - (bits + 1)) := by
    rw [← Nat.two_mul, ← pow_succ']
    congr 1
    omega
  have positive : 0 < 2 ^ (w - (bits + 1)) := Nat.two_pow_pos _
  rcases rank_increment_cases (Nat.succ_le_of_lt inside) larger with next | ⟨-, whole⟩
  · exact next
  · rw [Nat.succ_eq_add_one] at whole
    omega

theorem increment_half_lt (inside : bits < w) (below : cursor.toNat < 2 ^ bits) :
    (increment cursor (lowMask w (bits + 1))).toNat < 2 ^ (bits + 1) := by
  apply increment_lt inside
  exact lt_trans below (Nat.pow_lt_pow_right (by omega) (by omega))

theorem getLsbD_increment_half (inside : bits < w) (below : cursor.toNat < 2 ^ bits) :
    (increment cursor (lowMask w (bits + 1))).getLsbD bits = true := by
  rw [← Bool.not_eq_false]
  intro clear
  rw [getLsbD_eq_false_iff_lt (increment_half_lt inside below),
    lt_two_pow_iff_rank_mod (Nat.le_of_lt inside), rank_increment_half inside below] at clear
  have aligned := (lt_two_pow_iff_rank_mod (Nat.le_of_lt inside) cursor).mp below
  have smaller : 2 ^ (w - (bits + 1)) < 2 ^ (w - bits) := Nat.pow_lt_pow_right (by omega) (by omega)
  have positive : 0 < 2 ^ (w - (bits + 1)) := Nat.two_pow_pos _
  rw [Nat.add_mod, aligned, Nat.zero_add, Nat.mod_mod, Nat.mod_eq_of_lt smaller] at clear
  omega

/-- From a word with the bit the doubling added, one step under the larger mask
makes one under the smaller. -/
theorem increment_of_bit (bit : cursor.getLsbD bits = true) :
    increment cursor (lowMask w (bits + 1)) = increment cursor (lowMask w bits) := by
  have widened : cursor ||| ~~~(lowMask w (bits + 1)) = cursor ||| ~~~(lowMask w bits) := by
    apply BitVec.eq_of_getLsbD_eq
    intro index below
    simp only [BitVec.getLsbD_or, BitVec.getLsbD_not, getLsbD_lowMask, below]
    by_cases same : index = bits
    · rw [same, bit]
      rfl
    · have agree : index < bits ↔ index < bits + 1 := by omega
      simp [agree]
  unfold increment
  rw [widened]

theorem increment_twice (inside : bits < w) (below : cursor.toNat < 2 ^ bits) :
    increment (increment cursor (lowMask w (bits + 1))) (lowMask w (bits + 1)) =
      increment cursor (lowMask w bits) := by
  apply rank_injective
  have halves : 2 ^ (w - bits) = 2 ^ (w - (bits + 1)) + 2 ^ (w - (bits + 1)) := by
    rw [← Nat.two_mul, ← pow_succ']
    congr 1
    omega
  rw [rank_increment_eq inside (increment_half_lt inside below),
    rank_increment_eq (Nat.le_of_lt inside) below,
    rank_increment_half inside below, halves, Nat.add_assoc]

end Doubled

end ReverseBinary
