import Mathlib.Data.List.Induction
import Seedstone.Shard.Command

/-!
# Decimal texts

The text of a number reads back as the number, under each of the readers: the
codec's, the shards' and the one for cursors.  Only the shape of the text
matters to them: digits, at least one, and no zero in front of another.
-/

namespace Seedstone

variable {n : Nat} {text : Bytes}

theorem decimal_of_lt (small : n < 10) : decimal n = [UInt8.ofNat (48 + n)] := by
  unfold decimal
  rw [Nat.toDigits_of_lt_base small]
  have digits : ∀ digit : Fin 10, UInt8.ofNat (Nat.digitChar digit.val).toNat =
      UInt8.ofNat (48 + digit.val) := by decide
  rw [List.map_singleton]
  exact congrArg (fun byte => [byte]) (digits ⟨n, small⟩)

theorem decimal_of_ge (large : 10 ≤ n) :
    decimal n = decimal (n / 10) ++ decimal (n % 10) := by
  unfold decimal
  rw [Nat.toDigits_of_base_le (by decide) large, List.map_append,
    Nat.toDigits_of_lt_base (Nat.mod_lt n (by decide))]

theorem decimal_ne_nil (n : Nat) : decimal n ≠ [] := by
  unfold decimal
  simp

theorem isAsciiDigit_ofNat (small : n < 10) :
    isAsciiDigit (UInt8.ofNat (48 + n)) = true ∧ (UInt8.ofNat (48 + n)).toNat - 48 = n := by
  have digits : ∀ digit : Fin 10, isAsciiDigit (UInt8.ofNat (48 + digit.val)) = true ∧
      (UInt8.ofNat (48 + digit.val)).toNat - 48 = digit.val := by decide
  exact digits ⟨n, small⟩

theorem exists_of_isAsciiDigit {byte : UInt8} (digit : isAsciiDigit byte = true) :
    ∃ value < 10, byte = UInt8.ofNat (48 + value) := by
  have small : 48 ≤ byte.toNat ∧ byte.toNat ≤ 57 := by
    simpa [isAsciiDigit, UInt8.le_iff_toNat_le] using digit
  have same : 48 + (byte.toNat - 48) = byte.toNat := by omega
  exact ⟨byte.toNat - 48, by omega, by rw [same, UInt8.ofNat_toNat]⟩

theorem all_isAsciiDigit_decimal (n : Nat) : (decimal n).all isAsciiDigit = true := by
  induction n using Nat.strongRecOn with
  | ind n induction =>
    rcases Nat.lt_or_ge n 10 with small | large
    · rw [decimal_of_lt small, List.all_cons, (isAsciiDigit_ofNat small).1, List.all_nil,
        Bool.and_self]
    · rw [decimal_of_ge large, List.all_append, induction (n / 10) (by omega),
        induction (n % 10) (by omega), Bool.and_self]

theorem digitsValue_append (first second : Bytes) :
    digitsValue (first ++ second) =
      second.foldl (fun value digit => value * 10 + (digit.toNat - 48)) (digitsValue first) :=
  List.foldl_append

theorem digitsValue_decimal (n : Nat) : digitsValue (decimal n) = n := by
  induction n using Nat.strongRecOn with
  | ind n induction =>
    rcases Nat.lt_or_ge n 10 with small | large
    · rw [decimal_of_lt small]
      simp only [digitsValue, List.foldl_cons, List.foldl_nil]
      rw [(isAsciiDigit_ofNat small).2]
      omega
    · rw [decimal_of_ge large, digitsValue_append, induction (n / 10) (by omega),
        decimal_of_lt (Nat.mod_lt n (by decide))]
      simp only [List.foldl_cons, List.foldl_nil]
      rw [(isAsciiDigit_ofNat (Nat.mod_lt n (by decide))).2]
      omega

theorem head?_decimal (leading : (decimal n).head? = some 48) : n = 0 := by
  induction n using Nat.strongRecOn with
  | ind n induction =>
    rcases Nat.lt_or_ge n 10 with small | large
    · rw [decimal_of_lt small, List.head?_cons, Option.some.injEq] at leading
      have value := (isAsciiDigit_ofNat small).2
      rw [leading] at value
      exact value.symm
    · rw [decimal_of_ge large, List.head?_append_of_ne_nil _ (decimal_ne_nil _)] at leading
      have front := induction (n / 10) (by omega) leading
      omega

theorem decimal_zero : decimal 0 = [48] := by
  decide

/-- At least one digit, and nothing else. -/
structure Digits (text : Bytes) : Prop where
  filled : text ≠ []
  all : text.all isAsciiDigit = true

theorem isEmpty_or_not_all :
    (text.isEmpty || !text.all isAsciiDigit) = true ↔ ¬ Digits text := by
  constructor
  · rintro bare ⟨filled, all⟩
    simp [filled, all] at bare
  · intro bare
    by_contra shaped
    rw [Bool.not_eq_true, Bool.or_eq_false_iff, Bool.not_eq_false'] at shaped
    exact bare ⟨List.isEmpty_eq_false_iff.mp shaped.1, shaped.2⟩

theorem digits_decimal (n : Nat) : Digits (decimal n) :=
  ⟨decimal_ne_nil n, all_isAsciiDigit_decimal n⟩

/-- No digits start with a sign. -/
theorem Digits.unsigned {rest : Bytes} {sign : UInt8} (digits : Digits text)
    (other : isAsciiDigit sign = false) : text ≠ sign :: rest := by
  rintro rfl
  have all := digits.all
  rw [List.all_cons, other] at all
  cases all

/-- Digits that no zero leads are the text of their value. -/
theorem decimal_digitsValue (digits : Digits text) (leads : text.head? ≠ some 48) :
    0 < digitsValue text ∧ decimal (digitsValue text) = text := by
  obtain ⟨filled, all⟩ := digits
  induction text using List.reverseRecOn with
  | nil => exact absurd rfl filled
  | append_singleton front last induction =>
    rw [List.all_append, Bool.and_eq_true, List.all_cons, List.all_nil, Bool.and_true] at all
    obtain ⟨others, digit⟩ := all
    obtain ⟨value, small, rfl⟩ := exists_of_isAsciiDigit digit
    have unit := (isAsciiDigit_ofNat small).2
    rw [digitsValue_append, List.foldl_cons, List.foldl_nil, unit]
    cases front with
    | nil =>
      have positive : value ≠ 0 := by
        rintro rfl
        exact leads rfl
      rw [digitsValue, List.foldl_nil, Nat.zero_mul, Nat.zero_add, decimal_of_lt small]
      exact ⟨by omega, rfl⟩
    | cons first rest =>
      obtain ⟨positive, same⟩ := induction leads (List.cons_ne_nil _ _) others
      have tens : (digitsValue (first :: rest) * 10 + value) / 10 =
        digitsValue (first :: rest) := by omega
      have ones : (digitsValue (first :: rest) * 10 + value) % 10 = value := by omega
      rw [decimal_of_ge (by omega), tens, ones, same, decimal_of_lt small]
      exact ⟨by omega, rfl⟩

theorem parseI64_i64Text {n : Int} (inside : inI64 n = true) : parseI64 (i64Text n) = some n := by
  have digits := digits_decimal n.natAbs
  have shaped := not_not.mpr digits ∘ isEmpty_or_not_all.mp
  unfold i64Text
  by_cases sign : n < 0
  · have value : -(n.natAbs : Int) = n := by omega
    rw [if_pos sign]
    simp only [parseI64, digitsValue_decimal, if_neg shaped, value, inside, if_true]
    rw [if_neg]
    rintro ⟨leads, -⟩
    have := head?_decimal leads
    omega
  · have value : (n.natAbs : Int) = n := by omega
    rw [if_neg sign]
    unfold parseI64
    split
    next negative text spelled =>
      split at spelled
      · next signed => exact absurd signed (digits.unsigned (by decide))
      · cases spelled
        simp only [digitsValue_decimal, if_neg shaped, value, inside, if_true, if_false,
          Bool.false_eq_true]
        rw [if_neg]
        rintro ⟨leads, long | negative⟩
        · rw [head?_decimal leads, decimal_zero] at long
          simp at long
        · cases negative

theorem i64Text_of_parseI64 {bytes : Bytes} {n : Int} (read : parseI64 bytes = some n) :
    inI64 n = true ∧ i64Text n = bytes := by
  unfold parseI64 at read
  split at read
  next negative digits spelled =>
    split at read
    · cases read
    · next shaped =>
        have shaped := not_not.mp (mt isEmpty_or_not_all.mpr shaped)
        split at read
        · cases read
        · next leads =>
            obtain ⟨inside, same⟩ := Option.ite_none_right_eq_some.mp read
            cases same
            refine ⟨inside, ?_⟩
            split at spelled
            · cases spelled
              obtain ⟨positive, same⟩ := decimal_digitsValue shaped fun zero => leads ⟨zero,
                .inr rfl⟩
              have below : -(digitsValue digits : Int) < 0 := by omega
              rw [if_pos rfl, i64Text, if_pos below, Int.natAbs_neg, Int.natAbs_natCast, same]
            · cases spelled
              have above : ¬ (digitsValue bytes : Int) < 0 := by omega
              rw [if_neg Bool.false_ne_true, i64Text, if_neg above, Int.natAbs_natCast]
              by_cases zero : bytes.head? = some 48
              · obtain ⟨rest, rfl⟩ := List.head?_eq_some_iff.mp zero
                cases rest with
                | nil => exact decimal_zero
                | cons => exact absurd ⟨zero, .inl (by simp)⟩ leads
              · exact (decimal_digitsValue shaped zero).2

end Seedstone
