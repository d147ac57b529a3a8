import Seedstone.Log.Names
import Mathlib.Algebra.Group.Nat.Defs
import Mathlib.Data.List.Induction

/-!
# The names as an index of the log

What the parsers of the file names accept against what the writers produce.
`from_str_radix` takes upper-case digits and a leading plus sign, so a name of the
right shape that holds one is read as a file it is not the name of.
-/

namespace Seedstone

variable {width number : Nat} {text : Bytes} {first second : Nat} {name : Bytes}

/-- The number a text of hexadecimal digits stands for. -/
def hexNumber (text : Bytes) : Option Nat :=
  text.foldlM (fun number byte => (hexValue byte).map (number * 16 + ·)) 0

/-- A hexadecimal digit in either case. -/
def IsHexDigit (byte : UInt8) : Prop :=
  48 ≤ byte ∧ byte ≤ 57 ∨ 65 ≤ byte ∧ byte ≤ 70 ∨ 97 ≤ byte ∧ byte ≤ 102

/-- What a reader takes and the writer never gives: an upper-case digit, and the plus
sign. -/
def Foreign (byte : UInt8) : Prop :=
  65 ≤ byte ∧ byte ≤ 70 ∨ byte = 43

instance (byte : UInt8) : Decidable (IsHexDigit byte) :=
  inferInstanceAs (Decidable (_ ∨ _))

instance (byte : UInt8) : Decidable (Foreign byte) :=
  inferInstanceAs (Decidable (_ ∨ _))

/-- A field of digits, behind a plus sign at most. -/
def HexField (text : Bytes) : Prop :=
  ∃ digits ≠ [], (text = digits ∨ text = 43 :: digits) ∧ ∀ byte ∈ digits, IsHexDigit byte

/-- A segment's name but for an upper-case digit. -/
def ForeignSegment (name : Bytes) : Prop :=
  ∃ first second : Bytes, name = first ++ dash :: second ++ segSuffix ∧ first.length = 16 ∧
    second.length = 8 ∧ (∀ byte ∈ first ++ second, IsHexDigit byte) ∧
      ∃ byte ∈ first ++ second, 65 ≤ byte ∧ byte ≤ 70

/-- A snapshot's name but for an upper-case digit or a sign before a field. -/
def ForeignSnapshot (name : Bytes) : Prop :=
  ∃ first second third : Bytes, name = first ++ dash :: second ++ dash :: third ++ snapSuffix ∧
    first.length = 16 ∧ second.length = 4 ∧ third.length = 8 ∧
      (∀ field ∈ [first, second, third], HexField field) ∧
        ∃ byte ∈ first ++ second ++ third, Foreign byte

theorem hexValue_hexDigit {digit : Nat} (small : digit < 16) :
    hexValue (hexDigit digit) = some digit := by
  have all : ∀ digit : Fin 16, hexValue (hexDigit digit) = some digit.val := by decide
  exact all ⟨digit, small⟩

theorem hexDigit_lt (small : first < 16) (other : second < 16) :
    hexDigit first < hexDigit second ↔ first < second := by
  have all : ∀ first second : Fin 16,
      hexDigit first < hexDigit second ↔ first.val < second.val := by decide
  exact all ⟨first, small⟩ ⟨second, other⟩

theorem hexValue_byte (byte : UInt8) : (hexValue byte ≠ none ↔ IsHexDigit byte) ∧
    (¬ Foreign byte → ∀ digit ∈ hexValue byte, digit < 16 ∧ byte = hexDigit digit) := by
  have all : ∀ byte : Fin 256, (hexValue (.ofNat byte) ≠ none ↔ IsHexDigit (.ofNat byte)) ∧
      (¬ Foreign (.ofNat byte) → ∀ digit ∈ hexValue (.ofNat byte),
        digit < 16 ∧ UInt8.ofNat byte = hexDigit digit) := by decide +kernel
  simpa using all ⟨byte.toNat, byte.toNat_lt⟩

@[simp]
theorem hex_length (width number : Nat) : (hex width number).length = width := by
  induction width generalizing number with
  | zero => rfl
  | succ width induction => simp [hex, induction]

theorem hex_plain :
    ∀ byte ∈ hex width number, ¬ Foreign byte ∧ IsHexDigit byte := by
  intro byte member
  have all : ∀ digit : Fin 16, ¬ Foreign (hexDigit digit) ∧ IsHexDigit (hexDigit digit) := by
    decide
  induction width generalizing number with
  | zero => simp [hex] at member
  | succ width induction =>
    rcases List.mem_append.mp member with earlier | last
    · exact induction earlier
    · rw [List.mem_singleton.mp last]
      exact all ⟨number % 16, Nat.mod_lt _ (by decide)⟩

theorem hex_native : ∀ byte ∈ hex width number, ¬ Foreign byte :=
  fun byte member => (hex_plain byte member).1

theorem hexNumber_append (digits : Bytes) (last : UInt8) :
    hexNumber (digits ++ [last]) = (hexNumber digits).bind fun number =>
      (hexValue last).map (number * 16 + ·) := by
  unfold hexNumber
  rw [List.foldlM_append]
  cases digits.foldlM (fun number byte => (hexValue byte).map (number * 16 + ·)) 0 <;> simp

theorem hexNumber_hex (fits : number < 16 ^ width) :
    hexNumber (hex width number) = some number := by
  induction width generalizing number with
  | zero =>
    obtain rfl : number = 0 := by simpa using fits
    rfl
  | succ width induction =>
    have smaller : number / 16 < 16 ^ width := by
      rw [Nat.pow_succ] at fits
      omega
    rw [hex, hexNumber_append, induction smaller, hexValue_hexDigit (Nat.mod_lt _ (by decide))]
    simp only [Option.bind_some, Option.map_some]
    congr 1
    omega

/-- Digits the writer may give are the ones the writer gives the number they stand for. -/
theorem eq_hex (read : hexNumber text = some number) (plain : ∀ byte ∈ text, ¬ Foreign byte) :
    number < 16 ^ text.length ∧ text = hex text.length number := by
  induction text using List.reverseRecOn generalizing number with
  | nil =>
    obtain rfl : 0 = number := Option.some.inj read
    exact ⟨by decide, rfl⟩
  | append_singleton digits last induction =>
    rw [hexNumber_append, Option.bind_eq_some_iff] at read
    obtain ⟨front, readFront, readLast⟩ := read
    obtain ⟨digit, readDigit, rfl⟩ := Option.map_eq_some_iff.mp readLast
    obtain ⟨fits, written⟩ := induction readFront
      (fun byte member => plain byte (List.mem_append_left _ member))
    obtain ⟨small, isDigit⟩ := (hexValue_byte last).2 (plain last (by simp)) digit readDigit
    rw [List.length_append, List.length_singleton]
    refine ⟨by rw [Nat.pow_succ]; omega, ?_⟩
    rw [hex, show (front * 16 + digit) / 16 = front by omega,
      show (front * 16 + digit) % 16 = digit by omega, ← written, ← isDigit]

theorem fromStrRadix_eq (plain : ∀ byte ∈ text, ¬ Foreign byte)
    (nonempty : 0 < text.length) : fromStrRadix text = hexNumber text := by
  unfold fromStrRadix hexNumber
  cases text with
  | nil => simp at nonempty
  | cons byte rest =>
    have unsigned : byte ≠ 43 := fun same => plain byte (by simp) (Or.inr same)
    simp [unsigned]

theorem hexNumber_ne_none : hexNumber text ≠ none ↔ ∀ byte ∈ text, IsHexDigit byte := by
  induction text using List.reverseRecOn with
  | nil => simp [hexNumber]
  | append_singleton digits last induction =>
    rw [hexNumber_append, List.forall_mem_append, ← induction, List.forall_mem_singleton,
      ← (hexValue_byte last).1]
    cases hexNumber digits <;> simp

theorem fromStrRadix_ne_none : fromStrRadix text ≠ none ↔ HexField text := by
  cases text with
  | nil => simp [fromStrRadix, HexField]
  | cons byte rest =>
    by_cases signed : byte = 43 ∧ rest ≠ []
    · obtain ⟨rfl, filled⟩ := signed
      have read : fromStrRadix (43 :: rest) = hexNumber rest := by
        simp [fromStrRadix, hexNumber, filled, List.length_pos_iff]
      rw [read, hexNumber_ne_none]
      constructor
      · exact fun all => ⟨rest, filled, .inr rfl, all⟩
      · rintro ⟨digits, _, rfl | same, all⟩
        · exact absurd (all 43 List.mem_cons_self) (by decide)
        · cases same
          exact all
    · have read : fromStrRadix (byte :: rest) = hexNumber (byte :: rest) := by
        simp only [fromStrRadix, hexNumber, List.head?_cons, Option.some.injEq, List.length_cons,
          Nat.lt_add_left_iff_pos, List.length_pos_iff, if_neg signed, List.isEmpty_cons,
          Bool.false_eq_true, if_false]
      rw [read, hexNumber_ne_none]
      constructor
      · exact fun all => ⟨_, List.cons_ne_nil _ _, .inl rfl, all⟩
      · rintro ⟨digits, filled, rfl | same, all⟩
        · exact all
        · cases same
          exact absurd ⟨rfl, filled⟩ signed

theorem HexField.of_read (read : fromStrRadix text = some number) : HexField text :=
  fromStrRadix_ne_none.mp (read ▸ Option.some_ne_none number)

theorem HexField.digits (field : HexField text) (unsigned : 43 ∉ text) :
    ∀ byte ∈ text, IsHexDigit byte := by
  obtain ⟨digits, _, rfl | rfl, all⟩ := field
  · exact all
  · exact absurd List.mem_cons_self unsigned

theorem HexField.dash (field : HexField text) : Seedstone.dash ∉ text := by
  obtain ⟨digits, _, rfl | rfl, all⟩ := field
  · exact fun inside => absurd (all _ inside) (by decide)
  · rw [List.mem_cons, not_or]
    exact ⟨by decide, fun inside => absurd (all _ inside) (by decide)⟩

theorem fromStrRadix_hex (fits : number < 16 ^ width) (positive : 0 < width) :
    fromStrRadix (hex width number) = some number := by
  rw [fromStrRadix_eq hex_native (by simpa), hexNumber_hex fits]

/-- A field of a name, read: it is the field the writer gives the number. -/
theorem field_eq (read : fromStrRadix text = some number) (length : text.length = width)
    (positive : 0 < width) (plain : ∀ byte ∈ text, ¬ Foreign byte) :
    number < 16 ^ width ∧ text = hex width number := by
  subst length
  rw [fromStrRadix_eq plain positive] at read
  exact eq_hex read plain

theorem append_lt_append {first second : Bytes} (same : first.length = second.length)
    (rest other : Bytes) :
    first ++ rest < second ++ other ↔ first < second ∨ first = second ∧ rest < other := by
  induction first generalizing second with
  | nil =>
    obtain rfl : second = [] := List.length_eq_zero_iff.mp same.symm
    simp
  | cons byte first induction =>
    cases second with
    | nil => simp at same
    | cons head second =>
      rw [List.cons_append, List.cons_append, List.cons_lt_cons_iff,
        induction (Nat.succ.inj same), List.cons_lt_cons_iff, List.cons.injEq]
      tauto

theorem hex_inj (fits : first < 16 ^ width) (other : second < 16 ^ width) :
    hex width first = hex width second ↔ first = second := by
  refine ⟨fun same => ?_, fun same => by rw [same]⟩
  have numbers := congrArg hexNumber same
  rw [hexNumber_hex fits, hexNumber_hex other] at numbers
  exact Option.some.inj numbers

theorem hex_lt (fits : first < 16 ^ width) (other : second < 16 ^ width) :
    hex width first < hex width second ↔ first < second := by
  induction width generalizing first second with
  | zero =>
    simp only [Nat.pow_zero] at fits other
    simp only [hex, List.lt_irrefl, false_iff]
    omega
  | succ width induction =>
    rw [Nat.pow_succ] at fits other
    have smaller : first / 16 < 16 ^ width := by omega
    have smallerToo : second / 16 < 16 ^ width := by omega
    rw [hex, hex, append_lt_append (by simp), induction smaller smallerToo,
      hex_inj smaller smallerToo, List.cons_lt_cons_iff,
      hexDigit_lt (Nat.mod_lt _ (by decide)) (Nat.mod_lt _ (by decide))]
    simp only [List.lt_irrefl, and_false, or_false]
    omega

theorem segmentName_lt {generation rotation generation' rotation' : Nat}
    (fits : generation < 2 ^ 64) (fits' : generation' < 2 ^ 64)
    (small : rotation < 2 ^ 32) (small' : rotation' < 2 ^ 32) :
    segmentName generation rotation < segmentName generation' rotation' ↔
      generation < generation' ∨ generation = generation' ∧ rotation < rotation' := by
  unfold segmentName
  rw [List.append_assoc, List.append_assoc, append_lt_append (by simp), hex_lt fits fits',
    hex_inj fits fits', List.cons_append, List.cons_append, List.cons_lt_cons_iff,
    append_lt_append (by simp), hex_lt small small']
  simp [List.lt_irrefl]

theorem dropWhile_dash {stem : Bytes} (found : stem.dropWhile (· ≠ dash) ≠ []) :
    stem.dropWhile (· ≠ dash) = dash :: (stem.dropWhile (· ≠ dash)).tail := by
  induction stem with
  | nil => simp at found
  | cons byte rest induction =>
    by_cases isDash : byte = dash
    · simp [isDash]
    · simp only [ne_eq, isDash, not_false_eq_true, decide_true,
        List.dropWhile_cons_of_pos] at found ⊢
      exact induction found

theorem parseSegmentName_eq_some {file : Nat × Nat} :
    parseSegmentName name = some file ↔
      ∃ first second : Bytes, name = first ++ dash :: second ++ segSuffix ∧
        first.length = 16 ∧ second.length = 8 ∧ (∀ byte ∈ first ++ second, IsHexDigit byte) ∧
          fromStrRadix first = some file.1 ∧ fromStrRadix second = some file.2 := by
  unfold parseSegmentName parseName2
  constructor
  · intro read
    obtain ⟨stem, stripped, rest⟩ := Option.bind_eq_some_iff.mp read
    obtain rfl := stripSuffix_eq_some.mp stripped
    have whole : stem.takeWhile (· ≠ dash) ++ stem.dropWhile (· ≠ dash) = stem :=
      List.takeWhile_append_dropWhile
    dsimp only at rest
    split at rest
    · simp at rest
    · next shaped =>
      simp only [not_or, List.isEmpty_iff, Decidable.not_not] at shaped
      obtain ⟨found, firstLength, secondLength, known⟩ := shaped
      rw [dropWhile_dash found] at whole
      obtain ⟨_, readFirst, rest⟩ := Option.bind_eq_some_iff.mp rest
      obtain ⟨_, readSecond, rest⟩ := Option.bind_eq_some_iff.mp rest
      cases rest
      -- A sign is no digit and no dash, so the check of the stem keeps it out.
      have unsigned : 43 ∉ stem :=
        fun inside => known (List.any_eq_true.mpr ⟨43, inside, by decide⟩)
      rw [← whole, List.mem_append, List.mem_cons, not_or, not_or] at unsigned
      refine ⟨_, _, by rw [whole], firstLength, secondLength, ?_, readFirst, readSecond⟩
      rw [List.forall_mem_append]
      exact ⟨(HexField.of_read readFirst).digits unsigned.1,
        (HexField.of_read readSecond).digits unsigned.2.2⟩
  · rintro ⟨first, second, rfl, one, two, digits, readFirst, readSecond⟩
    rw [List.forall_mem_append] at digits
    have apart : ∀ byte ∈ first, decide (byte ≠ dash) = true := by
      intro byte member
      rw [decide_eq_true_eq]
      rintro rfl
      exact absurd (digits.1 _ member) (by decide)
    have known : ((first ++ dash :: second).any fun byte =>
        (hexValue byte).isNone && byte ≠ dash) = false := by
      rw [List.any_eq_false, List.forall_mem_append, List.forall_mem_cons]
      refine ⟨fun byte member => ?_, by simp, fun byte member => ?_⟩
      · simp [(hexValue_byte byte).1.mpr (digits.1 byte member)]
      · simp [(hexValue_byte byte).1.mpr (digits.2 byte member)]
    rw [stripSuffix_eq_some.mpr rfl]
    dsimp only [bind, Option.bind]
    rw [known, List.takeWhile_append_of_pos apart, List.dropWhile_append_of_pos apart]
    simp [one, two, readFirst, readSecond]

theorem parseSnapshotName_eq_some {file : Nat × Nat × Nat} :
    parseSnapshotName name = some file ↔ ∃ first second third : Bytes,
      name = first ++ dash :: second ++ dash :: third ++ snapSuffix ∧ first.length = 16 ∧
        second.length = 4 ∧ third.length = 8 ∧ fromStrRadix first = some file.1 ∧
          fromStrRadix second = some file.2.1 ∧ fromStrRadix third = some file.2.2 := by
  unfold parseSnapshotName parseName
  constructor
  · intro read
    obtain ⟨stem, stripped, rest⟩ := Option.bind_eq_some_iff.mp read
    obtain rfl := stripSuffix_eq_some.mp stripped
    split at rest
    · next first second third fields =>
      have whole : [dash].intercalate (stem.splitOn dash) = stem := List.intercalate_splitOn dash
      rw [fields] at whole
      split at rest
      · simp at rest
      · next shaped =>
        simp only [not_or, Decidable.not_not] at shaped
        obtain ⟨_, readFirst, rest⟩ := Option.bind_eq_some_iff.mp rest
        obtain ⟨_, readSecond, rest⟩ := Option.bind_eq_some_iff.mp rest
        obtain ⟨_, readThird, rest⟩ := Option.bind_eq_some_iff.mp rest
        cases rest
        refine ⟨first, second, third, ?_, shaped.1, shaped.2.1, shaped.2.2, readFirst,
          readSecond, readThird⟩
        rw [← whole]
        simp [List.intercalate]
    · simp at rest
  · rintro ⟨first, second, third, rfl, one, two, three, readFirst, readSecond, readThird⟩
    have apart : ∀ field ∈ [first, second, third], dash ∉ field := by
      simp only [List.forall_mem_cons]
      exact ⟨(HexField.of_read readFirst).dash, (HexField.of_read readSecond).dash,
        (HexField.of_read readThird).dash, by simp⟩
    have fields : (first ++ dash :: second ++ dash :: third).splitOn dash =
        [first, second, third] := by
      simpa [List.intercalate] using List.splitOn_intercalate dash apart (by simp)
    rw [stripSuffix_eq_some.mpr rfl]
    dsimp only [bind, Option.bind]
    rw [fields]
    dsimp only
    rw [readFirst, readSecond, readThird]
    simp [one, two, three]

/-- A reader of names against the writer, up to the `foreign` ones it takes. -/
structure NameIndex {File : Type} (parse : Bytes → Option File) (write : File → Bytes)
    (inRange : File → Prop) (foreign : Bytes → Prop) : Prop where
  read : ∀ file, inRange file → parse (write file) = some file
  written : ∀ name file, parse name = some file →
    foreign name ∨ inRange file ∧ name = write file
  mistaken : ∀ name, foreign name → parse name ≠ none ∧ ∀ file, name ≠ write file

namespace NameIndex

variable {File : Type} {parse : Bytes → Option File} {write : File → Bytes}
  {inRange : File → Prop} {foreign : Bytes → Prop}
  (index : NameIndex parse write inRange foreign)

include index

theorem faithful_iff (name : Bytes) :
    (∀ file, parse name = some file ↔ inRange file ∧ name = write file) ↔ ¬ foreign name := by
  constructor
  · intro faithful isForeign
    obtain ⟨reads, unwritten⟩ := index.mistaken name isForeign
    obtain ⟨file, parsed⟩ := Option.ne_none_iff_exists'.mp reads
    exact unwritten file ((faithful file).mp parsed).2
  · intro native file
    refine ⟨fun parsed => (index.written name file parsed).resolve_left native, ?_⟩
    rintro ⟨fits, rfl⟩
    exact index.read file fits

theorem foreign_of_same {other : Bytes} (different : name ≠ other) (file : File)
    (one : parse name = some file) (two : parse other = some file) :
    foreign name ∨ foreign other := by
  rcases index.written name file one with left | ⟨_, rfl⟩
  · exact .inl left
  · exact .inr ((index.written other file two).resolve_right fun same => different same.2.symm)

end NameIndex

theorem segmentIndex :
    NameIndex parseSegmentName (fun file => segmentName file.1 file.2)
      (fun file => file.1 < 2 ^ 64 ∧ file.2 < 2 ^ 32) ForeignSegment where
  read := fun file fits => parseSegmentName_eq_some.mpr ⟨_, _, rfl, hex_length .., hex_length ..,
    List.forall_mem_append.mpr ⟨fun byte member => (hex_plain byte member).2,
      fun byte member => (hex_plain byte member).2⟩,
    fromStrRadix_hex fits.1 (by decide), fromStrRadix_hex fits.2 (by decide)⟩
  written := by
    intro name file parsed
    obtain ⟨first, second, rfl, one, two, digits, readOne, readTwo⟩ :=
      parseSegmentName_eq_some.mp parsed
    by_cases upper : ∃ byte ∈ first ++ second, 65 ≤ byte ∧ byte ≤ 70
    · exact .inl ⟨first, second, rfl, one, two, digits, upper⟩
    · have plain : ∀ byte ∈ first ++ second, ¬ Foreign byte := by
        rintro byte member (capital | rfl)
        · exact upper ⟨byte, member, capital⟩
        · exact absurd (digits _ member) (by decide)
      rw [List.forall_mem_append] at plain
      obtain ⟨fits, isFirst⟩ := field_eq readOne one (by decide) plain.1
      obtain ⟨small, isSecond⟩ := field_eq readTwo two (by decide) plain.2
      rw [isFirst, isSecond]
      exact .inr ⟨⟨fits, small⟩, rfl⟩
  mistaken := by
    rintro _ ⟨first, second, rfl, one, two, digits, byte, member, upper⟩
    rw [List.forall_mem_append] at digits
    constructor
    · have readOne : fromStrRadix first ≠ none := fromStrRadix_ne_none.mpr
        ⟨first, List.ne_nil_of_length_eq_add_one one, .inl rfl, digits.1⟩
      have readTwo : fromStrRadix second ≠ none := fromStrRadix_ne_none.mpr
        ⟨second, List.ne_nil_of_length_eq_add_one two, .inl rfl, digits.2⟩
      obtain ⟨generation, readOne⟩ := Option.ne_none_iff_exists'.mp readOne
      obtain ⟨rotation, readTwo⟩ := Option.ne_none_iff_exists'.mp readTwo
      refine Option.ne_none_iff_exists'.mpr ⟨(generation, rotation), ?_⟩
      exact parseSegmentName_eq_some.mpr ⟨first, second, rfl, one, two,
        List.forall_mem_append.mpr digits, readOne, readTwo⟩
    · intro file same
      have inside : byte ∈ first ++ dash :: second ++ segSuffix := by
        simp only [List.mem_append, List.mem_cons] at member ⊢
        tauto
      rw [same] at inside
      have plain : ∀ byte ∈ segmentName file.1 file.2, ¬ Foreign byte := by
        simp only [segmentName, List.forall_mem_append, List.forall_mem_cons]
        exact ⟨⟨hex_native, by decide, hex_native⟩, by decide +kernel⟩
      exact plain byte inside (.inl upper)

theorem snapshotIndex :
    NameIndex parseSnapshotName (fun file => snapshotName file.1 file.2.1 file.2.2)
      (fun file => file.1 < 2 ^ 64 ∧ file.2.1 < 2 ^ 16 ∧ file.2.2 < 2 ^ 32) ForeignSnapshot where
  read := fun file fits => parseSnapshotName_eq_some.mpr ⟨_, _, _, rfl, hex_length ..,
    hex_length .., hex_length .., fromStrRadix_hex fits.1 (by decide),
    fromStrRadix_hex fits.2.1 (by decide), fromStrRadix_hex fits.2.2 (by decide)⟩
  written := by
    intro name file parsed
    obtain ⟨first, second, third, rfl, one, two, three, readOne, readTwo, readThree⟩ :=
      parseSnapshotName_eq_some.mp parsed
    by_cases plain : ∀ byte ∈ first ++ second ++ third, ¬ Foreign byte
    · simp only [List.forall_mem_append] at plain
      obtain ⟨fits, isFirst⟩ := field_eq readOne one (by decide) plain.1.1
      obtain ⟨few, isSecond⟩ := field_eq readTwo two (by decide) plain.1.2
      obtain ⟨small, isThird⟩ := field_eq readThree three (by decide) plain.2
      rw [isFirst, isSecond, isThird]
      exact .inr ⟨⟨fits, few, small⟩, rfl⟩
    · refine .inl ⟨first, second, third, rfl, one, two, three, ?_, by simpa using plain⟩
      simp only [List.forall_mem_cons]
      exact ⟨.of_read readOne, .of_read readTwo, .of_read readThree, by simp⟩
  mistaken := by
    rintro _ ⟨first, second, third, rfl, one, two, three, fields, byte, member, foreign⟩
    simp only [List.forall_mem_cons, ← fromStrRadix_ne_none, Option.ne_none_iff_exists'] at fields
    constructor
    · obtain ⟨⟨generation, readOne⟩, ⟨executor, readTwo⟩, ⟨cycle, readThree⟩, _⟩ := fields
      refine Option.ne_none_iff_exists'.mpr ⟨(generation, executor, cycle), ?_⟩
      exact parseSnapshotName_eq_some.mpr ⟨first, second, third, rfl, one, two, three, readOne,
        readTwo, readThree⟩
    · intro file same
      have inside : byte ∈ first ++ dash :: second ++ dash :: third ++ snapSuffix := by
        simp only [List.mem_append, List.mem_cons] at member ⊢
        tauto
      rw [same] at inside
      have plain : ∀ byte ∈ snapshotName file.1 file.2.1 file.2.2, ¬ Foreign byte := by
        simp only [snapshotName, List.forall_mem_append, List.forall_mem_cons]
        exact ⟨⟨⟨hex_native, by decide, hex_native⟩, by decide, hex_native⟩, by decide +kernel⟩
      exact plain byte inside foreign

/-- The names are a faithful index of the log's files except for a name of the right
shape with an upper-case digit, or in a snapshot's with a sign: any other is read as a
file if and only if it is that file's name, and of two names read as one file one is
such a name.  The order of the segments' names is the order of what they carry. -/
theorem names_faithful_iff (name : Bytes) :
    ((∀ file, parseSegmentName name = some file ↔
        (file.1 < 2 ^ 64 ∧ file.2 < 2 ^ 32) ∧ name = segmentName file.1 file.2) ↔
      ¬ ForeignSegment name) ∧
    ((∀ file, parseSnapshotName name = some file ↔
        (file.1 < 2 ^ 64 ∧ file.2.1 < 2 ^ 16 ∧ file.2.2 < 2 ^ 32) ∧
          name = snapshotName file.1 file.2.1 file.2.2) ↔
      ¬ ForeignSnapshot name) ∧
    (∀ other, name ≠ other →
      (∀ file, parseSegmentName name = some file → parseSegmentName other = some file →
        ForeignSegment name ∨ ForeignSegment other) ∧
      ∀ file, parseSnapshotName name = some file → parseSnapshotName other = some file →
        ForeignSnapshot name ∨ ForeignSnapshot other) ∧
    ∀ first second : Nat × Nat, first.1 < 2 ^ 64 ∧ first.2 < 2 ^ 32 →
      second.1 < 2 ^ 64 ∧ second.2 < 2 ^ 32 →
        (segmentName first.1 first.2 < segmentName second.1 second.2 ↔
          first.1 < second.1 ∨ first.1 = second.1 ∧ first.2 < second.2) :=
  ⟨segmentIndex.faithful_iff name, snapshotIndex.faithful_iff name,
    fun _ different =>
      ⟨segmentIndex.foreign_of_same different, snapshotIndex.foreign_of_same different⟩,
    fun _ _ one two => segmentName_lt one.1 two.1 one.2 two.2⟩

theorem names_faithful_tenth :
    (∀ file, parseSegmentName (segmentName 10 0) = some file ↔
        (file.1 < 2 ^ 64 ∧ file.2 < 2 ^ 32) ∧
          segmentName 10 0 = segmentName file.1 file.2) ∧
      segmentName 2 4294967295 < segmentName 10 0 := by
  refine ⟨(names_faithful_iff (segmentName 10 0)).1.mpr ?_,
    ((names_faithful_iff []).2.2.2 (2, 4294967295) (10, 0) (by decide) (by decide)).mpr
      (Or.inl (by decide))⟩
  rintro ⟨first, second, same, _, _, _, byte, member, upper⟩
  have plain : ∀ byte ∈ segmentName 10 0, ¬ (65 ≤ byte ∧ byte ≤ 70) := by decide +kernel
  refine plain byte ?_ upper
  rw [same]
  simp only [List.mem_append, List.mem_cons] at member ⊢
  exact Or.inl (member.imp_right Or.inr)

/-- An upper-case digit names the same segment a second time, and a plus sign the
same snapshot. -/
theorem names_read_twice :
    (hex 15 0 ++ 65 :: dash :: hex 8 0 ++ segSuffix ≠ segmentName 10 0 ∧
      parseSegmentName (hex 15 0 ++ 65 :: dash :: hex 8 0 ++ segSuffix) = some (10, 0) ∧
        parseSegmentName (segmentName 10 0) = some (10, 0)) ∧
    hex 16 1 ++ dash :: 43 :: hex 3 2 ++ dash :: hex 8 0 ++ snapSuffix ≠
        snapshotName 1 2 0 ∧
      parseSnapshotName (hex 16 1 ++ dash :: 43 :: hex 3 2 ++ dash :: hex 8 0 ++
          snapSuffix) = some (1, 2, 0) ∧
        parseSnapshotName (snapshotName 1 2 0) = some (1, 2, 0) := by
  decide +kernel

end Seedstone
