import Seedstone.Dict.Table

/-!
# The names of the log's files

The names of `file.rs` and `snapshot.rs` as bytes: hexadecimal fields of fixed widths
between dashes, and the suffix.  The parsers take what `from_str_radix` takes.
-/

namespace Seedstone

def hexDigit (digit : Nat) : UInt8 :=
  UInt8.ofNat (if digit < 10 then 48 + digit else 87 + digit)

/-- A number in lower-case hexadecimal, padded with zeros to `width`. -/
def hex : Nat → Nat → Bytes
  | 0, _ => []
  | width + 1, number => hex width (number / 16) ++ [hexDigit (number % 16)]

def hexValue (byte : UInt8) : Option Nat :=
  if 48 ≤ byte ∧ byte ≤ 57 then
    some (byte.toNat - 48)
  else if 97 ≤ byte ∧ byte ≤ 102 then
    some (byte.toNat - 87)
  else if 65 ≤ byte ∧ byte ≤ 70 then
    some (byte.toNat - 55)
  else
    none

/-- `from_str_radix(_, 16)`, of a text whose length keeps it from overflowing. -/
def fromStrRadix (text : Bytes) : Option Nat :=
  let digits := if text.head? = some 43 ∧ 1 < text.length then text.tail else text
  if digits.isEmpty then
    none
  else
    digits.foldlM (fun number byte => (hexValue byte).map (number * 16 + ·)) 0

def dash : UInt8 := 45

/-- `.seg`. -/
def segSuffix : Bytes := [46, 115, 101, 103]

/-- `.snap`. -/
def snapSuffix : Bytes := [46, 115, 110, 97, 112]

def stripSuffix (name suffix : Bytes) : Option Bytes :=
  if suffix <:+ name then some (name.take (name.length - suffix.length)) else none

theorem stripSuffix_eq_some {name suffix stem : Bytes} :
    stripSuffix name suffix = some stem ↔ name = stem ++ suffix := by
  unfold stripSuffix
  rw [Option.ite_none_right_eq_some, Option.some.injEq]
  constructor
  · rintro ⟨⟨front, rfl⟩, rfl⟩
    simp
  · rintro rfl
    exact ⟨List.suffix_append _ _, by simp⟩

def segmentName (generation rotation : Nat) : Bytes :=
  hex 16 generation ++ dash :: hex 8 rotation ++ segSuffix

def snapshotName (generation executor cycle : Nat) : Bytes :=
  hex 16 generation ++ dash :: hex 4 executor ++ dash :: hex 8 cycle ++ snapSuffix

/-- `parse_name`: a snapshot's shape, and the previous layout's segments'. -/
def parseName (name suffix : Bytes) : Option (Nat × Nat × Nat) := do
  let stem ← stripSuffix name suffix
  match stem.splitOn dash with
  | [generation, executor, counter] =>
    if generation.length ≠ 16 ∨ executor.length ≠ 4 ∨ counter.length ≠ 8 then
      none
    else
      let generation ← fromStrRadix generation
      let executor ← fromStrRadix executor
      let counter ← fromStrRadix counter
      pure (generation, executor, counter)
  | _ => none

/-- `parse_name2`: a segment's shape. -/
def parseName2 (name suffix : Bytes) : Option (Nat × Nat) := do
  let stem ← stripSuffix name suffix
  let generation := stem.takeWhile (· ≠ dash)
  let rest := stem.dropWhile (· ≠ dash)
  if rest.isEmpty ∨ generation.length ≠ 16 ∨ rest.tail.length ≠ 8 ∨
      stem.any fun byte => (hexValue byte).isNone && byte ≠ dash then
    none
  else
    let generation ← fromStrRadix generation
    let counter ← fromStrRadix rest.tail
    pure (generation, counter)

def parseSegmentName (name : Bytes) : Option (Nat × Nat) :=
  parseName2 name segSuffix

def parseSnapshotName (name : Bytes) : Option (Nat × Nat × Nat) :=
  parseName name snapSuffix

example : parseSegmentName (segmentName 3 2) = some (3, 2) := by
  decide +kernel

example : parseSnapshotName (snapshotName 3 1 0) = some (3, 1, 0) := by
  decide +kernel

end Seedstone
