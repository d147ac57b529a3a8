import Seedstone.Log.Layout
import Seedstone.Log.Record

/-!
# Effects as payloads

The encoding of `effect.rs`: a tag, then keys and values behind their lengths and a
deadline behind a flag.  Decoding an encoding gives the effect back.
-/

namespace Seedstone

def tagPut : UInt8 := 1

def tagDel : UInt8 := 2

def tagDeadline : UInt8 := 3

def tagFlush : UInt8 := 4

def tagRebase : UInt8 := 5

def putBytes (bytes : Bytes) : Bytes :=
  LittleEndian.bytes 4 bytes.length ++ bytes

def putDeadline : Option Nat → Bytes
  | none => [0]
  | some millis => 1 :: LittleEndian.bytes 8 millis

def takeBytes (cursor : Bytes) : Option (Bytes × Bytes) :=
  let len := LittleEndian.value (cursor.take 4)
  let rest := cursor.drop 4
  if cursor.length < 4 ∨ rest.length < len then
    none
  else
    some (rest.take len, rest.drop len)

/-- `take_deadline`; the outer `none` is `Malformed`. -/
def takeDeadline : Bytes → Option (Option Nat × Bytes)
  | [] => none
  | flag :: rest =>
    if flag = 0 then
      some (none, rest)
    else if flag = 1 then
      if rest.length < 8 then
        none
      else
        some (some (LittleEndian.value (rest.take 8)), rest.drop 8)
    else
      none

namespace Effect

def encode : Effect → Bytes
  | .put key value millis => tagPut :: (putBytes key ++ putBytes value ++ putDeadline millis)
  | .del key => tagDel :: putBytes key
  | .deadline key millis => tagDeadline :: (putBytes key ++ putDeadline millis)
  | .flush => [tagFlush]
  | .rebase => [tagRebase]

/-- What follows the tag: the effect, and what is left over. -/
def decodeTagged (tag : UInt8) (rest : Bytes) : Option (Effect × Bytes) :=
  if tag = tagPut then do
    let (key, rest) ← takeBytes rest
    let (value, rest) ← takeBytes rest
    let (millis, rest) ← takeDeadline rest
    pure (.put key value millis, rest)
  else if tag = tagDel then do
    let (key, rest) ← takeBytes rest
    pure (.del key, rest)
  else if tag = tagDeadline then do
    let (key, rest) ← takeBytes rest
    let (millis, rest) ← takeDeadline rest
    pure (.deadline key millis, rest)
  else if tag = tagFlush then
    some (.flush, rest)
  else if tag = tagRebase then
    some (.rebase, rest)
  else
    none

/-- `Effect::decode`: trailing bytes are a payload this format did not write. -/
def decode : Bytes → Option Effect
  | [] => none
  | tag :: rest =>
    (decodeTagged tag rest).bind fun (effect, left) =>
      if left.isEmpty then some effect else none

end Effect

/-- A key or a value whose length fits its `u32`. -/
def FitsLength (bytes : Bytes) : Prop :=
  bytes.length < 256 ^ 4

/-- A deadline that fits its `u64`. -/
def FitsDeadline (millis : Option Nat) : Prop :=
  ∀ at', millis = some at' → at' < 256 ^ 8

/-- An effect the encoding has room for. -/
def Effect.Fits : Effect → Prop
  | .put key value millis => FitsLength key ∧ FitsLength value ∧ FitsDeadline millis
  | .del key => FitsLength key
  | .deadline key millis => FitsLength key ∧ FitsDeadline millis
  | .flush | .rebase => True

@[simp]
theorem length_putBytes (bytes : Bytes) : (putBytes bytes).length = 4 + bytes.length := by
  rw [putBytes, List.length_append, LittleEndian.length_bytes]

@[simp]
theorem length_putDeadline (millis : Option Nat) :
    (putDeadline millis).length = deadlineLen millis := by
  cases millis with
  | none => rfl
  | some millis =>
    rw [putDeadline, List.length_cons, LittleEndian.length_bytes]
    rfl

theorem takeBytes_eq_some_iff {cursor bytes rest : Bytes} :
    takeBytes cursor = some (bytes, rest) ↔ FitsLength bytes ∧ cursor = putBytes bytes ++ rest := by
  constructor
  · intro read
    unfold takeBytes at read
    dsimp only at read
    split at read
    · cases read
    · next long =>
        rw [not_or, Nat.not_lt, Nat.not_lt] at long
        cases read
        have four : (cursor.take 4).length = 4 := by
          rw [List.length_take]
          omega
        have length : ((cursor.drop 4).take (LittleEndian.value (cursor.take 4))).length =
            LittleEndian.value (cursor.take 4) := by
          rw [List.length_take]
          exact Nat.min_eq_left long.2
        refine ⟨?_, ?_⟩
        · rw [FitsLength, length]
          exact LittleEndian.value_lt four
        · rw [putBytes, length, LittleEndian.bytes_value four, List.append_assoc,
            List.take_append_drop,
            List.take_append_drop]
  · rintro ⟨fits, rfl⟩
    have front : (putBytes bytes ++ rest).take 4 = LittleEndian.bytes 4 bytes.length := by
      rw [putBytes, List.append_assoc, List.take_left' (LittleEndian.length_bytes ..)]
    have back : (putBytes bytes ++ rest).drop 4 = bytes ++ rest := by
      rw [putBytes, List.append_assoc, List.drop_left' (LittleEndian.length_bytes ..)]
    have long : ¬ ((putBytes bytes ++ rest).length < 4 ∨
        (bytes ++ rest).length < bytes.length) := by
      simp only [List.length_append, length_putBytes]
      omega
    unfold takeBytes
    dsimp only
    rw [front, back, LittleEndian.value_bytes fits, if_neg long, List.take_left, List.drop_left]

theorem takeDeadline_eq_some_iff {cursor rest : Bytes} {millis : Option Nat} :
    takeDeadline cursor = some (millis, rest) ↔
      FitsDeadline millis ∧ cursor = putDeadline millis ++ rest := by
  constructor
  · intro read
    unfold takeDeadline at read
    split at read
    · cases read
    · next flag behind =>
      split at read
      · next zero =>
          cases read
          refine ⟨?_, by rw [zero]; rfl⟩
          rintro at' ⟨⟩
      · split at read
        · next one =>
            split at read
            · cases read
            · next long =>
                cases read
                have eight : (behind.take 8).length = 8 := by
                  rw [List.length_take]
                  omega
                refine ⟨?_, ?_⟩
                · rintro at' ⟨⟩
                  exact LittleEndian.value_lt eight
                · rw [putDeadline, one, LittleEndian.bytes_value eight, List.cons_append,
                    List.take_append_drop]
        · cases read
  · rintro ⟨fits, rfl⟩
    cases millis with
    | none => rfl
    | some at' =>
      have width := LittleEndian.length_bytes 8 at'
      have long : ¬ (LittleEndian.bytes 8 at' ++ rest).length < 8 := by
        rw [List.length_append, width]
        omega
      rw [putDeadline, List.cons_append, takeDeadline, if_neg (by decide), if_pos rfl,
        if_neg long, List.take_left' width, List.drop_left' width,
        LittleEndian.value_bytes (fits at' rfl)]

namespace Effect

theorem length_encode (effect : Effect) : effect.encode.length = effect.encodedLen := by
  cases effect with
  | put | del | deadline =>
    simp only [encode, encodedLen, List.length_cons, List.length_append, length_putBytes,
      length_putDeadline]
    omega
  | flush | rebase => rfl

/-- What a tag and the bytes behind it read as, and nothing else does. -/
theorem decodeTagged_eq_some_iff {tag : UInt8} {rest left : Bytes} {effect : Effect} :
    decodeTagged tag rest = some (effect, left) ↔
      effect.Fits ∧ tag :: rest = effect.encode ++ left := by
  constructor
  · intro read
    unfold decodeTagged at read
    simp only [Option.bind_eq_bind, Option.pure_def] at read
    split at read
    · next is =>
        obtain ⟨⟨key, _⟩, first, more⟩ := Option.bind_eq_some_iff.mp read
        obtain ⟨⟨value, _⟩, second, most⟩ := Option.bind_eq_some_iff.mp more
        obtain ⟨⟨millis, _⟩, third, all⟩ := Option.bind_eq_some_iff.mp most
        obtain ⟨keyFits, rfl⟩ := takeBytes_eq_some_iff.mp first
        obtain ⟨valueFits, rfl⟩ := takeBytes_eq_some_iff.mp second
        obtain ⟨fits, rfl⟩ := takeDeadline_eq_some_iff.mp third
        cases all
        exact ⟨⟨keyFits, valueFits, fits⟩, by simp [encode, is]⟩
    · split at read
      · next is =>
          obtain ⟨⟨key, _⟩, first, all⟩ := Option.bind_eq_some_iff.mp read
          obtain ⟨fits, rfl⟩ := takeBytes_eq_some_iff.mp first
          cases all
          exact ⟨fits, by simp [encode, is]⟩
      · split at read
        · next is =>
            obtain ⟨⟨key, _⟩, first, more⟩ := Option.bind_eq_some_iff.mp read
            obtain ⟨⟨millis, _⟩, second, all⟩ := Option.bind_eq_some_iff.mp more
            obtain ⟨keyFits, rfl⟩ := takeBytes_eq_some_iff.mp first
            obtain ⟨fits, rfl⟩ := takeDeadline_eq_some_iff.mp second
            cases all
            exact ⟨⟨keyFits, fits⟩, by simp [encode, is]⟩
        · split at read
          · next is =>
              cases read
              exact ⟨trivial, by simp [encode, is]⟩
          · split at read
            · next is =>
                cases read
                exact ⟨trivial, by simp [encode, is]⟩
            · cases read
  · rintro ⟨fits, whole⟩
    cases effect with
    | put key value millis =>
      obtain ⟨keyFits, valueFits, millisFits⟩ := fits
      obtain ⟨rfl, rfl⟩ : tag = tagPut ∧
          rest = putBytes key ++ (putBytes value ++ (putDeadline millis ++ left)) := by
        simpa [encode] using whole
      simp only [decodeTagged, if_pos, takeBytes_eq_some_iff.mpr ⟨keyFits, rfl⟩,
        takeBytes_eq_some_iff.mpr ⟨valueFits, rfl⟩,
        takeDeadline_eq_some_iff.mpr ⟨millisFits, rfl⟩, Option.bind_eq_bind, Option.bind_some,
        Option.pure_def]
    | del key =>
      obtain ⟨rfl, rfl⟩ : tag = tagDel ∧ rest = putBytes key ++ left := by
        simpa [encode] using whole
      simp only [decodeTagged, if_pos, if_neg (by decide : tagDel ≠ tagPut),
        takeBytes_eq_some_iff.mpr ⟨fits, rfl⟩, Option.bind_eq_bind, Option.bind_some,
        Option.pure_def]
    | deadline key millis =>
      obtain ⟨keyFits, millisFits⟩ := fits
      obtain ⟨rfl, rfl⟩ : tag = tagDeadline ∧
          rest = putBytes key ++ (putDeadline millis ++ left) := by
        simpa [encode] using whole
      simp only [decodeTagged, if_pos, if_neg (by decide : tagDeadline ≠ tagPut),
        if_neg (by decide : tagDeadline ≠ tagDel), takeBytes_eq_some_iff.mpr ⟨keyFits, rfl⟩,
        takeDeadline_eq_some_iff.mpr ⟨millisFits, rfl⟩, Option.bind_eq_bind, Option.bind_some,
        Option.pure_def]
    | flush | rebase =>
      obtain ⟨rfl, rfl⟩ := List.cons.inj whole
      rfl

theorem decode_eq_some_iff {payload : Bytes} {effect : Effect} :
    decode payload = some effect ↔ effect.Fits ∧ payload = effect.encode := by
  cases payload with
  | nil =>
    refine ⟨fun read => (by cases read), fun ⟨_, empty⟩ => ?_⟩
    cases effect <;> cases empty
  | cons tag rest =>
    have whole : ∀ left : Bytes, decodeTagged tag rest = some (effect, left) ↔
        effect.Fits ∧ tag :: rest = effect.encode ++ left := fun _ => decodeTagged_eq_some_iff
    have none := whole []
    rw [List.append_nil] at none
    rw [← none, decode, Option.bind_eq_some_iff]
    constructor
    · rintro ⟨⟨read, left⟩, tagged, ends⟩
      dsimp only at ends
      split at ends
      · next empty =>
          cases ends
          rw [List.isEmpty_iff.mp empty] at tagged
          exact tagged
      · cases ends
    · intro tagged
      exact ⟨_, tagged, rfl⟩

end Effect

def Record.encode (record : Record) : Bytes :=
  encodeRecord record.shard record.seq record.effect.encode

/-- A record that fits its fields, and its body the ceiling. -/
structure Record.Fits (record : Record) : Prop where
  shard : record.shard < 256 ^ 2
  seq : record.seq < 256 ^ 8
  effect : record.effect.Fits
  short : bodyFixedLen + record.effect.encodedLen ≤ maxBodyLen

/-- So many records from the front, each with the bytes it takes, and what is left. -/
def readRecords : Nat → Bytes → Option (List (Record × Nat) × Bytes)
  | 0, buf => some ([], buf)
  | count + 1, buf =>
    match decodeRecord buf with
    | .record shard seq payload consumed => do
        let effect ← Effect.decode payload
        let (later, left) ← readRecords count (buf.drop consumed)
        some ((⟨shard, seq, effect⟩, consumed) :: later, left)
    | _ => none

namespace Record

variable {record : Record}

theorem length_encode (record : Record) : record.encode.length = record.encodedLen := by
  rw [encode, encodeRecord_eq, length_framed]
  simp only [List.length_append, LittleEndian.length_bytes, Effect.length_encode, encodedLen,
    recordFixedLen, headerLen]
  omega

theorem Fits.decodes (fits : record.Fits) (rest : Bytes) :
    decodeRecord (record.encode ++ rest) =
      .record record.shard record.seq record.effect.encode record.encode.length := by
  have read := decodeRecord_encodeRecord fits.shard fits.seq
    (record.effect.length_encode ▸ fits.short) rest
  rw [length_encode, encodedLen, ← Effect.length_encode, recordFixedLen, Nat.add_assoc]
  exact read

theorem Fits.needMore (fits : record.Fits) {cut : Nat} (proper : cut < record.encode.length) :
    decodeRecord (record.encode.take cut) = .needMore := by
  by_contra settled
  have whole := fits.decodes []
  have same := (decodeRecord_append settled (record.encode.drop cut)).1
  rw [List.take_append_drop, ← List.append_nil record.encode, whole, List.append_nil] at same
  have inside := (decodeRecord_inside.1 _ _ _ _ same.symm).2.2
  rw [List.length_take] at inside
  omega

theorem readRecords_encode {records : List Record} (fit : ∀ record ∈ records, record.Fits)
    (rest : Bytes) :
    readRecords records.length (records.flatMap encode ++ rest) =
      some (records.map fun record => (record, record.encode.length), rest) := by
  induction records with
  | nil => rfl
  | cons record records induction =>
    obtain ⟨fits, others⟩ := List.forall_mem_cons.mp fit
    have effect : Effect.decode record.effect.encode = some record.effect :=
      Effect.decode_eq_some_iff.mpr ⟨fits.effect, rfl⟩
    rw [List.length_cons, List.flatMap_cons, List.append_assoc, readRecords, fits.decodes]
    simp only [effect, List.drop_left, induction others, Option.bind_eq_bind, Option.bind_some,
      List.map_cons]

end Record

/-- What is written reads back: records one behind the other give themselves and the
bytes each takes, whatever follows; no proper prefix of a record says anything; and an
effect is what its encoding, and nothing else, decodes to. -/
theorem written_log_reads_back :
    (∀ (records : List Record) (rest : Bytes), (∀ record ∈ records, record.Fits) →
      readRecords records.length (records.flatMap Record.encode ++ rest) =
        some (records.map fun record => (record, record.encode.length), rest)) ∧
    (∀ (record : Record) (cut : Nat), record.Fits → cut < record.encode.length →
      decodeRecord (record.encode.take cut) = .needMore) ∧
    (∀ effect : Effect, effect.encode.length = effect.encodedLen) ∧
    ∀ (payload : Bytes) (effect : Effect),
      Effect.decode payload = some effect ↔ effect.Fits ∧ payload = effect.encode :=
  ⟨fun _ rest fit => Record.readRecords_encode fit rest, fun _ _ fits => fits.needMore,
    Effect.length_encode, fun _ _ => Effect.decode_eq_some_iff⟩

theorem written_log_reads_back_two :
    let first : Record := ⟨3, 0, .put [107] [118] (some 9)⟩
    let second : Record := ⟨3, 1, .flush⟩
    readRecords 2 (first.encode ++ second.encode ++ [7]) =
        some ([(first, 39), (second, 20)], [7]) ∧
      decodeRecord (first.encode.take 38) = .needMore := by
  intro first second
  have one : first.Fits :=
    ⟨by decide, by decide, ⟨by simp [FitsLength], by simp [FitsLength], by simp [FitsDeadline]⟩,
      by decide⟩
  have two : second.Fits := ⟨by decide, by decide, trivial, by decide⟩
  have fit : ∀ record ∈ [first, second], record.Fits := by simp [one, two]
  obtain ⟨reads, short, _⟩ := written_log_reads_back
  refine ⟨?_, short first 38 one (by decide +kernel)⟩
  have read := reads [first, second] [7] fit
  simp only [Record.length_encode, List.flatMap_cons, List.flatMap_nil, List.append_nil,
    List.map_cons, List.map_nil] at read
  exact read

end Seedstone
