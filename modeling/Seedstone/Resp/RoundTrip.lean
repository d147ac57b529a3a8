import Seedstone.Resp.Spelling

/-!
# Encoded frames decode

A frame within the decoder's limits is read back from its encoding, whatever
follows: the encoder writes one of the spellings of a frame.
-/

namespace Seedstone

/-- A text that fits on a line. -/
def Plain (text : Bytes) : Prop :=
  ∀ byte ∈ text, byte ≠ 13 ∧ byte ≠ 10

instance (text : Bytes) : Decidable (Plain text) :=
  inferInstanceAs (Decidable (∀ byte ∈ text, byte ≠ 13 ∧ byte ≠ 10))

namespace Frame

/-- A frame of so many levels of arrays at most, whose texts are UTF-8 on one line,
and whose integers, lengths and counts the decoder takes. -/
inductive Fits : Nat → Frame → Prop where
  | simple {depth : Nat} {text : Bytes} (plain : Plain text) (utf8 : isUtf8 text = true) :
      Fits depth (.simple text)
  | error {depth : Nat} {text : Bytes} (plain : Plain text) (utf8 : isUtf8 text = true) :
      Fits depth (.error text)
  | integer {depth : Nat} {value : Int} (range : inI64 value = true) :
      Fits depth (.integer value)
  | bulk {depth : Nat} {payload : Bytes} (short : payload.length ≤ maxBulkLen) :
      Fits depth (.bulk payload)
  | null {depth : Nat} : Fits depth .null
  | array {depth : Nat} {elements : List Frame} (few : elements.length ≤ maxArrayLen)
      (each : ∀ element ∈ elements, Fits depth element) : Fits (depth + 1) (.array elements)

/-- A frame within the limits of a decoder. -/
structure Within (limits : DecoderLimits) (frame : Frame) : Prop where
  shape : frame.Fits maxArrayDepth
  memory : frame.cost ≤ limits.maxInMemory
  length : frame.encode.length ≤ limits.maxFrameBytes

end Frame

theorem Plain.line {text : Bytes} (plain : Plain text) :
    lineEnd (text ++ crlf) = some text.length :=
  lineEnd_of_forall_ne fun byte member => (plain byte member).1

theorem numeral_i64Text {value : Int} (range : inI64 value = true) :
    Numeral (i64Text value) value := by
  have filled := decimal_ne_nil value.natAbs
  have digits := all_isAsciiDigit_decimal value.natAbs
  unfold i64Text
  split
  · next negative =>
    have back : -(digitsValue (decimal value.natAbs) : Int) = value := by
      rw [digitsValue_decimal]
      omega
    have numeral := Numeral.negative filled digits (by rw [back]; exact range)
    rwa [back] at numeral
  · next positive =>
    have back : (digitsValue (decimal value.natAbs) : Int) = value := by
      rw [digitsValue_decimal]
      omega
    have numeral := Numeral.positive filled digits (by rw [back]; exact range)
    rwa [back] at numeral

theorem numeral_decimal {n : Nat} (range : (n : Int) ≤ i64Max) : Numeral (decimal n) n := by
  have fits : inI64 (n : Int) = true := by
    have positive : i64Min ≤ (n : Int) := Int.le_trans (by decide) (Int.natCast_nonneg n)
    simp [inI64, range, positive]
  have same : decimal n = i64Text n := by
    rw [i64Text, if_neg (by omega), Int.natAbs_natCast]
  rw [same]
  exact numeral_i64Text fits

namespace Frame

mutual

theorem spells_wire (frame : Frame) {depth : Nat} (fits : frame.Fits depth) :
    frame.Spells depth frame.wire := by
  cases fits with
  | simple plain utf8 => exact .simple utf8 plain.line
  | error plain utf8 => exact .error utf8 plain.line
  | integer range => exact .integer (numeral_i64Text range)
  | @bulk _ payload short =>
    have small : (payload.length : Int) ≤ maxBulkLen := by exact_mod_cast short
    exact .bulk (numeral_decimal (Int.le_trans small (by decide))) short
  | null => exact .null (numeral_i64Text (by decide))
  | @array _ elements few each =>
    have small : (elements.length : Int) ≤ maxArrayLen := by exact_mod_cast few
    exact .array (numeral_decimal (Int.le_trans small (by decide))) few
      (spellsAll_wireAll elements each)

theorem spellsAll_wireAll (frames : List Frame) {depth : Nat}
    (fits : ∀ frame ∈ frames, Fits depth frame) : SpellsAll depth frames (wireAll frames) := by
  cases frames with
  | nil => exact .nil
  | cons frame rest =>
    exact .cons (spells_wire frame (fits frame List.mem_cons_self))
      (spellsAll_wireAll rest fun one member => fits one (List.mem_cons_of_mem _ member))

end

end Frame

theorem frameOf_encode {limits : DecoderLimits} {frame : Frame} (within : frame.Within limits)
    (rest : Bytes) :
    1 ≤ limits.maxFrameBytes ∧ Decoding.frameOf limits .new (frame.encode ++ rest) =
      .ok (some (frame, frame.encode.length)) := by
  have length := within.length
  have some : 1 ≤ frame.encode.length := by
    rw [Frame.encode_eq_wire]
    cases frame <;> simp [Frame.wire]
  rw [Frame.encode_eq_wire] at length ⊢
  rw [Frame.encode_eq_wire] at some
  exact ⟨Nat.le_trans some length, Decoding.frameOf_spells (frame.spells_wire within.shape)
    within.memory length rest⟩

theorem parseWith_encode {limits : DecoderLimits} {frame : Frame} (within : frame.Within limits)
    (rest : Bytes) :
    parseWith limits (frame.encode ++ rest) = .ok (some (frame, frame.encode.length)) := by
  obtain ⟨positive, reads⟩ := frameOf_encode within rest
  have new := step_new positive (frame.encode ++ rest)
  rw [reads] at new
  obtain ⟨_, _, state, scan, stepped⟩ := new
  rw [parseWith, stepped, ← scan]

theorem parseAll_encode {limits : DecoderLimits} {frames : List Frame}
    (within : ∀ frame ∈ frames, frame.Within limits) :
    parseAll limits (frames.flatMap Frame.encode) = (frames, .clean) := by
  induction frames with
  | nil =>
    simp [parseAll, parseAllLoop, Decoding.step, Decoding.stepLoop, Decoding.turn, Decoding.new,
      Decoding.readElement, Decoding.skipEmptyLines, emptyLines, checkFrameBytes, bind, Except.bind]
  | cons frame frames induction =>
    have later := induction fun other member => within other (List.mem_cons_of_mem _ member)
    obtain ⟨positive, reads⟩ := frameOf_encode (within frame List.mem_cons_self)
      (frames.flatMap Frame.encode)
    rw [List.flatMap_cons, parseAll_frame positive reads, List.drop_left, later]

/-- The decoder reads an encoded frame back, whatever follows it, and takes exactly
its encoding; encoded frames one behind the other come back as they were. -/
theorem parse_encode (frames : List Frame)
    (within : ∀ frame ∈ frames, frame.Within .standard) :
    (∀ frame ∈ frames, ∀ rest,
      parse (frame.encode ++ rest) = .ok (some (frame, frame.encode.length))) ∧
    parseAll .standard (frames.flatMap Frame.encode) = (frames, .clean) :=
  ⟨fun frame member rest => parseWith_encode (within frame member) rest, parseAll_encode within⟩

theorem parse_encode_nested :
    let frame : Frame := .array [.simple (ascii "OK"), .array [.bulk [13, 10], .null],
      .integer (-7)]
    parse (frame.encode ++ [42]) = .ok (some (frame, 31)) ∧
      parseAll .standard (frame.encode ++ frame.encode) = ([frame, frame], .clean) := by
  intro frame
  have inner : Frame.Fits 63 (.array [.bulk [13, 10], .null]) := by
    refine Frame.Fits.array (by decide) ?_
    simp only [List.forall_mem_cons]
    exact ⟨.bulk (by decide), .null, by simp⟩
  have shape : frame.Fits maxArrayDepth := by
    refine Frame.Fits.array (by decide) ?_
    simp only [List.forall_mem_cons]
    exact ⟨.simple (by decide +kernel) (by decide +kernel), inner, .integer (by decide), by simp⟩
  have within : frame.Within .standard := ⟨shape, by decide +kernel, by decide +kernel⟩
  have both := parse_encode [frame, frame] (by simpa using within)
  refine ⟨?_, ?_⟩
  · exact both.1 frame List.mem_cons_self [42]
  · simpa using both.2

/-- A stream of encoded frames comes back as it was, wherever it is cut into reads. -/
theorem stream_survives_cuts {limits : DecoderLimits} (positive : 1 ≤ limits.maxFrameBytes)
    {frames : List Frame} (within : ∀ frame ∈ frames, frame.Within limits) {reads : List Bytes}
    (cut : reads.flatten = frames.flatMap Frame.encode) :
    (Decoder.new limits).decode reads = (frames, .clean) := by
  have whole : (Decoder.new limits).decode reads = parseAll limits reads.flatten :=
    (Decoder.dry_new limits).decode reads positive
  rw [whole, cut, parseAll_encode within]

theorem stream_survives_cuts_null :
    (Decoder.new .standard).decode [ascii "$-1\r", ascii "\n:7", ascii "\r\n"] =
      ([.null, .integer 7], .clean) := by
  apply stream_survives_cuts (by decide)
  · simp only [List.forall_mem_cons]
    exact ⟨⟨.null, by decide, by decide⟩, ⟨.integer (by decide), by decide, by decide⟩, by simp⟩
  · decide +kernel

end Seedstone
