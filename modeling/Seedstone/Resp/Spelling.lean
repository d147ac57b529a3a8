import Seedstone.Resp.Chunking
import Seedstone.Resp.Decimal

/-!
# Spelled frames are read

`Spells` is the grammar of frames on the wire: a number may be written in any
numeral, with zeros in front of it, and a text is any UTF-8 line.  The reader has
a stack of arrays where the grammar is a tree, so what goes through by induction
is about a frame in front of other bytes: reading it comes to placing it, as one
value, on whatever stack there is.
-/

namespace Seedstone

/-- A number in digits, with a sign or without. -/
inductive Numeral : Bytes → Int → Prop where
  | positive {digits : Bytes} (filled : digits ≠ []) (all : digits.all isAsciiDigit = true)
      (range : inI64 (digitsValue digits) = true) : Numeral digits (digitsValue digits)
  | negative {digits : Bytes} (filled : digits ≠ []) (all : digits.all isAsciiDigit = true)
      (range : inI64 (-digitsValue digits) = true) :
      Numeral (45 :: digits) (-digitsValue digits)

namespace Frame

mutual

/-- The wire spells the frame, with so many levels of arrays at most and every
length and count within its ceiling. -/
inductive Spells : Nat → Frame → Bytes → Prop where
  | simple {depth : Nat} {text : Bytes} (utf8 : isUtf8 text = true)
      (line : lineEnd (text ++ crlf) = some text.length) :
      Spells depth (.simple text) (43 :: text ++ crlf)
  | error {depth : Nat} {text : Bytes} (utf8 : isUtf8 text = true)
      (line : lineEnd (text ++ crlf) = some text.length) :
      Spells depth (.error text) (45 :: text ++ crlf)
  | integer {depth : Nat} {field : Bytes} {value : Int} (numeral : Numeral field value) :
      Spells depth (.integer value) (58 :: field ++ crlf)
  | bulk {depth : Nat} {field payload : Bytes} (numeral : Numeral field payload.length)
      (short : payload.length ≤ maxBulkLen) :
      Spells depth (.bulk payload) (36 :: field ++ crlf ++ payload ++ crlf)
  | null {depth : Nat} {field : Bytes} (numeral : Numeral field (-1)) :
      Spells depth .null (36 :: field ++ crlf)
  | array {depth : Nat} {field wires : Bytes} {elements : List Frame}
      (numeral : Numeral field elements.length) (few : elements.length ≤ maxArrayLen)
      (each : SpellsAll depth elements wires) :
      Spells (depth + 1) (.array elements) (42 :: field ++ crlf ++ wires)

/-- The wire spells the frames, one behind the other. -/
inductive SpellsAll : Nat → List Frame → Bytes → Prop where
  | nil {depth : Nat} : SpellsAll depth [] []
  | cons {depth : Nat} {frame : Frame} {rest : List Frame} {wire wires : Bytes}
      (first : Spells depth frame wire) (later : SpellsAll depth rest wires) :
      SpellsAll depth (frame :: rest) (wire ++ wires)

end

theorem length_mul_le_costAll (elements : List Frame) :
    elements.length * frameSize ≤ costAll elements := by
  induction elements with
  | nil => simp
  | cons frame rest induction =>
    rw [List.length_cons, Nat.add_mul, costAll, cost_eq frame]
    omega

end Frame

theorem lineEnd_of_forall_ne {text : Bytes} (plain : ∀ byte ∈ text, byte ≠ 13) :
    lineEnd (text ++ crlf) = some text.length := by
  have before : ∀ stop, lineEnd (text ++ crlf) = some stop → text.length ≤ stop := by
    induction text with
    | nil => exact fun _ _ => Nat.zero_le _
    | cons byte text induction =>
      intro stop ends
      obtain ⟨second, behind, tail⟩ : ∃ second behind, text ++ crlf = second :: behind := by
        cases text with
        | nil => exact ⟨13, [10], rfl⟩
        | cons second text => exact ⟨second, text ++ crlf, rfl⟩
      rw [List.cons_append, tail, lineEnd,
        if_neg (fun both => plain byte List.mem_cons_self both.1), ← tail] at ends
      obtain ⟨later, found, rfl⟩ := Option.map_eq_some_iff.mp ends
      have := induction (fun one member => plain one (List.mem_cons_of_mem _ member)) _ found
      rw [List.length_cons]
      omega
  rw [lineEnd_drop before, List.drop_left, crlf, lineEnd, if_pos ⟨rfl, rfl⟩]
  simp

theorem ne_cr_of_isAsciiDigit {byte : UInt8} (digit : isAsciiDigit byte = true) : byte ≠ 13 := by
  rintro rfl
  cases digit

theorem Numeral.line {field : Bytes} {value : Int} (numeral : Numeral field value) :
    lineEnd (field ++ crlf) = some field.length := by
  apply lineEnd_of_forall_ne
  cases numeral with
  | positive _ all _ =>
    exact fun byte member => ne_cr_of_isAsciiDigit (List.all_eq_true.mp all byte member)
  | negative _ all _ =>
    intro byte member
    rcases List.mem_cons.mp member with rfl | member
    · decide
    · exact ne_cr_of_isAsciiDigit (List.all_eq_true.mp all byte member)

theorem parseInteger_numeral {field : Bytes} {value : Int} (numeral : Numeral field value) :
    parseInteger field = .ok value := by
  cases numeral with
  | @positive digits filled all range =>
    have unsigned : ∀ rest, field ≠ 45 :: rest := by
      rintro rest rfl
      simp [isAsciiDigit] at all
    have some : field.isEmpty = false := by simpa using filled
    unfold parseInteger
    rw [some, if_neg Bool.false_ne_true]
    split
    next negative digits read =>
      split at read
      · exact absurd rfl (unsigned _)
      · cases read
        simp only [all, some, range, Bool.not_true, Bool.or_self, Bool.false_eq_true, if_false,
          if_true]
  | @negative digits filled all range =>
    have some : digits.isEmpty = false := by simpa using filled
    unfold parseInteger
    simp only [List.isEmpty_cons, all, some, range, Bool.not_true, Bool.or_self,
      Bool.false_eq_true, if_false, if_true]

namespace Decoding

variable {limits : DecoderLimits} {stack : List PendingArray} {inMemory : Nat}

theorem elementIn_line {byte : UInt8} {kind : Kind} {text : Bytes}
    (known : Kind.ofByte byte = some kind) (line : lineEnd (text ++ crlf) = some text.length)
    (rest : Bytes) :
    elementIn limits stack inMemory (byte :: text ++ crlf ++ rest) =
      ((bare stack inMemory).readField kind text limits).bind
        (lineIn text.length (byte :: text ++ crlf ++ rest)) := by
  have ends := (lineEnd_append line rest).2
  have field : (text ++ crlf ++ rest).take text.length = text := by
    rw [List.append_assoc, List.take_left]
  rw [List.cons_append, List.cons_append, elementIn, known]
  dsimp only
  rw [ends]
  dsimp only
  rw [field]

theorem bulkIn_crlf (header payload rest : Bytes) :
    bulkIn header.length payload.length (header ++ payload ++ crlf ++ rest) =
      .ok (some (.value (.bulk payload), header.length + payload.length + 2)) := by
  have long : ¬(header ++ payload ++ crlf ++ rest).length < header.length + payload.length + 2 := by
    simp only [List.length_append, crlf, List.length_cons, List.length_nil]
    omega
  have ended : ((header ++ payload ++ crlf ++ rest).drop (header.length + payload.length)).take 2 =
      crlf := by
    rw [← List.length_append, List.append_assoc, List.drop_left]
    rfl
  have taken : ((header ++ payload ++ crlf ++ rest).drop header.length).take payload.length =
      payload := by
    rw [List.append_assoc, List.append_assoc, List.drop_left, List.take_left]
  rw [bulkIn, if_neg long, if_neg (by rw [ended]; simp), taken]

theorem elementIn_value {frame : Frame} {depth : Nat} {wire : Bytes}
    (spells : frame.Spells depth wire) (leaf : ∀ elements, frame ≠ .array elements)
    (enough : inMemory + frame.cost ≤ limits.maxInMemory) (rest : Bytes) :
    elementIn limits stack inMemory (wire ++ rest) = .ok (some (.value frame, wire.length)) := by
  cases spells with
  | simple utf8 line | error utf8 line =>
    rw [elementIn_line rfl line]
    simp [readField, utf8, Except.bind, lineIn, crlf]
  | integer numeral | null numeral =>
    rw [elementIn_line rfl numeral.line]
    simp [readField, parseInteger_numeral numeral, Except.bind, bind, lineIn, crlf]
  | @bulk _ field payload numeral short =>
    have small : (payload.length : Int) ≤ maxBulkLen := by exact_mod_cast short
    have priced : (bare stack inMemory).readField .bulk field limits =
        .ok (.bulk payload.length) := by
      unfold readField
      rw [parseInteger_numeral numeral]
      simp only [bind, Except.bind, Int.toNat_natCast]
      rw [if_neg (by omega), if_neg (by omega), if_neg (by omega), afford, headroom, if_neg]
      rw [Frame.cost_eq, Frame.payloadBytes] at enough
      simp only [bare]
      omega
    have header : (36 :: field ++ crlf).length = field.length + 3 := by simp [crlf]
    have whole : 36 :: field ++ crlf ++ payload ++ crlf ++ rest =
        36 :: field ++ crlf ++ (payload ++ crlf ++ rest) := by simp
    have body := bulkIn_crlf (36 :: field ++ crlf) payload rest
    rw [header] at body
    rw [whole, elementIn_line rfl numeral.line, priced, ← whole]
    refine body.trans ?_
    simp only [List.length_append, crlf, List.length_cons, List.length_nil]
  | array => exact absurd rfl (leaf _)

theorem elementIn_array {elements : List Frame} {field : Bytes} {depth : Nat}
    (numeral : Numeral field elements.length) (few : elements.length ≤ maxArrayLen)
    (shallow : stack.length + (depth + 1) ≤ maxArrayDepth)
    (enough : inMemory + elements.length * frameSize ≤ limits.maxInMemory) (rest : Bytes) :
    elementIn limits stack inMemory (42 :: field ++ crlf ++ rest) =
      .ok (some (.arrayHeader elements.length, field.length + 3)) := by
  have counted : (bare stack inMemory).arrayHeader field limits = .ok elements.length := by
    have small : (elements.length : Int) ≤ maxArrayLen := by exact_mod_cast few
    unfold arrayHeader headroom
    rw [parseInteger_numeral numeral]
    simp only [bind, Except.bind, Int.toNat_natCast]
    rw [if_neg (by omega), if_neg (by simp only [bare]; omega), if_neg (by omega),
      if_neg (by simp only [bare]; omega)]
  rw [elementIn_line rfl numeral.line]
  simp [readField, counted, Except.bind, bind, lineIn]

/-- What comes of a placed value, read in so many bytes. -/
def onward (limits : DecoderLimits) (taken len : Nat) (rest : Bytes) :
    Placed → Except ParseError (Option (Frame × Nat))
  | .whole frame => (checkFrameBytes (taken + len) limits).map fun _ => some (frame, len)
  | .within stack inMemory =>
    (frameIn limits stack inMemory (taken + len) rest).map (further len)

theorem onward_further (taken first second : Nat) (rest : Bytes)
    (placed : Except ParseError Placed) :
    (placed.bind (onward limits (taken + first) second rest)).map (further first) =
      placed.bind (onward limits taken (first + second) rest) := by
  cases placed with
  | error error => rfl
  | ok placement =>
    cases placement with
    | whole frame =>
      simp only [Except.bind, onward, Nat.add_assoc]
      cases checkFrameBytes (taken + (first + second)) limits <;> rfl
    | within stack inMemory =>
      simp only [Except.bind, onward, Nat.add_assoc, map_further]

theorem frameIn_element {element : Element} {wire rest : Bytes} (taken : Nat)
    (read : elementIn limits stack inMemory (wire ++ rest) = .ok (some (element, wire.length))) :
    frameIn limits stack inMemory taken (wire ++ rest) =
      (placeIn limits stack inMemory element).bind (onward limits taken wire.length rest) := by
  have unskipped : skipIn stack (wire ++ rest) = (0, false) := by
    obtain ⟨byte, kind, stands, known⟩ := elementIn_typed read
    obtain ⟨behind, front⟩ := List.head?_eq_some_iff.mp stands
    have other : byte ≠ 13 := by
      rintro rfl
      cases known
    rw [front, skipIn, emptyLines_cons other, ite_self]
  have whole : readIn limits stack inMemory (wire ++ rest) = .ok (some (element, wire.length)) := by
    rw [readIn, unskipped, if_neg Bool.false_ne_true]
    exact read
  cases placed : placeIn limits stack inMemory element with
  | error error => exact frameIn_unplaced whole placed
  | ok placement =>
    cases placement with
    | whole frame =>
      rw [frameIn_whole whole placed, unskipped, Nat.zero_add]
      rfl
    | within outer charged =>
      rw [frameIn_within whole placed, unskipped, Nat.zero_add, List.drop_left]
      rfl

/-- A value within the headroom goes into the innermost array. -/
theorem fillIn_cons {count : Nat} {done : List Frame} {outer : List PendingArray} {value : Frame}
    (enough : inMemory + (frameSize + value.payloadBytes) ≤ limits.maxInMemory) :
    fillIn limits (⟨count + 1, done⟩ :: outer) inMemory value =
      if count = 0 then
        fillIn limits outer (inMemory + (frameSize + value.payloadBytes)) (.array (done ++ [value]))
      else
        .ok (.within (⟨count, done ++ [value]⟩ :: outer)
          (inMemory + (frameSize + value.payloadBytes))) := by
  rw [fillIn, if_neg (by omega)]
  rfl

mutual

/-- Reading a frame comes to placing it, with what is inside it charged already. -/
theorem frameIn_spells (frame : Frame) (stack : List PendingArray) (inMemory taken : Nat)
    {depth : Nat} {wire : Bytes} (spells : frame.Spells depth wire)
    (shallow : stack.length + depth ≤ maxArrayDepth)
    (enough : inMemory + frame.cost ≤ limits.maxInMemory) (rest : Bytes) :
    frameIn limits stack inMemory taken (wire ++ rest) =
      (fillIn limits stack (inMemory + Frame.costAll frame.encodeOne.2) frame).bind
        (onward limits taken wire.length rest) := by
  by_cases leaf : ∀ elements, frame ≠ .array elements
  · have childless : Frame.costAll frame.encodeOne.2 = 0 := by
      cases frame with
      | array elements => exact absurd rfl (leaf elements)
      | _ => rfl
    rw [frameIn_element taken (elementIn_value spells leaf enough rest), childless]
    rfl
  · cases frame with
    | array elements =>
      cases spells with
      | @array depth field wires _ numeral few each =>
      have counted := Frame.length_mul_le_costAll elements
      have inside : Frame.costAll (Frame.array elements).encodeOne.2 = Frame.costAll elements := rfl
      rw [Frame.cost] at enough
      have header : (42 :: field ++ crlf).length = field.length + 3 := by simp [crlf]
      have read : elementIn limits stack inMemory (42 :: field ++ crlf ++ (wires ++ rest)) =
          .ok (some (.arrayHeader elements.length, (42 :: field ++ crlf).length)) := by
        rw [header]
        exact elementIn_array numeral few shallow (by omega) _
      have length : (42 :: field ++ crlf ++ wires).length =
          (42 :: field ++ crlf).length + wires.length := List.length_append
      rw [List.append_assoc _ wires, frameIn_element taken read, inside, length, placeIn]
      cases elements with
      | nil =>
        cases each
        rfl
      | cons first more =>
        have behind := frameIn_spellsAll (first :: more) [] stack inMemory
          (taken + (42 :: field ++ crlf).length) (List.cons_ne_nil _ _) each (by omega)
          (by omega) rest
        rw [List.nil_append] at behind
        rw [if_neg (by simp), ← onward_further, ← behind]
        rfl
    | _ => exact absurd (fun _ => Frame.noConfusion) leaf

/-- Reading the elements an array waits for comes to placing the array. -/
theorem frameIn_spellsAll (elements done : List Frame) (outer : List PendingArray)
    (inMemory taken : Nat) {depth : Nat} {wires : Bytes} (nonempty : elements ≠ [])
    (each : Frame.SpellsAll depth elements wires)
    (shallow : outer.length + 1 + depth ≤ maxArrayDepth)
    (enough : inMemory + Frame.costAll elements ≤ limits.maxInMemory) (rest : Bytes) :
    frameIn limits (⟨elements.length, done⟩ :: outer) inMemory taken (wires ++ rest) =
      (fillIn limits outer (inMemory + Frame.costAll elements) (.array (done ++ elements))).bind
        (onward limits taken wires.length rest) := by
  cases each with
  | nil => exact absurd rfl nonempty
  | @cons _ frame more wire later first remaining =>
    have own := Frame.cost_eq frame
    rw [Frame.costAll] at enough ⊢
    have placed : inMemory + Frame.costAll frame.encodeOne.2 + (frameSize + frame.payloadBytes) ≤
        limits.maxInMemory := by omega
    have front := frameIn_spells frame (⟨more.length + 1, done⟩ :: outer) inMemory taken first
      shallow (by omega) (later ++ rest)
    rw [List.append_assoc, List.length_cons, front,
      fillIn_cons placed, List.length_append, Nat.add_assoc inMemory, ← own]
    cases more with
    | nil =>
      cases remaining
      rfl
    | cons second more =>
      have behind := frameIn_spellsAll (second :: more) (done ++ [frame]) outer
        (inMemory + frame.cost) (taken + wire.length) (List.cons_ne_nil _ _) remaining shallow
        (by omega) rest
      rw [← List.append_cons] at behind
      rw [if_neg (by simp), ← onward_further, ← Nat.add_assoc, ← behind]
      rfl

end

/-- A frame within the limits is read where it is spelled. -/
theorem frameOf_spells {frame : Frame} {wire : Bytes} (spells : frame.Spells maxArrayDepth wire)
    (memory : frame.cost ≤ limits.maxInMemory) (length : wire.length ≤ limits.maxFrameBytes)
    (rest : Bytes) : frameOf limits .new (wire ++ rest) = .ok (some (frame, wire.length)) := by
  have own := frame.cost_eq
  have read : frameIn limits [] 0 0 (wire ++ rest) = _ :=
    frameIn_spells frame [] 0 0 spells (by simp) (by omega) rest
  have bound : checkFrameBytes (0 + wire.length) limits = .ok () := by
    rw [checkFrameBytes, if_neg (by omega)]
  rw [fillIn, if_neg (by omega)] at read
  refine read.trans ?_
  simp only [Except.bind, onward, bound, Except.map]

end Decoding

end Seedstone
