import Seedstone.Resp.Decoder

/-!
# Reading one element

What the decoder reads at a place depends on the bytes from there on and on the
arrays being filled, and on no offset: `elementIn` is that reading, of bytes
alone.  `readElement` refines it, wherever in a buffer it stands and however far
it had got with the element before.
-/

namespace Seedstone

variable {bytes : Bytes}

/-- Where the first `\r\n` stands. -/
def lineEnd : Bytes → Option Nat
  | first :: second :: rest =>
    if first = 13 ∧ second = 10 then some 0 else (lineEnd (second :: rest)).map (· + 1)
  | _ => none

theorem crlfFrom_eq (bytes : Bytes) (offset : Nat) :
    crlfFrom bytes offset =
      (offset + (lineEnd bytes).getD (bytes.length - 1), (lineEnd bytes).isSome) := by
  induction bytes generalizing offset with
  | nil => rfl
  | cons first rest induction =>
    cases rest with
    | nil => rfl
    | cons second rest =>
      by_cases ends : first = 13 ∧ second = 10
      · simp [crlfFrom, lineEnd, ends]
      · simp only [crlfFrom, lineEnd, if_neg ends, induction]
        cases lineEnd (second :: rest) <;> simp <;> omega

theorem lineEnd_append {stop : Nat} (ends : lineEnd bytes = some stop) (more : Bytes) :
    stop + 2 ≤ bytes.length ∧ lineEnd (bytes ++ more) = some stop := by
  fun_induction lineEnd bytes generalizing stop with
  | case1 first second rest here =>
    cases ends
    simp [lineEnd, here]
  | case2 first second rest elsewhere induction =>
    obtain ⟨later, found, rfl⟩ := Option.map_eq_some_iff.mp ends
    obtain ⟨inside, same⟩ := induction found
    rw [List.cons_append] at same
    simp only [List.cons_append, lineEnd, if_neg elsewhere, same, List.length_cons] at inside ⊢
    exact ⟨by omega, rfl⟩
  | case3 => cases ends

/-- A line that did not end ends with the last byte at hand or later. -/
theorem lineEnd_later {more : Bytes} {stop : Nat} (unended : lineEnd bytes = none)
    (ends : lineEnd (bytes ++ more) = some stop) : bytes.length ≤ stop + 1 := by
  fun_induction lineEnd bytes generalizing stop with
  | case1 => cases unended
  | case2 first second rest elsewhere induction =>
    simp only [List.cons_append, lineEnd, if_neg elsewhere] at ends
    obtain ⟨later, found, rfl⟩ := Option.map_eq_some_iff.mp ends
    have := induction (Option.map_eq_none_iff.mp unended) found
    rw [List.length_cons]
    omega
  | case3 bytes short =>
    match bytes with
    | [] | [_] => simp
    | first :: second :: rest => exact absurd rfl (short first second rest)

/-- The search may start anywhere before the end of the line. -/
theorem lineEnd_drop {count : Nat} (before : ∀ stop, lineEnd bytes = some stop → count ≤ stop) :
    lineEnd bytes = (lineEnd (bytes.drop count)).map (· + count) := by
  induction count generalizing bytes with
  | zero => simp
  | succ count induction =>
    match bytes with
    | [] | [_] => simp [lineEnd]
    | first :: second :: rest =>
      have elsewhere : ¬(first = 13 ∧ second = 10) := by
        intro here
        have := before 0 (by simp [lineEnd, here])
        omega
      have behind : ∀ stop, lineEnd (second :: rest) = some stop → count ≤ stop := by
        intro stop found
        have := before (stop + 1) (by simp [lineEnd, elsewhere, found])
        omega
      rw [lineEnd, if_neg elsewhere, induction behind, List.drop_succ_cons, Option.map_map]
      rfl

/-- The empty lines of a longer input: those of the shorter, and those behind
them. -/
theorem emptyLines_append (bytes more : Bytes) :
    (emptyLines bytes).1 ≤ bytes.length ∧
      emptyLines (bytes ++ more) =
        ((emptyLines bytes).1 + (emptyLines ((bytes ++ more).drop (emptyLines bytes).1)).1,
          (emptyLines ((bytes ++ more).drop (emptyLines bytes).1)).2) := by
  fun_induction emptyLines bytes with
  | case1 first second rest ends skipped lone equal induction =>
    rw [equal] at induction
    obtain ⟨inside, same⟩ := induction
    dsimp only at inside same ⊢
    refine ⟨by simp only [List.length_cons]; omega, ?_⟩
    simp only [List.cons_append, emptyLines, ends, and_self, if_true, List.drop_succ_cons, same]
    simp only [Nat.add_right_comm]
  | case2 first second rest different =>
    simp [emptyLines, different]
  | case3 last =>
    simp
  | case4 => simp

/-- A wait behind the empty lines is for one byte at most. -/
theorem emptyLines_lone (lone : (emptyLines bytes).2 = true) :
    bytes.length = (emptyLines bytes).1 + 1 := by
  fun_induction emptyLines bytes with
  | case1 first second rest ends skipped waits equal induction =>
    rw [equal] at induction
    simp only [List.length_cons, induction lone]
  | case2 | case4 => cases lone
  | case3 => rfl

theorem emptyLines_cons {byte : UInt8} (other : byte ≠ 13) (rest : Bytes) :
    emptyLines (byte :: rest) = (0, false) := by
  cases rest <;> simp [emptyLines, other]

namespace Frame

mutual

/-- What a frame costs in memory, by the decoder's accounts. -/
def cost : Frame → Nat
  | .array elements => frameSize + costAll elements
  | frame => frameSize + frame.payloadBytes

def costAll : List Frame → Nat
  | [] => 0
  | frame :: rest => frame.cost + costAll rest

end

theorem cost_eq (frame : Frame) :
    frame.cost = costAll frame.encodeOne.2 + (frameSize + frame.payloadBytes) := by
  cases frame <;> simp [cost, costAll, encodeOne, payloadBytes]
  omega

theorem costAll_append_singleton (elements : List Frame) (value : Frame) :
    costAll (elements ++ [value]) = costAll elements + value.cost := by
  induction elements with
  | nil => simp [costAll]
  | cons first rest induction => simp only [List.cons_append, costAll, induction, Nat.add_assoc]

end Frame

namespace Decoding

variable {kind : Kind} {byte : UInt8} {header size : Nat}

/-- A state that stands nowhere. -/
def bare (stack : List PendingArray) (inMemory : Nat) : Decoding :=
  ⟨0, 0, .start, stack, inMemory⟩

/-- `finishBulk`, of the bytes of the element. -/
def bulkIn (header len : Nat) (bytes : Bytes) : Except ParseError (Option (Element × Nat)) :=
  if bytes.length < header + len + 2 then
    .ok none
  else if (bytes.drop (header + len)).take 2 ≠ crlf then
    .error .bulkUnterminated
  else
    .ok (some (.value (.bulk ((bytes.drop header).take len)), header + len + 2))

/-- The element behind a line, and how many bytes it takes. -/
def lineIn (stop : Nat) (bytes : Bytes) : Line → Except ParseError (Option (Element × Nat))
  | .element element => .ok (some (element, stop + 3))
  | .bulk len => bulkIn (stop + 3) len bytes

/-- The element at the front, and how many bytes it takes. -/
def elementIn (limits : DecoderLimits) (stack : List PendingArray) (inMemory : Nat)
    (bytes : Bytes) : Except ParseError (Option (Element × Nat)) :=
  match bytes with
  | [] => .ok none
  | byte :: behind =>
    match Kind.ofByte byte with
    | none => .error (.unknownType byte)
    | some kind =>
      match lineEnd behind with
      | none => .ok none
      | some stop =>
        ((bare stack inMemory).readField kind (behind.take stop) limits).bind
          (lineIn stop bytes)

/-- What is skipped in front of an element: the empty lines between two frames. -/
def skipIn (stack : List PendingArray) (bytes : Bytes) : Nat × Bool :=
  if stack.isEmpty then emptyLines bytes else (0, false)

variable {limits : DecoderLimits} {stack : List PendingArray} {inMemory : Nat} {bytes : Bytes}
  {element : Element} {len : Nat}

theorem bulkIn_bound (read : bulkIn header size bytes = .ok (some (element, len))) :
    len = header + size + 2 ∧ len ≤ bytes.length := by
  unfold bulkIn at read
  split at read
  · cases read
  · split at read
    · cases read
    · next long _ =>
        cases read
        exact ⟨rfl, by omega⟩

theorem bulkIn_append (settled : bulkIn header size bytes ≠ .ok none) (more : Bytes) :
    bulkIn header size (bytes ++ more) = bulkIn header size bytes := by
  unfold bulkIn at settled ⊢
  by_cases short : bytes.length < header + size + 2
  · exact absurd (if_pos short) settled
  · have enough : ¬(bytes ++ more).length < header + size + 2 := by
      rw [List.length_append]
      omega
    have ending : ((bytes ++ more).drop (header + size)).take 2 =
        (bytes.drop (header + size)).take 2 := by
      rw [List.drop_append_of_le_length (by omega),
        List.take_append_of_le_length (by rw [List.length_drop]; omega)]
    have payload : ((bytes ++ more).drop header).take size = (bytes.drop header).take size := by
      rw [List.drop_append_of_le_length (by omega),
        List.take_append_of_le_length (by rw [List.length_drop]; omega)]
    rw [if_neg short, if_neg enough, ending, payload]

theorem bulkIn_later {more : Bytes} (waits : bulkIn header size bytes = .ok none)
    (read : bulkIn header size (bytes ++ more) = .ok (some (element, len))) :
    bytes.length < len := by
  obtain ⟨rfl, _⟩ := bulkIn_bound read
  by_contra enough
  unfold bulkIn at waits
  rw [if_neg (by omega)] at waits
  split at waits <;> cases waits

theorem lineIn_bound {stop : Nat} {line : Line} (inside : stop + 3 ≤ bytes.length)
    (read : lineIn stop bytes line = .ok (some (element, len))) :
    stop + 3 ≤ len ∧ len ≤ bytes.length := by
  cases line with
  | element one =>
    cases read
    exact ⟨Nat.le_refl _, inside⟩
  | bulk size =>
    have := bulkIn_bound read
    omega

section

variable (read : elementIn limits stack inMemory bytes = .ok (some (element, len)))

include read

/-- An element is a type byte, a line with a meaning and what the line asks for. -/
theorem elementIn_eq_some :
    ∃ byte behind kind stop line, bytes = byte :: behind ∧ Kind.ofByte byte = some kind ∧
      lineEnd behind = some stop ∧
      (bare stack inMemory).readField kind (behind.take stop) limits = .ok line ∧
      lineIn stop bytes line = .ok (some (element, len)) := by
  revert read
  fun_cases elementIn limits stack inMemory bytes with
  | case4 byte behind kind known stop ends =>
    intro read
    cases meaning : (bare stack inMemory).readField kind (behind.take stop) limits with
    | error error =>
      rw [meaning] at read
      cases read
    | ok line =>
      rw [meaning] at read
      exact ⟨byte, behind, kind, stop, line, rfl, known, ends, meaning, read⟩
  | _ => exact nofun

theorem elementIn_bound : 3 ≤ len ∧ len ≤ bytes.length := by
  obtain ⟨byte, behind, kind, stop, line, rfl, known, ends, meaning, taken⟩ :=
    elementIn_eq_some read
  obtain ⟨inside, _⟩ := lineEnd_append ends []
  have := lineIn_bound (by rw [List.length_cons]; omega) taken
  omega

theorem elementIn_typed : ∃ byte kind, bytes.head? = some byte ∧ Kind.ofByte byte = some kind := by
  obtain ⟨byte, behind, kind, _, _, rfl, known, _⟩ := elementIn_eq_some read
  exact ⟨byte, kind, rfl, known⟩

end

theorem readField_leaf {field : Bytes} {frame : Frame}
    (read : (bare stack inMemory).readField kind field limits = .ok (.element (.value frame))) :
    frame.encodeOne.2 = [] := by
  unfold readField at read
  cases kind with
  | simple | error =>
    dsimp only at read
    split at read <;> cases read
    rfl
  | integer =>
    cases parsed : parseInteger field with
    | error error =>
      rw [parsed] at read
      cases read
    | ok value =>
      rw [parsed] at read
      cases read
      rfl
  | bulk =>
    cases parsed : parseInteger field with
    | error error =>
      rw [parsed] at read
      cases read
    | ok size =>
      rw [parsed] at read
      simp only [bind, Except.bind, afford] at read
      split_ifs at read <;> cases read
      rfl
  | array =>
    cases counted : (bare stack inMemory).arrayHeader field limits with
    | error | ok =>
      rw [counted] at read
      cases read

theorem elementIn_leaf {frame : Frame}
    (read : elementIn limits stack inMemory bytes = .ok (some (.value frame, len))) :
    frame.encodeOne.2 = [] := by
  obtain ⟨byte, behind, kind, stop, line, rfl, known, ends, meaning, taken⟩ :=
    elementIn_eq_some read
  cases line with
  | element element =>
    cases taken
    exact readField_leaf meaning
  | bulk size =>
    simp only [lineIn, bulkIn] at taken
    split_ifs at taken <;> cases taken
    rfl

theorem elementIn_append (settled : elementIn limits stack inMemory bytes ≠ .ok none)
    (more : Bytes) :
    elementIn limits stack inMemory (bytes ++ more) = elementIn limits stack inMemory bytes := by
  revert settled
  fun_cases elementIn limits stack inMemory bytes with
  | case1 => exact fun settled => absurd rfl settled
  | case2 byte behind unknown =>
    intro _
    simp only [List.cons_append, elementIn, unknown]
  | case3 => exact fun settled => absurd rfl settled
  | case4 byte behind kind known stop ends =>
    intro settled
    obtain ⟨inside, same⟩ := lineEnd_append ends more
    have field : (behind ++ more).take stop = behind.take stop :=
      List.take_append_of_le_length (by omega)
    simp only [List.cons_append, elementIn, known, same, field]
    cases meaning : (bare stack inMemory).readField kind (behind.take stop) limits with
    | error error => rfl
    | ok line =>
      rw [meaning] at settled
      cases line with
      | element one => rfl
      | bulk size => exact bulkIn_append settled more

/-- An element that was waited for ends behind the bytes at hand. -/
theorem elementIn_later {more : Bytes} (waits : elementIn limits stack inMemory bytes = .ok none)
    (read : elementIn limits stack inMemory (bytes ++ more) = .ok (some (element, len))) :
    bytes.length < len := by
  revert waits
  fun_cases elementIn limits stack inMemory bytes with
  | case1 =>
    intro _
    have := elementIn_bound read
    rw [List.length_nil]
    omega
  | case2 => exact nofun
  | case3 byte behind kind known unended =>
    intro _
    obtain ⟨_, _, _, stop, line, whole, _, ends, _, taken⟩ := elementIn_eq_some read
    rw [List.cons_append] at whole
    cases whole
    have far := lineEnd_later unended ends
    obtain ⟨inside, _⟩ := lineEnd_append ends []
    have := lineIn_bound (by rw [List.cons_append, List.length_cons]; omega) taken
    rw [List.length_cons]
    omega
  | case4 byte behind kind known stop ends =>
    intro waits
    obtain ⟨inside, same⟩ := lineEnd_append ends more
    have field : (behind ++ more).take stop = behind.take stop :=
      List.take_append_of_le_length (by omega)
    simp only [List.cons_append, elementIn, known, same, field] at read
    cases meaning : (bare stack inMemory).readField kind (behind.take stop) limits with
    | error error =>
      rw [meaning] at waits
      cases waits
    | ok line =>
      rw [meaning] at waits read
      cases line with
      | element one => cases waits
      | bulk size => exact bulkIn_later waits read

variable {state : Decoding} {buf : Bytes}

/-- What the elements of the arrays being filled cost. -/
def held (stack : List PendingArray) : Nat :=
  stack.foldr (fun array cost => Frame.costAll array.elements + cost) 0

theorem held_cons (top : PendingArray) (rest : List PendingArray) :
    held (top :: rest) = Frame.costAll top.elements + held rest :=
  rfl

/-- Wherever the reader is within an element, it reads what it would from the first
byte. -/
def Resumes (limits : DecoderLimits) (buf : Bytes) (state : Decoding) : Prop :=
  match state.part with
  | .start => True
  | .line scanned =>
    state.scan < scanned ∧ ∀ more stop,
      lineEnd ((buf ++ more).drop (state.scan + 1)) = some stop → scanned ≤ state.scan + 1 + stop
  | .bulkBody header len =>
    ∀ more, elementIn limits state.stack state.inMemory ((buf ++ more).drop state.scan) =
      bulkIn header len ((buf ++ more).drop state.scan)

/-- A state the decoder can be in, with this buffer. -/
structure Sane (limits : DecoderLimits) (buf : Bytes) (state : Decoding) : Prop where
  begun : state.frameStart ≤ state.scan
  inside : state.scan ≤ buf.length
  anchored : state.stack = [] → state.frameStart = state.scan
  typed : state.stack ≠ [] ∨ state.part ≠ .start →
    ∃ byte kind, buf[state.frameStart]? = some byte ∧ Kind.ofByte byte = some kind
  resumes : Resumes limits buf state
  account : state.inMemory = held state.stack
  affordable : state.inMemory ≤ limits.maxInMemory

/-- What the reader comes to at an element is what the bytes from there on come to. -/
inductive Reading (limits : DecoderLimits) (buf : Bytes) (state : Decoding) :
    Except ParseError (Option Element × Decoding) → Prop where
  | refused {error : ParseError}
      (refuses : elementIn limits state.stack state.inMemory (buf.drop state.scan) = .error error) :
      Reading limits buf state (.error error)
  | waits {part : Partial}
      (waits : elementIn limits state.stack state.inMemory (buf.drop state.scan) = .ok none)
      (sane : Sane limits buf { state with part := part }) :
      Reading limits buf state (.ok (none, { state with part := part }))
  | read {element : Element} {len : Nat}
      (reads : elementIn limits state.stack state.inMemory (buf.drop state.scan) =
        .ok (some (element, len))) :
      Reading limits buf state
        (.ok (some element, { state with scan := state.scan + len, part := .start }))

theorem Reading.repart {result : Except ParseError (Option Element × Decoding)} {part : Partial}
    (reading : Reading limits buf { state with part := part } result) :
    Reading limits buf state result := by
  cases reading with
  | refused refuses => exact .refused refuses
  | waits waits sane => exact .waits waits sane
  | read reads => exact .read reads

theorem Sane.append (sane : Sane limits buf state) (more : Bytes) :
    Sane limits (buf ++ more) state := by
  refine { sane with inside := ?_, typed := ?_, resumes := ?_ }
  · rw [List.length_append]
    exact Nat.le_add_right_of_le sane.inside
  · intro begun
    obtain ⟨byte, kind, stands, known⟩ := sane.typed begun
    have inside : state.frameStart < buf.length := (List.getElem?_eq_some_iff.mp stands).1
    exact ⟨byte, kind, by rw [List.getElem?_append_left inside, stands], known⟩
  · have resumes := sane.resumes
    unfold Resumes at resumes ⊢
    split at resumes
    · trivial
    · simpa only [List.append_assoc] using ⟨resumes.1, fun later => resumes.2 (more ++ later)⟩
    · simpa only [List.append_assoc] using fun later => resumes (more ++ later)

theorem drop_eq_cons {scan : Nat} (stands : buf[scan]? = some byte) :
    buf.drop scan = byte :: buf.drop (scan + 1) := by
  obtain ⟨inside, rfl⟩ := List.getElem?_eq_some_iff.mp stands
  exact List.drop_eq_getElem_cons inside

section

variable (sane : Sane limits buf state)

include sane

theorem reading_finishBulk {len : Nat} (part : state.part = .bulkBody header len) :
    Reading limits buf state (state.finishBulk buf header len) := by
  have resumes := sane.resumes
  rw [Resumes, part] at resumes
  have whole := resumes []
  have inside := sane.inside
  rw [List.append_nil] at whole
  unfold bulkIn at whole
  rw [List.drop_drop, List.drop_drop, List.length_drop] at whole
  unfold finishBulk
  dsimp only
  by_cases short : buf.length < state.scan + header + len + 2
  · rw [if_pos (by omega)] at whole
    rw [if_pos short]
    have kept : Reading limits buf state (.ok (none, { state with part := state.part })) :=
      .waits whole sane
    exact kept
  · rw [if_neg (by omega), ← Nat.add_assoc] at whole
    rw [if_neg short]
    by_cases unterminated : (buf.drop (state.scan + header + len)).take 2 ≠ crlf
    · rw [if_pos unterminated] at whole
      rw [if_pos unterminated]
      exact .refused whole
    · rw [if_neg unterminated] at whole
      rw [if_neg unterminated]
      have done := Reading.read whole
      rwa [← Nat.add_assoc, ← Nat.add_assoc] at done

/-- The search for the end of the line, from wherever it had got to. -/
theorem findCrlf_spec (line : ∀ header len, state.part ≠ .bulkBody header len)
    (byteRead : state.scan < buf.length) :
    (∃ stop, lineEnd (buf.drop (state.scan + 1)) = some stop ∧
        state.findCrlf buf (state.scan + 1) =
          (some (state.scan + 1 + stop, state.scan + 1 + stop + 2),
            { state with part := .start })) ∨
      lineEnd (buf.drop (state.scan + 1)) = none ∧ ∃ scanned,
        state.findCrlf buf (state.scan + 1) = (none, { state with part := .line scanned }) ∧
          Resumes limits buf { state with part := .line scanned } := by
  obtain ⟨count, resume, before⟩ : ∃ count, state.part.resume (state.scan + 1) =
      state.scan + 1 + count ∧ ∀ more stop,
        lineEnd ((buf ++ more).drop (state.scan + 1)) = some stop → count ≤ stop := by
    have resumes := sane.resumes
    unfold Resumes at resumes
    cases part : state.part with
    | start => exact ⟨0, rfl, fun _ _ _ => Nat.zero_le _⟩
    | line scanned =>
      rw [part] at resumes
      refine ⟨scanned - (state.scan + 1), ?_, fun more stop ends => ?_⟩
      · rw [Partial.resume]
        have := resumes.1
        split <;> omega
      · have := resumes.2 more stop ends
        omega
    | bulkBody header len => exact absurd part (line header len)
  have here : ∀ stop, lineEnd (buf.drop (state.scan + 1)) = some stop → count ≤ stop := by
    simpa using before []
  have searched := lineEnd_drop here
  rw [List.drop_drop] at searched
  unfold findCrlf
  rw [resume]
  dsimp only
  rw [crlfFrom_eq]
  cases ends : lineEnd (buf.drop (state.scan + 1 + count)) with
  | some later =>
    rw [ends] at searched
    refine Or.inl ⟨later + count, searched, ?_⟩
    have place : state.scan + 1 + count + later = state.scan + 1 + (later + count) := by omega
    rw [Option.getD_some, place]
    rfl
  | none =>
    rw [ends] at searched
    refine Or.inr ⟨searched, _, rfl, by dsimp only; omega, fun more stop found => ?_⟩
    · have ahead := before more stop found
      have inside : state.scan + 1 ≤ buf.length := byteRead
      dsimp only at found ⊢
      rw [List.drop_append_of_le_length inside] at found
      have last := lineEnd_later searched found
      simp only [Option.getD_none, List.length_drop] at last ⊢
      omega

/-- A frame begins with a type byte. -/
theorem Sane.typed_of_stands (stands : buf[state.scan]? = some byte)
    (known : Kind.ofByte byte = some kind) :
    ∃ byte kind, buf[state.frameStart]? = some byte ∧ Kind.ofByte byte = some kind := by
  by_cases outside : state.stack = []
  · rw [sane.anchored outside]
    exact ⟨byte, kind, stands, known⟩
  · exact sane.typed (Or.inl outside)

/-- An element is read at its type byte. -/
theorem reading_readLine (line : ∀ header len, state.part ≠ .bulkBody header len)
    (stands : buf[state.scan]? = some byte) (known : Kind.ofByte byte = some kind) :
    Reading limits buf state (state.readLine kind buf limits) := by
  have inside : state.scan < buf.length := (List.getElem?_eq_some_iff.mp stands).1
  have front := drop_eq_cons stands
  have typed := sane.typed_of_stands stands known
  unfold readLine
  rcases findCrlf_spec sane line inside with ⟨stop, ends, found⟩ | ⟨unended, scanned, found,
    resumes⟩
  · have whole (more : Bytes) :
        elementIn limits state.stack state.inMemory ((buf ++ more).drop state.scan) =
          (state.readField kind ((buf.drop (state.scan + 1)).take stop) limits).bind
            (lineIn stop ((buf ++ more).drop state.scan)) := by
      obtain ⟨bound, same⟩ := lineEnd_append ends more
      rw [List.drop_append_of_le_length (Nat.le_of_lt inside), front, List.cons_append,
        elementIn, known]
      dsimp only
      rw [same]
      dsimp only
      rw [List.take_append_of_le_length (by omega)]
      rfl
    have here := whole []
    rw [List.append_nil] at here
    have field : (buf.take (state.scan + 1 + stop)).drop (state.scan + 1) =
        (buf.drop (state.scan + 1)).take stop := by
      rw [List.drop_take, Nat.add_sub_cancel_left]
    have header : state.scan + 1 + stop + 2 - state.scan = stop + 3 := by omega
    have after : state.scan + 1 + stop + 2 = state.scan + (stop + 3) := by omega
    have plain : readField { state with part := .start } kind
        ((buf.drop (state.scan + 1)).take stop) limits =
        state.readField kind ((buf.drop (state.scan + 1)).take stop) limits := rfl
    rw [found]
    dsimp only
    rw [field, header, after, plain]
    cases meaning : state.readField kind ((buf.drop (state.scan + 1)).take stop) limits with
    | error error =>
      rw [meaning] at here
      exact .refused here
    | ok said =>
      rw [meaning] at here whole
      cases said with
      | element element => exact .read here
      | bulk len =>
        have held : Sane limits buf { state with part := .bulkBody (stop + 3) len } :=
          { sane with typed := fun _ => typed, resumes := whole }
        exact (reading_finishBulk held rfl).repart
  · have here : elementIn limits state.stack state.inMemory (buf.drop state.scan) = .ok none := by
      rw [front, elementIn, known]
      dsimp only
      rw [unended]
    rw [found]
    exact .waits here { sane with typed := fun _ => typed, resumes := resumes }

/-- The state behind what is skipped. -/
def skip (state : Decoding) (count : Nat) : Decoding :=
  { state with frameStart := state.frameStart + count, scan := state.scan + count }

/-- Nothing stands in front of a frame that has begun. -/
theorem Sane.emptyLines_eq (begun : state.stack ≠ [] ∨ state.part ≠ .start) :
    emptyLines (buf.drop state.frameStart) = (0, false) := by
  obtain ⟨byte, kind, stands, known⟩ := sane.typed begun
  have other : byte ≠ 13 := by
    rintro rfl
    cases known
  rw [drop_eq_cons stands, emptyLines_cons other]

theorem skipIn_typed (unstarted : state.part ≠ .start) :
    skipIn state.stack (buf.drop state.scan) = (0, false) := by
  unfold skipIn
  split
  · next empty =>
    rw [← sane.anchored (List.isEmpty_iff.mp empty)]
    exact sane.emptyLines_eq (Or.inr unstarted)
  · rfl

theorem skipEmptyLines_eq :
    state.skipEmptyLines buf = (state.skip (skipIn state.stack (buf.drop state.scan)).1,
      (skipIn state.stack (buf.drop state.scan)).2) := by
  unfold skipEmptyLines
  by_cases begins : state.part = .start
  · by_cases outside : state.stack = []
    · have empty : state.stack.isEmpty = true := by rw [outside]; rfl
      have front := sane.anchored outside
      rw [if_pos ⟨empty, begins⟩, skipIn, if_pos empty]
      dsimp only
      split
      · next none =>
        rw [none]
        rfl
      · rw [skip, front]
    · have filled : ¬state.stack.isEmpty = true := by simpa using outside
      rw [if_neg (fun both => filled both.1), skipIn, if_neg filled]
      rfl
  · rw [if_neg (fun both => begins both.2), skipIn_typed sane begins]
    rfl

end

theorem skipIn_append (stack : List PendingArray) (bytes more : Bytes) :
    (skipIn stack bytes).1 ≤ bytes.length ∧
      skipIn stack (bytes ++ more) =
        ((skipIn stack bytes).1 + (skipIn stack ((bytes ++ more).drop (skipIn stack bytes).1)).1,
          (skipIn stack ((bytes ++ more).drop (skipIn stack bytes).1)).2) := by
  unfold skipIn
  split
  · exact emptyLines_append bytes more
  · exact ⟨Nat.zero_le _, rfl⟩

theorem Sane.skip (sane : Sane limits buf state) :
    Sane limits buf (state.skip (skipIn state.stack (buf.drop state.scan)).1) := by
  have begun := sane.begun
  have inside := sane.inside
  obtain ⟨bound, _⟩ := skipIn_append state.stack (buf.drop state.scan) []
  rw [List.length_drop] at bound
  by_cases fresh : state.stack = [] ∧ state.part = .start
  · refine ⟨?_, ?_, ?_, ?_, ?_, sane.account, sane.affordable⟩
    · dsimp only [Decoding.skip]
      omega
    · dsimp only [Decoding.skip]
      omega
    · intro outside
      have := sane.anchored outside
      dsimp only [Decoding.skip]
      omega
    · exact fun begun => absurd begun (not_or.mpr ⟨not_not_intro fresh.1, not_not_intro fresh.2⟩)
    · dsimp only [Decoding.skip, Resumes]
      rw [fresh.2]
      trivial
  · have none : (skipIn state.stack (buf.drop state.scan)).1 = 0 := by
      by_cases begins : state.part = .start
      · rw [skipIn, if_neg (by simpa using fun empty => fresh ⟨empty, begins⟩)]
      · rw [skipIn_typed sane begins]
    rw [none]
    exact sane

/-- The rest of `readElement`, behind the empty lines. -/
def readTyped (state : Decoding) (buf : Bytes) (limits : DecoderLimits) :
    Except ParseError (Option Element × Decoding) :=
  match buf[state.scan]? with
  | none => .ok (none, state)
  | some byte =>
    match Kind.ofByte byte with
    | none => .error (.unknownType byte)
    | some kind => state.readLine kind buf limits

theorem reading_readTyped (sane : Sane limits buf state)
    (line : ∀ header len, state.part ≠ .bulkBody header len) :
    Reading limits buf state (state.readTyped buf limits) := by
  unfold readTyped
  cases stands : buf[state.scan]? with
  | none =>
    have ended : buf.drop state.scan = [] := by
      rw [List.drop_eq_nil_iff]
      exact List.getElem?_eq_none_iff.mp stands
    have kept : Reading limits buf state (.ok (none, { state with part := state.part })) :=
      .waits (by rw [ended]; rfl) sane
    exact kept
  | some byte =>
    dsimp only
    cases known : Kind.ofByte byte with
    | none =>
      refine .refused ?_
      rw [drop_eq_cons stands, elementIn, known]
    | some kind => exact reading_readLine sane line stands known

/-- The reader at an element, behind the empty lines there are. -/
theorem readElement_spec (sane : Sane limits buf state) :
    (skipIn state.stack (buf.drop state.scan)).2 = true ∧ state.readElement buf limits =
        .ok (none, state.skip (skipIn state.stack (buf.drop state.scan)).1) ∨
      (skipIn state.stack (buf.drop state.scan)).2 = false ∧
        Reading limits buf (state.skip (skipIn state.stack (buf.drop state.scan)).1)
          (state.readElement buf limits) := by
  have moved := sane.skip
  by_cases bulk : ∃ header len, state.part = .bulkBody header len
  · obtain ⟨header, len, part⟩ := bulk
    have unstarted : state.part ≠ .start := by rw [part]; exact Partial.noConfusion
    rw [skipIn_typed sane unstarted]
    refine Or.inr ⟨rfl, ?_⟩
    unfold readElement
    rw [part]
    exact reading_finishBulk sane part
  · have line : ∀ header len, state.part ≠ .bulkBody header len :=
      fun header len part => bulk ⟨header, len, part⟩
    have behind := reading_readTyped moved line
    unfold readElement
    rw [skipEmptyLines_eq sane]
    cases lone : (skipIn state.stack (buf.drop state.scan)).2 with
    | true =>
      refine Or.inl ⟨rfl, ?_⟩
      split
      · next header len part => exact absurd part (line header len)
      · rfl
      · rfl
    | false =>
      refine Or.inr ⟨rfl, ?_⟩
      split
      · next header len part => exact absurd part (line header len)
      · exact behind
      · exact behind

end Decoding

end Seedstone
