import Seedstone.Resp.Spelling
import Mathlib.Logic.Relation

/-!
# The budgets are exact

A frame is charged for in three places: an array's header and a bulk string's are
priced ahead, and every value is charged as it is placed.  The account the decoder
keeps is what the elements held by the arrays cost, so a frame is delivered exactly
when its bytes and its whole cost are within the limits.
-/

namespace Seedstone

variable {frame : Frame} {limits : DecoderLimits} {decoder : Decoder}

open Decoding

namespace Decoding

variable {limits wider : DecoderLimits} {stack : List PendingArray} {inMemory taken : Nat}
  {bytes buf : Bytes} {element : Element} {len : Nat}

section Wider

variable (memory : limits.maxInMemory ≤ wider.maxInMemory)
include memory

theorem readField_mono {kind : Kind} {field : Bytes} {line : Line}
    (read : (bare stack inMemory).readField kind field limits = .ok line) :
    (bare stack inMemory).readField kind field wider = .ok line := by
  cases kind with
  | simple | error | integer => exact read
  | bulk =>
    unfold readField afford headroom at read ⊢
    cases parsed : parseInteger field with
    | error error =>
      rw [parsed] at read
      cases read
    | ok size =>
      rw [parsed] at read
      simp only [bind, Except.bind] at read ⊢
      split_ifs at read ⊢ <;> first | exact read | omega
  | array =>
    unfold readField arrayHeader headroom at read ⊢
    cases parsed : parseInteger field with
    | error error =>
      rw [parsed] at read
      cases read
    | ok count =>
      rw [parsed] at read
      simp only [bind, Except.bind] at read ⊢
      split_ifs at read ⊢ <;> first | exact read | omega

theorem elementIn_mono (read : elementIn limits stack inMemory bytes = .ok (some (element, len))) :
    elementIn wider stack inMemory bytes = .ok (some (element, len)) := by
  obtain ⟨byte, behind, kind, stop, line, rfl, known, ends, meaning, taken⟩ :=
    elementIn_eq_some read
  simp only [elementIn, known, ends, readField_mono memory meaning]
  exact taken

theorem readIn_mono (read : readIn limits stack inMemory bytes = .ok (some (element, len))) :
    readIn wider stack inMemory bytes = .ok (some (element, len)) := by
  unfold readIn at read ⊢
  split at read
  · cases read
  · next kept =>
    rw [if_neg kept]
    exact elementIn_mono memory read

theorem fillIn_mono {value : Frame} {placed : Placed}
    (filled : fillIn limits stack inMemory value = .ok placed) :
    fillIn wider stack inMemory value = .ok placed := by
  induction stack generalizing inMemory value with
  | nil =>
    unfold fillIn at filled ⊢
    split_ifs at filled ⊢ <;> first | exact filled | omega
  | cons top rest induction =>
    unfold fillIn at filled ⊢
    split_ifs at filled ⊢ <;> first | exact induction filled | exact filled | omega

theorem placeIn_mono {placed : Placed}
    (filled : placeIn limits stack inMemory element = .ok placed) :
    placeIn wider stack inMemory element = .ok placed := by
  unfold placeIn at filled ⊢
  split at filled
  · exact fillIn_mono memory filled
  · split at filled
    · next zero =>
      rw [if_pos zero]
      exact fillIn_mono memory filled
    · next nonzero =>
      rw [if_neg nonzero]
      exact filled

theorem frameIn_mono (length : limits.maxFrameBytes ≤ wider.maxFrameBytes) {count : Nat}
    (reads : frameIn limits stack inMemory taken bytes = .ok (some (frame, count))) :
    frameIn wider stack inMemory taken bytes = .ok (some (frame, count)) := by
  revert reads
  fun_induction frameIn limits stack inMemory taken bytes generalizing count with
  | case1 | case3 => rintro ⟨⟩
  | case2 stack inMemory taken bytes read =>
    intro reads
    cases (map_check_eq_ok reads).2
  | case4 stack inMemory taken bytes element len read frame placed =>
    intro reads
    obtain ⟨bound, same⟩ := map_check_eq_ok reads
    rw [frameIn_whole (readIn_mono memory read) (placeIn_mono memory placed), checkFrameBytes,
      if_neg (by omega), same]
    rfl
  | case5 stack inMemory taken bytes element len read outer charged placed induction =>
    intro reads
    obtain ⟨rest, later, rfl⟩ := map_further_eq_some reads
    rw [frameIn_within (readIn_mono memory read) (placeIn_mono memory placed), induction later]
    rfl

end Wider

theorem frameIn_cost {count : Nat} (account : inMemory = held stack)
    (within : inMemory ≤ limits.maxInMemory)
    (reads : frameIn limits stack inMemory taken bytes = .ok (some (frame, count))) :
    frame.cost ≤ limits.maxInMemory := by
  revert account within reads
  fun_induction frameIn limits stack inMemory taken bytes generalizing count with
  | case1 | case3 => rintro _ _ ⟨⟩
  | case2 stack inMemory taken bytes read =>
    intro _ _ reads
    cases (map_check_eq_ok reads).2
  | case4 stack inMemory taken bytes element len read frame placed =>
    intro account within reads
    have cost := placeIn_accounted account within read placed
    cases (map_check_eq_ok reads).2
    exact cost
  | case5 stack inMemory taken bytes element len read outer charged placed induction =>
    intro account within reads
    obtain ⟨later, bound⟩ := placeIn_accounted account within read placed
    obtain ⟨rest, found, _⟩ := map_further_eq_some reads
    exact induction later bound found

end Decoding

/-- A decoder fed and drained in any way. -/
inductive Fed (limits : DecoderLimits) : Decoder → Prop where
  | new : Fed limits (.new limits)
  | feed {decoder : Decoder} (fed : Fed limits decoder) (bytes : Bytes) :
      Fed limits (decoder.feed bytes)
  | tried {decoder after : Decoder} {frame : Option Frame} (fed : Fed limits decoder)
      (tried : decoder.tryNext = .ok (frame, after)) : Fed limits after

theorem Fed.inStep (fed : Fed limits decoder) :
    decoder.InStep ∧ decoder.limits = limits := by
  induction fed with
  | new => exact ⟨(Decoder.dry_new limits).toInStep, rfl⟩
  | feed _ bytes induction =>
    obtain ⟨inStep, _, same⟩ := induction.1.feed bytes
    exact ⟨inStep, same.trans induction.2⟩
  | tried _ tried induction =>
    have trying := induction.1.tryNext
    rw [tried] at trying
    cases trying with
    | waits dry same => exact ⟨dry.toInStep, same.trans induction.2⟩
    | frame inStep same => exact ⟨inStep, same.trans induction.2⟩

/-- The first frame the decoder delivers is the frame the bytes begin with. -/
theorem Decoder.InStep.decode_head? (reads : List Bytes) :
    ∀ {decoder : Decoder}, decoder.InStep → (decoder.decode reads).1.head? = some frame →
      ∃ count, Decoding.frameOf decoder.limits .new (decoder.rest ++ reads.flatten) =
        .ok (some (frame, count)) := by
  induction reads with
  | nil => exact nofun
  | cons read reads induction =>
    intro decoder inStep delivered
    obtain ⟨fed, grown, limits⟩ := inStep.feed read
    have trying := fed.tryNext
    rw [List.flatten_cons, ← List.append_assoc, ← grown, ← limits]
    rw [Decoder.decode, Decoder.drain, Decoder.drainLoop] at delivered
    generalize (decoder.feed read).tryNext = result at trying delivered
    cases trying with
    | refused => cases delivered
    | waits dry same remains =>
      obtain ⟨count, reads⟩ := induction dry.toInStep delivered
      rw [same, remains] at reads
      exact ⟨_, by rw [frameOf_skip, reads]; rfl⟩
    | @frame first after count _ _ _ _ _ reads =>
      refine ⟨count, ?_⟩
      dsimp only at delivered
      generalize after.drainLoop (decoder.feed read).buffered = drained at delivered
      obtain ⟨frames, last⟩ := drained
      cases last with
      | error | ok =>
        cases delivered
        exact reads _

theorem Frame.Spells.typed {depth : Nat} {wire : Bytes} (spells : frame.Spells depth wire) :
    ∃ byte behind, wire = byte :: behind ∧ byte ≠ 13 := by
  cases spells <;> exact ⟨_, _, rfl, by decide⟩

/-- What is delivered where a frame is spelled is that frame, within the limits. -/
theorem frameOf_spells_iff {wire : Bytes} (spells : frame.Spells maxArrayDepth wire)
    (rest : Bytes) :
    (∃ count, frameOf limits .new (wire ++ rest) = .ok (some (frame, count))) ↔
      wire.length ≤ limits.maxFrameBytes ∧ frame.cost ≤ limits.maxInMemory := by
  constructor
  · rintro ⟨count, reads⟩
    let wider : DecoderLimits :=
      ⟨max limits.maxFrameBytes wire.length, max limits.maxInMemory frame.cost⟩
    have whole : frameOf wider .new (wire ++ rest) = .ok (some (frame, wire.length)) :=
      frameOf_spells spells (Nat.le_max_right _ _) (Nat.le_max_right _ _) rest
    have same : frameOf wider .new (wire ++ rest) = .ok (some (frame, count)) :=
      frameIn_mono (Nat.le_max_left _ _) (Nat.le_max_left _ _) reads
    cases whole.symm.trans same
    obtain ⟨byte, behind, front, other⟩ := spells.typed
    have unskipped : skipIn [] (wire ++ rest) = (0, false) := by
      rw [front]
      exact emptyLines_cons other _
    have bound := frameIn_bound reads
    rw [Decoding.new, unskipped, Option.elim] at bound
    exact ⟨by simpa using bound, frameIn_cost rfl (Nat.zero_le _) reads⟩
  · rintro ⟨length, memory⟩
    exact ⟨_, frameOf_spells spells memory length rest⟩

section Behind

variable {limits : DecoderLimits} (positive : 1 ≤ limits.maxFrameBytes)

include positive

theorem head?_parseAll (buf : Bytes) : (parseAll limits buf).1.head? = some frame ↔
    ∃ count, frameOf limits .new buf = .ok (some (frame, count)) := by
  cases found : frameOf limits .new buf with
  | error error => simp [parseAll_refused positive found]
  | ok one =>
    rcases one with _ | ⟨first, count⟩
    · simp [parseAll_waits positive found]
    · simp [parseAll_frame positive found]

/-- Behind an input that ends with a frame, decoding begins anew. -/
theorem parseAll_append {front : Bytes} {frames : List Frame}
    (clean : parseAll limits front = (frames, .clean)) (more : Bytes) :
    parseAll limits (front ++ more) =
      (frames ++ (parseAll limits more).1, (parseAll limits more).2) := by
  obtain ⟨fed, grown, same⟩ := (Decoder.dry_new limits).toInStep.feed front
  change _ = front at grown
  change _ = limits at same
  have drained := fed.drainLoop _ (same ▸ positive) (Nat.lt_succ_self _)
  rw [grown, same] at drained
  rcases drained with ⟨_, _, _, refuses⟩ | ⟨told, after, _, dry, kept, goes⟩
  · have refused := refuses []
    rw [List.append_nil, clean] at refused
    cases refused
  · have waits := dry.waits
    rw [kept] at waits
    have whole := goes []
    rw [List.append_nil, List.append_nil, clean, parseAll_waits positive waits, dry.begun] at whole
    obtain ⟨rfl, verdict⟩ := Prod.mk.inj whole
    have emptied : after.rest = [] := by
      by_contra filled
      rw [if_neg (mt List.length_eq_zero_iff.mp filled)] at verdict
      cases verdict
    rw [goes, emptied, List.append_nil, List.nil_append]

end Behind

/-- The decoder's budgets are exact.  However the input is cut into feeds, a frame
spelled at its front is delivered exactly when its bytes and its whole cost are
within the limits, and so is one spelled behind frames that were delivered and empty
lines; and whatever is fed, between any two elements the arrays being filled hold no
more than the limit on memory. -/
theorem budgets_exact (limits : DecoderLimits) :
    (∀ (frame : Frame) (wire : Bytes), frame.Spells maxArrayDepth wire →
      ∀ (reads : List Bytes) (rest : Bytes), (reads.flatten = wire ++ rest →
        (((Decoder.new limits).decode reads).1.head? = some frame ↔
          wire.length ≤ limits.maxFrameBytes ∧ frame.cost ≤ limits.maxInMemory)) ∧
        ∀ (front : Bytes) (frames : List Frame), 1 ≤ limits.maxFrameBytes →
          parseAll limits front = (frames, .clean) → reads.flatten = front ++ (wire ++ rest) →
          (((Decoder.new limits).decode reads).1[frames.length]? = some frame ↔
            wire.length ≤ limits.maxFrameBytes ∧ frame.cost ≤ limits.maxInMemory)) ∧
      ∀ decoder, Fed limits decoder → ∀ state,
        Relation.ReflTransGen (fun first second => turn limits decoder.buf first = .again second)
          decoder.state state →
        held state.stack ≤ limits.maxInMemory := by
  constructor
  · intro frame wire spells reads rest
    rw [← frameOf_spells_iff spells rest]
    refine ⟨fun input => ⟨fun delivered => ?_, fun within => ?_⟩,
      fun front frames positive clean input => ?_⟩
    · have found := (Decoder.dry_new limits).toInStep.decode_head? reads delivered
      rwa [input] at found
    · obtain ⟨byte, behind, rfl, _⟩ := spells.typed
      have length := ((frameOf_spells_iff spells rest).mp within).1
      have positive : 1 ≤ limits.maxFrameBytes := Nat.le_trans (Nat.le_add_left ..) length
      rw [(Decoder.dry_new limits).decode reads positive, input]
      exact (head?_parseAll positive _).mpr within
    · have whole : (Decoder.new limits).decode reads = parseAll limits reads.flatten :=
        (Decoder.dry_new limits).decode reads positive
      rw [whole, input, parseAll_append positive clean, List.getElem?_append_right (Nat.le_refl _),
        Nat.sub_self, ← List.head?_eq_getElem?]
      exact head?_parseAll positive _
  · intro decoder fed state turns
    obtain ⟨inStep, rfl⟩ := fed.inStep
    have sane : Sane decoder.limits decoder.buf state := by
      induction turns with
      | refl => exact inStep.sane
      | tail _ turned sane =>
        have turning := turned_turn sane
        rw [turned] at turning
        cases turning with
        | again kept => exact kept
    rw [← sane.account]
    exact sane.affordable

/-- The limits hold one element of two bytes, and its array, to the byte: at the front, and
behind a status and an empty line. -/
theorem budgets_exact_array :
    ((Decoder.new ⟨13, 82⟩).decode [ascii "*01\r\n$2\r", ascii "\nhi\r\n"]).1.head? =
        some (.array [.bulk (ascii "hi")]) ∧
      ((Decoder.new ⟨13, 82⟩).decode
          [ascii "+a\r\n\r", ascii "\n*01\r\n$2\r", ascii "\nhi\r\n"]).1[1]? =
        some (.array [.bulk (ascii "hi")]) ∧
      held (Decoder.new ⟨13, 82⟩).state.stack ≤ 82 := by
  have digit (text : Bytes) (value : Nat) (filled : text ≠ []) (all : text.all isAsciiDigit = true)
      (same : digitsValue text = value) (range : inI64 (digitsValue text) = true) :
      Numeral text value := same ▸ .positive filled all range
  have element : Frame.Spells 63 (.bulk (ascii "hi")) (ascii "$2\r\nhi\r\n") :=
    @Frame.Spells.bulk 63 (ascii "2") (ascii "hi")
      (digit (ascii "2") 2 (by decide) (by decide) (by decide) (by decide))
      (by decide)
  have spells : Frame.Spells maxArrayDepth (.array [.bulk (ascii "hi")])
      (ascii "*01\r\n$2\r\nhi\r\n") :=
    @Frame.Spells.array 63 (ascii "01") _ _
      (digit (ascii "01") 1 (by decide) (by decide) (by decide) (by decide))
      (by decide) (.cons element .nil)
  obtain ⟨delivers, bounded⟩ := budgets_exact ⟨13, 82⟩
  have status : parseAll ⟨13, 82⟩ (ascii "+a\r\n\r\n") = ([.simple (ascii "a")], .clean) := rfl
  exact ⟨((delivers _ _ spells _ []).1 (by decide)).mpr (by decide),
    ((delivers _ _ spells _ []).2 _ _ (by decide) status (by decide)).mpr (by decide),
    bounded _ .new _ .refl⟩

theorem Fed.buffered_le_of_waits {after : Decoder} (fed : Fed limits decoder)
    (waits : decoder.tryNext = .ok (none, after)) :
    after.buffered ≤ limits.maxFrameBytes := by
  obtain ⟨inStep, rfl⟩ := fed.inStep
  have trying := inStep.tryNext
  rw [waits] at trying
  cases trying with
  | waits dry same =>
    have bound : 0 + (after.rest.length - (emptyLines after.rest).1) ≤ after.limits.maxFrameBytes :=
      frameIn_bound dry.waits
    rwa [dry.begun, Nat.zero_add, Decoder.length_rest, same] at bound

end Seedstone
