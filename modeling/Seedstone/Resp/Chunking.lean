import Seedstone.Resp.Steps

/-!
# Packet boundaries do not show

A decoder fed in any pieces yields what the one-shot step yields when it is run
again and again from the front of the whole input.  The invariant is `InStep`:
whatever bytes follow, the frame the decoder's state makes of them is the frame
at the front of its undelivered bytes.
-/

namespace Seedstone

open Decoding

namespace Decoder

variable {decoder : Decoder}

/-- The bytes fed and not delivered. -/
def rest (decoder : Decoder) : Bytes :=
  decoder.buf.drop decoder.state.frameStart

structure InStep (decoder : Decoder) : Prop where
  sane : Sane decoder.limits decoder.buf decoder.state
  same : ∀ more, frameOf decoder.limits .new (decoder.rest ++ more) =
    (frameOf decoder.limits decoder.state (decoder.buf.drop decoder.state.scan ++ more)).map
      (further (decoder.state.scan - decoder.state.frameStart))

/-- It has asked for more. -/
structure Dry (decoder : Decoder) : Prop extends decoder.InStep where
  waits : frameOf decoder.limits .new decoder.rest = .ok none
  begun : (emptyLines decoder.rest).1 = 0

theorem sane_shiftBack (sane : Sane decoder.limits decoder.buf decoder.state) :
    Sane decoder.limits decoder.rest (decoder.state.shiftBack decoder.state.frameStart) := by
  have begun := sane.begun
  have inside := sane.inside
  have place : decoder.state.frameStart + (decoder.state.scan - decoder.state.frameStart) =
      decoder.state.scan := by omega
  have behind (more : Bytes) (count : Nat) : (decoder.rest ++ more).drop
      (decoder.state.scan - decoder.state.frameStart + count) =
      (decoder.buf ++ more).drop (decoder.state.scan + count) := by
    rw [rest, ← List.drop_append_of_le_length (Nat.le_trans begun inside), List.drop_drop,
      ← Nat.add_assoc, place]
  refine ⟨?_, ?_, ?_, ?_, ?_, sane.account, sane.affordable⟩
  · dsimp only [shiftBack]
    omega
  · dsimp only [shiftBack, rest]
    rw [List.length_drop]
    omega
  · intro outside
    have := sane.anchored outside
    dsimp only [shiftBack]
    omega
  · intro within
    have typed := sane.typed (within.imp_right fun unstarted part => unstarted (by
      simp only [shiftBack, part]))
    simpa [shiftBack, rest] using typed
  · have resumes := sane.resumes
    unfold Resumes at resumes ⊢
    cases part : decoder.state.part with
    | start => simp only [shiftBack, part]
    | line scanned =>
      rw [part] at resumes
      simp only [shiftBack, part]
      refine ⟨by omega, fun more stop ends => ?_⟩
      rw [behind] at ends
      have := resumes.2 more stop ends
      omega
    | bulkBody header len =>
      rw [part] at resumes
      simp only [shiftBack, part]
      intro more
      have same := behind more 0
      rw [Nat.add_zero, Nat.add_zero] at same
      rw [same]
      exact resumes more

/-- Compacting drops delivered bytes, and nothing else. -/
theorem InStep.compact (inStep : decoder.InStep) :
    decoder.compact.InStep ∧ decoder.compact.rest = decoder.rest ∧
      decoder.compact.state.frameStart = 0 ∧ decoder.compact.limits = decoder.limits := by
  unfold Decoder.compact
  dsimp only
  by_cases zero : decoder.state.frameStart = 0
  · rw [if_pos zero]
    exact ⟨inStep, rfl, zero, rfl⟩
  · rw [if_neg zero]
    have begun := inStep.sane.begun
    have front : decoder.state.frameStart - decoder.state.frameStart = 0 := Nat.sub_self _
    have place : decoder.state.frameStart + (decoder.state.scan - decoder.state.frameStart) =
        decoder.state.scan := by omega
    have same : rest { decoder with
        buf := decoder.buf.drop decoder.state.frameStart
        state := decoder.state.shiftBack decoder.state.frameStart } = decoder.rest := by
      simp only [rest, shiftBack, front, List.drop_zero]
    refine ⟨⟨sane_shiftBack inStep.sane, fun more => ?_⟩, same, front, rfl⟩
    rw [same]
    refine (inStep.same more).trans ?_
    simp only [frameOf, shiftBack, List.drop_drop, front, place, Nat.sub_zero]

theorem InStep.feed (inStep : decoder.InStep) (bytes : Bytes) :
    (decoder.feed bytes).InStep ∧ (decoder.feed bytes).rest = decoder.rest ++ bytes ∧
      (decoder.feed bytes).limits = decoder.limits := by
  obtain ⟨compacted, same, zero, limits⟩ := inStep.compact
  have grown : (decoder.feed bytes).rest = decoder.rest ++ bytes := by
    rw [← same, rest, rest, Decoder.feed]
    dsimp only
    rw [zero, List.drop_zero, List.drop_zero]
  refine ⟨⟨compacted.sane.append bytes, fun more => ?_⟩, grown, limits⟩
  have inside := compacted.sane.inside
  rw [grown, Decoder.feed, ← same]
  dsimp only
  rw [List.drop_append_of_le_length inside, List.append_assoc, List.append_assoc]
  exact compacted.same (bytes ++ more)

/-- What the decoder comes to on the bytes it has is what the bytes come to. -/
inductive Tried (decoder : Decoder) : Except ParseError (Option Frame × Decoder) → Prop where
  | refused {error : ParseError}
      (refuses : 1 ≤ decoder.limits.maxFrameBytes → ∀ more, ∃ later,
        frameOf decoder.limits .new (decoder.rest ++ more) = .error later) :
      Tried decoder (.error error)
  | waits {after : Decoder} (dry : after.Dry) (limits : after.limits = decoder.limits)
      (remains : after.rest = decoder.rest.drop (emptyLines decoder.rest).1) :
      Tried decoder (.ok (none, after))
  | frame {frame : Frame} {after : Decoder} {count : Nat} (inStep : after.InStep)
      (limits : after.limits = decoder.limits) (remains : after.rest = decoder.rest.drop count)
      (positive : 0 < count) (inside : count ≤ decoder.rest.length)
      (reads : ∀ more, frameOf decoder.limits .new (decoder.rest ++ more) =
        .ok (some (frame, count))) :
      Tried decoder (.ok (some frame, after))

theorem InStep.tryNext (inStep : decoder.InStep) : decoder.Tried decoder.tryNext := by
  have begun := inStep.sane.begun
  have within := inStep.sane.inside
  have stepped := stepped_step inStep.sane
  unfold Decoder.tryNext
  generalize decoder.state.step decoder.buf decoder.limits = result at stepped
  cases stepped with
  | refused refuses =>
    refine .refused fun positive more => ?_
    obtain ⟨later, refused⟩ := refuses positive more
    exact ⟨later, by rw [inStep.same, refused]; rfl⟩
  | @waits next sane front after unread resumes =>
    have skipped : (skipIn decoder.state.stack (decoder.buf.drop decoder.state.scan)).1 =
        (emptyLines decoder.rest).1 := by
      by_cases outside : decoder.state.stack = []
      · rw [rest, inStep.sane.anchored outside, outside]
        rfl
      · rw [skipIn_inside outside, rest, inStep.sane.emptyLines_eq (Or.inl outside)]
    rw [skipped] at front
    let middle : Decoder := { decoder with state := next }
    have remains : middle.rest = decoder.rest.drop (emptyLines decoder.rest).1 := by
      simp only [middle, rest, front, List.drop_drop]
    have bound := (emptyLines_append decoder.rest []).1
    have skip (more : Bytes) : frameOf decoder.limits .new (decoder.rest ++ more) =
        (frameOf decoder.limits .new (middle.rest ++ more)).map
          (further (emptyLines decoder.rest).1) := by
      rw [remains]
      exact frameOf_skip _ _
    have kept : middle.InStep := by
      refine ⟨sane, fun more => ?_⟩
      have here := inStep.same more
      have later := sane.begun
      have count : decoder.state.scan - decoder.state.frameStart +
          (next.scan - decoder.state.scan) =
          (emptyLines decoder.rest).1 + (next.scan - next.frameStart) := by omega
      rw [resumes, skip, map_further, count, ← map_further] at here
      exact map_further_injective here
    have unread' : frameOf decoder.limits .new middle.rest = .ok none := by
      have here := inStep.same []
      have front' := skip []
      rw [List.append_nil, List.append_nil] at here front'
      rw [unread, front'] at here
      exact map_further_injective here
    have settled : (emptyLines middle.rest).1 = 0 := by
      have again := congrArg Prod.fst (emptyLines_append decoder.rest []).2
      rw [List.append_nil, ← remains] at again
      dsimp only at again
      omega
    obtain ⟨compacted, same, _, limits⟩ := kept.compact
    exact .waits ⟨compacted, by rw [same, limits]; exact unread', by rw [same]; exact settled⟩
      limits (same.trans remains)
  | @frame frame next after inside emptied reads =>
    let finished : Decoder := { decoder with state := next.finishFrame }
    have count : next.scan - decoder.state.frameStart =
        decoder.state.scan - decoder.state.frameStart + (next.scan - decoder.state.scan) := by
      omega
    have remains : finished.rest = decoder.rest.drop (next.scan - decoder.state.frameStart) := by
      have place : decoder.state.frameStart + (next.scan - decoder.state.frameStart) =
          next.scan := by omega
      rw [rest, rest, List.drop_drop, place]
      rfl
    have begins : finished.InStep := by
      refine ⟨⟨Nat.le_refl _, inside, fun _ => rfl, ?_, trivial, ?_, Nat.zero_le _⟩,
        fun more => ?_⟩
      · exact fun begun => absurd begun (not_or.mpr ⟨not_not_intro emptied, not_not_intro rfl⟩)
      · simp only [finished, finishFrame, emptied]
        rfl
      · simp only [finished, frameOf, finishFrame, emptied, Nat.sub_self, map_further_zero]
        rfl
    refine .frame begins rfl remains (by omega) ?_ fun more => ?_
    · rw [rest, List.length_drop]
      omega
    · rw [inStep.same, reads, count]
      rfl

end Decoder

section

variable {limits : DecoderLimits}

section

variable (positive : 1 ≤ limits.maxFrameBytes) {buf : Bytes}

include positive

theorem step_new (buf : Bytes) :
    match frameOf limits .new buf with
    | .error _ => ∃ error, Decoding.new.step buf limits = .error error
    | .ok none => ∃ state, Decoding.new.step buf limits = .ok (none, state) ∧
        state.frameStart = (emptyLines buf).1
    | .ok (some (frame, count)) => 0 < count ∧ count ≤ buf.length ∧ ∃ state,
        state.scan = count ∧ Decoding.new.step buf limits = .ok (some frame, state) := by
  have stepped := stepped_step (sane_new limits buf)
  generalize Decoding.new.step buf limits = result at stepped ⊢
  cases stepped with
  | @refused error refuses =>
    obtain ⟨later, refused⟩ := refuses positive []
    rw [List.append_nil, Decoding.new, List.drop_zero, ← Decoding.new] at refused
    rw [refused]
    exact ⟨error, rfl⟩
  | @waits state _ front _ unread =>
    rw [Decoding.new, Nat.zero_add] at front
    have here : frameOf limits .new buf = .ok none := unread
    rw [here]
    exact ⟨state, rfl, front⟩
  | @frame frame state after inside _ reads =>
    have here : frameOf limits .new (buf ++ []) = .ok (some (frame, state.scan)) := reads []
    rw [List.append_nil] at here
    rw [here]
    exact ⟨after, inside, state, rfl, rfl⟩

theorem parseAllLoop_stable (fuel : Nat) :
    ∀ {buf : Bytes}, buf.length < fuel →
      parseAllLoop limits fuel buf = parseAllLoop limits (fuel + 1) buf := by
  induction fuel with
  | zero =>
    intro buf short
    omega
  | succ fuel induction =>
    intro buf short
    rw [parseAllLoop, parseAllLoop]
    have new := step_new positive buf
    split at new
    · obtain ⟨_, stepped⟩ := new
      rw [stepped]
    · obtain ⟨_, stepped, _⟩ := new
      rw [stepped]
    · obtain ⟨after, inside, state, rfl, stepped⟩ := new
      have left : (buf.drop state.scan).length < fuel := by
        rw [List.length_drop]
        omega
      rw [stepped]
      dsimp only
      rw [induction left]

theorem parseAllLoop_eq {fuel : Nat} (enough : buf.length < fuel) :
    parseAllLoop limits fuel buf = parseAll limits buf := by
  induction fuel with
  | zero => omega
  | succ fuel induction =>
    by_cases exact : buf.length = fuel
    · rw [parseAll, exact]
    · rw [← parseAllLoop_stable positive fuel (by omega)]
      exact induction (by omega)

theorem parseAll_refused {error : ParseError}
    (reads : frameOf limits .new buf = .error error) : parseAll limits buf = ([], .refused) := by
  have new := step_new positive buf
  rw [reads] at new
  obtain ⟨_, stepped⟩ := new
  rw [parseAll, parseAllLoop, stepped]

theorem parseAll_waits (reads : frameOf limits .new buf = .ok none) :
    parseAll limits buf = ([], if buf.length = (emptyLines buf).1 then .clean else .waiting) := by
  have new := step_new positive buf
  rw [reads] at new
  obtain ⟨_, stepped, front⟩ := new
  rw [parseAll, parseAllLoop, stepped]
  dsimp only
  rw [front]

theorem parseAll_frame {frame : Frame} {count : Nat}
    (reads : frameOf limits .new buf = .ok (some (frame, count))) :
    parseAll limits buf = (frame :: (parseAll limits (buf.drop count)).1,
      (parseAll limits (buf.drop count)).2) := by
  have new := step_new positive buf
  rw [reads] at new
  obtain ⟨after, inside, state, rfl, stepped⟩ := new
  have left : (buf.drop state.scan).length < buf.length := by
    rw [List.length_drop]
    omega
  rw [parseAll, parseAllLoop, stepped]
  dsimp only
  rw [parseAllLoop_eq positive left]

theorem parseAll_skip (bytes more : Bytes) :
    parseAll limits (bytes ++ more) =
      parseAll limits (bytes.drop (emptyLines bytes).1 ++ more) := by
  obtain ⟨bound, lines⟩ := emptyLines_append bytes more
  have whole : (bytes ++ more).drop (emptyLines bytes).1 =
      bytes.drop (emptyLines bytes).1 ++ more := List.drop_append_of_le_length bound
  have skipped : frameOf limits .new (bytes ++ more) = _ := frameOf_skip bytes more
  cases reads : frameOf limits .new (bytes.drop (emptyLines bytes).1 ++ more) with
  | error error =>
    rw [reads] at skipped
    rw [parseAll_refused positive reads, parseAll_refused positive skipped]
  | ok found =>
    rw [reads] at skipped
    cases found with
    | none =>
      have length : (bytes ++ more).length =
          (emptyLines bytes).1 + (bytes.drop (emptyLines bytes).1 ++ more).length := by
        rw [← whole, List.length_drop]
        have : bytes.length ≤ (bytes ++ more).length := by simp
        omega
      rw [parseAll_waits positive reads, parseAll_waits positive skipped, length, lines, whole]
      simp only [Nat.add_left_cancel_iff]
    | some one =>
      rw [parseAll_frame positive reads, parseAll_frame positive skipped, ← List.drop_drop, whole]

end

namespace Decoder

theorem length_rest (decoder : Decoder) : decoder.rest.length = decoder.buffered := by
  rw [rest, buffered, List.length_drop]

/-- Draining a decoder delivers the frames at the front of the whole input, whatever
follows. -/
theorem InStep.drainLoop (fuel : Nat) :
    ∀ {decoder : Decoder}, decoder.InStep → 1 ≤ decoder.limits.maxFrameBytes →
      decoder.rest.length < fuel →
      (∃ frames error, decoder.drainLoop fuel = (frames, .error error) ∧
          ∀ more, parseAll decoder.limits (decoder.rest ++ more) = (frames, .refused)) ∨
        ∃ frames after, decoder.drainLoop fuel = (frames, .ok after) ∧ after.Dry ∧
          after.limits = decoder.limits ∧
          ∀ more, parseAll decoder.limits (decoder.rest ++ more) =
            (frames ++ (parseAll decoder.limits (after.rest ++ more)).1,
              (parseAll decoder.limits (after.rest ++ more)).2) := by
  induction fuel with
  | zero =>
    intro decoder _ _ short
    omega
  | succ fuel induction =>
    intro decoder inStep positive short
    have tried := inStep.tryNext
    unfold Decoder.drainLoop
    generalize decoder.tryNext = result at tried
    cases tried with
    | @refused error refuses =>
      refine Or.inl ⟨[], error, rfl, fun more => ?_⟩
      obtain ⟨later, refused⟩ := refuses positive more
      exact parseAll_refused positive refused
    | @waits after dry limits remains =>
      refine Or.inr ⟨[], after, rfl, dry, limits, fun more => ?_⟩
      rw [remains, List.nil_append]
      exact parseAll_skip positive _ _
    | @frame frame middle count kept limits remains some inside reads =>
      have left : middle.rest.length < fuel := by
        rw [remains, List.length_drop]
        omega
      have front (more : Bytes) : parseAll decoder.limits (decoder.rest ++ more) =
          (frame :: (parseAll decoder.limits (middle.rest ++ more)).1,
            (parseAll decoder.limits (middle.rest ++ more)).2) := by
        rw [parseAll_frame positive (reads more), List.drop_append_of_le_length inside, remains]
      rw [← limits] at positive front
      dsimp only
      rcases induction kept positive left with
        ⟨frames, error, drained, refuses⟩ | ⟨frames, after, drained, dry, same, goes⟩
      · rw [drained]
        refine Or.inl ⟨frame :: frames, error, rfl, fun more => ?_⟩
        rw [← limits, front, refuses]
      · rw [drained]
        refine Or.inr ⟨frame :: frames, after, rfl, dry, same.trans limits, fun more => ?_⟩
        rw [← limits, front, goes]
        rfl

theorem Dry.decode (reads : List Bytes) :
    ∀ {decoder : Decoder}, decoder.Dry → 1 ≤ decoder.limits.maxFrameBytes →
      decoder.decode reads = parseAll decoder.limits (decoder.rest ++ reads.flatten) := by
  induction reads with
  | nil =>
    intro decoder dry positive
    rw [List.flatten_nil, List.append_nil, parseAll_waits positive dry.waits, dry.begun,
      length_rest]
    rfl
  | cons read reads induction =>
    intro decoder dry positive
    obtain ⟨fed, grown, limits⟩ := dry.toInStep.feed read
    rw [← limits] at positive
    rw [List.flatten_cons, ← List.append_assoc, ← grown, ← limits, Decoder.decode, drain]
    rcases fed.drainLoop _ positive (by rw [length_rest]; exact Nat.lt_succ_self _) with
      ⟨frames, error, drained, refuses⟩ | ⟨frames, after, drained, dried, same, goes⟩
    · rw [drained, refuses]
    · rw [drained, goes]
      dsimp only
      rw [induction dried (same ▸ positive), same]

theorem dry_new (limits : DecoderLimits) : (new limits).Dry := by
  refine ⟨⟨sane_new _ _, fun more => ?_⟩, ?_, rfl⟩
  · exact (map_further_zero _).symm
  · have read : readIn limits [] 0 [] = .ok none := rfl
    rw [frameOf]
    refine (frameIn_waits read).trans ?_
    rw [checkFrameBytes, if_neg (by simp [Decoding.new, skipIn, emptyLines])]
    rfl

end Decoder

/-- However a byte string is cut into feeds, with every feed drained before the next,
the decoder yields the frames and the verdict of the one-shot step run again and
again from the front of what is left of the whole string; so any two cuts yield
the same. -/
theorem decode_eq_parseAll (limits : DecoderLimits) (positive : 1 ≤ limits.maxFrameBytes)
    (bytes : Bytes) (first second : List Bytes) (one : first.flatten = bytes)
    (two : second.flatten = bytes) :
    (Decoder.new limits).decode first = parseAll limits bytes ∧
      (Decoder.new limits).decode first = (Decoder.new limits).decode second := by
  have whole (reads : List Bytes) :
      (Decoder.new limits).decode reads = parseAll limits reads.flatten :=
    (Decoder.dry_new limits).decode reads positive
  rw [whole, whole, one, two]
  exact ⟨rfl, rfl⟩

/-- A request behind an empty line, cut inside its array and its bulk string. -/
theorem decode_eq_parseAll_ping :
    (Decoder.new .standard).decode
        [ascii "\r\n*1\r\n$4\r", ascii "\nPI", ascii "NG\r\n*"] =
        ([.array [.bulk (ascii "PING")]], .waiting) ∧
      parseAll .standard (ascii "\r\n*1\r\n$4\r\nPING\r\n*") =
        ([.array [.bulk (ascii "PING")]], .waiting) := by
  have decoded : (Decoder.new .standard).decode
      [ascii "\r\n*1\r\n$4\r", ascii "\nPI", ascii "NG\r\n*"] =
      ([.array [.bulk (ascii "PING")]], .waiting) := by
    rfl
  obtain ⟨same, _⟩ := decode_eq_parseAll .standard (by decide)
    (ascii "\r\n*1\r\n$4\r\nPING\r\n*")
    [ascii "\r\n*1\r\n$4\r", ascii "\nPI", ascii "NG\r\n*"]
    [ascii "\r\n*1\r\n$4\r\nPING\r\n*"] (by decide +kernel) (by decide +kernel)
  exact ⟨decoded, same ▸ decoded⟩

end

end Seedstone
