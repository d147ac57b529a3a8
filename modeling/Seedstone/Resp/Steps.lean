import Seedstone.Resp.Element

/-!
# Reading a frame

`frameIn` reads the frame at the front of some bytes, one element after another,
each placed in the innermost array still being filled.  The loop of `step`
refines it: whatever follows the buffer, a frame it delivers and a refusal are
those of the bytes, and where it waits, the frame is what the state it leaves
makes of it.
-/

namespace Seedstone

namespace Decoding

variable {outer : List PendingArray} {charged count : Nat} {frame : Frame}

/-- What placing a value comes to: a whole frame, or arrays still being filled. -/
inductive Placed where
  | whole (frame : Frame)
  | within (stack : List PendingArray) (inMemory : Nat)

/-- `placeValue`, of the arrays and of what is in memory. -/
def fillIn (limits : DecoderLimits) :
    List PendingArray → Nat → Frame → Except ParseError Placed
  | [], inMemory, value =>
    if limits.maxInMemory - inMemory < frameSize + value.payloadBytes then
      .error (.overBudget limits.maxInMemory)
    else
      .ok (.whole value)
  | top :: rest, inMemory, value =>
    if limits.maxInMemory - inMemory < frameSize + value.payloadBytes then
      .error (.overBudget limits.maxInMemory)
    else if top.remaining - 1 = 0 then
      fillIn limits rest (inMemory + (frameSize + value.payloadBytes))
        (.array (top.elements ++ [value]))
    else
      .ok (.within (⟨top.remaining - 1, top.elements ++ [value]⟩ :: rest)
        (inMemory + (frameSize + value.payloadBytes)))

def placeIn (limits : DecoderLimits) (stack : List PendingArray) (inMemory : Nat) :
    Element → Except ParseError Placed
  | .value frame => fillIn limits stack inMemory frame
  | .arrayHeader count =>
    if count = 0 then
      fillIn limits stack inMemory (.array [])
    else
      .ok (.within (⟨count, []⟩ :: stack) inMemory)

/-- The state behind a placed value. -/
def placed (state : Decoding) : Placed → Option Frame × Decoding
  | .whole frame => (some frame, { state with stack := [], inMemory := 0 })
  | .within stack inMemory => (none, { state with stack := stack, inMemory := inMemory })

variable {limits : DecoderLimits} {stack : List PendingArray} {inMemory taken : Nat}
  {bytes buf : Bytes} {state next : Decoding} {element : Element} {len : Nat}

theorem placeValue_eq (stack : List PendingArray) (state : Decoding) (value : Frame) :
    placeValue limits stack state value =
      (fillIn limits stack state.inMemory value).map state.placed := by
  induction stack generalizing state value with
  | nil =>
    unfold placeValue fillIn charge afford headroom
    by_cases dear : limits.maxInMemory - state.inMemory < frameSize + value.payloadBytes
    · simp only [if_pos dear, bind, Except.bind, Except.map]
    · simp only [if_neg dear, bind, Except.bind, Except.map, placed]
  | cons top rest induction =>
    unfold placeValue fillIn charge afford headroom
    by_cases dear : limits.maxInMemory - state.inMemory < frameSize + value.payloadBytes
    · simp only [if_pos dear, bind, Except.bind, Except.map]
    · simp only [if_neg dear, bind, Except.bind]
      by_cases filled : top.remaining - 1 = 0
      · simp only [if_pos filled, induction]
        rfl
      · simp only [if_neg filled, Except.map, placed]

theorem place_eq (state : Decoding) (element : Element) :
    state.place element limits =
      (placeIn limits state.stack state.inMemory element).map state.placed := by
  cases element with
  | value frame => exact placeValue_eq _ _ _
  | arrayHeader count =>
    unfold place placeIn
    dsimp only
    split
    · exact placeValue_eq _ _ _
    · rfl

theorem fillIn_within {value : Frame}
    (filled : fillIn limits stack inMemory value = .ok (.within outer charged)) : outer ≠ [] := by
  induction stack generalizing inMemory value with
  | nil =>
    unfold fillIn at filled
    split at filled <;> cases filled
  | cons top rest induction =>
    unfold fillIn at filled
    split at filled
    · cases filled
    · split at filled
      · exact induction filled
      · cases filled
        exact List.cons_ne_nil _ _

theorem placeIn_within
    (placed : placeIn limits stack inMemory element = .ok (.within outer charged)) :
    outer ≠ [] := by
  unfold placeIn at placed
  split at placed
  · exact fillIn_within placed
  · split at placed
    · exact fillIn_within placed
    · cases placed
      exact List.cons_ne_nil _ _

/-- The element behind the empty lines there are. -/
def readIn (limits : DecoderLimits) (stack : List PendingArray) (inMemory : Nat)
    (bytes : Bytes) : Except ParseError (Option (Element × Nat)) :=
  if (skipIn stack bytes).2 then
    .ok none
  else
    elementIn limits stack inMemory (bytes.drop (skipIn stack bytes).1)

theorem readIn_bound (read : readIn limits stack inMemory bytes = .ok (some (element, len))) :
    3 ≤ len ∧ (skipIn stack bytes).1 + len ≤ bytes.length := by
  unfold readIn at read
  split at read
  · cases read
  · have bound := elementIn_bound read
    rw [List.length_drop] at bound
    omega

/-- A frame found so many bytes further on. -/
def further (count : Nat) (found : Option (Frame × Nat)) : Option (Frame × Nat) :=
  found.map fun one => (one.1, count + one.2)

theorem map_further (first second : Nat) (found : Except ParseError (Option (Frame × Nat))) :
    (found.map (further second)).map (further first) = found.map (further (first + second)) := by
  cases found with
  | error error => rfl
  | ok one =>
    cases one with
    | none => rfl
    | some one => simp [Except.map, further, Nat.add_assoc]

theorem map_further_zero (found : Except ParseError (Option (Frame × Nat))) :
    found.map (further 0) = found := by
  cases found with
  | error error => rfl
  | ok one => cases one <;> simp [Except.map, further]

theorem map_further_injective {first second : Except ParseError (Option (Frame × Nat))}
    (same : first.map (further count) = second.map (further count)) : first = second := by
  have inner : Function.Injective (further count) :=
    Option.map_injective fun one other equal => by
      have frames := congrArg Prod.fst equal
      have counts := congrArg Prod.snd equal
      exact Prod.ext frames (Nat.add_left_cancel counts)
  cases first with
  | error error => cases second <;> cases same; rfl
  | ok first =>
    cases second with
    | error error => cases same
    | ok second => rw [inner (Except.ok.inj same)]

theorem map_further_eq_some {total : Nat} {found : Except ParseError (Option (Frame × Nat))}
    (same : found.map (further count) = .ok (some (frame, total))) :
    ∃ rest, found = .ok (some (frame, rest)) ∧ total = count + rest := by
  cases found with
  | error error => cases same
  | ok one =>
    cases one with
    | none => cases same
    | some one =>
      cases same
      exact ⟨one.2, rfl, rfl⟩

theorem map_check_eq_ok {size : Nat} {made found : Option (Frame × Nat)}
    (same : (checkFrameBytes size limits).map (fun _ => made) = .ok found) :
    size ≤ limits.maxFrameBytes ∧ found = made := by
  unfold checkFrameBytes at same
  split at same
  · cases same
  · cases same
    exact ⟨by omega, rfl⟩

/-- The frame at the front, `taken` bytes of it read already, and how many bytes
more it takes. -/
def frameIn (limits : DecoderLimits) (stack : List PendingArray) (inMemory taken : Nat)
    (bytes : Bytes) : Except ParseError (Option (Frame × Nat)) :=
  match _ : readIn limits stack inMemory bytes with
  | .error error => .error error
  | .ok none =>
    (checkFrameBytes (taken + (bytes.length - (skipIn stack bytes).1)) limits).map
      fun _ => none
  | .ok (some (element, len)) =>
    match placeIn limits stack inMemory element with
    | .error error => .error error
    | .ok (.whole frame) =>
      (checkFrameBytes (taken + len) limits).map
        fun _ => some (frame, (skipIn stack bytes).1 + len)
    | .ok (.within stack' inMemory') =>
      (frameIn limits stack' inMemory' (taken + len)
        (bytes.drop ((skipIn stack bytes).1 + len))).map
          (further ((skipIn stack bytes).1 + len))
termination_by bytes.length
decreasing_by
  have := readIn_bound ‹readIn limits stack inMemory bytes = _›
  rw [List.length_drop]
  omega

theorem frameIn_refused {error : ParseError}
    (read : readIn limits stack inMemory bytes = .error error) :
    frameIn limits stack inMemory taken bytes = .error error := by
  rw [frameIn]
  split <;> simp_all

theorem frameIn_waits (read : readIn limits stack inMemory bytes = .ok none) :
    frameIn limits stack inMemory taken bytes =
      (checkFrameBytes (taken + (bytes.length - (skipIn stack bytes).1)) limits).map
        fun _ => none := by
  rw [frameIn]
  split <;> simp_all

section

variable (read : readIn limits stack inMemory bytes = .ok (some (element, len)))

include read

theorem frameIn_unplaced {error : ParseError}
    (placed : placeIn limits stack inMemory element = .error error) :
    frameIn limits stack inMemory taken bytes = .error error := by
  rw [frameIn]
  split <;> simp_all

theorem frameIn_whole (placed : placeIn limits stack inMemory element = .ok (.whole frame)) :
    frameIn limits stack inMemory taken bytes = (checkFrameBytes (taken + len) limits).map
        fun _ => some (frame, (skipIn stack bytes).1 + len) := by
  rw [frameIn]
  split <;> simp_all

theorem frameIn_within
    (placed : placeIn limits stack inMemory element = .ok (.within outer charged)) :
    frameIn limits stack inMemory taken bytes =
      (frameIn limits outer charged (taken + len) (bytes.drop ((skipIn stack bytes).1 + len))).map
          (further ((skipIn stack bytes).1 + len)) := by
  rw [frameIn]
  split <;> simp_all

end

/-- A placed value is accounted for. -/
def Placed.Accounted (limits : DecoderLimits) : Placed → Prop
  | .whole frame => frame.cost ≤ limits.maxInMemory
  | .within stack inMemory => inMemory = held stack ∧ inMemory ≤ limits.maxInMemory

/-- The account of a value on its way into the arrays: theirs, and what is inside it. -/
theorem fillIn_accounted {value : Frame} {placed : Placed}
    (account : inMemory = held stack + Frame.costAll value.encodeOne.2)
    (filled : fillIn limits stack inMemory value = .ok placed) : placed.Accounted limits := by
  have own := value.cost_eq
  have size : frameSize = 40 := rfl
  induction stack generalizing inMemory value with
  | nil =>
    unfold fillIn at filled
    split at filled
    · cases filled
    · next affordable =>
      cases filled
      rw [held, List.foldr_nil] at account
      rw [Placed.Accounted]
      omega
  | cons top rest induction =>
    rw [held_cons] at account
    unfold fillIn at filled
    split at filled
    · cases filled
    · next affordable =>
      have grown := Frame.costAll_append_singleton top.elements value
      split at filled
      · refine induction ?_ filled (Frame.cost_eq _)
        rw [Frame.encodeOne, grown]
        omega
      · cases filled
        rw [Placed.Accounted, held_cons, grown]
        omega

theorem placeIn_accounted {placed : Placed} (account : inMemory = held stack)
    (within : inMemory ≤ limits.maxInMemory)
    (read : readIn limits stack inMemory bytes = .ok (some (element, len)))
    (filled : placeIn limits stack inMemory element = .ok placed) : placed.Accounted limits := by
  unfold placeIn at filled
  split at filled
  · next frame =>
    unfold readIn at read
    split at read
    · cases read
    · refine fillIn_accounted ?_ filled
      rw [elementIn_leaf read]
      exact account
  · split at filled
    · exact fillIn_accounted account filled
    · cases filled
      exact ⟨account.trans (by rw [held_cons, Frame.costAll, Nat.zero_add]), within⟩

theorem skipIn_inside (filled : stack ≠ []) (bytes : Bytes) : skipIn stack bytes = (0, false) := by
  rw [skipIn, if_neg (by simpa using filled)]

/-- What starts no empty line does not come to start one. -/
theorem skipIn_stuck (kept : (skipIn stack bytes).2 = false)
    (nonempty : bytes.drop (skipIn stack bytes).1 ≠ []) (more : Bytes) :
    skipIn stack (bytes ++ more) = ((skipIn stack bytes).1, false) := by
  obtain ⟨bound, longer⟩ := skipIn_append stack bytes more
  obtain ⟨_, same⟩ := skipIn_append stack bytes []
  rw [List.append_nil] at same
  have front : skipIn stack (bytes.drop (skipIn stack bytes).1) = (0, false) := by
    have count := congrArg Prod.fst same
    have lone := congrArg Prod.snd same
    rw [kept] at lone
    dsimp only at count lone
    exact Prod.ext (by omega) lone.symm
  rw [longer, List.drop_append_of_le_length bound]
  cases behind : bytes.drop (skipIn stack bytes).1 with
  | nil => exact absurd behind nonempty
  | cons byte rest =>
    rw [behind] at front
    have stuck : skipIn stack (byte :: rest ++ more) = (0, false) := by
      unfold skipIn at front ⊢
      split
      · next empty =>
        rw [if_pos empty] at front
        cases rest with
        | nil =>
          have other : byte ≠ 13 := by simpa [emptyLines] using front
          exact emptyLines_cons other _
        | cons second rest =>
          have apart : ¬(byte = 13 ∧ second = 10) := by
            intro ends
            simp [emptyLines, ends] at front
          simp [emptyLines, apart]
      · rfl
    rw [stuck, Nat.add_zero]

theorem readIn_append (settled : readIn limits stack inMemory bytes ≠ .ok none) (more : Bytes) :
    readIn limits stack inMemory (bytes ++ more) = readIn limits stack inMemory bytes ∧
      skipIn stack (bytes ++ more) = skipIn stack bytes := by
  cases lone : (skipIn stack bytes).2 with
  | true => exact absurd (by rw [readIn, if_pos lone]) settled
  | false =>
    have read : readIn limits stack inMemory bytes =
        elementIn limits stack inMemory (bytes.drop (skipIn stack bytes).1) := by
      rw [readIn, if_neg (by rw [lone]; exact Bool.false_ne_true)]
    rw [read] at settled ⊢
    have nonempty : bytes.drop (skipIn stack bytes).1 ≠ [] := by
      intro empty
      rw [empty] at settled
      exact settled rfl
    have stuck := skipIn_stuck lone nonempty more
    refine ⟨?_, stuck.trans (Prod.ext rfl lone.symm)⟩
    rw [readIn, stuck, if_neg Bool.false_ne_true,
      List.drop_append_of_le_length (skipIn_append stack bytes []).1, elementIn_append settled]

/-- Empty lines are skipped whether their bytes are at hand or not. -/
theorem frameIn_skip (stack : List PendingArray) (inMemory taken : Nat) (bytes more : Bytes) :
    frameIn limits stack inMemory taken (bytes ++ more) =
      (frameIn limits stack inMemory taken (bytes.drop (skipIn stack bytes).1 ++ more)).map
        (further (skipIn stack bytes).1) := by
  obtain ⟨bound, longer⟩ := skipIn_append stack bytes more
  rw [List.drop_append_of_le_length bound] at longer
  generalize skipped : (skipIn stack bytes).1 = count at bound longer ⊢
  generalize rest : bytes.drop count ++ more = behind at longer ⊢
  have whole : (bytes ++ more).drop count = behind := by
    rw [List.drop_append_of_le_length bound, rest]
  have length : (bytes ++ more).length - (count + (skipIn stack behind).1) =
      behind.length - (skipIn stack behind).1 := by
    rw [← whole, List.length_drop]
    omega
  have same : readIn limits stack inMemory (bytes ++ more) =
      readIn limits stack inMemory behind := by
    unfold readIn
    rw [longer, ← List.drop_drop, whole]
  cases read : readIn limits stack inMemory behind with
  | error error =>
    rw [frameIn_refused read, frameIn_refused (same.trans read)]
    rfl
  | ok found =>
    cases found with
    | none =>
      rw [frameIn_waits read, frameIn_waits (same.trans read), longer, length]
      cases checkFrameBytes (taken + (behind.length - (skipIn stack behind).1)) limits <;> rfl
    | some one =>
      obtain ⟨element, len⟩ := one
      cases placed : placeIn limits stack inMemory element with
      | error error =>
        rw [frameIn_unplaced read placed, frameIn_unplaced (same.trans read) placed]
        rfl
      | ok placement =>
        cases placement with
        | whole frame =>
          rw [frameIn_whole read placed, frameIn_whole (same.trans read) placed, longer]
          cases checkFrameBytes (taken + len) limits with
          | error error => rfl
          | ok _ => simp [Except.map, further, Nat.add_assoc]
        | within outer charged =>
          rw [frameIn_within read placed, frameIn_within (same.trans read) placed, longer]
          dsimp only
          rw [Nat.add_assoc, ← List.drop_drop, whole, map_further]

/-- A frame is found within the limit on its bytes, and so is a wait. -/
theorem frameIn_bound {found : Option (Frame × Nat)}
    (reads : frameIn limits stack inMemory taken bytes = .ok found) :
    taken + ((found.elim bytes.length Prod.snd) - (skipIn stack bytes).1) ≤
      limits.maxFrameBytes := by
  revert reads
  fun_induction frameIn limits stack inMemory taken bytes generalizing found with
  | case1 | case3 => rintro ⟨⟩
  | case2 stack inMemory taken bytes read =>
    intro reads
    obtain ⟨bound, rfl⟩ := map_check_eq_ok reads
    exact bound
  | case4 stack inMemory taken bytes element len read frame placed =>
    intro reads
    obtain ⟨bound, rfl⟩ := map_check_eq_ok reads
    dsimp only [Option.elim]
    omega
  | case5 stack inMemory taken bytes element len read outer charged placed induction =>
    intro reads
    cases later : frameIn limits outer charged (taken + len)
        (bytes.drop ((skipIn stack bytes).1 + len)) with
    | error error =>
      rw [later] at reads
      cases reads
    | ok rest =>
      rw [later] at reads
      cases reads
      have bound := induction later
      have inside := readIn_bound read
      rw [skipIn_inside (placeIn_within placed)] at bound
      cases rest with
      | none =>
        simp only [Option.elim, further, Option.map, List.length_drop] at bound ⊢
        omega
      | some one =>
        simp only [Option.elim, further, Option.map] at bound ⊢
        omega

theorem frameIn_past (read : readIn limits stack inMemory bytes = .ok (some (element, len)))
    (reads : frameIn limits stack inMemory taken bytes = .ok (some (frame, count))) :
    (skipIn stack bytes).1 + len ≤ count := by
  cases placed : placeIn limits stack inMemory element with
  | error error =>
    rw [frameIn_unplaced read placed] at reads
    cases reads
  | ok placement =>
    cases placement with
    | whole frame =>
      rw [frameIn_whole read placed] at reads
      cases (map_check_eq_ok reads).2
      exact Nat.le_refl _
    | within outer charged =>
      rw [frameIn_within read placed] at reads
      obtain ⟨rest, _, rfl⟩ := map_further_eq_some reads
      exact Nat.le_add_right _ _

/-- A frame too long already is refused whatever follows. -/
theorem frameIn_long (waits : readIn limits stack inMemory bytes = .ok none)
    (fresh : stack = [] → taken = 0) (positive : 1 ≤ limits.maxFrameBytes)
    (long : limits.maxFrameBytes < taken + (bytes.length - (skipIn stack bytes).1)) (more : Bytes) :
    ∃ error, frameIn limits stack inMemory taken (bytes ++ more) = .error error := by
  have stuck : (skipIn stack bytes).2 = false ∧
      skipIn stack (bytes ++ more) = ((skipIn stack bytes).1, false) := by
    by_cases outside : stack = []
    · have zero := fresh outside
      have kept : (skipIn stack bytes).2 = false := by
        rw [Bool.eq_false_iff]
        intro lone
        rw [outside] at lone long
        have := emptyLines_lone lone
        change _ < taken + (bytes.length - (emptyLines bytes).1) at long
        omega
      refine ⟨kept, skipIn_stuck kept ?_ more⟩
      rw [ne_eq, List.drop_eq_nil_iff]
      omega
    · rw [skipIn_inside outside, skipIn_inside outside]
      exact ⟨rfl, rfl⟩
  obtain ⟨kept, same⟩ := stuck
  have bound := (skipIn_append stack bytes []).1
  cases reads : frameIn limits stack inMemory taken (bytes ++ more) with
  | error error => exact ⟨error, rfl⟩
  | ok found =>
    exfalso
    have within := frameIn_bound reads
    rw [same] at within
    cases found with
    | none =>
      simp only [Option.elim, List.length_append] at within
      omega
    | some one =>
      obtain ⟨frame, count⟩ := one
      cases read : readIn limits stack inMemory (bytes ++ more) with
      | error error =>
        rw [frameIn_refused read] at reads
        cases reads
      | ok element =>
        cases element with
        | none =>
          rw [frameIn_waits read] at reads
          cases (map_check_eq_ok reads).2
        | some one =>
          obtain ⟨element, len⟩ := one
          have past := frameIn_past read reads
          rw [readIn, kept, if_neg Bool.false_ne_true] at waits
          rw [readIn, same, if_neg Bool.false_ne_true, List.drop_append_of_le_length bound] at read
          have later := elementIn_later waits read
          rw [List.length_drop] at later
          rw [same] at past
          simp only [Option.elim] at within
          omega

/-- What the bytes from here on come to. -/
def frameOf (limits : DecoderLimits) (state : Decoding) (bytes : Bytes) :
    Except ParseError (Option (Frame × Nat)) :=
  frameIn limits state.stack state.inMemory (state.scan - state.frameStart) bytes

theorem frameOf_skip (bytes more : Bytes) :
    frameOf limits .new (bytes ++ more) =
      (frameOf limits .new (bytes.drop (emptyLines bytes).1 ++ more)).map
        (further (emptyLines bytes).1) :=
  frameIn_skip _ _ _ _ _

/-- What the loop of `step` comes to, whatever bytes come next. -/
inductive Stepped (limits : DecoderLimits) (buf : Bytes) (state : Decoding) :
    Except ParseError (Option Frame × Decoding) → Prop where
  | refused {error : ParseError}
      (refuses : 1 ≤ limits.maxFrameBytes → ∀ more, ∃ later,
        frameOf limits state (buf.drop state.scan ++ more) = .error later) :
      Stepped limits buf state (.error error)
  | waits {next : Decoding} (sane : Sane limits buf next)
      (front : next.frameStart =
        state.frameStart + (skipIn state.stack (buf.drop state.scan)).1)
      (after : state.scan ≤ next.scan)
      (unread : frameOf limits state (buf.drop state.scan) = .ok none)
      (resumes : ∀ more, frameOf limits state (buf.drop state.scan ++ more) =
        (frameOf limits next (buf.drop next.scan ++ more)).map
          (further (next.scan - state.scan))) :
      Stepped limits buf state (.ok (none, next))
  | frame {frame : Frame} {next : Decoding} (after : state.scan < next.scan)
      (inside : next.scan ≤ buf.length) (emptied : next.stack = [])
      (reads : ∀ more, frameOf limits state (buf.drop state.scan ++ more) =
        .ok (some (frame, next.scan - state.scan))) :
      Stepped limits buf state (.ok (some frame, next))

theorem readIn_eq (kept : (skipIn stack bytes).2 = false) :
    readIn limits stack inMemory bytes =
      elementIn limits stack inMemory (bytes.drop (skipIn stack bytes).1) := by
  rw [readIn, kept, if_neg Bool.false_ne_true]

/-- Asking for more: the frame is not too long yet, or never short enough again. -/
theorem stepped_waits (sane : Sane limits buf state) {part : Partial}
    (read : readIn limits state.stack state.inMemory (buf.drop state.scan) = .ok none)
    (kept : Sane limits buf
      { state.skip (skipIn state.stack (buf.drop state.scan)).1 with part := part }) :
    Stepped limits buf state (do
      checkFrameBytes (buf.length -
        (state.skip (skipIn state.stack (buf.drop state.scan)).1).frameStart) limits
      .ok (none,
        { state.skip (skipIn state.stack (buf.drop state.scan)).1 with part := part })) := by
  have begun := sane.begun
  have inside := sane.inside
  have bound := (skipIn_append state.stack (buf.drop state.scan) []).1
  have taken : state.scan - state.frameStart + ((buf.drop state.scan).length -
      (skipIn state.stack (buf.drop state.scan)).1) =
      buf.length - (state.skip (skipIn state.stack (buf.drop state.scan)).1).frameStart := by
    rw [List.length_drop] at bound ⊢
    dsimp only [skip]
    omega
  unfold checkFrameBytes
  split
  · next long =>
    rw [← taken] at long
    exact .refused fun positive more => frameIn_long read (fun outside => by
      have := sane.anchored outside
      omega) positive long more
  · next short =>
    refine .waits kept rfl (Nat.le_add_right _ _) ?_ fun more => ?_
    · rw [frameOf, frameIn_waits read, taken, checkFrameBytes, if_neg short]
      rfl
    · have same : state.scan + (skipIn state.stack (buf.drop state.scan)).1 - state.scan =
          (skipIn state.stack (buf.drop state.scan)).1 := Nat.add_sub_cancel_left _ _
      have front : state.scan + (skipIn state.stack (buf.drop state.scan)).1 -
          (state.frameStart + (skipIn state.stack (buf.drop state.scan)).1) =
          state.scan - state.frameStart := Nat.add_sub_add_right _ _ _
      rw [frameOf, frameOf, frameIn_skip]
      dsimp only [skip]
      rw [same, front, List.drop_drop]

/-- A frame read to its end: it is not too long, or never was short enough. -/
theorem stepped_whole (inside : next.scan ≤ buf.length) (emptied : next.stack = [])
    (scan : next.scan = state.scan + count) (read : 0 < count)
    (frameStart : next.scan - next.frameStart = taken)
    (reads : ∀ more, frameOf limits state (buf.drop state.scan ++ more) =
      (checkFrameBytes taken limits).map fun _ => some (frame, count)) :
    Stepped limits buf state (do
      checkFrameBytes (next.scan - next.frameStart) limits
      .ok (some frame, next)) := by
  rw [frameStart]
  unfold checkFrameBytes at reads ⊢
  split
  · next long =>
    rw [if_pos long] at reads
    exact .refused fun _ more => ⟨_, reads more⟩
  · next short =>
    rw [if_neg short] at reads
    refine .frame (by omega) inside emptied fun more => ?_
    rw [reads, scan, Nat.add_sub_cancel_left]
    rfl

/-- What one turn of the loop comes to. -/
inductive Turned (limits : DecoderLimits) (buf : Bytes) (state : Decoding) : Turn → Prop where
  | last {result : Except ParseError (Option Frame × Decoding)}
      (stepped : Stepped limits buf state result) : Turned limits buf state (.last result)
  | again {next : Decoding} {element : Element} {len : Nat} (sane : Sane limits buf next)
      (front : next.frameStart =
        state.frameStart + (skipIn state.stack (buf.drop state.scan)).1)
      (after : state.scan < next.scan)
      (read : readIn limits state.stack state.inMemory (buf.drop state.scan) =
        .ok (some (element, len)))
      (placed : placeIn limits state.stack state.inMemory element =
        .ok (.within next.stack next.inMemory))
      (same : ∀ more, frameOf limits state (buf.drop state.scan ++ more) =
        (frameOf limits next (buf.drop next.scan ++ more)).map
          (further (next.scan - state.scan))) :
      Turned limits buf state (.again next)

theorem turned_turn (sane : Sane limits buf state) :
    Turned limits buf state (turn limits buf state) := by
  have inside := sane.inside
  have begun := sane.begun
  unfold turn
  rcases readElement_spec sane with ⟨lone, read⟩ | ⟨kept, reading⟩
  · have waits : readIn limits state.stack state.inMemory (buf.drop state.scan) = .ok none := by
      rw [readIn, if_pos lone]
    rw [read]
    exact .last (stepped_waits sane waits sane.skip)
  · have whole : readIn limits state.stack state.inMemory (buf.drop state.scan) = _ :=
      readIn_eq kept
    rw [List.drop_drop] at whole
    generalize state.readElement buf limits = result at reading
    cases reading with
    | @refused error refuses =>
      have settled : readIn limits state.stack state.inMemory (buf.drop state.scan) =
          .error error := whole.trans refuses
      refine .last (.refused fun _ more => ⟨error, ?_⟩)
      have grown := (readIn_append (by rw [settled]; simp) more).1
      exact frameIn_refused (grown.trans settled)
    | waits waits kept' => exact .last (stepped_waits sane (whole.trans waits) kept')
    | @read element len reads =>
      have settled : readIn limits state.stack state.inMemory (buf.drop state.scan) =
          .ok (some (element, len)) := whole.trans reads
      have grown (more : Bytes) := readIn_append (by rw [settled]; simp) more
      have read (more : Bytes) := (grown more).1.trans settled
      have within := readIn_bound settled
      rw [List.length_drop] at within
      obtain ⟨byte, kind, stands, known⟩ := elementIn_typed reads
      rw [List.head?_drop] at stands
      have typed := sane.skip.typed_of_stands stands known
      dsimp only
      rw [place_eq]
      dsimp only [skip] at typed ⊢
      generalize skipped : (skipIn state.stack (buf.drop state.scan)).1 = count at *
      have taken : state.scan + count + len - (state.frameStart + count) =
          state.scan - state.frameStart + len := by omega
      cases placement : placeIn limits state.stack state.inMemory element with
      | error error =>
        exact .last (.refused fun _ more => ⟨error, frameIn_unplaced (read more) placement⟩)
      | ok outcome =>
        cases outcome with
        | whole frame =>
          refine .last (stepped_whole ?_ rfl (Nat.add_assoc _ count len) (by omega) taken
            fun more => ?_)
          · dsimp only [placed]
            omega
          · rw [frameOf, frameIn_whole (read more) placement, (grown more).2, skipped]
        | within outer charged =>
          have filled := placeIn_within placement
          obtain ⟨account, affordable⟩ :=
            placeIn_accounted sane.account sane.affordable settled placement
          refine .again ⟨by dsimp only; omega, by dsimp only; omega,
            fun empty => absurd empty filled, fun _ => typed, trivial, account, affordable⟩
            (by rw [skipped])
            (by dsimp only; omega) settled placement fun more => ?_
          have advanced : state.scan + count + len - state.scan = count + len := by omega
          have rest : (buf.drop state.scan ++ more).drop (count + len) =
              buf.drop (state.scan + count + len) ++ more := by
            rw [List.drop_append_of_le_length (by rw [List.length_drop]; omega), List.drop_drop,
              Nat.add_assoc]
          rw [frameOf, frameIn_within (read more) placement, (grown more).2, skipped, rest,
            ← taken, advanced]
          rfl

theorem Stepped.back {result : Except ParseError (Option Frame × Decoding)}
    (front : next.frameStart = state.frameStart + (skipIn state.stack (buf.drop state.scan)).1)
    (after : state.scan < next.scan) (within : next.stack ≠ [])
    (same : ∀ more, frameOf limits state (buf.drop state.scan ++ more) =
      (frameOf limits next (buf.drop next.scan ++ more)).map (further (next.scan - state.scan)))
    (stepped : Stepped limits buf next result) : Stepped limits buf state result := by
  cases stepped with
  | refused refuses =>
    refine .refused fun positive more => ?_
    obtain ⟨later, refused⟩ := refuses positive more
    exact ⟨later, by rw [same, refused]; rfl⟩
  | @waits last sane kept further unread resumes =>
    rw [skipIn_inside within, Nat.add_zero, front] at kept
    refine .waits sane kept (by omega) ?_ fun more => ?_
    · have here := same []
      rw [List.append_nil, List.append_nil, unread] at here
      exact here
    · have count : next.scan - state.scan + (last.scan - next.scan) = last.scan - state.scan := by
        omega
      rw [same, resumes, map_further, count]
  | @frame frame last onward inside emptied reads =>
    refine .frame (by omega) inside emptied fun more => ?_
    have count : next.scan - state.scan + (last.scan - next.scan) = last.scan - state.scan := by
      omega
    rw [same, reads]
    simp only [Except.map, further, Option.map, count]

theorem stepped_stepLoop (fuel : Nat) :
    ∀ {state : Decoding}, Sane limits buf state → buf.length - state.scan < fuel →
      Stepped limits buf state (stepLoop limits buf fuel state) := by
  induction fuel with
  | zero =>
    intro state _ short
    omega
  | succ fuel induction =>
    intro state sane short
    have turned := turned_turn sane
    unfold stepLoop
    generalize turn limits buf state = one at turned
    cases turned with
    | last stepped => exact stepped
    | @again next _ _ kept front after _ placed same =>
      have inside := kept.inside
      exact (induction kept (by omega)).back front after (placeIn_within placed) same

theorem stepped_step (sane : Sane limits buf state) :
    Stepped limits buf state (state.step buf limits) :=
  stepped_stepLoop _ sane (by omega)

theorem sane_new (limits : DecoderLimits) (buf : Bytes) : Sane limits buf new :=
  ⟨Nat.le_refl _, Nat.zero_le _, fun _ => rfl,
    fun begun => absurd begun (not_or.mpr ⟨not_not_intro rfl, not_not_intro rfl⟩), trivial, rfl,
    Nat.zero_le _⟩

end Decoding

end Seedstone
