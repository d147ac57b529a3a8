import Seedstone.Log.ChunkSize

/-!
# A source shorter than it was said to be

The length of a segment and its bytes come from two calls of the file system, so
a source can end before the length it was given.  The prefix scan takes the end of
the source for the end of the segment.  The resynchronising reader does not: with
bytes still owed to it, it steps past the end of its window, or waits for ever for
the rest of a candidate, unless it has given the segment up before.
-/

namespace Seedstone

/-- The loop of `fill` over a source that gives at each read as many bytes as it
likes, but one at least until it has ended. -/
def Source.pull (piece : Bytes → Nat) (want : Nat) (bytes : Bytes) : Bytes × Bytes :=
  if want = 0 ∨ bytes = [] then
    ([], bytes)
  else
    let size := min (max (piece bytes) 1) want
    let (got, rest) := pull piece (want - size) (bytes.drop size)
    (bytes.take size ++ got, rest)
termination_by want
decreasing_by omega

theorem Source.pull_eq (piece : Bytes → Nat) (want : Nat) (bytes : Bytes) :
    pull piece want bytes = (bytes.take want, bytes.drop want) := by
  induction want using Nat.strong_induction_on generalizing bytes with
  | _ want induction =>
    rw [pull]
    split
    · next overrun =>
      rcases overrun with rfl | rfl
      · rfl
      · simp
    · next going =>
      have size : min (max (piece bytes) 1) want ≤ want := Nat.min_le_right _ _
      have fewer : want - min (max (piece bytes) 1) want < want := by omega
      simp only [induction _ fewer]
      rw [List.drop_drop, ← List.take_add, Nat.add_sub_cancel' size]

namespace Reader

/-- `fill` does not depend on the pieces it is given. -/
theorem fill_eq_pull {reader : Reader} (sound : reader.src.faulty = false)
    (piece : Bytes → Nat) (want : Nat) :
    reader.fill want =
      let pulled := Source.pull piece (min want reader.remaining) reader.src.bytes
      some (pulled.1.length, { reader with
        src := { reader.src with bytes := pulled.2 }
        buf := reader.buf ++ pulled.1
        remaining := reader.remaining - pulled.1.length }) := by
  unfold fill
  rw [Source.pull_eq]
  dsimp only
  rw [if_neg (by simp [sound])]

theorem fill_eq_pull_pairs :
    ((withChunk ⟨[7, 8, 9], false⟩ 3 .prefixScan 4).fill 3).map (·.2.buf) = some [7, 8, 9] := by
  rw [fill_eq_pull rfl fun _ => 2, Source.pull_eq]
  rfl

/-- Every slice, drain and subtraction of a turn that begins in this reader is in
range. -/
structure InRange (reader : Reader) : Prop where
  cursor : reader.cursor ≤ reader.buf.length
  offset : reader.remaining + (reader.buf.length - reader.cursor) ≤ reader.len
  want : decodeRecord reader.window = .needMore → headerLen ≤ reader.window.length →
    reader.window.length ≤ headerLen + declaredLen reader.window
  tail : reader.remaining = 0 → ∀ start, reader.accounts.holeAtTail = some start →
    start ≤ reader.damage.bytes ∧ 1 ≤ reader.damage.holes

/-- Call after call comes to the end of the segment, and no turn is out of range. -/
inductive Survives : Reader → Prop where
  | again {reader next : Reader} (safe : reader.InRange) (turned : reader.turn = .again next)
      (rest : Survives next) : Survives reader
  | item {reader next : Reader} {item : Item} (safe : reader.InRange)
      (turned : reader.turn = .last (.item item, next)) (rest : Survives next) : Survives reader
  | finished {reader next : Reader} (safe : reader.InRange)
      (turned : reader.turn = .last (.finished, next)) : Survives reader

variable {body : Bytes} {len missing : Nat} {reader next : Reader} {place after : Place}
  {boundary reach offset : Nat}

theorem inRange_of_owed (inside : reader.cursor ≤ reader.buf.length)
    (within : reader.remaining + (reader.buf.length - reader.cursor) ≤ reader.len)
    (owed : 0 < reader.remaining) : reader.InRange where
  cursor := inside
  offset := within
  want := fun short header => Nat.le_of_lt (candidate_of_needMore short header).2
  tail := fun none => absurd none (by omega)

/-- A prefix scan whose source is short of what is owed. -/
structure Scanning (missing : Nat) (reader : Reader) : Prop where
  mode : reader.mode = .prefixScan
  chunk : 1 ≤ reader.chunk
  trusted : reader.accounts.resynchronising = false
  sound : reader.src.faulty = false
  inside : reader.cursor ≤ reader.buf.length
  owed : reader.remaining = reader.src.bytes.length + missing
  within : reader.remaining + (reader.buf.length - reader.cursor) ≤ reader.len
  going : reader.damage.abandoned = false

/-- The bytes in the window, and twice those in the source. -/
def ahead (reader : Reader) : Nat :=
  reader.window.length + 2 * reader.src.bytes.length

theorem length_window (reader : Reader) :
    reader.window.length = reader.buf.length - reader.cursor :=
  List.length_drop

theorem cursor_compact (inside : reader.cursor ≤ reader.buf.length) :
    reader.compact.cursor ≤ reader.compact.buf.length := by
  unfold compact
  split
  · exact Nat.zero_le _
  · exact inside

section

variable (scanning : Scanning missing reader)

include scanning

theorem Scanning.compact : Scanning missing reader.compact := by
  obtain ⟨src, len, remaining, chunk, mode, accounts⟩ := compact_fields reader
  have within := scanning.within
  refine ⟨mode ▸ scanning.mode, chunk ▸ scanning.chunk, accounts ▸ scanning.trusted,
    src ▸ scanning.sound, cursor_compact scanning.inside, ?_, ?_, ?_⟩
  · rw [remaining, src]
    exact scanning.owed
  · rw [← length_window] at within ⊢
    rw [remaining, len, window_compact]
    exact within
  · unfold damage
    rw [accounts]
    exact scanning.going

theorem Scanning.fill (want : Nat) :
    ∃ filled, reader.fill want =
        some ((reader.src.bytes.take (min want reader.remaining)).length, filled) ∧
      Scanning missing filled ∧
      filled.window = reader.window ++ reader.src.bytes.take (min want reader.remaining) ∧
      filled.src.bytes = reader.src.bytes.drop (min want reader.remaining) := by
  have inside := scanning.inside
  have owed := scanning.owed
  have within := scanning.within
  unfold Reader.fill
  dsimp only
  rw [if_neg (by simp [scanning.sound])]
  refine ⟨_, rfl, { scanning with inside := ?_, owed := ?_, within := ?_ }, ?_, rfl⟩
  · dsimp only
    rw [List.length_append]
    omega
  · dsimp only
    rw [List.length_take, List.length_drop]
    omega
  · dsimp only
    rw [List.length_append, List.length_take]
    omega
  · unfold window
    dsimp only
    rw [List.drop_append_of_le_length inside]

theorem Scanning.decode :
    (∃ next, reader.decode = .last (.finished, next)) ∨
      (∃ item next, reader.decode = .last (.item item, next) ∧ Scanning missing next ∧
        next.ahead < reader.ahead) ∨ ∃ next, reader.decode = .again next ∧ Scanning missing next ∧
        next.ahead < reader.ahead := by
  have inside := scanning.inside
  have within := scanning.within
  have extent := length_window reader
  unfold Reader.decode
  cases reads : decodeRecord reader.window with
  | record shard seq payload consumed =>
    obtain ⟨_, length, held⟩ := decodeRecord_inside.1 _ _ _ _ reads
    unfold headerLen at length
    refine .inr (.inl ⟨_, _, rfl, { scanning with
      trusted := rfl, inside := ?_, within := ?_ }, ?_⟩)
    · dsimp only
      omega
    · dsimp only
      omega
    · unfold ahead
      simp only [length_window]
      omega
  | endOfLog =>
    dsimp only
    rw [if_pos ⟨scanning.trusted, scanning.mode⟩]
    exact .inl ⟨_, rfl⟩
  | corrupt skip =>
    dsimp only
    rw [if_pos scanning.mode]
    exact .inl ⟨_, rfl⟩
  | needMore =>
    obtain ⟨filled, fills, after, grown, left⟩ := scanning.fill reader.chunk
    have owed := scanning.owed
    dsimp only
    rw [if_neg (by simp [scanning.trusted])]
    unfold shortRead
    rw [fills]
    dsimp only
    by_cases none : (reader.src.bytes.take (min reader.chunk reader.remaining)).length = 0
    · rw [if_neg (by simp [none]), if_pos after.mode]
      exact .inl ⟨_, rfl⟩
    · rw [if_pos none]
      have goesOn : filled.settle = .again filled := by
        unfold settle
        rw [after.going, if_neg Bool.false_ne_true]
      refine .inr (.inr ⟨filled, goesOn, after, ?_⟩)
      unfold ahead
      rw [grown, left, List.length_append, List.length_drop]
      rw [List.length_take] at none ⊢
      omega

theorem Scanning.survives (short : 0 < missing) : reader.Survives := by
  generalize weight : reader.ahead = bound
  induction bound using Nat.strong_induction_on generalizing reader with
  | _ bound induction =>
    have inside := scanning.inside
    have owed := scanning.owed
    have safe : reader.InRange := inRange_of_owed inside scanning.within (by omega)
    have same : reader.compact.ahead = reader.ahead := by
      unfold ahead
      rw [window_compact, (compact_fields reader).1]
    have turned : reader.turn = reader.compact.decode := by
      unfold Reader.turn
      rw [if_neg (by omega), if_neg (by omega)]
    rcases scanning.compact.decode with ⟨next, decoded⟩ | ⟨item, next, decoded, after, less⟩ |
      ⟨next, decoded, after, less⟩
    · exact .finished safe (turned.trans decoded)
    · exact .item safe (turned.trans decoded) (induction _ (by omega) after rfl)
    · exact .again safe (turned.trans decoded) (induction _ (by omega) after rfl)

end

/-- A reader of a whole body, told of `missing` bytes more. -/
def overstate (missing : Nat) (reader : Reader) : Reader :=
  { reader with len := reader.len + missing, remaining := reader.remaining + missing }

def overstateTurn (missing : Nat) (turned : Loop.Turn Reader (Answer × Reader)) :
    Loop.Turn Reader (Answer × Reader) :=
  turned.map (overstate missing) (Prod.map id (overstate missing))

theorem overstate_compact (missing : Nat) (reader : Reader) :
    (overstate missing reader).compact = overstate missing reader.compact := by
  unfold compact overstate
  dsimp only
  split <;> rfl

theorem overstate_settle (missing : Nat) (reader : Reader) :
    (overstate missing reader).settle = overstateTurn missing reader.settle := by
  unfold settle overstateTurn
  have same : (overstate missing reader).damage = reader.damage := rfl
  rw [same]
  split <;> rfl

theorem overstate_offset (missing : Nat) (reader : Reader) :
    (overstate missing reader).offset = reader.offset := by
  unfold Reader.offset overstate
  dsimp only
  rw [Nat.add_sub_add_right]

theorem Sees.overstate_fill (sees : Sees body reader place) (want : Nat) :
    (overstate missing reader).fill want =
      (reader.fill want).map fun (got, filled) => (got, overstate missing filled) := by
  have left := sees.left
  have taken (bound : Nat) (enough : reader.src.bytes.length ≤ bound) :
      reader.src.bytes.take (min want bound) = reader.src.bytes.take want ∧
        reader.src.bytes.drop (min want bound) = reader.src.bytes.drop want := by
    by_cases less : want ≤ bound
    · rw [Nat.min_eq_left less]
      exact ⟨rfl, rfl⟩
    · rw [Nat.min_eq_right (by omega), List.take_of_length_le enough, List.drop_of_length_le enough,
        List.take_of_length_le (by omega), List.drop_of_length_le (by omega)]
      exact ⟨rfl, rfl⟩
  obtain ⟨take, drop⟩ := taken reader.remaining (by omega)
  obtain ⟨takeMore, dropMore⟩ := taken (reader.remaining + missing) (by omega)
  have fits : (reader.src.bytes.take want).length ≤ reader.remaining := by
    rw [List.length_take]
    omega
  unfold Reader.fill overstate
  dsimp only
  rw [take, drop, takeMore, dropMore, if_neg (by simp [sees.sound]), if_neg (by simp [sees.sound])]
  dsimp only [Option.map_some]
  rw [Nat.sub_add_comm fits]

theorem Sees.fill_nothing (sees : Sees body reader place) (last : reader.remaining = 0)
    (want : Nat) : reader.fill want = some (0, reader) := by
  have nothing : reader.src.bytes = [] := List.eq_nil_of_length_eq_zero (sees.left.symm.trans last)
  obtain ⟨⟨bytes, faulty⟩, len, remaining, buf, cursor, chunk, mode, accounts⟩ := reader
  have fault : faulty = false := sees.sound
  subst nothing fault
  simp [Reader.fill]

theorem Sees.overstate_shortRead (sees : Sees body reader place) :
    (overstate missing reader).shortRead = overstateTurn missing reader.shortRead := by
  obtain ⟨got, filled, fills, _, after, _⟩ := sees.fill reader.chunk
  have fillsMore : (overstate missing reader).fill reader.chunk =
      some (got, overstate missing filled) := by
    rw [sees.overstate_fill, fills]
    rfl
  have chunk : (overstate missing reader).chunk = reader.chunk := rfl
  have mode : (overstate missing filled).mode = .resynchronising := after.mode
  unfold Reader.shortRead
  rw [chunk, fills, fillsMore]
  dsimp only
  by_cases came : got ≠ 0
  · rw [if_pos came, if_pos came]
    exact overstate_settle missing filled
  · rw [if_neg came, if_neg came, if_neg (by simp [mode]), if_neg (by simp [after.mode])]
    exact overstate_settle missing (step { filled with accounts := filled.accounts.atTail } 1)

/-- A candidate at `offset` that the bytes there are do not complete, and that the
length they were said to have would. -/
structure Lure (body : Bytes) (len offset : Nat) : Prop where
  candidate : Candidate (body.drop offset)
  cut : body.length < offset + headerLen + declaredLen (body.drop offset)
  within : offset + headerLen + declaredLen (body.drop offset) ≤ len

theorem Lure.needMore (lure : Lure body len offset) :
    offset < body.length ∧ decodeRecord (body.drop offset) = .needMore := by
  have cut := lure.cut
  have header := lure.candidate.header
  have positive : 0 < headerLen := by decide
  rw [List.length_drop] at header
  refine ⟨by omega, lure.candidate.needMore ?_⟩
  rw [List.length_drop]
  omega

section

variable (sees : Sees body reader place)

include sees

/-- Where no lure stands, the bytes owed change nothing. -/
theorem Sees.overstate_resyncShortRead (short : decodeRecord reader.window = .needMore)
    (free : ¬ Lure body (body.length + missing) place.offset) :
    (overstate missing reader).resyncShortRead =
      reader.resyncShortRead.map (overstate missing) := by
  have length := sees.length
  have window : (overstate missing reader).window = reader.window := rfl
  have accounts : (overstate missing reader).accounts = reader.accounts := rfl
  have chunk : (overstate missing reader).chunk = reader.chunk := rfl
  have remaining : (overstate missing reader).remaining = reader.remaining + missing := rfl
  unfold Reader.resyncShortRead
  rw [window, accounts, chunk, remaining]
  by_cases header : headerLen ≤ reader.window.length
  · obtain ⟨_, candidate, declared, beyond⟩ := sees.candidate short header
    have alike : reader.window.length + (reader.remaining + missing) <
          headerLen + declaredLen reader.window ↔
        reader.window.length + reader.remaining < headerLen + declaredLen reader.window := by
      constructor
      · omega
      · intro cut
        by_contra fits
        exact free ⟨candidate, by omega, by omega⟩
    have whole : ¬ reader.window.length < headerLen := by omega
    rw [if_neg whole, if_neg whole]
    dsimp only
    rw [if_congr alike rfl rfl]
    split
    · rfl
    · split
      · rfl
      · rw [sees.overstate_fill]
        cases reader.fill _ <;> rfl
  · have part : reader.window.length < headerLen := by omega
    rw [if_pos part, if_pos part, sees.overstate_fill]
    by_cases last : reader.remaining = 0
    · rw [if_pos last, sees.fill_nothing last]
      split <;> rfl
    · obtain ⟨got, filled, fills, _⟩ := sees.fill reader.chunk
      rw [if_neg last, if_neg (by omega), fills]
      dsimp only [Option.map_some]
      split <;> rfl

/-- Before the end of its body, with no lure, a reader turns as if it were owed nothing.
-/
theorem Sees.overstate_turn (more : place.offset < body.length)
    (free : place.accounts.resynchronising = true →
      ¬ Lure body (body.length + missing) place.offset) :
    (overstate missing reader).turn = overstateTurn missing reader.turn := by
  have length := sees.length
  have inside := sees.inside
  have extent := length_window reader
  have compacted := sees.compact
  have decoded : (overstate missing reader.compact).decode =
      overstateTurn missing reader.compact.decode := by
    generalize reader.compact = reader at compacted
    have window : (overstate missing reader).window = reader.window := rfl
    have accounts : (overstate missing reader).accounts = reader.accounts := rfl
    have mode : (overstate missing reader).mode = reader.mode := rfl
    unfold Reader.decode
    rw [window, accounts, mode, overstate_offset]
    cases reads : decodeRecord reader.window with
    | record shard seq payload consumed => rfl
    | endOfLog =>
      dsimp only
      split
      · rfl
      · exact overstate_settle missing (step { reader with accounts := reader.accounts.atMarker } 1)
    | corrupt skip =>
      dsimp only
      split
      · rfl
      · exact overstate_settle missing (step { reader with
          accounts := reader.accounts.atDamage (checksummedLen reader.window) } skip)
    | needMore =>
      dsimp only
      split
      · next entered =>
        rw [compacted.accounts] at entered
        rw [compacted.overstate_resyncShortRead reads (free entered)]
        cases reader.resyncShortRead with
        | none => rfl
        | some read => exact overstate_settle missing read
      · exact compacted.overstate_shortRead
  unfold Reader.turn
  rw [overstate_compact, decoded]
  unfold overstate
  dsimp only
  rw [if_neg (by omega), if_neg (by omega), if_neg (by omega), if_neg (by omega)]

/-- At a lure in a hole a reader gives up past the cap, and otherwise stays. -/
theorem Sees.lured (ongoing : place.accounts.damage.abandoned = false)
    (entered : place.accounts.resynchronising = true)
    (lure : Lure body (body.length + missing) place.offset) :
    (∃ next, (overstate missing reader).turn = .again (overstate missing next) ∧
        Sees body next place ∧
        (place.accounts.overdrawn = true → next.remaining < reader.remaining)) ∨
      place.accounts.overdrawn = true ∧
        ∃ next, (overstate missing reader).turn = .last (.finished, next) := by
  have cut := lure.cut
  have within := lure.within
  obtain ⟨more, whole⟩ := lure.needMore
  have header := lure.candidate.header
  rw [List.length_drop] at header
  have turned : (overstate missing reader).turn = (overstate missing reader.compact).decode := by
    have length := sees.length
    have inside := sees.inside
    have extent := length_window reader
    unfold Reader.turn
    rw [overstate_compact]
    unfold overstate
    dsimp only
    rw [if_neg (by omega), if_neg (by omega)]
  have remaining : reader.compact.remaining = reader.remaining := (compact_fields reader).2.2.1
  have compacted := sees.compact
  rw [turned, ← remaining]
  generalize reader.compact = reader at compacted
  have length := compacted.length
  have chunk := compacted.chunk
  have short : decodeRecord reader.window = .needMore := by
    by_contra settled
    rw [← compacted.view, (decodeRecord_append settled _).1] at whole
    exact settled whole
  have window : (overstate missing reader).window = reader.window := rfl
  have accounts : (overstate missing reader).accounts = place.accounts := compacted.accounts
  have decoded : (overstate missing reader).decode =
      settleRead (overstate missing reader) (overstate missing reader).resyncShortRead := by
    unfold Reader.decode
    rw [window, accounts, short]
    dsimp only
    rw [if_pos entered]
  have goesOn {filled : Reader} (after : Sees body filled place) :
      settleRead (overstate missing reader) (some (overstate missing filled)) =
        .again (overstate missing filled) := by
    have damage : (overstate missing filled).damage = place.accounts.damage :=
      congrArg Accounts.damage after.accounts
    unfold settleRead settle
    dsimp only
    rw [damage, ongoing, if_neg Bool.false_ne_true]
  have owed : (overstate missing reader).remaining = reader.remaining + missing := rfl
  have sameChunk : (overstate missing reader).chunk = reader.chunk := rfl
  rw [decoded]
  unfold Reader.resyncShortRead
  rw [window, accounts, owed, sameChunk]
  by_cases held : headerLen ≤ reader.window.length
  · obtain ⟨_, _, declared, beyond⟩ := compacted.candidate short held
    rw [if_neg (by omega)]
    dsimp only
    rw [if_neg (by omega)]
    by_cases overdrawn : place.accounts.overdrawn = true
    · rw [if_pos overdrawn]
      exact .inr ⟨overdrawn, _, rfl⟩
    · rw [if_neg overdrawn, compacted.overstate_fill]
      obtain ⟨got, filled, fills, _, after, _⟩ :=
        compacted.fill (headerLen + declaredLen reader.window - reader.window.length)
      rw [fills]
      exact .inl ⟨filled, goesOn after, after, fun past => absurd past overdrawn⟩
  · obtain ⟨got, filled, fills, count, after, _, left, _⟩ := compacted.fill reader.chunk
    have came : got ≠ 0 := by
      unfold headerLen at *
      omega
    rw [if_pos (by omega), if_neg (by omega), compacted.overstate_fill, fills]
    dsimp only [Option.map_some]
    rw [if_neg came]
    exact .inl ⟨filled, goesOn after, after, fun _ => by omega⟩

/-- At the end of its source, a reader that is owed more steps out of its window. -/
theorem Sees.overstate_end (ongoing : place.accounts.damage.abandoned = false)
    (ended : body.length ≤ place.offset) (owed : 0 < missing) :
    ∃ next, (overstate missing reader).turn = .again next ∧ next.buf.length < next.cursor := by
  have turned : (overstate missing reader).turn = (overstate missing reader.compact).decode := by
    have inside := sees.inside
    unfold Reader.turn
    rw [overstate_compact]
    unfold overstate
    dsimp only
    rw [if_neg (by omega), if_neg (by omega)]
  have compacted := sees.compact
  rw [turned]
  generalize reader.compact = reader at compacted
  have length := compacted.length
  have inside := compacted.inside
  have extent := length_window reader
  have last : reader.remaining = 0 := by omega
  have empty : (overstate missing reader).window = [] :=
    List.eq_nil_of_length_eq_zero (show reader.window.length = 0 by omega)
  have fills : (overstate missing reader).fill (overstate missing reader).chunk =
      some (0, overstate missing reader) := by
    rw [compacted.overstate_fill, compacted.fill_nothing last]
    rfl
  have stepsOut (accounts : Accounts) (still : accounts.damage.abandoned = false) :
      ∃ next, (step { overstate missing reader with accounts := accounts } 1).settle =
          .again next ∧ next.buf.length < next.cursor := by
    refine ⟨_, if_neg ?_, ?_⟩
    · simpa [damage, step, Accounts.step] using still
    · show reader.buf.length < reader.cursor + 1
      omega
  have going : (overstate missing reader).accounts.damage.abandoned = false := by
    show reader.accounts.damage.abandoned = false
    rw [compacted.accounts]
    exact ongoing
  have decoded : (overstate missing reader).decode =
      if (overstate missing reader).accounts.resynchronising = true then
        settleRead (overstate missing reader) (overstate missing reader).resyncShortRead
      else (overstate missing reader).shortRead := by
    unfold Reader.decode
    rw [empty]
    rfl
  rw [decoded]
  split
  · unfold Reader.resyncShortRead
    rw [empty, if_pos (by decide), if_neg (by show reader.remaining + missing ≠ 0; omega), fills]
    exact stepsOut _ going
  · unfold Reader.shortRead
    rw [fills]
    dsimp only
    rw [if_neg (by simp), if_neg (by show ¬ reader.mode = _; simp [compacted.mode])]
    exact stepsOut _ ((Place.enterHole_abandoned _).trans going)

end

/-- From `offset` on, with the last record ended at `boundary`, a hole goes past the
cap and comes to one more candidate, before a lure is met inside the cap. -/
inductive GivesUp (body : Bytes) (len : Nat) : Nat → Nat → Prop where
  | damage {boundary offset : Nat} (past : PastCap body boundary offset)
      (priced : checksummedLen (body.drop offset) ≠ none)
      (unread : ∀ shard seq payload consumed,
        decodeRecord (body.drop offset) ≠ .record shard seq payload consumed) :
      GivesUp body len boundary offset
  | lure {boundary offset : Nat} (past : PastCap body boundary offset)
      (lure : Lure body len offset) : GivesUp body len boundary offset
  | past {boundary offset : Nat} (inside : offset < body.length)
      (unread : ∀ shard seq payload consumed,
        decodeRecord (body.drop offset) ≠ .record shard seq payload consumed)
      (free : boundary < offset → ¬ Lure body len offset)
      (later : GivesUp body len boundary (offset + 1)) : GivesUp body len boundary offset
  | record {boundary offset shard seq consumed : Nat} {payload : Bytes}
      (read : decodeRecord (body.drop offset) = .record shard seq payload consumed)
      (later : GivesUp body len (offset + consumed) (offset + consumed)) :
      GivesUp body len boundary offset

theorem lt_of_pastCap (past : PastCap body boundary offset) : boundary < offset := by
  by_contra ordered
  unfold PastCap checksummedBetween at past
  rw [Nat.sub_eq_zero_of_le (by omega)] at past
  exact absurd past (Nat.not_lt_zero _)

theorem Sees.overstate_inRange (sees : Sees body reader place) (owed : 0 < missing) :
    (overstate missing reader).InRange := by
  have inside := sees.inside
  have length := sees.length
  have extent := length_window reader
  have len := sees.len
  refine inRange_of_owed inside ?_ ?_
  · show reader.remaining + missing + (reader.buf.length - reader.cursor) ≤ reader.len + missing
    omega
  · show 0 < reader.remaining + missing
    omega

theorem Sees.survives (sees : Sees body reader place)
    (ongoing : place.accounts.damage.abandoned = false) (owed : 0 < missing)
    (more : place.offset < body.length)
    (free : place.accounts.resynchronising = true →
      ¬ Lure body (body.length + missing) place.offset)
    (again : ∀ {next after}, place.turn body = .again after → Sees body next after →
      Survives (overstate missing next))
    (item : ∀ {next after item}, place.turn body = .last (.item item, after) →
      Sees body next after → Survives (overstate missing next)) :
    Survives (overstate missing reader) := by
  generalize left : reader.remaining = remaining
  induction remaining using Nat.strong_induction_on generalizing reader with
  | _ remaining induction =>
    have safe := sees.overstate_inRange owed
    have same : (overstate missing reader).turn = overstateTurn missing reader.turn :=
      sees.overstate_turn more free
    have outcome := sees.turned ongoing
    generalize reader.turn = turned at same outcome
    cases outcome with
    | refill refilled =>
      have fewer := refilled.fewer
      exact .again safe same (induction _ (by omega) refilled.sees rfl)
    | decided decided =>
      cases decided with
      | strained | finished => exact .finished safe same
      | again moved later => exact .again safe same (again moved later)
      | item moved later => exact .item safe same (item moved later)

theorem Sees.survives_lure (sees : Sees body reader place)
    (ongoing : place.accounts.damage.abandoned = false) (owed : 0 < missing)
    (entered : place.accounts.resynchronising = true) (overdrawn : place.accounts.overdrawn = true)
    (lure : Lure body (body.length + missing) place.offset) :
    Survives (overstate missing reader) := by
  generalize left : reader.remaining = remaining
  induction remaining using Nat.strong_induction_on generalizing reader with
  | _ remaining induction =>
    have safe := sees.overstate_inRange owed
    rcases sees.lured ongoing entered lure with ⟨next, turned, later, fewer⟩ | ⟨_, next, turned⟩
    · have less := fewer overdrawn
      exact .again safe turned (induction _ (by omega) later rfl)
    · exact .finished safe turned

theorem GivesUp.survives (gives : GivesUp body (body.length + missing) boundary offset)
    (owed : 0 < missing) (sees : Sees body reader place) (here : place.offset = offset)
    (is : place.At body boundary reach) : Survives (overstate missing reader) := by
  induction gives generalizing reader place reach with
  | damage past priced unread =>
    subst here
    have overdrawn := is.pastCap.mp past
    obtain ⟨len, looked⟩ := Option.ne_none_iff_exists'.mp priced
    obtain ⟨candidate, rfl, whole⟩ := checksummedLen_inside looked
    have within := sees.within
    rw [List.length_drop] at whole
    refine sees.survives is.ongoing owed (by unfold headerLen at whole; omega) ?_ ?_ ?_
    · intro _ lure
      have cut := lure.cut
      omega
    · intro next after moved
      exact absurd ((Place.turn_again_accounts moved).2.2 overdrawn) priced
    · intro next after item moved
      obtain ⟨_, _, _, _, _, reads⟩ := Place.turn_item moved
      exact absurd reads (unread _ _ _ _)
  | lure past lure =>
    subst here
    exact sees.survives_lure is.ongoing owed (is.entered.mpr (lt_of_pastCap past))
      (is.pastCap.mp past) lure
  | past inside unread free later induction =>
    subst here
    refine sees.survives is.ongoing owed inside (fun entered => free (is.entered.mp entered)) ?_ ?_
    · intro next after moved later
      exact induction later (Place.turn_again moved).2.1 (is.again moved)
    · intro next after item moved
      obtain ⟨_, _, _, _, _, reads⟩ := Place.turn_item moved
      exact absurd reads (unread _ _ _ _)
  | record read later induction =>
    subst here
    have turned := Place.turn_record read
    obtain ⟨more, _⟩ := Place.turn_item turned
    refine sees.survives is.ongoing owed more ?_ ?_ ?_
    · intro _ lure
      have waits := lure.needMore.2
      rw [read] at waits
      cases waits
    · intro next after moved
      exact absurd read ((Place.turn_again moved).2.2.2 _ _ _ _)
    · intro next after item moved later
      have next := is.item moved
      rw [turned] at moved
      cases moved
      exact induction later rfl next

/-- At a lure in a hole inside the cap, a reader waits for ever. -/
theorem Sees.not_survives_lure (sees : Sees body reader place)
    (ongoing : place.accounts.damage.abandoned = false)
    (entered : place.accounts.resynchronising = true) (inside : place.accounts.overdrawn = false)
    (lure : Lure body (body.length + missing) place.offset) :
    ¬ Survives (overstate missing reader) := by
  intro survives
  generalize is : overstate missing reader = state at survives
  induction survives generalizing reader with
  | again safe turned rest induction =>
    obtain ⟨next, stays, later, _⟩ | ⟨past, _⟩ := sees.lured ongoing entered lure
    · rw [is, turned, Loop.Turn.again.injEq] at stays
      exact induction later stays.symm
    · rw [inside] at past
      cases past
  | item _ turned | finished _ turned =>
    obtain ⟨next, stays, _⟩ | ⟨past, _⟩ := sees.lured ongoing entered lure
    · rw [is, turned] at stays
      cases stays
    · rw [inside] at past
      cases past

theorem Survives.after_again (survives : reader.Survives) (turned : reader.turn = .again next) :
    next.Survives := by
  cases survives with
  | again safe again rest =>
    rw [turned] at again
    cases again
    exact rest
  | item _ again | finished _ again =>
    rw [turned] at again
    cases again

theorem Survives.after_item {item : Item} (survives : reader.Survives)
    (turned : reader.turn = .last (.item item, next)) : next.Survives := by
  cases survives with
  | again _ again | finished _ again =>
    rw [turned] at again
    cases again
  | item safe again rest =>
    rw [turned] at again
    cases again
    exact rest

theorem Survives.inRange (survives : reader.Survives) : reader.InRange := by
  cases survives <;> assumption

/-- A reader that has its whole source in sight. -/
def Broad (body : Bytes) (reader : Reader) (place : Place) : Prop :=
  reader.remaining = 0 ∨
    place.offset = 0 ∧ reader.remaining = body.length ∧ body.length ≤ reader.chunk

theorem givesUp_of_survives (sees : Sees body reader place) (is : place.At body boundary reach)
    (broad : Broad body reader place) (owed : 0 < missing)
    (survives : Survives (overstate missing reader)) :
    GivesUp body (body.length + missing) boundary place.offset := by
  generalize weight : body.length - place.offset + reader.remaining = bound
  induction bound using Nat.strong_induction_on generalizing reader place boundary reach with
  | _ bound induction =>
    have ongoing := is.ongoing
    have length := sees.length
    by_cases ended : body.length ≤ place.offset
    · obtain ⟨next, turned, beyond⟩ := sees.overstate_end ongoing ended owed
      have inside := (survives.after_again turned).inRange.cursor
      omega
    by_cases free : place.accounts.resynchronising = true →
        ¬ Lure body (body.length + missing) place.offset
    swap
    · push Not at free
      obtain ⟨entered, lure⟩ := free
      cases overdrawn : place.accounts.overdrawn with
      | true => exact .lure (is.pastCap.mpr overdrawn) lure
      | false => exact absurd survives (sees.not_survives_lure ongoing entered overdrawn lure)
    have same : (overstate missing reader).turn = overstateTurn missing reader.turn :=
      sees.overstate_turn (by omega) free
    have outcome := sees.turned ongoing
    have unlured : boundary < place.offset → ¬ Lure body (body.length + missing) place.offset :=
      fun less => free (is.entered.mpr less)
    generalize reader.turn = turned at same outcome
    cases outcome with
    | refill refilled =>
      have fewer := refilled.fewer
      refine induction _ (by omega) refilled.sees is ?_ (survives.after_again same) rfl
      obtain none | ⟨start, all, chunk⟩ := broad
      · omega
      · have full := refilled.full (by unfold headerLen; omega)
        exact .inl (by omega)
    | decided decided =>
      cases decided with
      | strained _ overdrawn candidate beyond =>
        have hole := lt_of_pastCap (is.pastCap.mpr overdrawn)
        have pulled := sees.pulled
        obtain ⟨_, _, whole⟩ := checksummedLen_inside candidate
        rw [List.length_drop] at whole
        obtain none | ⟨start, _⟩ := broad
        · omega
        · omega
      | again moved later _ kept =>
        obtain ⟨_, offset, _, unread⟩ := Place.turn_again moved
        have lengthAfter := later.length
        have gives := induction _ (by omega) later (is.again moved)
          (broad.imp (fun none => by omega) fun ⟨start, all, _⟩ => by omega)
          (survives.after_again same) rfl
        rw [offset] at gives
        exact .past (by omega) unread unlured gives
      | @item next item after moved later kept =>
        obtain ⟨_, start, stop, nonempty, _, reads⟩ := Place.turn_item moved
        have lengthAfter := later.length
        have gives := induction _ (by omega) later (is.item moved)
          (broad.imp (fun none => by omega) fun ⟨start, all, _⟩ => by omega)
          (survives.after_item same) rfl
        have arrives : place.offset + (item.stop - item.start) = after.offset := by omega
        refine .record reads ?_
        rw [arrives]
        exact gives
      | finished moved =>
        obtain overrun | ⟨overdrawn, priced, _⟩ := Place.turn_finished moved ongoing
        · exact absurd overrun ended
        · refine .damage (is.pastCap.mpr overdrawn) priced fun _ _ _ _ reads => ?_
          rw [Place.turn_record reads] at moved
          cases moved

theorem withChunk_overstate (short : body.length ≤ len) (chunk : Nat) :
    withChunk ⟨body, false⟩ len .resynchronising chunk = overstate (len - body.length)
        (withChunk ⟨body, false⟩ body.length .resynchronising chunk) := by
  unfold withChunk overstate
  dsimp only
  rw [Nat.add_sub_of_le short]

/-- A source that ends before its stated length is survived with every chunk size
exactly by the prefix scan, and where the segment is given up. -/
theorem short_source_survives_iff (mode : ReaderMode) (body : Bytes) (len : Nat)
    (short : body.length < len) :
    (∀ chunk, 1 ≤ chunk → (withChunk ⟨body, false⟩ len mode chunk).Survives) ↔
      mode = .prefixScan ∨ GivesUp body len 0 0 := by
  cases mode with
  | prefixScan =>
    refine ⟨fun _ => .inl rfl, fun _ chunk _ => ?_⟩
    have scanning : Scanning (len - body.length) (withChunk ⟨body, false⟩ len .prefixScan chunk) :=
      { mode := rfl
        chunk := Nat.le_max_right _ _
        trusted := rfl
        sound := rfl
        inside := Nat.le_refl 0
        owed := (Nat.add_sub_of_le (Nat.le_of_lt short)).symm
        within := Nat.le_refl len
        going := rfl }
    exact scanning.survives (by omega)
  | resynchronising =>
    have total : body.length + (len - body.length) = len := by omega
    have same := withChunk_overstate (Nat.le_of_lt short)
    simp only [same, reduceCtorEq, false_or]
    constructor
    · intro survives
      have gives := givesUp_of_survives (sees_withChunk body (max body.length 1))
        (Place.at_start body)
        (.inr ⟨rfl, rfl, Nat.le_trans (Nat.le_max_left _ 1) (Nat.le_max_left _ 1)⟩)
        (by omega) (survives _ (Nat.le_max_right _ _))
      rw [total] at gives
      exact gives
    · intro gives chunk _
      rw [← total] at gives
      exact gives.survives (by omega) (sees_withChunk body chunk) rfl (Place.at_start body)

theorem short_source_survives_iff_prefixScan :
    [magic].length < 9 ∧ (withChunk ⟨[magic], false⟩ 9 .prefixScan 2).Survives :=
  ⟨by decide, (short_source_survives_iff .prefixScan [magic] 9 (by decide)).mpr (.inl rfl) 2
    (by decide)⟩

/-- A file that has lost its only byte: the first call steps out of an empty window. -/
theorem short_source_panics :
    (new ⟨[], false⟩ 1 .resynchronising).nextRecord.1 = .panicked := by
  decide

/-- A candidate in a hole whose body was cut off with the file is waited for. -/
example : (new ⟨[1, magic, 10, 0, 0, 0, 0, 0, 0, 0], false⟩ 20 .resynchronising).nextRecord.1 =
    .stuck := by
  decide +kernel

end Reader

end Seedstone
