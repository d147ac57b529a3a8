import Seedstone.Log.Reader

/-!
# The reader and the whole body

The same read with the whole body in sight, and no window.  A turn of the
resynchronising reader fills its window, or does what the read in sight does at
that place; only where a hole has gone past the cap can it stop at a candidate the
window does not hold, which the read in sight would still have looked at.
-/

namespace Seedstone

/-- A place in a body, and the accounts of a reader there. -/
structure Place where
  offset : Nat
  accounts : Accounts

namespace Place

def start : Place :=
  ⟨0, .fresh⟩

def settle (place : Place) : Loop.Turn Place (Reader.Answer × Place) :=
  if place.accounts.damage.abandoned then .last (.finished, place) else .again place

/-- Past `n` bytes of damage. -/
def past (place : Place) (accounts : Accounts) (n : Nat) :
    Loop.Turn Place (Reader.Answer × Place) :=
  settle ⟨place.offset + n, accounts.step n⟩

def turn (body : Bytes) (place : Place) : Loop.Turn Place (Reader.Answer × Place) :=
  if body.length ≤ place.offset then
    .last (.finished, { place with accounts := place.accounts.endOfSegment })
  else
    match decodeRecord (body.drop place.offset) with
    | .record shard seq payload consumed =>
      .last (.item ⟨shard, seq, payload, place.offset, place.offset + consumed⟩,
        ⟨place.offset + consumed, place.accounts.found⟩)
    | .endOfLog => place.past place.accounts.atMarker 1
    | .needMore =>
      place.past
        (if place.accounts.resynchronising then place.accounts else place.accounts.atTail) 1
    | .corrupt skip =>
      place.past (place.accounts.atDamage (checksummedLen (body.drop place.offset))) skip

end Place

namespace Reader

/-- How far into the body the source has been read. -/
def pulled (reader : Reader) : Nat :=
  reader.len - reader.remaining

/-- A reader in the middle of a body. -/
structure Sees (body : Bytes) (reader : Reader) (place : Place) : Prop where
  mode : reader.mode = .resynchronising
  chunk : 1 ≤ reader.chunk
  sound : reader.src.faulty = false
  inside : reader.cursor ≤ reader.buf.length
  left : reader.remaining = reader.src.bytes.length
  view : reader.window ++ reader.src.bytes = body.drop place.offset
  len : reader.len = body.length
  within : place.offset ≤ body.length
  accounts : reader.accounts = place.accounts
  calm : place.accounts.resynchronising = false → place.accounts.spent = 0

variable {body : Bytes} {reader next : Reader} {place : Place}

theorem Sees.length (sees : Sees body reader place) :
    place.offset + reader.window.length + reader.remaining = body.length := by
  have lengths := congrArg List.length sees.view
  have within := sees.within
  rw [List.length_append, List.length_drop, ← sees.left] at lengths
  omega

theorem Sees.pulled (sees : Sees body reader place) :
    reader.pulled = place.offset + reader.window.length := by
  have length := sees.length
  unfold Reader.pulled
  rw [sees.len]
  omega

theorem Sees.offset (sees : Sees body reader place) : reader.offset = place.offset := by
  have length := sees.length
  have inside := sees.inside
  unfold Reader.offset
  unfold window at length
  rw [List.length_drop] at length
  rw [sees.len]
  omega

theorem sees_withChunk (body : Bytes) (chunk : Nat) :
    Sees body (withChunk ⟨body, false⟩ body.length .resynchronising chunk) .start where
  mode := rfl
  chunk := Nat.le_max_right chunk 1
  sound := rfl
  inside := Nat.le_refl 0
  left := rfl
  view := rfl
  len := rfl
  within := Nat.zero_le _
  accounts := rfl
  calm := fun _ => rfl

@[simp]
theorem window_compact (reader : Reader) : reader.compact.window = reader.window := by
  unfold compact
  split
  · rfl
  · rfl

theorem compact_fields (reader : Reader) :
    reader.compact.src = reader.src ∧ reader.compact.len = reader.len ∧
      reader.compact.remaining = reader.remaining ∧ reader.compact.chunk = reader.chunk ∧
      reader.compact.mode = reader.mode ∧ reader.compact.accounts = reader.accounts := by
  unfold compact
  split <;> exact ⟨rfl, rfl, rfl, rfl, rfl, rfl⟩

section

variable (sees : Sees body reader place)

include sees

theorem Sees.compact : Sees body reader.compact place := by
  obtain ⟨src, len, remaining, chunk, mode, accounts⟩ := compact_fields reader
  have inside := sees.inside
  refine ⟨mode ▸ sees.mode, chunk ▸ sees.chunk, src ▸ sees.sound, ?_, ?_, ?_, len ▸ sees.len,
    sees.within, accounts ▸ sees.accounts, sees.calm⟩
  · unfold Reader.compact
    split
    · exact Nat.zero_le _
    · exact inside
  · rw [remaining, src]
    exact sees.left
  · rw [window_compact, src]
    exact sees.view

theorem Sees.fill (want : Nat) :
    ∃ got filled, reader.fill want = some (got, filled) ∧ got = min want reader.remaining ∧
      Sees body filled place ∧ filled.window = reader.window ++ reader.src.bytes.take want ∧
      filled.remaining = reader.remaining - got ∧ filled.len = reader.len ∧
      filled.chunk = reader.chunk := by
  have inside := sees.inside
  have left := sees.left
  have count : (reader.src.bytes.take (min want reader.remaining)).length =
      min want reader.remaining := by
    rw [List.length_take, left]
    omega
  have taken : reader.src.bytes.take (min want reader.remaining) = reader.src.bytes.take want := by
    rw [left]
    by_cases less : want ≤ reader.src.bytes.length
    · rw [Nat.min_eq_left less]
    · rw [Nat.min_eq_right (by omega), List.take_of_length_le (by omega),
        List.take_of_length_le (by omega)]
  have grown : (reader.buf ++ reader.src.bytes.take (min want reader.remaining)).drop
      reader.cursor = reader.window ++ reader.src.bytes.take want := by
    rw [List.drop_append_of_le_length inside, taken]
    rfl
  unfold Reader.fill
  dsimp only
  rw [if_neg (by simp [sees.sound])]
  refine ⟨_, _, rfl, count, ?_, grown, ?_, rfl, rfl⟩
  · refine { sees with inside := ?_, left := ?_, view := ?_ }
    · dsimp only
      rw [List.length_append]
      omega
    · dsimp only
      rw [count, List.length_drop]
      omega
    · refine Eq.trans ?_ sees.view
      have rejoined : reader.src.bytes.take (min want reader.remaining) ++
          reader.src.bytes.drop (min want reader.remaining) = reader.src.bytes :=
        List.take_append_drop _ _
      unfold window at grown ⊢
      dsimp only
      rw [List.drop_append_of_le_length inside, List.append_assoc, rejoined]
  · rw [count]

theorem Sees.move {accounts : Accounts} {n : Nat} (held : n ≤ reader.window.length)
    (calm : accounts.resynchronising = false → accounts.spent = 0) :
    Sees body { reader with cursor := reader.cursor + n, accounts := accounts }
      ⟨place.offset + n, accounts⟩ := by
  have inside := sees.inside
  have length := sees.length
  have room : n ≤ reader.buf.length - reader.cursor := by
    rw [← List.length_drop]
    exact held
  refine ⟨sees.mode, sees.chunk, sees.sound, ?_, sees.left, ?_, sees.len, ?_, rfl, calm⟩
  · dsimp only
    omega
  · have view := congrArg (List.drop n) sees.view
    rw [List.drop_append_of_le_length held, List.drop_drop] at view
    unfold window at *
    rwa [List.drop_drop] at view
  · dsimp only
    omega

theorem Sees.past {accounts : Accounts} (held : 1 ≤ reader.window.length)
    (entered : accounts.resynchronising = true) :
    Sees body (step { reader with accounts := accounts } 1)
      ⟨place.offset + 1, accounts.step 1⟩ := by
  refine sees.move held ?_
  intro calm
  exact absurd (show accounts.resynchronising = false from calm) (by simp [entered])

end

/-- The candidate at the place, if there is one, has been read whole. -/
def Complete (body : Bytes) (reader : Reader) (place : Place) : Prop :=
  ∀ len, checksummedLen (body.drop place.offset) = some len →
    place.offset + headerLen + len ≤ reader.pulled

/-- A candidate cut short at a trusted place is so by the end of the body. -/
def Exhausted (body : Bytes) (reader : Reader) (place : Place) : Prop :=
  place.accounts.resynchronising = false →
    decodeRecord (body.drop place.offset) = .needMore → reader.remaining = 0

/-- What a turn of a resynchronising reader comes to, if it decides what stands at its
place. -/
inductive Decided (body : Bytes) (reader : Reader) (place : Place) :
    Loop.Turn Reader (Answer × Reader) → Prop where
  /-- The rest of the segment was given up at a candidate that was not looked at. -/
  | strained {next : Reader} {len : Nat} (accounts : next.accounts = place.accounts.abandon)
      (overdrawn : place.accounts.overdrawn = true)
      (candidate : checksummedLen (body.drop place.offset) = some len)
      (beyond : reader.pulled < place.offset + headerLen + len) :
      Decided body reader place (.last (.finished, next))
  | again {next : Reader} {after : Place} (moved : place.turn body = .again after)
      (sees : Sees body next after) (ongoing : after.accounts.damage.abandoned = false)
      (kept : next.remaining = reader.remaining ∧ next.chunk = reader.chunk)
      (whole : Complete body reader place)
      (tail : Exhausted body reader place) :
      Decided body reader place (.again next)
  | item {next : Reader} {item : Item} {after : Place}
      (moved : place.turn body = .last (.item item, after)) (sees : Sees body next after)
      (kept : next.remaining = reader.remaining ∧ next.chunk = reader.chunk)
      (whole : Complete body reader place) :
      Decided body reader place (.last (.item item, next))
  | finished {next : Reader} {after : Place} (moved : place.turn body = .last (.finished, after))
      (accounts : next.accounts = after.accounts)
      (whole : Complete body reader place) :
      Decided body reader place (.last (.finished, next))

/-- A turn that grew the window. -/
structure Refilled (body : Bytes) (reader : Reader) (place : Place) (next : Reader) : Prop where
  sees : Sees body next place
  fewer : next.remaining < reader.remaining
  chunk : next.chunk = reader.chunk
  full : reader.window.length < headerLen → next.remaining = reader.remaining - reader.chunk
  /-- A byte at a time, the window grows no further than what has to be looked at. -/
  bound : reader.chunk = 1 →
    next.pulled ≤ place.offset + headerLen ∨
    (∃ len, checksummedLen (body.drop place.offset) = some len ∧
      place.accounts.overdrawn = false ∧ next.pulled ≤ place.offset + headerLen + len) ∨
    (place.accounts.resynchronising = false ∧
      decodeRecord (body.drop place.offset) = .needMore)

/-- What a turn of a resynchronising reader comes to. -/
inductive Turned (body : Bytes) (reader : Reader) (place : Place) :
    Loop.Turn Reader (Answer × Reader) → Prop where
  | refill {next : Reader} (refilled : Refilled body reader place next) :
      Turned body reader place (.again next)
  | decided {turned : Loop.Turn Reader (Answer × Reader)}
      (decided : Decided body reader place turned) : Turned body reader place turned

/-- The turn goes where the place goes. -/
def Follows (body : Bytes) (reader : Reader) (place : Place)
    (turned : Loop.Turn Reader (Answer × Reader)) : Prop :=
  match place.turn body with
  | .again after => ∃ next, turned = .again next ∧ Sees body next after ∧
      next.remaining = reader.remaining ∧ Complete body reader place ∧
      Exhausted body reader place
  | .last (.item item, after) => ∃ next, turned = .last (.item item, next) ∧
      Sees body next after ∧ next.remaining = reader.remaining ∧ Complete body reader place
  | .last (_, after) => ∃ next, turned = .last (.finished, next) ∧
      next.accounts = after.accounts

/-- Where no candidate is given up unseen. -/
theorem Decided.follows {turned : Loop.Turn Reader (Answer × Reader)}
    (decided : Decided body reader place turned)
    (looks : place.accounts.overdrawn = true → Complete body reader place) :
    Follows body reader place turned := by
  unfold Follows
  cases decided with
  | strained _ overdrawn candidate beyond =>
    exact absurd (looks overdrawn _ candidate) (Nat.not_le.mpr beyond)
  | again moved sees _ kept whole tail =>
    rw [moved]
    exact ⟨_, rfl, sees, kept.1, whole, tail⟩
  | item moved sees kept whole =>
    rw [moved]
    exact ⟨_, rfl, sees, kept.1, whole⟩
  | finished moved accounts =>
    rw [moved]
    exact ⟨_, rfl, accounts⟩

theorem Decided.of_settle {after : Place} (moved : place.turn body = after.settle)
    (sees : Sees body next after)
    (kept : next.remaining = reader.remaining ∧ next.chunk = reader.chunk)
    (whole : Complete body reader place)
    (tail : Exhausted body reader place) :
    Decided body reader place next.settle := by
  unfold Reader.settle damage
  unfold Place.settle at moved
  rw [sees.accounts]
  cases ended : after.accounts.damage.abandoned with
  | true =>
    rw [ended, if_pos rfl] at moved
    rw [if_pos rfl]
    exact .finished moved sees.accounts whole
  | false =>
    rw [ended, if_neg Bool.false_ne_true] at moved
    rw [if_neg Bool.false_ne_true]
    exact .again moved sees ended kept whole tail

theorem enterHole_resynchronising (accounts : Accounts) :
    accounts.enterHole.resynchronising = true := by
  unfold Accounts.enterHole
  split
  · assumption
  · rfl

theorem atMarker_resynchronising (accounts : Accounts) :
    accounts.atMarker.resynchronising = true := by
  unfold Accounts.atMarker
  split
  · assumption
  · exact enterHole_resynchronising _

theorem atDamage_resynchronising (accounts : Accounts) (checksummed : Option Nat) :
    (accounts.atDamage checksummed).resynchronising = true := by
  unfold Accounts.atDamage
  cases checksummed with
  | none => exact enterHole_resynchronising accounts
  | some declared =>
    dsimp only
    unfold Accounts.charge
    split <;> exact enterHole_resynchronising accounts

variable (sees : Sees body reader place)

include sees

theorem Sees.decode_settled (more : place.offset < body.length)
    (settled : decodeRecord reader.window ≠ .needMore) :
    Decided body reader place reader.decode := by
  have pulled := sees.pulled
  obtain ⟨same, priced⟩ := decodeRecord_append settled reader.src.bytes
  rw [sees.view] at same priced
  have whole : Complete body reader place := by
    intro len whole
    rw [priced] at whole
    obtain ⟨_, _, inside⟩ := checksummedLen_inside whole
    omega
  have tail : Exhausted body reader place :=
    fun _ short => absurd (same.symm.trans short) settled
  have nonempty : 1 ≤ reader.window.length := by
    by_contra empty
    have none : reader.window = [] := List.eq_nil_of_length_eq_zero (by omega)
    rw [none] at settled
    exact settled rfl
  have moved : place.turn body = match decodeRecord reader.window with
      | .record shard seq payload consumed =>
        .last (.item ⟨shard, seq, payload, place.offset, place.offset + consumed⟩,
          ⟨place.offset + consumed, place.accounts.found⟩)
      | .endOfLog => place.past place.accounts.atMarker 1
      | .needMore =>
        place.past
          (if place.accounts.resynchronising then place.accounts else place.accounts.atTail) 1
      | .corrupt skip =>
        place.past (place.accounts.atDamage (checksummedLen reader.window)) skip := by
    unfold Place.turn
    rw [if_neg (by omega), same, priced]
  unfold decode
  rw [sees.accounts, sees.offset]
  cases reads : decodeRecord reader.window with
  | record shard seq payload consumed =>
    obtain ⟨_, _, held⟩ := decodeRecord_inside.1 _ _ _ _ reads
    rw [reads] at moved
    dsimp only at moved ⊢
    exact .item moved (sees.move held fun _ => rfl) ⟨rfl, rfl⟩ whole
  | endOfLog =>
    rw [reads] at moved
    dsimp only at moved ⊢
    rw [if_neg (by simp [sees.mode])]
    exact .of_settle moved (sees.past nonempty (atMarker_resynchronising _)) ⟨rfl, rfl⟩ whole tail
  | needMore => exact absurd reads settled
  | corrupt skip =>
    have one : skip = 1 := decodeRecord_inside.2 skip reads
    rw [reads] at moved
    dsimp only at moved ⊢
    rw [if_neg (by simp [sees.mode])]
    subst one
    exact .of_settle moved (sees.past nonempty (atDamage_resynchronising _ _)) ⟨rfl, rfl⟩ whole tail

theorem Sees.candidate (short : decodeRecord reader.window = .needMore)
    (header : headerLen ≤ reader.window.length) :
    Candidate reader.window ∧ Candidate (body.drop place.offset) ∧
      declaredLen (body.drop place.offset) = declaredLen reader.window ∧
      reader.window.length < headerLen + declaredLen reader.window := by
  obtain ⟨candidate, beyond⟩ := candidate_of_needMore short header
  rw [← sees.view]
  exact ⟨candidate, candidate.append _, declaredLen_append header _, beyond⟩

theorem Sees.shortRead (more : place.offset < body.length)
    (ongoing : place.accounts.damage.abandoned = false)
    (trusted : place.accounts.resynchronising = false)
    (short : decodeRecord reader.window = .needMore) :
    Turned body reader place reader.shortRead := by
  have length := sees.length
  have chunk := sees.chunk
  obtain ⟨got, filled, fills, count, after, grown, left, len, sameChunk⟩ := sees.fill reader.chunk
  unfold Reader.shortRead
  rw [fills]
  dsimp only
  by_cases none : got = 0
  · have last : reader.remaining = 0 := by omega
    have nothing : reader.src.bytes = [] :=
      List.eq_nil_of_length_eq_zero (sees.left.symm.trans last)
    have sight : body.drop place.offset = reader.window := by
      rw [← sees.view, nothing, List.append_nil]
    have moved : place.turn body = place.past place.accounts.atTail 1 := by
      unfold Place.turn
      rw [if_neg (by omega), sight, short]
      dsimp only
      rw [if_neg (by simp [trusted])]
    have held : 1 ≤ filled.window.length := by
      rw [grown, List.length_append]
      omega
    have entered : place.accounts.atTail.resynchronising = true := enterHole_resynchronising _
    rw [if_neg (by simp [none]), if_neg (by simp [after.mode]), after.accounts]
    refine .decided (.of_settle moved (after.past held entered) ⟨?_, sameChunk⟩ ?_ fun _ _ => last)
    · simp only [step]
      omega
    · intro priced whole
      rw [sight] at whole
      obtain ⟨candidate, rfl, inside⟩ := checksummedLen_inside whole
      obtain ⟨_, _, _, beyond⟩ := sees.candidate short candidate.header
      omega
  · rw [if_pos none]
    have settles : filled.settle = .again filled := by
      unfold settle damage
      rw [after.accounts, ongoing, if_neg Bool.false_ne_true]
    rw [settles]
    refine .refill ⟨after, by omega, sameChunk, fun _ => by omega, ?_⟩
    intro one
    have pulled := sees.pulled
    have pulledAfter := after.pulled
    have lengthAfter := after.length
    by_cases header : headerLen ≤ reader.window.length
    · obtain ⟨_, candidate, declared, beyond⟩ := sees.candidate short header
      by_cases whole : headerLen + declaredLen (body.drop place.offset) ≤
          (body.drop place.offset).length
      · refine .inr (.inl ⟨_, (candidate.whole whole).1, ?_, by omega⟩)
        simp [Accounts.overdrawn, sees.calm trusted]
      · exact .inr (.inr ⟨trusted, candidate.needMore (by omega)⟩)
    · left
      omega

/-- What cannot be completed inside the body is stepped over. -/
theorem Sees.passes (more : place.offset < body.length)
    (entered : place.accounts.resynchronising = true) (held : 1 ≤ reader.window.length)
    (short : decodeRecord (body.drop place.offset) = .needMore) :
    Decided body reader place (reader.step 1).settle := by
  have moved : place.turn body = place.past place.accounts 1 := by
    unfold Place.turn
    rw [if_neg (by omega), short]
    dsimp only
    rw [if_pos entered]
  have after := sees.past held entered
  rw [← sees.accounts] at after
  rw [← sees.accounts] at moved
  refine .of_settle moved after ⟨rfl, rfl⟩ ?_ ?_
  · intro len whole
    obtain ⟨candidate, rfl, inside⟩ := checksummedLen_inside whole
    obtain ⟨_, reads | ⟨_, _, _, reads⟩⟩ := candidate.whole inside
    · rw [reads] at short
      cases short
    · rw [reads] at short
      cases short
  · intro trusted
    rw [entered] at trusted
    cases trusted

theorem Sees.resyncShortRead (more : place.offset < body.length)
    (ongoing : place.accounts.damage.abandoned = false)
    (entered : place.accounts.resynchronising = true)
    (short : decodeRecord reader.window = .needMore) :
    Turned body reader place (reader.settleRead reader.resyncShortRead) := by
  have length := sees.length
  have pulled := sees.pulled
  have chunk := sees.chunk
  have sight (last : reader.remaining = 0) : body.drop place.offset = reader.window := by
    have nothing : reader.src.bytes = [] :=
      List.eq_nil_of_length_eq_zero (sees.left.symm.trans last)
    rw [← sees.view, nothing, List.append_nil]
  have settles {filled : Reader} (after : Sees body filled place) :
      filled.settle = .again filled := by
    unfold settle damage
    rw [after.accounts, ongoing, if_neg Bool.false_ne_true]
  unfold Reader.resyncShortRead
  by_cases header : headerLen ≤ reader.window.length
  · obtain ⟨_, candidate, declared, beyond⟩ := sees.candidate short header
    have extent : (body.drop place.offset).length = reader.window.length + reader.remaining := by
      rw [List.length_drop]
      omega
    rw [if_neg (by omega)]
    dsimp only
    by_cases past : reader.window.length + reader.remaining < headerLen + declaredLen reader.window
    · rw [if_pos past]
      exact .decided (sees.passes more entered (by unfold headerLen at header; omega)
        (candidate.needMore (by omega)))
    · rw [if_neg past]
      obtain ⟨priced, _⟩ := candidate.whole (by omega)
      by_cases overdrawn : place.accounts.overdrawn = true
      · rw [sees.accounts, if_pos overdrawn]
        have gaveUp : settleRead reader
              (some { reader with accounts := place.accounts.abandon }) =
            .last (.finished, { reader with accounts := place.accounts.abandon }) := rfl
        rw [gaveUp]
        exact .decided (.strained rfl overdrawn priced (by omega))
      · rw [sees.accounts, if_neg overdrawn]
        obtain ⟨got, filled, fills, count, after, grown, left, len, sameChunk⟩ :=
          sees.fill (headerLen + declaredLen reader.window - reader.window.length)
        have pulledAfter := after.pulled
        have lengthAfter := after.length
        rw [fills]
        have goesOn : settleRead reader (Option.map (·.2) (some (got, filled))) =
            .again filled := settles after
        rw [goesOn]
        refine .refill ⟨after, by omega, sameChunk, fun less => absurd header (by omega),
          fun _ => .inr (.inl ⟨_, priced, ?_, ?_⟩)⟩
        · simpa using overdrawn
        · omega
  · rw [if_pos (by omega)]
    by_cases last : reader.remaining = 0
    · rw [if_pos last]
      refine .decided (sees.passes more entered (by omega) ?_)
      rw [sight last]
      exact short
    · obtain ⟨got, filled, fills, count, after, grown, left, len, sameChunk⟩ :=
        sees.fill reader.chunk
      have pulledAfter := after.pulled
      have lengthAfter := after.length
      rw [if_neg last, fills]
      have came : got ≠ 0 := by omega
      simp only [Option.map_some, if_neg came]
      have goesOn : settleRead reader (some filled) = .again filled := settles after
      rw [goesOn]
      exact .refill ⟨after, by omega, sameChunk, fun _ => by omega, fun one => .inl (by omega)⟩

theorem Sees.turned (ongoing : place.accounts.damage.abandoned = false) :
    Turned body reader place reader.turn := by
  have length := sees.length
  have inside := sees.inside
  have extent : reader.window.length = reader.buf.length - reader.cursor := by
    unfold window
    rw [List.length_drop]
  by_cases ended : body.length ≤ place.offset
  · -- Nothing is left, in the window or behind it.
    have moved : place.turn body =
        .last (.finished, { place with accounts := place.accounts.endOfSegment }) := by
      unfold Place.turn
      rw [if_pos ended]
    unfold turn
    rw [if_pos (by omega), sees.accounts]
    refine .decided (.finished moved rfl ?_)
    intro len whole
    obtain ⟨_, _, held⟩ := checksummedLen_inside whole
    rw [List.length_drop] at held
    unfold headerLen at held
    omega
  · have compacted := sees.compact
    obtain ⟨src, len, remaining, chunk, mode, accounts⟩ := compact_fields reader
    have decoded : Turned body reader.compact place reader.compact.decode := by
      by_cases short : decodeRecord reader.compact.window = .needMore
      · have shortens : reader.compact.decode =
            if reader.compact.accounts.resynchronising then
              reader.compact.settleRead reader.compact.resyncShortRead
            else reader.compact.shortRead := by
          unfold decode
          rw [short]
        rw [shortens, compacted.accounts]
        cases entered : place.accounts.resynchronising with
        | true =>
          rw [if_pos rfl]
          exact compacted.resyncShortRead (by omega) ongoing entered short
        | false =>
          rw [if_neg Bool.false_ne_true]
          exact compacted.shortRead (by omega) ongoing entered short
      · exact .decided (compacted.decode_settled (by omega) short)
    have pulled : reader.compact.pulled = reader.pulled := by
      unfold Reader.pulled
      rw [len, remaining]
    unfold turn
    rw [if_neg (by omega), if_neg (by omega)]
    generalize reader.compact.decode = outcome at decoded
    cases decoded with
    | refill refilled =>
      obtain ⟨sees, fewer, sameChunk, full, bound⟩ := refilled
      rw [remaining] at fewer full
      rw [chunk] at sameChunk full bound
      rw [window_compact] at full
      exact .refill ⟨sees, fewer, sameChunk, full, bound⟩
    | decided decided =>
      refine .decided ?_
      cases decided with
      | strained accounts overdrawn candidate beyond =>
        rw [pulled] at beyond
        exact .strained accounts overdrawn candidate beyond
      | again moved sees ongoing kept whole tail =>
        rw [remaining, chunk] at kept
        rw [Complete, pulled] at whole
        rw [Exhausted, remaining] at tail
        exact .again moved sees ongoing kept whole tail
      | item moved sees kept whole =>
        rw [remaining, chunk] at kept
        rw [Complete, pulled] at whole
        exact .item moved sees kept whole
      | finished moved accounts whole =>
        rw [Complete, pulled] at whole
        exact .finished moved accounts whole

end Reader

end Seedstone
