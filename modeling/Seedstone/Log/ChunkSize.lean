import Seedstone.Log.WholeRead
import Mathlib.Data.List.Range

/-!
# The reader and its chunk size

Two readers of one body with different chunks decide each place alike, except at a
candidate in a hole that is past the cap: one that has it in its window looks at it,
and one that would have to fill its window gives the segment up.  So the answer is
the same for all chunk sizes exactly if every such candidate lies in bytes any reader
has pulled in by then.
-/

namespace Seedstone

/-- What the candidates between two offsets make a reader checksum. -/
def checksummedBetween (body : Bytes) (start stop : Nat) : Nat :=
  ((List.range' start (stop - start)).map fun offset =>
    (checksummedLen (body.drop offset)).getD 0).sum

/-- How far a reader at `offset` has to look, if `boundary` ends the last record: to the
end of a candidate, or of the body for one that runs past it at the boundary. -/
def lookedAt (body : Bytes) (boundary offset : Nat) : Nat :=
  match checksummedLen (body.drop offset) with
  | some len => offset + headerLen + len
  | none =>
    if boundary = offset ∧ decodeRecord (body.drop offset) = .needMore then body.length else 0

/-- A hole that began at `boundary` is past the cap at `offset`. -/
def PastCap (body : Bytes) (boundary offset : Nat) : Prop :=
  resyncCap < checksummedBetween body boundary offset

/-- The offsets a read comes to, each with the end of the record before it and how far
the read has had to look. -/
inductive Visited (body : Bytes) : Nat → Nat → Nat → Prop where
  | start : Visited body 0 0 0
  | past {boundary offset reach : Nat} (visited : Visited body boundary offset reach)
      (inside : offset < body.length)
      (unread : ∀ shard seq payload consumed,
        decodeRecord (body.drop offset) ≠ .record shard seq payload consumed)
      (tried : PastCap body boundary offset → checksummedLen (body.drop offset) = none) :
      Visited body boundary (offset + 1) (max reach (lookedAt body boundary offset))
  | record {boundary offset reach shard seq : Nat} {payload : Bytes} {consumed : Nat}
      (visited : Visited body boundary offset reach)
      (read : decodeRecord (body.drop offset) = .record shard seq payload consumed) :
      Visited body (offset + consumed) (offset + consumed)
        (max reach (lookedAt body boundary offset))

/-- Every candidate met in a hole past the cap lies in what the read has had to look
at before. -/
def Steady (body : Bytes) : Prop :=
  ∀ boundary offset reach len, Visited body boundary offset reach →
    PastCap body boundary offset → checksummedLen (body.drop offset) = some len →
      offset + headerLen + len ≤ reach

theorem checksummedBetween_self (body : Bytes) (offset : Nat) :
    checksummedBetween body offset offset = 0 := by
  simp [checksummedBetween]

theorem checksummedBetween_succ (body : Bytes) {start stop : Nat} (ordered : start ≤ stop) :
    checksummedBetween body start (stop + 1) =
      checksummedBetween body start stop + (checksummedLen (body.drop stop)).getD 0 := by
  have count : stop + 1 - start = (stop - start) + 1 := by omega
  have last : start + (stop - start) = stop := by omega
  simp [checksummedBetween, count, List.range'_1_concat, last]

namespace Place

variable {body : Bytes} {place after : Place} {boundary reach : Nat}

theorem enterHole_spent (accounts : Accounts) : accounts.enterHole.spent = accounts.spent := by
  unfold Accounts.enterHole
  split <;> rfl

theorem atMarker_spent (accounts : Accounts) : accounts.atMarker.spent = accounts.spent := by
  unfold Accounts.atMarker
  split
  · rfl
  · exact enterHole_spent _

theorem enterHole_abandoned (accounts : Accounts) :
    accounts.enterHole.damage.abandoned = accounts.damage.abandoned := by
  unfold Accounts.enterHole
  split <;> rfl

theorem atDamage_cases (accounts : Accounts) (checksummed : Option Nat) :
    ((accounts.atDamage checksummed).spent = accounts.spent + checksummed.getD 0 ∧
        (accounts.atDamage checksummed).damage.abandoned = accounts.damage.abandoned ∧
        (accounts.overdrawn = true → checksummed = none)) ∨
      (accounts.overdrawn = true ∧ checksummed ≠ none ∧
        accounts.atDamage checksummed = accounts.enterHole.abandon) := by
  unfold Accounts.atDamage
  cases checksummed with
  | none => exact .inl ⟨enterHole_spent accounts, enterHole_abandoned accounts, fun _ => rfl⟩
  | some declared =>
    have same : accounts.enterHole.overdrawn = accounts.overdrawn := by
      unfold Accounts.overdrawn
      rw [enterHole_spent]
    dsimp only
    unfold Accounts.charge
    rw [same]
    cases overdrawn : accounts.overdrawn with
    | true =>
      rw [if_pos rfl]
      exact .inr ⟨rfl, by simp, rfl⟩
    | false =>
      rw [if_neg Bool.false_ne_true]
      refine .inl ⟨?_, enterHole_abandoned accounts, nofun⟩
      rw [enterHole_spent]
      rfl

theorem turn_again_accounts (moved : place.turn body = .again after) :
    after.accounts.resynchronising = true ∧
      after.accounts.spent =
        place.accounts.spent + (checksummedLen (body.drop place.offset)).getD 0 ∧
      (place.accounts.overdrawn = true → checksummedLen (body.drop place.offset) = none) := by
  unfold turn at moved
  split at moved
  · cases moved
  · cases reads : decodeRecord (body.drop place.offset) with
    | record shard seq payload consumed =>
      rw [reads] at moved
      cases moved
    | endOfLog =>
      rw [reads] at moved
      obtain ⟨rfl, _⟩ := settle_again moved
      rw [checksummedLen_eq_none (.inr reads)]
      exact ⟨Reader.atMarker_resynchronising _, atMarker_spent _, fun _ => rfl⟩
    | needMore =>
      rw [reads] at moved
      obtain ⟨rfl, _⟩ := settle_again moved
      rw [checksummedLen_eq_none (.inl reads)]
      cases entered : place.accounts.resynchronising with
      | true => exact ⟨entered, rfl, fun _ => rfl⟩
      | false =>
        exact ⟨Reader.enterHole_resynchronising _, enterHole_spent _, fun _ => rfl⟩
    | corrupt skip =>
      rw [reads] at moved
      obtain ⟨rfl, ongoing⟩ := settle_again moved
      obtain ⟨spent, _, tried⟩ | ⟨_, _, abandoned⟩ :=
        atDamage_cases place.accounts (checksummedLen (body.drop place.offset))
      · exact ⟨Reader.atDamage_resynchronising _ _, spent, tried⟩
      · rw [abandoned] at ongoing
        cases ongoing

theorem turn_finished (moved : place.turn body = .last (.finished, after))
    (ongoing : place.accounts.damage.abandoned = false) :
    body.length ≤ place.offset ∨
      (place.accounts.overdrawn = true ∧ checksummedLen (body.drop place.offset) ≠ none ∧
        after.accounts.damage.bytes = place.accounts.damage.bytes + 1) := by
  unfold turn at moved
  split at moved
  · next ended => exact .inl ended
  · have goesOn {accounts : Accounts} (still : accounts.damage.abandoned = false) {n : Nat} :
        place.past accounts n ≠ .last (.finished, after) := by
      simp [past, settle, Accounts.step, still]
    cases reads : decodeRecord (body.drop place.offset) with
    | record shard seq payload consumed =>
      rw [reads] at moved
      cases moved
    | endOfLog =>
      rw [reads] at moved
      refine absurd moved (goesOn ?_)
      unfold Accounts.atMarker
      split
      · exact ongoing
      · rw [enterHole_abandoned]
        exact ongoing
    | needMore =>
      rw [reads] at moved
      refine absurd moved (goesOn ?_)
      split
      · exact ongoing
      · exact (enterHole_abandoned _).trans ongoing
    | corrupt skip =>
      have one : skip = 1 := decodeRecord_inside.2 skip reads
      rw [reads, one] at moved
      obtain ⟨_, still, _⟩ | ⟨overdrawn, priced, abandoned⟩ :=
        atDamage_cases place.accounts (checksummedLen (body.drop place.offset))
      · exact absurd moved (goesOn (still.trans ongoing))
      · obtain ⟨_, rfl⟩ := settle_over moved
        refine .inr ⟨overdrawn, priced, ?_⟩
        rw [abandoned]
        unfold Accounts.enterHole
        split <;> rfl

/-- A place a read comes to. -/
structure At (body : Bytes) (boundary reach : Nat) (place : Place) : Prop where
  visited : Visited body boundary place.offset reach
  ordered : boundary ≤ place.offset
  spent : place.accounts.spent = checksummedBetween body boundary place.offset
  entered : place.accounts.resynchronising = true ↔ boundary < place.offset
  ongoing : place.accounts.damage.abandoned = false

theorem at_start (body : Bytes) : At body 0 0 .start where
  visited := .start
  ordered := Nat.le_refl 0
  spent := (checksummedBetween_self body 0).symm
  entered := by simp [start, Accounts.fresh]
  ongoing := rfl

theorem At.pastCap (is : At body boundary reach place) :
    PastCap body boundary place.offset ↔ place.accounts.overdrawn = true := by
  unfold PastCap Accounts.overdrawn
  rw [is.spent, decide_eq_true_iff]

theorem At.again (is : At body boundary reach place) (moved : place.turn body = .again after) :
    At body boundary (max reach (lookedAt body boundary place.offset)) after := by
  have ordered := is.ordered
  obtain ⟨inside, offset, ongoing, unread⟩ := turn_again moved
  obtain ⟨entered, spent, tried⟩ := turn_again_accounts moved
  refine ⟨?_, by omega, ?_, ?_, ongoing⟩
  · rw [offset]
    exact .past is.visited inside unread fun past => tried (is.pastCap.mp past)
  · rw [spent, is.spent, offset, checksummedBetween_succ body ordered]
  · simp only [entered, true_iff]
    omega

theorem At.item {item : Item} (is : At body boundary reach place)
    (moved : place.turn body = .last (.item item, after)) :
    At body after.offset (max reach (lookedAt body boundary place.offset)) after := by
  obtain ⟨inside, start, stop, nonempty, accounts, reads⟩ := turn_item moved
  refine ⟨?_, Nat.le_refl _, ?_, ?_, ?_⟩
  · have visited := Visited.record is.visited reads
    have arrives : place.offset + (item.stop - item.start) = after.offset := by omega
    rw [arrives] at visited
    exact visited
  · rw [accounts, checksummedBetween_self]
    rfl
  · simp [accounts, Accounts.found]
  · rw [accounts]
    exact is.ongoing

end Place

namespace Reader

variable {body : Bytes} {reader next : Reader} {place after : Place} {boundary reach : Nat}
  {items : List (Item × Damage)} {last : Damage} {len : Nat}

theorem Refilled.pulled_le (refilled : Refilled body reader place next)
    (sees : Sees body reader place) : reader.pulled ≤ next.pulled := by
  have fewer := refilled.fewer
  unfold Reader.pulled
  rw [sees.len, refilled.sees.len]
  omega

theorem pulled_eq (sees : Sees body reader place) (later : Sees body next after)
    (kept : next.remaining = reader.remaining) : next.pulled = reader.pulled := by
  unfold Reader.pulled
  rw [sees.len, later.len, kept]

/-- A reader that has looked as far as it had to. -/
structure Abreast (body : Bytes) (boundary reach : Nat) (reader : Reader) (place : Place) :
    Prop where
  sees : Sees body reader place
  is : place.At body boundary reach
  looked : reach ≤ reader.pulled

section

variable (abreast : Abreast body boundary reach reader place)

include abreast

theorem Abreast.lookedAt_le
    (whole : Complete body reader place) (tail : Exhausted body reader place) :
    lookedAt body boundary place.offset ≤ reader.pulled := by
  unfold lookedAt
  split
  · next len priced => exact whole len priced
  · split
    · next short =>
      have trusted : place.accounts.resynchronising = false := by
        have entered := abreast.is.entered
        have same := short.1
        cases held : place.accounts.resynchronising with
        | false => rfl
        | true =>
          have less := entered.mp held
          omega
      have none := tail trusted short.2
      unfold Reader.pulled
      rw [abreast.sees.len, none]
      omega
    · exact Nat.zero_le _

theorem Abreast.looks (steady : Steady body) (overdrawn : place.accounts.overdrawn = true) :
    Complete body reader place := by
  intro len candidate
  have within := steady _ _ _ _ abreast.is.visited (abreast.is.pastCap.mpr overdrawn) candidate
  have looked := abreast.looked
  omega

theorem Abreast.decides {sure : Reader → Prop}
    (kept : ∀ {reader next : Reader}, next.remaining ≤ reader.remaining → sure reader → sure next)
    (holds : sure reader) :
    ∃ ready, Abreast body boundary reach ready place ∧ sure ready ∧
      Decided body ready place ready.turn ∧
      ∀ {items last}, ready.Yields items last → reader.Yields items last := by
  obtain ⟨ready, sees, ⟨looked, still⟩, decided, yields⟩ :=
    abreast.sees.settles abreast.is.ongoing (fun reader => reach ≤ reader.pulled ∧ sure reader)
      (fun sees refilled before => ⟨Nat.le_trans before.1 (refilled.pulled_le sees),
        kept (Nat.le_of_lt refilled.fewer) before.2⟩) ⟨abreast.looked, holds⟩
  exact ⟨ready, ⟨sees, abreast.is, looked⟩, still, decided, yields⟩

theorem Abreast.again (moved : place.turn body = .again after) (sees : Sees body next after)
    (kept : next.remaining = reader.remaining)
    (whole : Complete body reader place) (tail : Exhausted body reader place) :
    Abreast body boundary (max reach (lookedAt body boundary place.offset)) next after := by
  refine ⟨sees, abreast.is.again moved, ?_⟩
  rw [pulled_eq abreast.sees sees kept]
  exact Nat.max_le.mpr ⟨abreast.looked, abreast.lookedAt_le whole tail⟩

theorem Abreast.item {item : Item} (moved : place.turn body = .last (.item item, after))
    (sees : Sees body next after) (kept : next.remaining = reader.remaining)
    (whole : Complete body reader place) :
    Abreast body after.offset (max reach (lookedAt body boundary place.offset)) next after := by
  refine ⟨sees, abreast.is.item moved, ?_⟩
  rw [pulled_eq abreast.sees sees kept]
  refine Nat.max_le.mpr ⟨abreast.looked, abreast.lookedAt_le whole ?_⟩
  intro _ short
  obtain ⟨_, _, _, _, _, reads⟩ := Place.turn_item moved
  rw [short] at reads
  cases reads

theorem Abreast.yields {sure : Reader → Prop}
    (kept : ∀ {reader next : Reader}, next.remaining ≤ reader.remaining → sure reader → sure next)
    (looks : ∀ {boundary reach : Nat} {reader : Reader} {place : Place},
      Abreast body boundary reach reader place → sure reader →
      place.accounts.overdrawn = true → Complete body reader place) (holds : sure reader)
    (read : place.Yields body items last) : reader.Yields items last := by
  induction read generalizing reader boundary reach with
  | @again place after items last moved rest induction =>
    obtain ⟨ready, ahead, still, decided, yields⟩ := abreast.decides kept holds
    have follows := decided.follows (looks ahead still)
    rw [Follows, moved] at follows
    obtain ⟨next, turned, later, same, whole, tail⟩ := follows
    exact yields (.again turned (induction (ahead.again moved later same whole tail)
      (kept (Nat.le_of_eq same) still)))
  | @item place after item items last moved rest induction =>
    obtain ⟨ready, ahead, still, decided, yields⟩ := abreast.decides kept holds
    have follows := decided.follows (looks ahead still)
    rw [Follows, moved] at follows
    obtain ⟨next, turned, later, same, whole⟩ := follows
    rw [← later.accounts]
    exact yields (.item turned (induction (ahead.item moved later same whole)
      (kept (Nat.le_of_eq same) still)))
  | @finished place after moved =>
    obtain ⟨ready, ahead, still, decided, yields⟩ := abreast.decides kept holds
    have follows := decided.follows (looks ahead still)
    rw [Follows, moved] at follows
    obtain ⟨next, turned, accounts⟩ := follows
    rw [← accounts]
    exact yields (.finished turned)

end

theorem abreast_withChunk (body : Bytes) (chunk : Nat) :
    Abreast body 0 0 (withChunk ⟨body, false⟩ body.length .resynchronising chunk) .start :=
  ⟨sees_withChunk body chunk, Place.at_start body, Nat.zero_le _⟩

theorem scan_of_steady (steady : Steady body) (chunk : Nat)
    (read : Place.start.Yields body items last) :
    scan .resynchronising chunk body = (items.map Prod.fst, last) := by
  exact scan_of_yields ((abreast_withChunk body chunk).yields
    (fun {_ _} _ _ => True.intro) (fun abreast _ => abreast.looks steady) True.intro read)

theorem scan_of_whole {chunk : Nat} (enough : body.length ≤ chunk)
    (read : Place.start.Yields body items last) :
    scan .resynchronising chunk body = (items.map Prod.fst, last) := by
  have looks : ∀ {boundary reach : Nat} {reader : Reader} {place : Place},
      Abreast body boundary reach reader place → reader.remaining = 0 →
      place.accounts.overdrawn = true → Complete body reader place := by
    intro boundary reach reader place abreast none _ len candidate
    obtain ⟨_, _, inside⟩ := checksummedLen_inside candidate
    have within := abreast.sees.within
    rw [List.length_drop] at inside
    unfold Reader.pulled
    unfold headerLen at *
    rw [abreast.sees.len, none]
    omega
  have abreast := abreast_withChunk body chunk
  refine scan_of_yields ?_
  generalize first : withChunk ⟨body, false⟩ body.length .resynchronising chunk = reader
    at abreast
  have length := abreast.sees.length
  have empty : reader.window.length = 0 := by
    rw [← first]
    rfl
  have chunkIs : reader.chunk = max chunk 1 := by rw [← first]; rfl
  have yields {reader : Reader} (ahead : Abreast body 0 0 reader .start)
      (none : reader.remaining = 0) : reader.Yields items last :=
    ahead.yields (fun less none => by omega) looks none read
  by_cases none : reader.remaining = 0
  · exact yields abreast none
  · -- The first turn pulls the whole body in.
    have outcome := abreast.sees.turned rfl
    generalize turned : reader.turn = result at outcome
    cases outcome with
    | refill refilled =>
      have full := refilled.full (by unfold headerLen; omega)
      refine .again turned (yields ⟨refilled.sees, abreast.is, Nat.zero_le _⟩ ?_)
      simp only [Place.start] at length
      omega
    | decided decided =>
      exfalso
      cases decided with
      | strained _ overdrawn => cases overdrawn
      | again moved sees _ kept =>
        have lengthAfter := sees.length
        obtain ⟨_, offset, _⟩ := Place.turn_again moved
        omega
      | item moved sees kept =>
        have lengthAfter := sees.length
        obtain ⟨_, _, _, _, _, _⟩ := Place.turn_item moved
        omega
      | finished moved =>
        obtain ended | ⟨overdrawn, _⟩ := Place.turn_finished moved rfl
        · simp only [Place.start] at length ended
          omega
        · cases overdrawn

/-- A reader that yields what the read in sight does, with no more pulled in than looked
at. -/
structure Narrow (body : Bytes) (boundary reach : Nat) (reader : Reader) (place : Place) :
    Prop where
  sees : Sees body reader place
  is : place.At body boundary reach
  chunk : reader.chunk = 1
  bound : reader.pulled ≤ max reach (place.offset + headerLen) ∨
    (place.accounts.overdrawn = false ∧ reader.pulled ≤ lookedAt body boundary place.offset)
  alike : ∃ items others last, reader.Yields items last ∧ place.Yields body others last ∧
    items.map Prod.fst = others.map Prod.fst

theorem Refilled.narrow (refilled : Refilled body reader place next)
    (is : place.At body boundary reach) (chunk : reader.chunk = 1) :
    next.pulled ≤ max reach (place.offset + headerLen) ∨
      (place.accounts.overdrawn = false ∧ next.pulled ≤ lookedAt body boundary place.offset) := by
  obtain near | ⟨len, candidate, calm, near⟩ | ⟨trusted, short⟩ := refilled.bound chunk
  · exact .inl (by omega)
  · refine .inr ⟨calm, ?_⟩
    unfold lookedAt
    rw [candidate]
    exact near
  · have here : boundary = place.offset := by
      have ordered := is.ordered
      have entered := is.entered
      rw [trusted] at entered
      simp only [Bool.false_eq_true, false_iff] at entered
      omega
    refine .inr ⟨?_, ?_⟩
    · simp [Accounts.overdrawn, refilled.sees.calm trusted]
    · unfold lookedAt
      rw [checksummedLen_eq_none (.inl short)]
      dsimp only
      rw [if_pos ⟨here, short⟩]
      unfold Reader.pulled
      rw [refilled.sees.len]
      omega

theorem Narrow.decides (narrow : Narrow body boundary reach reader place) :
    ∃ ready, Narrow body boundary reach ready place ∧ Decided body ready place ready.turn := by
  obtain ⟨ready, sees, ⟨chunk, bound⟩, decided, yields⟩ := narrow.sees.settles narrow.is.ongoing
      (fun reader => reader.chunk = 1 ∧
        (reader.pulled ≤ max reach (place.offset + headerLen) ∨
          (place.accounts.overdrawn = false ∧ reader.pulled ≤ lookedAt body boundary place.offset)))
      (fun sees refilled before => ⟨refilled.chunk.trans before.1,
        refilled.narrow narrow.is before.1⟩) ⟨narrow.chunk, narrow.bound⟩
  obtain ⟨items, others, last, read, sight, same⟩ := narrow.alike
  obtain ⟨_, reads⟩ := Busy.readAll ⟨place, sees, narrow.is.ongoing⟩
  obtain ⟨rfl, rfl⟩ := (yields reads).unique read
  exact ⟨ready, ⟨sees, narrow.is, chunk, bound, _, others, _, reads, sight, same⟩, decided⟩

/-- Where a candidate is refused unseen, the read in sight sees more. -/
theorem Narrow.unstrained (narrow : Narrow body boundary reach reader place)
    (turned : reader.turn = .last (.finished, next))
    (accounts : next.accounts = place.accounts.abandon)
    (overdrawn : place.accounts.overdrawn = true)
    (candidate : checksummedLen (body.drop place.offset) = some len) : False := by
  obtain ⟨items, others, last, read, sight, same⟩ := narrow.alike
  obtain ⟨rfl, rfl⟩ := read.after_finished turned
  cases moved : place.turn body with
  | again after =>
    obtain ⟨_, _, tried⟩ := Place.turn_again_accounts moved
    rw [tried overdrawn] at candidate
    cases candidate
  | last result =>
    obtain ⟨answer, after⟩ := result
    obtain ⟨item, rfl⟩ | rfl := Place.turn_answer moved
    · obtain ⟨rest, rfl, _⟩ := sight.after_item moved
      cases same
    · obtain ⟨_, same⟩ := sight.after_finished moved
      obtain ended | ⟨_, _, more⟩ := Place.turn_finished moved narrow.is.ongoing
      · obtain ⟨_, _, inside⟩ := checksummedLen_inside candidate
        rw [List.length_drop] at inside
        unfold headerLen at inside
        omega
      · have bytes := congrArg Damage.bytes same
        unfold Reader.damage at bytes
        rw [accounts, more] at bytes
        simp [Accounts.abandon] at bytes

/-- If the reader of one byte at a time yields what the read in sight yields, it comes to
every place that read comes to. -/
theorem narrow_of_visited {offset : Nat} (visited : Visited body boundary offset reach)
    (alike : ∃ items others last,
      (withChunk ⟨body, false⟩ body.length .resynchronising 1).Yields items last ∧
      Place.start.Yields body others last ∧ items.map Prod.fst = others.map Prod.fst) :
    ∃ reader place, Narrow body boundary reach reader place ∧ place.offset = offset := by
  induction visited with
  | start =>
    refine ⟨_, .start, ⟨sees_withChunk body 1, Place.at_start body, rfl, .inl ?_, alike⟩, rfl⟩
    simp [Reader.pulled, withChunk]
  | @past boundary offset reach visited inside unread tried induction =>
    obtain ⟨reader, place, narrow, rfl⟩ := induction
    obtain ⟨ready, narrow, decided⟩ := narrow.decides
    generalize turned : ready.turn = outcome at decided
    cases decided with
    | strained accounts overdrawn candidate =>
      exact absurd (narrow.unstrained turned accounts overdrawn candidate) id
    | again moved sees _ kept =>
      obtain ⟨_, arrives, _⟩ := Place.turn_again moved
      obtain ⟨items, others, last, read, sight, same⟩ := narrow.alike
      refine ⟨_, _, ⟨sees, narrow.is.again moved, kept.2.trans narrow.chunk, .inl ?_, items,
        others, last, read.after_again turned, sight.after_again moved, same⟩, arrives⟩
      rw [pulled_eq narrow.sees sees kept.1]
      obtain near | ⟨_, near⟩ := narrow.bound <;> omega
    | item moved =>
      obtain ⟨_, _, _, _, _, reads⟩ := Place.turn_item moved
      exact absurd reads (unread _ _ _ _)
    | finished moved =>
      obtain ended | ⟨overdrawn, priced, _⟩ := Place.turn_finished moved narrow.is.ongoing
      · omega
      · exact absurd (tried (narrow.is.pastCap.mpr overdrawn)) priced
  | @record boundary offset reach shard seq payload consumed visited reads induction =>
    obtain ⟨reader, place, narrow, rfl⟩ := induction
    have moved := Place.turn_record reads
    obtain ⟨ready, narrow, decided⟩ := narrow.decides
    generalize turned : ready.turn = outcome at decided
    cases decided with
    | strained accounts overdrawn candidate =>
      exact absurd (narrow.unstrained turned accounts overdrawn candidate) id
    | again goes | finished goes =>
      rw [moved] at goes
      cases goes
    | item goes sees kept =>
      rw [moved] at goes
      cases goes
      obtain ⟨items, others, last, read, sight, same⟩ := narrow.alike
      obtain ⟨items, rfl, later⟩ := read.after_item turned
      obtain ⟨others, rfl, beyond⟩ := sight.after_item moved
      refine ⟨_, _, ⟨sees, narrow.is.item moved, kept.2.trans narrow.chunk, .inl ?_, items,
        others, last, later, beyond, (List.cons.inj same).2⟩, rfl⟩
      rw [pulled_eq narrow.sees sees kept.1]
      obtain near | ⟨_, near⟩ := narrow.bound <;> dsimp only <;> omega

theorem steady_of_scan_eq (same : scan .resynchronising 1 body =
    scan .resynchronising (max body.length 1) body) : Steady body := by
  obtain ⟨items, last, sight⟩ := Place.exists_yields body .start
  intro boundary offset reach len visited past candidate
  have alike : ∃ items others last,
      (withChunk ⟨body, false⟩ body.length .resynchronising 1).Yields items last ∧
      Place.start.Yields body others last ∧ items.map Prod.fst = others.map Prod.fst := by
    obtain ⟨_, read⟩ := (busy_withChunk body 1).readAll
    rw [scan_of_yields read, scan_of_whole (Nat.le_max_left _ _) sight, Prod.mk.injEq] at same
    exact ⟨_, items, last, same.2 ▸ read, sight, same.1⟩
  obtain ⟨reader, place, narrow, rfl⟩ := narrow_of_visited visited alike
  have overdrawn := narrow.is.pastCap.mp past
  obtain ⟨ready, narrow, decided⟩ := narrow.decides
  have near : ready.pulled ≤ max reach (place.offset + headerLen) := by
    obtain near | ⟨calm, _⟩ := narrow.bound
    · exact near
    · rw [overdrawn] at calm
      cases calm
  have seen : place.offset + headerLen + len ≤ ready.pulled := by
    generalize turned : ready.turn = outcome at decided
    cases decided with
    | strained accounts overdrawn candidate =>
      exact absurd (narrow.unstrained turned accounts overdrawn candidate) id
    | again _ _ _ _ whole | item _ _ _ whole | finished _ _ whole => exact whole len candidate
  have positive : 0 < len := by
    obtain ⟨is, rfl, _⟩ := checksummedLen_inside candidate
    have length := is.length
    simp only [plausibleLen, Bool.and_eq_true, decide_eq_true_eq] at length
    exact Nat.lt_of_lt_of_le (by decide) length.1
  omega

/-- The answer is the same for all chunk sizes exactly if the body is steady. -/
theorem scan_chunk_independent_iff (body : Bytes) :
    (∀ first second, 1 ≤ first → 1 ≤ second →
      scan .resynchronising first body = scan .resynchronising second body) ↔
    Steady body := by
  constructor
  · intro same
    exact steady_of_scan_eq (same 1 _ (Nat.le_refl 1) (Nat.le_max_right _ _))
  · intro steady first second _ _
    obtain ⟨items, last, sight⟩ := Place.exists_yields body .start
    rw [scan_of_steady steady first sight, scan_of_steady steady second sight]

/-- A header of a body one byte longer than the cap, with a checksum that is not its
own; the body, all zeros; and an intact record. -/
def overdrawnBody : Bytes :=
  let zeros := List.replicate (resyncCap + 1) (0 : UInt8)
  framed (if crc32IsoHdlc zeros = 0 then 1 else 0) zeros ++ encodeRecord 0 0 []

/-- A hole of one candidate, with nothing else in it that could be one. -/
theorem visited_of_lone {stop : Nat} (priced : checksummedLen body = some len)
    (damaged : decodeRecord body = .corrupt 1)
    (strays : ∀ offset, 1 ≤ offset → offset < stop →
      ∃ byte, byte ≠ magic ∧ (body.drop offset).head? = some byte) (positive : 1 ≤ stop) :
    Visited body 0 stop (headerLen + len) ∧ checksummedBetween body 0 stop = len := by
  obtain ⟨_, _, held⟩ := checksummedLen_inside priced
  induction stop with
  | zero => omega
  | succ stop induction =>
    by_cases first : stop = 0
    · subst first
      have look : lookedAt body 0 0 = headerLen + len := by
        unfold lookedAt
        rw [List.drop_zero, priced]
        exact congrArg (· + len) (Nat.zero_add headerLen)
      have visited : Visited body 0 (0 + 1) (max 0 (lookedAt body 0 0)) := by
        refine .past .start ?_ ?_ ?_
        · unfold headerLen at held
          omega
        · rw [List.drop_zero, damaged]
          exact nofun
        · intro past
          rw [PastCap, checksummedBetween_self] at past
          omega
      rw [look, Nat.zero_max] at visited
      refine ⟨visited, ?_⟩
      rw [checksummedBetween_succ body (Nat.le_refl 0), checksummedBetween_self, List.drop_zero,
        priced]
      exact Nat.zero_add len
    · obtain ⟨visited, between⟩ := induction
        (fun offset after before => strays offset after (by omega)) (by omega)
      obtain ⟨byte, other, stands⟩ := strays stop (by omega) (by omega)
      have unlooked : (∀ shard seq payload consumed,
            decodeRecord (body.drop stop) ≠ .record shard seq payload consumed) ∧
          decodeRecord (body.drop stop) ≠ .needMore ∧ checksummedLen (body.drop stop) = none := by
        by_cases marker : byte = endOfLogMarker
        · subst marker
          obtain ⟨reads, unpriced⟩ := decodeRecord_marker stands
          simp [reads, unpriced]
        · obtain ⟨reads, unpriced⟩ := decodeRecord_stray stands marker other
          simp [reads, unpriced]
      obtain ⟨unread, _, unpriced⟩ := unlooked
      have inside : stop < body.length := by
        by_contra beyond
        rw [List.drop_eq_nil_of_le (by omega)] at stands
        cases stands
      have look : lookedAt body 0 stop = 0 := by
        unfold lookedAt
        rw [unpriced]
        dsimp only
        rw [if_neg (fun both => first both.1.symm)]
      have next := Visited.past visited inside unread fun _ => unpriced
      rw [look, Nat.max_zero] at next
      refine ⟨next, ?_⟩
      rw [checksummedBetween_succ body (Nat.zero_le stop), between, unpriced]
      rfl

theorem stray_of_tail {first : UInt8} {tail rest : Bytes} (others : ∀ byte ∈ tail, byte ≠ magic)
    {offset : Nat} (after : 1 ≤ offset) (before : offset < tail.length + 1) :
    ∃ byte, byte ≠ magic ∧ (((first :: tail) ++ rest).drop offset).head? = some byte := by
  obtain ⟨earlier, rfl⟩ : ∃ earlier, offset = earlier + 1 := ⟨offset - 1, by omega⟩
  have inside : earlier < tail.length := by omega
  refine ⟨tail[earlier], others _ (List.getElem_mem inside), ?_⟩
  rw [List.head?_drop, List.cons_append, List.getElem?_cons_succ,
    List.getElem?_append_left inside, List.getElem?_eq_getElem inside]

theorem not_steady_of_lone {next : Nat} (priced : checksummedLen body = some len)
    (damaged : decodeRecord body = .corrupt 1)
    (strays : ∀ offset, 1 ≤ offset → offset < headerLen + len →
      ∃ byte, byte ≠ magic ∧ (body.drop offset).head? = some byte) (past : resyncCap < len)
    (behind : checksummedLen (body.drop (headerLen + len)) = some next) : ¬ Steady body := by
  intro steady
  obtain ⟨visited, between⟩ := visited_of_lone priced damaged strays (by unfold headerLen; omega)
  have overrun : PastCap body 0 (headerLen + len) := by
    rw [PastCap, between]
    exact past
  have within := steady _ _ _ _ visited overrun behind
  unfold headerLen at within
  omega

theorem strays_of_framed {check : Nat} {rest : Bytes}
    (others : ∀ byte ∈ LittleEndian.bytes 4 body.length ++ LittleEndian.bytes 4 check ++ body,
      byte ≠ magic) :
    ∀ offset, 1 ≤ offset → offset < headerLen + body.length →
      ∃ byte, byte ≠ magic ∧ ((framed check body ++ rest).drop offset).head? = some byte := by
  intro offset after before
  refine stray_of_tail others after ?_
  simp only [List.length_append, LittleEndian.length_bytes]
  unfold headerLen at before
  omega

theorem scan_overdrawn_ne :
    scan .resynchronising 1 overdrawnBody ≠
      scan .resynchronising overdrawnBody.length overdrawnBody := by
  generalize zerosIs : List.replicate (resyncCap + 1) (0 : UInt8) = zeros
  generalize checkIs : (if crc32IsoHdlc zeros = 0 then 1 else 0) = check
  have bodyIs : overdrawnBody = framed check zeros ++ encodeRecord 0 0 [] := by
    unfold overdrawnBody
    dsimp only
    rw [zerosIs, checkIs]
  have length : zeros.length = resyncCap + 1 := by rw [← zerosIs, List.length_replicate]
  have long : bodyFixedLen ≤ zeros.length := by
    rw [length]
    decide
  have short : zeros.length ≤ maxBodyLen := by
    rw [length]
    decide
  have small : check = 0 ∨ check = 1 := by
    rw [← checkIs]
    split <;> simp
  have fits : check < 256 ^ 4 := by
    obtain rfl | rfl := small <;> decide
  have wrong : (crc32IsoHdlc zeros).toNat ≠ check := by
    rw [← checkIs]
    split
    · next zero =>
      rw [zero]
      decide
    · next other =>
      intro same
      exact other (UInt32.toNat_inj.mp same)
  have both : Candidate (framed check zeros ++ encodeRecord 0 0 []) ∧
      headerLen + zeros.length ≤ (framed check zeros ++ encodeRecord 0 0 []).length :=
    candidate_framed long short _
  have declared : declaredLen (framed check zeros ++ encodeRecord 0 0 []) = zeros.length :=
    declaredLen_framed (length_fits short) _
  have priced : checksummedLen overdrawnBody = some zeros.length := by
    rw [bodyIs, (both.1.whole (by rw [declared]; exact both.2)).1, declared]
  have damaged : decodeRecord overdrawnBody = .corrupt 1 := by
    rw [bodyIs, decodeRecord_framed long short fits, if_pos wrong]
  have others : ∀ byte ∈ LittleEndian.bytes 4 zeros.length ++ LittleEndian.bytes 4 check ++ zeros,
      byte ≠ magic := by
    have first : ∀ byte ∈ LittleEndian.bytes 4 (resyncCap + 1), byte ≠ magic := by
      decide +kernel
    have second : ∀ byte ∈ LittleEndian.bytes 4 check, byte ≠ magic := by
      obtain rfl | rfl := small <;> decide +kernel
    have third : ∀ byte ∈ zeros, byte ≠ magic := by
      rw [← zerosIs]
      intro byte member
      rw [List.eq_of_mem_replicate member]
      decide
    intro byte member
    rw [length, List.mem_append, List.mem_append] at member
    obtain (member | member) | member := member
    · exact first byte member
    · exact second byte member
    · exact third byte member
  have next : checksummedLen (overdrawnBody.drop (headerLen + zeros.length)) = some 10 := by
    have behind : overdrawnBody.drop (headerLen + zeros.length) = encodeRecord 0 0 [] := by
      rw [bodyIs]
      exact List.drop_left' length_framed
    rw [behind]
    decide +kernel
  have past : resyncCap < zeros.length := by
    rw [length]
    exact Nat.lt_succ_self _
  have nonempty : 1 ≤ overdrawnBody.length := by
    rw [bodyIs]
    exact Nat.le_trans (by decide) both.1.header
  intro same
  refine not_steady_of_lone priced damaged ?_ past next (steady_of_scan_eq ?_)
  · rw [bodyIs]
    exact strays_of_framed others
  · rw [Nat.max_eq_left nonempty]
    exact same

end Reader

end Seedstone
