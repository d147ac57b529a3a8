import Seedstone.Log.Sweep

/-!
# Whole reads

What a reader yields until it is done, as a relation on its turns.  The reader that
sees its body through a window yields what the read in sight yields, as long as no
turn is strained: the two go from place to place together.
-/

namespace Seedstone

/-- The records a read yields, each with the damage met by then, and the damage it
ends with. -/
inductive Reads {State : Type} (turn : State → Loop.Turn State (Reader.Answer × State))
    (damage : State → Damage) : State → List (Item × Damage) → Damage → Prop where
  | again {state next : State} {items : List (Item × Damage)} {last : Damage}
      (turned : turn state = .again next) (rest : Reads turn damage next items last) :
      Reads turn damage state items last
  | item {state next : State} {item : Item} {items : List (Item × Damage)} {last : Damage}
      (turned : turn state = .last (.item item, next))
      (rest : Reads turn damage next items last) :
      Reads turn damage state ((item, damage next) :: items) last
  | finished {state next : State} (turned : turn state = .last (.finished, next)) :
      Reads turn damage state [] (damage next)

section

variable {State : Type} {turn : State → Loop.Turn State (Reader.Answer × State)}
  {damage : State → Damage} {state next : State} {items others : List (Item × Damage)}
  {last other : Damage}

theorem Reads.after_again (read : Reads turn damage state items last)
    (turned : turn state = .again next) : Reads turn damage next items last := by
  cases read with
  | again again rest =>
    rw [turned] at again
    cases again
    exact rest
  | item again | finished again =>
    rw [turned] at again
    cases again

theorem Reads.after_item {item : Item} (read : Reads turn damage state items last)
    (turned : turn state = .last (.item item, next)) :
    ∃ rest, items = (item, damage next) :: rest ∧ Reads turn damage next rest last := by
  cases read with
  | again again | finished again =>
    rw [turned] at again
    cases again
  | item again rest =>
    rw [turned] at again
    cases again
    exact ⟨_, rfl, rest⟩

theorem Reads.after_finished (read : Reads turn damage state items last)
    (turned : turn state = .last (.finished, next)) : items = [] ∧ last = damage next := by
  cases read with
  | again again | item again =>
    rw [turned] at again
    cases again
  | finished again =>
    rw [turned] at again
    cases again
    exact ⟨rfl, rfl⟩

theorem Reads.unique (first : Reads turn damage state items last)
    (second : Reads turn damage state others other) : items = others ∧ last = other := by
  induction first generalizing others with
  | again turned rest induction => exact induction (second.after_again turned)
  | item turned rest induction =>
    obtain ⟨later, rfl, read⟩ := second.after_item turned
    obtain ⟨rfl, same⟩ := induction read
    exact ⟨rfl, same⟩
  | finished turned =>
    obtain ⟨rfl, rfl⟩ := second.after_finished turned
    exact ⟨rfl, rfl⟩

theorem Reads.of_ends_item {item : Item}
    (ends : Loop.Ends turn state (.item item, next)) (rest : Reads turn damage next items last) :
    Reads turn damage state ((item, damage next) :: items) last := by
  generalize answered : ((.item item, next) : Reader.Answer × State) = result at ends
  induction ends with
  | last turned =>
    subst answered
    exact .item turned rest
  | again turned _ induction => exact .again turned (induction answered)

theorem Reads.of_ends_finished (ends : Loop.Ends turn state (.finished, next)) :
    Reads turn damage state [] (damage next) := by
  generalize answered : ((.finished, next) : Reader.Answer × State) = result at ends
  induction ends with
  | last turned =>
    subst answered
    exact .finished turned
  | again turned _ induction => exact .again turned (induction answered)

end

/-- The read of a reader. -/
abbrev Reader.Yields (reader : Reader) (items : List (Item × Damage)) (last : Damage) : Prop :=
  Reads Reader.turn Reader.damage reader items last

/-- The read in sight of the whole body. -/
abbrev Place.Yields (body : Bytes) (place : Place) (items : List (Item × Damage))
    (last : Damage) : Prop :=
  Reads (Place.turn body) (fun place => place.accounts.damage) place items last

namespace Place

variable {body : Bytes} {place after : Place}

theorem settle_again (moved : place.settle = .again after) :
    after = place ∧ place.accounts.damage.abandoned = false := by
  unfold settle at moved
  split at moved
  · cases moved
  · next ongoing =>
    cases moved
    exact ⟨rfl, by simpa using ongoing⟩

theorem settle_over {answer : Reader.Answer} (moved : place.settle = .last (answer, after)) :
    answer = .finished ∧ after = place := by
  unfold settle at moved
  split at moved <;> cases moved
  exact ⟨rfl, rfl⟩

theorem turn_again (moved : place.turn body = .again after) :
    place.offset < body.length ∧ after.offset = place.offset + 1 ∧
      after.accounts.damage.abandoned = false ∧ ∀ shard seq payload consumed,
        decodeRecord (body.drop place.offset) ≠ .record shard seq payload consumed := by
  unfold turn at moved
  split at moved
  · cases moved
  · next inside =>
    refine ⟨by omega, ?_⟩
    cases reads : decodeRecord (body.drop place.offset) with
    | record shard seq payload consumed =>
      rw [reads] at moved
      cases moved
    | endOfLog | needMore =>
      rw [reads] at moved
      obtain ⟨rfl, ongoing⟩ := settle_again moved
      exact ⟨rfl, ongoing, fun _ _ _ _ record => (by cases record)⟩
    | corrupt skip =>
      have one : skip = 1 := decodeRecord_inside.2 skip reads
      rw [reads] at moved
      obtain ⟨rfl, ongoing⟩ := settle_again moved
      exact ⟨by rw [one], ongoing, fun _ _ _ _ record => (by cases record)⟩

theorem turn_record {shard seq consumed : Nat} {payload : Bytes}
    (reads : decodeRecord (body.drop place.offset) = .record shard seq payload consumed) :
    place.turn body =
      .last (.item ⟨shard, seq, payload, place.offset, place.offset + consumed⟩,
        ⟨place.offset + consumed, place.accounts.found⟩) := by
  have inside : place.offset < body.length := by
    obtain ⟨_, length, held⟩ := decodeRecord_inside.1 _ _ _ _ reads
    rw [List.length_drop] at held
    unfold headerLen at length
    omega
  unfold turn
  rw [if_neg (by omega), reads]

theorem turn_item {item : Item} (moved : place.turn body = .last (.item item, after)) :
    place.offset < body.length ∧ item.start = place.offset ∧ item.stop = after.offset ∧
      item.start < item.stop ∧ after.accounts = place.accounts.found ∧
      decodeRecord (body.drop place.offset) =
        .record item.shard item.seq item.payload (item.stop - item.start) := by
  unfold turn at moved
  split at moved
  · cases moved
  · next inside =>
    refine ⟨by omega, ?_⟩
    cases reads : decodeRecord (body.drop place.offset) with
    | record shard seq payload consumed =>
      obtain ⟨_, length, _⟩ := decodeRecord_inside.1 _ _ _ _ reads
      rw [reads] at moved
      cases moved
      unfold headerLen at length
      refine ⟨rfl, rfl, ?_, rfl, ?_⟩
      · dsimp only
        omega
      · dsimp only
        rw [Nat.add_sub_cancel_left]
    | endOfLog | needMore | corrupt =>
      rw [reads] at moved
      obtain ⟨finished, _⟩ := settle_over moved
      cases finished

end Place

namespace Reader

variable {body : Bytes} {reader next : Reader} {place after : Place}
  {items : List (Item × Damage)} {last : Damage}

/-- A reader somewhere in its body, not yet done. -/
def Busy (body : Bytes) (reader : Reader) : Prop :=
  ∃ place, Sees body reader place ∧ place.accounts.damage.abandoned = false

/-- The bytes left, and those of them still in the source: every turn lowers it. -/
def effort (reader : Reader) : Nat :=
  reader.window.length + 2 * reader.remaining

section

variable (busy : Busy body reader)

include busy

theorem Busy.lowers (turned : reader.turn = .again next) :
    Busy body next ∧ next.effort < reader.effort := by
  obtain ⟨place, sees, ongoing⟩ := busy
  have length := sees.length
  have outcome := sees.turned ongoing
  rw [turned] at outcome
  unfold effort
  cases outcome with
  | refill refilled =>
    have lengthAfter := refilled.sees.length
    have fewer := refilled.fewer
    exact ⟨⟨place, refilled.sees, ongoing⟩, by omega⟩
  | decided decided =>
    cases decided with
    | again moved after ongoing kept =>
      have lengthAfter := after.length
      obtain ⟨_, offset, _⟩ := Place.turn_again moved
      exact ⟨⟨_, after, ongoing⟩, by omega⟩

theorem Busy.ends {result : Answer × Reader} (ends : Loop.Ends turn reader result) :
    (∃ item, result.1 = .item item ∧ Busy body result.2 ∧ result.2.effort < reader.effort) ∨
      result.1 = .finished := by
  induction ends with
  | @last reader result turned =>
    obtain ⟨place, sees, ongoing⟩ := busy
    have length := sees.length
    have outcome := sees.turned ongoing
    rw [turned] at outcome
    cases outcome with
    | decided decided =>
    cases decided with
    | strained => exact .inr rfl
    | item moved after kept =>
      have lengthAfter := after.length
      obtain ⟨_, start, stop, nonempty, accounts, _⟩ := Place.turn_item moved
      refine .inl ⟨_, rfl, ⟨_, after, ?_⟩, ?_⟩
      · rw [accounts]
        exact ongoing
      · simp only [effort]
        omega
    | finished => exact .inr rfl
  | @again reader next result turned rest induction =>
    obtain ⟨later, lower⟩ := busy.lowers turned
    obtain ⟨item, answered, after, lowest⟩ | finished := induction later
    · exact .inl ⟨item, answered, after, by omega⟩
    · exact .inr finished

theorem Busy.effort_lt_turns : reader.effort < reader.turns := by
  obtain ⟨place, sees, _⟩ := busy
  have inside := sees.inside
  have left := sees.left
  have extent : reader.window.length = reader.buf.length - reader.cursor := by
    unfold window
    rw [List.length_drop]
  unfold effort turns
  omega

theorem Busy.nextRecord : Loop.Ends turn reader reader.nextRecord := by
  obtain ⟨result, ran, ends⟩ := Loop.run_isSome Busy.lowers busy busy.effort_lt_turns
  unfold Reader.nextRecord
  rw [ran]
  exact ends

theorem Busy.readLoop {fuel : Nat} (enough : reader.effort < fuel) :
    (reader.readLoop fuel).2.1 = .finished ∧
      reader.Yields (reader.readLoop fuel).1 (reader.readLoop fuel).2.2.damage := by
  induction fuel generalizing reader with
  | zero => omega
  | succ fuel induction =>
    have ends := busy.nextRecord
    have answers := busy.ends ends
    unfold Reader.readLoop
    generalize reader.nextRecord = result at ends answers
    obtain ⟨answer, next⟩ := result
    obtain ⟨item, rfl, after, lower⟩ | rfl := answers
    · obtain ⟨finished, yields⟩ := induction after (by omega)
      exact ⟨finished, .of_ends_item ends yields⟩
    · exact ⟨rfl, .of_ends_finished ends⟩

/-- The loop over `next_record` comes to an end, and finds what the reader yields. -/
theorem Busy.readAll :
    reader.readAll.2.1 = .finished ∧ reader.Yields reader.readAll.1 reader.readAll.2.2.damage :=
  busy.readLoop busy.effort_lt_turns

end

theorem busy_withChunk (body : Bytes) (chunk : Nat) :
    Busy body (withChunk ⟨body, false⟩ body.length .resynchronising chunk) :=
  ⟨.start, sees_withChunk body chunk, rfl⟩

theorem scan_of_yields {chunk : Nat}
    (yields : (withChunk ⟨body, false⟩ body.length .resynchronising chunk).Yields items last) :
    scan .resynchronising chunk body = (items.map Prod.fst, last) := by
  obtain ⟨_, read⟩ := (busy_withChunk body chunk).readAll
  obtain ⟨sameItems, sameLast⟩ := read.unique yields
  unfold scan
  dsimp only
  rw [sameItems, sameLast]

/-- A reader fills its window until it can decide what stands at its place. -/
theorem Sees.settles (sees : Sees body reader place)
    (ongoing : place.accounts.damage.abandoned = false) (invariant : Reader → Prop)
    (kept : ∀ {reader next : Reader}, Sees body reader place →
      Refilled body reader place next → invariant reader → invariant next)
    (holds : invariant reader) :
    ∃ ready, Sees body ready place ∧ invariant ready ∧ Decided body ready place ready.turn ∧
      ∀ {items last}, ready.Yields items last → reader.Yields items last := by
  generalize left : reader.remaining = remaining
  induction remaining using Nat.strong_induction_on generalizing reader with
  | _ remaining induction =>
    have outcome := sees.turned ongoing
    cases turned : reader.turn with
    | again next =>
      rw [turned] at outcome
      cases outcome with
      | refill refilled =>
        have fewer := refilled.fewer
        obtain ⟨ready, readySees, readyHolds, decided, yields⟩ :=
          induction next.remaining (by omega) refilled.sees (kept sees refilled holds) rfl
        exact ⟨ready, readySees, readyHolds, decided, fun read => .again turned (yields read)⟩
      | decided decided =>
        rw [← turned] at decided
        exact ⟨reader, sees, holds, decided, fun read => read⟩
    | last result =>
      rw [turned] at outcome
      cases outcome with
      | decided decided =>
        rw [← turned] at decided
        exact ⟨reader, sees, holds, decided, fun read => read⟩

end Reader

namespace Place

variable {body : Bytes} {place after : Place} {items : List (Item × Damage)} {last : Damage}

theorem turn_answer {answer : Reader.Answer} (moved : place.turn body = .last (answer, after)) :
    (∃ item, answer = .item item) ∨ answer = .finished := by
  unfold turn at moved
  split at moved
  · cases moved
    exact .inr rfl
  · cases reads : decodeRecord (body.drop place.offset) with
    | record shard seq payload consumed =>
      rw [reads] at moved
      cases moved
      exact .inl ⟨_, rfl⟩
    | endOfLog | needMore | corrupt =>
      rw [reads] at moved
      exact .inr (settle_over moved).1

theorem exists_yields (body : Bytes) (place : Place) :
    ∃ items last, place.Yields body items last := by
  generalize left : body.length - place.offset = remaining
  induction remaining using Nat.strong_induction_on generalizing place with
  | _ remaining induction =>
    cases moved : place.turn body with
    | again after =>
      obtain ⟨inside, offset, _⟩ := turn_again moved
      obtain ⟨items, last, yields⟩ := induction _ (by omega) after rfl
      exact ⟨items, last, .again moved yields⟩
    | last result =>
      obtain ⟨answer, after⟩ := result
      obtain ⟨item, rfl⟩ | rfl := turn_answer moved
      · obtain ⟨inside, start, stop, nonempty, _⟩ := turn_item moved
        obtain ⟨items, last, yields⟩ := induction (body.length - after.offset) (by omega) after rfl
        exact ⟨_, last, .item moved yields⟩
      · exact ⟨[], _, .finished moved⟩

end Place

end Seedstone
