import Seedstone.Shard.Moves

/-!
# A shard along a run

A shard takes commands, sweeps, evictions and rehash steps against a log that
may refuse any record.  The accepted records are numbered without a gap, and
memory agrees with them after each one: `Tracks` states both, over a run that
starts from any keyspace, and every move keeps it.
-/

namespace Seedstone

variable {offset : Int}

/-- A log that can tell which records it has taken. -/
class RecordedLog (L : Type) extends ReplicationLog L where
  records : L → List Record
  records_taken : ∀ {log after : L} {record : Record},
    append log record = (true, after) → records after = records log ++ [record]
  records_refused : ∀ {log after : L} {record : Record},
    append log record = (false, after) → records after = records log

/-- What drives a shard. -/
inductive ShardInput where
  | command (cmd : Command)
  | sweep
  | evict (spared : Option Bytes)
  | rehash (buckets : Nat)
  | refuse (refusing : Bool)
deriving DecidableEq, Repr

/-- Clock readings that never go back, with the wall clock `offset`
milliseconds from the monotonic one. -/
def Lockstep {α : Type} (offset : Int) (inputs : List (Now × α)) : Prop :=
  (inputs.map fun input => input.1.instant).Pairwise (· ≤ ·) ∧
    ∀ input ∈ inputs, input.1.InLockstep offset

theorem Lockstep.append {α : Type} {first second : List (Now × α)}
    (lockstep : Lockstep offset (first ++ second)) :
    Lockstep offset first ∧ Lockstep offset second ∧
      ∀ one ∈ first, ∀ two ∈ second, one.1.instant ≤ two.1.instant := by
  obtain ⟨ordered, readings⟩ := lockstep
  rw [List.map_append, List.pairwise_append] at ordered
  obtain ⟨inFirst, inSecond, across⟩ := ordered
  refine ⟨⟨inFirst, fun one member => readings one (List.mem_append_left _ member)⟩,
    ⟨inSecond, fun two member => readings two (List.mem_append_right _ member)⟩, ?_⟩
  intro one memberOne two memberTwo
  exact across _ (List.mem_map_of_mem memberOne) _ (List.mem_map_of_mem memberTwo)

theorem Lockstep.of_map {α β : Type} {inputs : List (Now × α)} {rename : α → β}
    (lockstep : Lockstep offset (inputs.map (Prod.map id rename))) :
    Lockstep offset inputs := by
  obtain ⟨ordered, readings⟩ := lockstep
  rw [List.map_map] at ordered
  exact ⟨ordered, fun input member => readings _ (List.mem_map_of_mem member)⟩

/-- An invariant of single inputs is one of whole runs. -/
theorem Lockstep.foldl_invariant {σ α : Type} (step : σ → Now × α → σ) (reading : σ → Nat)
    (invariant : σ → Prop)
    (kept : ∀ state input, invariant state → input.1.InLockstep offset →
      reading state ≤ input.1.instant →
      invariant (step state input) ∧ reading (step state input) = input.1.instant)
    {inputs : List (Now × α)} (lockstep : Lockstep offset inputs) {state : σ}
    (start : invariant state) (notBack : ∀ input ∈ inputs, reading state ≤ input.1.instant) :
    invariant (inputs.foldl step state) ∧
      ∀ bound, reading state ≤ bound → (∀ input ∈ inputs, input.1.instant ≤ bound) →
        reading (inputs.foldl step state) ≤ bound := by
  induction inputs generalizing state with
  | nil => exact ⟨start, fun bound first _ => first⟩
  | cons input rest induction =>
    obtain ⟨ordered, readings⟩ := lockstep
    rw [List.map_cons, List.pairwise_cons] at ordered
    obtain ⟨stepped, read⟩ := kept state input start
      (readings input (by simp)) (notBack input (by simp))
    obtain ⟨rested, last⟩ := induction
      ⟨ordered.2, fun other member => readings other (by simp [member])⟩ stepped
      (by
        intro other member
        rw [read]
        exact ordered.1 other.1.instant (List.mem_map_of_mem member))
    refine ⟨rested, ?_⟩
    intro bound _ bounded
    apply last bound
    · rw [read]
      exact bounded input (by simp)
    · exact fun other member => bounded other (by simp [member])

namespace ShardState

section

variable {L : Type} [ReplicationLog L] [SipHasher]

/-- One input, served at one reading of the clocks. -/
def take (state : ShardState L) (shard : Nat) (now : Now) (input : ShardInput) :
    ShardState L :=
  let state := { state with reading := now.instant }
  match input with
  | .command cmd => (state.apply shard cmd now).2
  | .sweep => state.sweepExpired shard now.instant
  | .evict spared => (state.evictOne shard spared).2
  | .rehash buckets => { state with dict := state.dict.rehashStep buckets }
  | .refuse refusing => { state with refusing := refusing }

def takeAll (state : ShardState L) (shard : Nat) (inputs : List (Now × ShardInput)) :
    ShardState L :=
  inputs.foldl (fun state input => state.take shard input.1 input.2) state

theorem moves_take {shard : Nat} {now : Now} {state : ShardState L}
    (sound : state.dict.Sound) (input : ShardInput) :
    Moves shard now { state with reading := now.instant } (state.take shard now input) := by
  cases input with
  | command cmd => exact (deeds_apply (by exact sound) cmd).moves
  | sweep =>
    have swept : Deeds False shard now { state with reading := now.instant } _ :=
      deeds_sweepExpired now.instant
    exact swept.moves
  | evict spared =>
    have evicted : Deeds False shard now { state with reading := now.instant } _ :=
      deeds_evictOne spared
    exact evicted.moves
  | rehash buckets =>
    exact .single (.operate ⟨rfl, rfl, rfl, rfl⟩ (.rehashStep buckets) trivial rfl)
  | refuse refusing => exact moves_idle ⟨rfl, rfl, rfl, rfl⟩ rfl

theorem sound_takeAll {shard : Nat} {state : ShardState L} (sound : state.dict.Sound)
    (inputs : List (Now × ShardInput)) : (state.takeAll shard inputs).dict.Sound := by
  induction inputs generalizing state with
  | nil => exact sound
  | cons input rest induction =>
    have start : ({ state with reading := input.1.instant } : ShardState L).dict.Sound := sound
    exact induction ((moves_take sound input.2).sound start)

end

variable {L : Type} [RecordedLog L]

/-- The accepted records. -/
def records (state : ShardState L) : List Record :=
  RecordedLog.records state.log

def effects (state : ShardState L) : List Effect :=
  state.records.map Record.effect

@[simp]
theorem length_effects (state : ShardState L) : state.effects.length = state.records.length := by
  simp [effects]

variable [SipHasher] {shard : Nat} {now : Now} {before after : ShardState L}

/-- What a move does to the records: nothing, or it adds the one of the
mutation it makes. -/
theorem Move.records_cases (moved : Move shard now before after) :
    (after.records = before.records ∧ after.seq = before.seq ∧ after.history = before.history) ∨
      ∃ mutation : Mutation,
        after.records = before.records ++ [⟨shard, before.seq, mutation.effect now⟩] ∧
        after.seq = before.seq + 1 ∧ after.dict = mutation.apply before.dict ∧
        after.history = before.history ++ [(before.reading, after.dict)] := by
  cases moved with
  | idle same | operate same | forget same =>
    exact Or.inl ⟨by rw [records, records, same.log], same.seq, same.history⟩
  | refuse effect refused dict seq reading history =>
    exact Or.inl ⟨RecordedLog.records_refused refused, seq, history⟩
  | commit mutation proper taken dict seq reading history =>
    exact Or.inr ⟨mutation, RecordedLog.records_taken taken, seq, dict, by rw [history, dict]⟩

omit [RecordedLog L] in
theorem Move.reading_eq [ReplicationLog L] (moved : Move shard now before after) :
    after.reading = before.reading := by
  cases moved with
  | idle same | operate same | forget same => exact same.reading
  | refuse _ _ _ _ reading | commit _ _ _ _ _ reading => exact reading

theorem Moves.records_extend (moved : Moves shard now before after) :
    before.records <+: after.records := by
  induction moved with
  | refl => exact List.prefix_rfl
  | tail _ last induction =>
    rcases last.records_cases with ⟨records, -⟩ | ⟨mutation, records, -⟩
    · rw [records]
      exact induction
    · rw [records]
      exact induction.trans (List.prefix_append _ _)

end ShardState

namespace Agrees

variable {L : Type} [RecordedLog L] [SipHasher] {offset : Int} {shard : Nat} {now : Now}
  {pending : Bytes → Prop} {before after : ShardState L} {start : Keyspace} {base : Nat}

omit [RecordedLog L] in
theorem harmless {instant : Nat} {dict : Dict} {keyspace : Keyspace}
    (agrees : Agrees offset instant pending dict keyspace) {op : DictOp}
    (harmless : ShardState.Harmless op) :
    Agrees offset instant pending (dict.step op).2 keyspace := by
  have valid := agrees.sound.toValid
  cases op with
  | touch key =>
    exact agrees.quiet (agrees.sound.touch key) (Dict.contents_touch valid key)
  | rehashStep buckets =>
    exact agrees.quiet (agrees.sound.rehashStep buckets) (Dict.contents_rehashStep valid buckets)
  | insert | remove | setDeadline | clear => exact harmless.elim

theorem move (reached : base ≤ before.records.length)
    (agrees : Agrees offset now.instant pending before.dict
      (Effect.actAll start (before.effects.drop base))) (lockstep : now.InLockstep offset)
    (moved : ShardState.Move shard now before after) :
    Agrees offset now.instant pending after.dict
      (Effect.actAll start (after.effects.drop base)) := by
  cases moved with
  | idle same dict =>
    rw [ShardState.effects, ShardState.records, same.log, dict]
    exact agrees
  | operate same op harmless dict =>
    rw [ShardState.effects, ShardState.records, same.log, dict]
    exact agrees.harmless harmless
  | forget same key value deadline held due dict =>
    rw [ShardState.effects, ShardState.records, same.log, dict]
    exact agrees.forget held due
  | refuse effect refused dict seq reading history =>
    rw [ShardState.effects, ShardState.records, RecordedLog.records_refused refused, dict]
    exact agrees
  | commit mutation proper taken dict seq reading history =>
    rw [ShardState.effects, ShardState.records, RecordedLog.records_taken taken, dict,
      List.map_append, List.drop_append_of_le_length (by simpa [ShardState.records] using reached),
      Effect.actAll_append]
    exact agrees.mutation lockstep mutation (proper agrees.sound)

end Agrees

variable {L : Type} [RecordedLog L] [SipHasher]

/-- The records of a shard that started at position `origin`. -/
structure Numbered (origin : Nat) (state : ShardState L) : Prop where
  seq : state.seq = origin + state.records.length
  records : state.records.map Record.seq = List.range' origin state.records.length

/-- The invariant of a run: memory agrees with `start` followed by the records
from position `base` on, and did after each record from position `since` on. -/
structure Tracks (offset : Int) (start : Keyspace) (base since : Nat)
    (state : ShardState L) : Prop where
  reached : base ≤ state.records.length
  agrees : Agrees offset state.reading (fun _ => False) state.dict
    (Effect.actAll start (state.effects.drop base))
  length : state.history.length = state.records.length
  past : ∀ index instant dict, since ≤ index → base ≤ index →
    state.history[index]? = some (instant, dict) →
    instant ≤ state.reading ∧
      Agrees offset instant (fun _ => False) dict
        (Effect.actAll start ((state.effects.take (index + 1)).drop base))

omit [SipHasher] in
theorem Numbered.append {origin : Nat} {before after : ShardState L} {shard : Nat}
    {effect : Effect} (numbered : Numbered origin before)
    (records : after.records = before.records ++ [⟨shard, before.seq, effect⟩])
    (seq : after.seq = before.seq + 1) : Numbered origin after where
  seq := by
    rw [seq, numbered.seq, records, List.length_append, List.length_singleton]
    omega
  records := by
    rw [records, List.map_append, numbered.records, List.length_append,
      List.length_singleton, List.range'_concat, numbered.seq]
    simp

theorem Numbered.move {origin : Nat} {before after : ShardState L} {shard : Nat}
    {now : Now} (numbered : Numbered origin before)
    (moved : ShardState.Move shard now before after) : Numbered origin after := by
  rcases moved.records_cases with ⟨records, seq, -⟩ | ⟨mutation, records, seq, -⟩
  · exact ⟨by rw [seq, records, numbered.seq], by rw [records, numbered.records]⟩
  · exact numbered.append records seq

namespace Tracks

variable {offset : Int} {start : Keyspace} {base since shard : Nat} {now : Now}
  {before after : ShardState L}

variable (tracks : Tracks offset start base since before)

include tracks

theorem move (lockstep : now.InLockstep offset) (reading : before.reading = now.instant)
    (moved : ShardState.Move shard now before after) :
    Tracks offset start base since after := by
  have unread := moved.reading_eq
  have agreed := tracks.agrees
  rw [reading] at agreed
  have agrees := agreed.move tracks.reached lockstep moved
  rw [← reading, ← unread] at agrees
  rcases moved.records_cases with ⟨records, -, history⟩ | ⟨mutation, records, -, -, history⟩
  · refine ⟨records ▸ tracks.reached, agrees, ?_, ?_⟩
    · rw [history, records, tracks.length]
    · rw [history, unread, ShardState.effects, records]
      exact tracks.past
  · refine ⟨?_, agrees, ?_, ?_⟩
    · rw [records, List.length_append]
      exact Nat.le_add_right_of_le tracks.reached
    · rw [history, records, List.length_append, List.length_append, tracks.length]
      rfl
    · intro index instant held recent based located
      rw [history] at located
      rcases Nat.lt_or_ge index before.history.length with inside | outside
      · rw [List.getElem?_append_left inside] at located
        have early : (after.effects.take (index + 1)) = before.effects.take (index + 1) := by
          rw [ShardState.effects, records, List.map_append, List.take_append_of_le_length]
          · rfl
          · rw [List.length_map, ← tracks.length]
            exact inside
        rw [unread, early]
        exact tracks.past index instant held recent based located
      · rw [List.getElem?_append_right outside] at located
        have last : index - before.history.length = 0 := by
          by_contra beyond
          rw [List.getElem?_eq_none (by simp; omega)] at located
          simp at located
        rw [last, List.getElem?_cons_zero, Option.some.injEq, Prod.mk.injEq] at located
        have whole : after.effects.length ≤ index + 1 := by
          rw [ShardState.length_effects, records, List.length_append, ← tracks.length,
            List.length_singleton]
          omega
        rw [← located.1, ← located.2, List.take_of_length_le whole, ← unread]
        exact ⟨Nat.le_refl _, agrees⟩

theorem moves (lockstep : now.InLockstep offset) (reading : before.reading = now.instant)
    (moved : ShardState.Moves shard now before after) :
    Tracks offset start base since after ∧ after.reading = now.instant := by
  induction moved with
  | refl => exact ⟨tracks, reading⟩
  | tail _ last induction =>
    exact ⟨induction.1.move lockstep induction.2 last, last.reading_eq.trans induction.2⟩

theorem advance (notBack : before.reading ≤ now.instant) :
    Tracks offset start base since { before with reading := now.instant } where
  __ := tracks
  agrees := tracks.agrees.later notBack
  past := by
    intro index instant dict recent based located
    obtain ⟨earlier, held⟩ := tracks.past index instant dict recent based located
    exact ⟨earlier.trans notBack, held⟩

end Tracks

theorem Numbered.moves {origin : Nat} {before after : ShardState L} {shard : Nat}
    {now : Now} (numbered : Numbered origin before)
    (moved : ShardState.Moves shard now before after) : Numbered origin after := by
  induction moved with
  | refl => exact numbered
  | tail _ last induction => exact induction.move last

theorem Numbered.take {origin : Nat} {state : ShardState L} {shard : Nat} {now : Now}
    (numbered : Numbered origin state) (sound : state.dict.Sound) (input : ShardInput) :
    Numbered origin (state.take shard now input) := by
  have started : Numbered origin { state with reading := now.instant } :=
    ⟨numbered.seq, numbered.records⟩
  exact started.moves (ShardState.moves_take sound input)

namespace Tracks

variable {offset : Int} {start : Keyspace} {base since shard : Nat} {now : Now}
  {before : ShardState L}

theorem take (tracks : Tracks offset start base since before)
    (lockstep : now.InLockstep offset) (notBack : before.reading ≤ now.instant)
    (input : ShardInput) :
    Tracks offset start base since (before.take shard now input) ∧
      (before.take shard now input).reading = now.instant :=
  (tracks.advance notBack).moves lockstep rfl (ShardState.moves_take tracks.agrees.sound input)

/-- What a whole run keeps, and that it only adds records. -/
theorem takeAll {origin : Nat} (tracks : Tracks offset start base since before)
    (numbered : Numbered origin before) {inputs : List (Now × ShardInput)}
    (lockstep : Lockstep offset inputs)
    (notBack : ∀ input ∈ inputs, before.reading ≤ input.1.instant) :
    (Numbered origin (before.takeAll shard inputs) ∧
      Tracks offset start base since (before.takeAll shard inputs) ∧
      before.records <+: (before.takeAll shard inputs).records) ∧
    ∀ bound, before.reading ≤ bound → (∀ input ∈ inputs, input.1.instant ≤ bound) →
      (before.takeAll shard inputs).reading ≤ bound := by
  refine lockstep.foldl_invariant
    (fun state input => state.take shard input.1 input.2) ShardState.reading
    (fun state => Numbered origin state ∧ Tracks offset start base since state ∧
      before.records <+: state.records) ?_ ⟨numbered, tracks, List.prefix_rfl⟩ notBack
  rintro state input ⟨stillNumbered, stillTracks, longer⟩ nowLockstep notBack
  obtain ⟨taken, reading⟩ := stillTracks.take nowLockstep notBack input.2
  have sound := stillTracks.agrees.sound
  have further : state.records <+: (state.take shard input.1 input.2).records :=
    (ShardState.moves_take sound input.2).records_extend
  exact ⟨⟨stillNumbered.take sound input.2, taken, longer.trans further⟩, reading⟩

end Tracks

end Seedstone
