import Seedstone.Shard.Tracking

/-!
# Replay equals memory

A shard that starts empty and takes any commands, sweeps and evictions against
a log that may refuse any record: the accepted records are numbered without a
gap, and replaying the first `k` of them gives what the dict held once the
change of the last was made, without the entries due by then.  A deadline past
the last Unix millisecond a record can name is replayed as that millisecond.
-/

namespace Seedstone

variable {offset : Int} {now : Now} {dict : Dict}

/-- A log that refuses the appends it likes: the `n`-th attempt is taken when
`answers n` says so. -/
structure RefusingLog where
  answers : Nat → Bool
  attempts : Nat
  records : List Record

namespace RefusingLog

def append (log : RefusingLog) (record : Record) : Bool × RefusingLog :=
  if log.answers log.attempts then
    (true, { log with
      attempts := log.attempts + 1
      records := log.records ++ [record] })
  else
    (false, { log with attempts := log.attempts + 1 })

theorem records_append_taken {log after : RefusingLog} {record : Record}
    (taken : log.append record = (true, after)) : after.records = log.records ++ [record] := by
  unfold append at taken
  split at taken
  · rw [Prod.mk.injEq] at taken
    rw [← taken.2]
  · simp at taken

theorem records_append_refused {log after : RefusingLog} {record : Record}
    (refused : log.append record = (false, after)) : after.records = log.records := by
  unfold append at refused
  split at refused
  · simp at refused
  · rw [Prod.mk.injEq] at refused
    rw [← refused.2]

instance : RecordedLog RefusingLog where
  append := append
  records := records
  records_taken := records_append_taken
  records_refused := records_append_refused

end RefusingLog

variable [SipHasher]

/-- The instant a deadline is replayed at: its own, or the one the last Unix
millisecond falls on. -/
def capped (offset : Int) (deadline : Nat) : Nat :=
  min deadline (u64Max - offset).toNat

/-- The entries of a dict that are not due at an instant. -/
def Dict.live (dict : Dict) (instant : Nat) (key : Bytes) :
    Option (Bytes × Option Nat) :=
  (dict.contents key).filter fun entry =>
    !entry.2.any (fun deadline => deadline ≤ instant)

/-- `Dict.live` with every deadline brought down to the last instant a record
can name. -/
def Dict.liveCapped (offset : Int) (dict : Dict) (instant : Nat) (key : Bytes) :
    Option (Bytes × Option Nat) :=
  ((dict.contents key).map fun entry =>
    (entry.1, entry.2.map (capped offset))).filter fun entry =>
      !entry.2.any (fun deadline => deadline ≤ instant)

omit [SipHasher] in
theorem resolve_unixOf (lockstep : (now.unixMillis : Int) = now.instant + offset)
    {value : Bytes} {deadline : Option Nat}
    (bounded : ∀ instant, deadline = some instant → instant ≤ instantMax ∧ 0 ≤ instant + offset) :
    ((some (value, deadline.map (unixOf offset))).bind fun entry =>
      if (resolveDeadline now entry.2).2 then none
      else some (entry.1, (resolveDeadline now entry.2).1)) =
    (some (value, deadline.map (capped offset))).filter fun entry =>
      !entry.2.any (fun deadline => deadline ≤ now.instant) := by
  have fits := now.unixFits
  cases deadline with
  | none => rfl
  | some deadline =>
    obtain ⟨bound, positive⟩ := bounded deadline rfl
    simp only [Option.map_some, Option.bind_some]
    unfold resolveDeadline Now.replayDeadline
    by_cases passed : unixOf offset deadline ≤ now.unixMillis
    · have due : capped offset deadline ≤ now.instant := by
        unfold unixOf at passed
        unfold capped
        omega
      simp [passed, Option.filter_some, due]
    · have ahead : ¬ capped offset deadline ≤ now.instant := by
        unfold unixOf at passed
        unfold capped
        omega
      have landed : now.instant + (unixOf offset deadline - now.unixMillis) =
          capped offset deadline := by
        unfold unixOf at passed ⊢
        unfold capped at ahead ⊢
        omega
      have representable : capped offset deadline ≤ instantMax := by
        unfold capped
        omega
      simp [passed, checkedAdd, landed, representable, Option.filter_some, ahead]

/-- The keyspace a log describes, read at a clock, is what the memory it agrees
with holds. -/
theorem Agrees.resolve_eq {instant : Nat} {keyspace : Keyspace}
    (agrees : Agrees offset instant (fun _ => False) dict keyspace)
    (lockstep : now.InLockstep offset) (notBack : instant ≤ now.instant) :
    keyspace.resolve now = dict.liveCapped offset now.instant := by
  funext key
  unfold Keyspace.resolve Dict.liveCapped
  unfold Now.InLockstep at lockstep
  have fits := now.unixFits
  cases held : dict.contents key with
  | none =>
    cases logged : keyspace key with
    | none => rfl
    | some entry =>
      obtain ⟨millis, same, due⟩ := agrees.absent key held entry logged
      have passed : millis ≤ now.unixMillis := by omega
      rw [Option.bind_some, same]
      simp [resolveDeadline, Now.replayDeadline, passed]
  | some entry =>
    obtain ⟨value, deadline⟩ := entry
    rcases agrees.held key value deadline held with
      ⟨millis, said, same | ⟨⟨due, carried, reached⟩, passed, same, before⟩⟩ | missing
    · rw [said, same]
      exact resolve_unixOf lockstep (fun instant carried =>
        agrees.bounded key value instant (carried ▸ held))
    · have past : passed ≤ now.unixMillis := by omega
      have late : capped offset due ≤ now.instant := by
        unfold capped
        omega
      rw [said, same, carried]
      simp [resolveDeadline, Now.replayDeadline, past, Option.filter_some, late]
    · exact missing.2.elim

/-- A shard as a start hands it over, its log having taken nothing yet. -/
def startedShard (dict : Dict) (seq : Nat) (answers : Nat → Bool) :
    ShardState RefusingLog :=
  ShardState.recovered dict seq ⟨answers, 0, []⟩

/-- A shard with an empty dict. -/
def emptyShard (seed : DictSeed) (answers : Nat → Bool) : ShardState RefusingLog :=
  startedShard (Dict.withSeed seed) 0 answers

/-- Replaying the first `count` records of a log into an empty dict. -/
def replayed (seed : DictSeed) (records : List Record) (count : Nat) (now : Now) : Dict :=
  (replayInto (Dict.withSeed seed) 0
    ((records.take count).map fun record => (record.seq, record.effect)) now []).1

theorem replayed_contents (seed : DictSeed) (records : List Record) (count : Nat) (now : Now) :
    (replayed seed records count now).contents =
      (Effect.actAll Keyspace.empty ((records.map Record.effect).take count)).resolve now := by
  have described := (replayInto_contents (replayHolds_empty now seed) 0
    ((records.take count).map fun record => (record.seq, record.effect))).2
  rw [List.map_map] at described
  rw [← List.map_take]
  exact described

theorem startedShard_takeAll {start : Keyspace}
    (agrees : Agrees offset 0 (fun _ => False) dict start) (shard seq : Nat)
    (answers : Nat → Bool) {inputs : List (Now × ShardInput)} (lockstep : Lockstep offset inputs) :
    (Numbered seq ((startedShard dict seq answers).takeAll shard inputs) ∧
      Tracks offset start 0 0 ((startedShard dict seq answers).takeAll shard inputs)) ∧
    ∀ bound, (∀ input ∈ inputs, input.1.instant ≤ bound) →
      ((startedShard dict seq answers).takeAll shard inputs).reading ≤ bound := by
  have numbered : Numbered seq (startedShard dict seq answers) := ⟨rfl, rfl⟩
  have tracks : Tracks offset start 0 0 (startedShard dict seq answers) := by
    refine ⟨Nat.le_refl _, agrees, rfl, ?_⟩
    intro index instant held _ _ located
    simp [startedShard, ShardState.recovered] at located
  obtain ⟨⟨stillNumbered, stillTracks, -⟩, last⟩ :=
    tracks.takeAll numbered lockstep (fun input _ => Nat.zero_le _)
  exact ⟨⟨stillNumbered, stillTracks⟩, fun bound => last bound (Nat.zero_le _)⟩

/-- What a shard started from, followed by its first `count` records, describes
the memory it held at that position. -/
theorem Tracks.memory_at {first : Dict} {start : Keyspace}
    (agrees : Agrees offset 0 (fun _ => False) first start)
    {state : ShardState RefusingLog} (tracks : Tracks offset start 0 0 state) {count instant : Nat}
    (located : ((0, first) :: state.history)[count]? = some (instant, dict))
    (lockstep : now.InLockstep offset) (notBack : instant ≤ now.instant) :
    (Effect.actAll start (state.effects.take count)).resolve now =
      dict.liveCapped offset now.instant := by
  cases count with
  | zero =>
    rw [List.getElem?_cons_zero, Option.some.injEq, Prod.mk.injEq] at located
    rw [← located.2, List.take_zero]
    exact agrees.resolve_eq lockstep (Nat.zero_le _)
  | succ index =>
    rw [List.getElem?_cons_succ] at located
    exact (tracks.past index instant dict (Nat.zero_le _) (Nat.zero_le _)
      located).2.resolve_eq lockstep notBack

/-- Whatever a shard takes and whatever its log refuses: the accepted records
are numbered from zero without a gap, replaying the first `count` of them from
the instant of the last on gives what the dict held after that change, and
replaying them all gives what it holds now, so a step whose records are all
refused changes nothing that is visible. -/
theorem replay_eq_memory (seed replaySeed : DictSeed) (offset : Int) (shard : Nat)
    (answers : Nat → Bool) (inputs : List (Now × ShardInput))
    (lockstep : Lockstep offset inputs) :
    let final := (emptyShard seed answers).takeAll shard inputs
    final.log.records.map Record.seq = List.range final.log.records.length ∧
      final.history.length = final.log.records.length ∧
      (∀ count instant dict,
        ((0, Dict.withSeed seed) :: final.history)[count]? = some (instant, dict) →
        ∀ now : Now, now.InLockstep offset → instant ≤ now.instant →
          (replayed replaySeed final.log.records count now).contents =
            dict.liveCapped offset now.instant) ∧
      ∀ now : Now, now.InLockstep offset →
        (∀ input ∈ inputs, input.1.instant ≤ now.instant) →
          (replayed replaySeed final.log.records final.log.records.length now).contents =
            final.dict.liveCapped offset now.instant := by
  intro final
  have empty := Agrees.empty offset 0 (fun _ => False) seed
  obtain ⟨⟨numbered, tracks⟩, last⟩ := startedShard_takeAll empty shard 0 answers lockstep
  refine ⟨?_, tracks.length, ?_, ?_⟩
  · rw [List.range_eq_range']
    exact numbered.records
  · intro count instant dict located now nowLockstep notBack
    rw [replayed_contents]
    exact tracks.memory_at empty located nowLockstep notBack
  · intro now nowLockstep notBack
    rw [replayed_contents, List.take_of_length_le (by simp)]
    exact tracks.agrees.resolve_eq nowLockstep
      (last now.instant notBack)

omit [SipHasher] in
/-- One write with a deadline, replayed half a second later. -/
theorem replay_eq_memory_one_write :
    let _ : SipHasher := ⟨fun _ _ _ => 0⟩
    let start : Now := ⟨0, 1000, by decide⟩
    let later : Now := ⟨500, 1500, by decide⟩
    let final := (emptyShard ⟨0, 0⟩ (fun _ => true)).takeAll 0
      [(start, .command (.pSetEx [107] 700 [1]))]
    final.log.records.length = 1 ∧
      (replayed ⟨0, 0⟩ final.log.records 1 later).contents =
        final.dict.liveCapped 1000 500 := by
  intro hasher start later final
  have count : final.log.records.length = 1 := by decide +kernel
  have readings : Lockstep 1000 [(start, ShardInput.command (.pSetEx [107] 700 [1]))] := by
    refine ⟨by simp, ?_⟩
    intro input member
    rw [List.mem_singleton] at member
    rw [member]
    rfl
  have whole := (replay_eq_memory ⟨0, 0⟩ ⟨0, 0⟩ 1000 0 (fun _ => true) _ readings).2.2.2
    later rfl (by
      intro input member
      rw [List.mem_singleton] at member
      rw [member]
      exact Nat.zero_le _)
  exact ⟨count, by rw [← count]; exact whole⟩

omit [SipHasher] in
/-- A deadline past the last Unix millisecond a record can name: the shard holds
the key until instant `10 ^ 20`, and a replay at the same reading until
`u64Max`. -/
theorem replay_of_deadline_past_u64 :
    let _ : SipHasher := ⟨fun _ _ _ => 0⟩
    let now : Now := ⟨0, 0, by decide⟩
    let final := (emptyShard ⟨0, 0⟩ (fun _ => true)).takeAll 0
      [(now, .command (.setEx [107] (10 ^ 17) [1]))]
    now.InLockstep 0 ∧ final.log.records.length = 1 ∧
      final.dict.live 0 [107] = some ([1], some (10 ^ 20)) ∧
      (replayed ⟨0, 0⟩ final.log.records 1 now).contents [107] =
        some ([1], some u64Max) ∧
      u64Max ≠ 10 ^ 20 := by
  intro hasher now final
  refine ⟨rfl, ?_, ?_, ?_, ?_⟩
  · decide +kernel
  · decide +kernel
  · decide +kernel
  · decide

end Seedstone
