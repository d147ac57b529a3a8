import Seedstone.Dict.Sampling
import Seedstone.Shard.Memory

/-!
# Eviction gives up only when it must

`evict_until_fits` as a sequence of rounds: each, while the gauge is past the
ceiling, samples a victim, has its deletion logged, removes it and moves the
gauge.  A round takes one key, so the rounds end; and they end with the gauge at
the ceiling, with nothing left but the spared key, or on a refused record.
-/

namespace Seedstone

/-- `MemoryGauge::apply`: one atomic operation, in whichever direction the size
went. -/
def MemoryGauge.apply (gauge before after : Nat) : Nat :=
  if before < after then
    gauge + (after - before)
  else if after < before then
    gauge - (before - after)
  else
    gauge

theorem MemoryGauge.apply_eq (gauge before after : Nat) :
    MemoryGauge.apply gauge before after = gauge + after - before := by
  unfold MemoryGauge.apply
  split
  · omega
  · split <;> omega

theorem Dict.remove_len [SipHasher] {dict : Dict} (valid : dict.Valid) {key : Bytes}
    (held : (dict.get key).isSome) : (dict.remove key).2.len + 1 = dict.len := by
  obtain ⟨after, -, looked⟩ := Dict.remove_spec valid key
  have stored : ∀ {dict : Dict}, dict.Valid → ∀ other,
      other ∈ dict.slots.map Slot.key ↔ (dict.get other).isSome := by
    intro dict valid other
    rw [Option.isSome_iff_exists, List.mem_map]
    simp only [valid.get_eq_some_iff]
    constructor
    · rintro ⟨slot, member, same⟩
      exact ⟨slot.entry, slot, member, same, rfl⟩
    · rintro ⟨entry, slot, member, same, -⟩
      exact ⟨slot, member, same⟩
  have perm : ((dict.remove key).2.slots.map Slot.key).Perm
      ((dict.slots.map Slot.key).erase key) := by
    rw [List.perm_ext_iff_of_nodup after.distinct (valid.distinct.erase key)]
    intro other
    rw [valid.distinct.mem_erase_iff, stored after, stored valid, looked]
    by_cases same : other = key
    · simp [same]
    · simp [same]
  have lengths := perm.length_eq
  have member := (stored valid key).mpr held
  have positive := List.length_pos_of_mem member
  rw [List.length_erase_of_mem member, List.length_map, List.length_map] at lengths
  rw [List.length_map] at positive
  rw [after.counted, valid.counted]
  omega

namespace ShardState

variable {L : Type} [ReplicationLog L] [SipHasher] {before after : Nat × ShardState L}

/-- A shard that removed a victim whose deletion its log took. -/
def withoutVictim (state : ShardState L) (cursor : Cursor) (victim : Bytes) (log : L) :
    ShardState L :=
  { { state with evictCursor := cursor, log := log, seq := state.seq + 1 }.change
      (state.dict.remove victim).2 with
    evicted := state.evicted + 1 }

/-- What one pass through the body of the loop comes to. -/
inductive EvictionOutcome (shard : Nat) (spared : Option Bytes) (state : ShardState L) :
    Bool × ShardState L → Prop where
  | nothing (cursor : Cursor)
      (sampled : state.dict.sampleOldest state.evictCursor evictionSamples spared =
        (none, cursor)) :
      EvictionOutcome shard spared state (false, { state with evictCursor := cursor })
  | refused (cursor : Cursor) (victim : Bytes) (log : L)
      (sampled : state.dict.sampleOldest state.evictCursor evictionSamples spared =
        (some victim, cursor))
      (refused : ReplicationLog.append state.log ⟨shard, state.seq, .del victim⟩ =
        (false, log)) :
      EvictionOutcome shard spared state
        (false, { state with evictCursor := cursor, log := log })
  | taken (cursor : Cursor) (victim : Bytes) (log : L)
      (sampled : state.dict.sampleOldest state.evictCursor evictionSamples spared =
        (some victim, cursor))
      (accepted : ReplicationLog.append state.log ⟨shard, state.seq, .del victim⟩ =
        (true, log)) :
      EvictionOutcome shard spared state (true, state.withoutVictim cursor victim log)

theorem evictOne_outcome (state : ShardState L) (shard : Nat) (spared : Option Bytes) :
    EvictionOutcome shard spared state (state.evictOne shard spared) := by
  unfold evictOne mutate append
  cases sampled : state.dict.sampleOldest state.evictCursor evictionSamples spared with
  | mk victim cursor =>
    cases victim with
    | none => exact .nothing cursor sampled
    | some victim =>
      dsimp only
      cases outcome : ReplicationLog.append state.log ⟨shard, state.seq, .del victim⟩ with
      | mk accepted log =>
        cases accepted with
        | false => exact .refused cursor victim log sampled outcome
        | true => exact .taken cursor victim log sampled outcome

/-- One round, from the gauge and the shard before it to those after it. -/
inductive EvictionRound (ceiling : Option Nat) (shard : Nat) (spared : Option Bytes) :
    Nat × ShardState L → Nat × ShardState L → Prop where
  | remove {gauge : Nat} {state : ShardState L} (cursor : Cursor) (victim : Bytes) (log : L)
      (overrun : ceiling.any (fun ceiling => ceiling < gauge) = true)
      (held : (state.dict.get victim).isSome) (other : spared ≠ some victim)
      (accepted : ReplicationLog.append state.log ⟨shard, state.seq, .del victim⟩ =
        (true, log)) :
      EvictionRound ceiling shard spared (gauge, state)
        (MemoryGauge.apply gauge state.dict.usedBytes
            (state.withoutVictim cursor victim log).dict.usedBytes,
          state.withoutVictim cursor victim log)

/-- How the loop ends. -/
inductive EvictionEnd (ceiling : Option Nat) (shard : Nat) (spared : Option Bytes) :
    Nat × ShardState L → Nat × ShardState L → Prop where
  | fits {gauge : Nat} {state : ShardState L}
      (under : ceiling.any (fun ceiling => ceiling < gauge) = false) :
      EvictionEnd ceiling shard spared (gauge, state) (gauge, state)
  | bare {gauge : Nat} {state : ShardState L} (cursor : Cursor)
      (alone : ∀ key, (state.dict.get key).isSome → spared = some key) :
      EvictionEnd ceiling shard spared (gauge, state)
        (gauge, { state with evictCursor := cursor })
  | refused {gauge : Nat} {state : ShardState L} (cursor : Cursor) (victim : Bytes) (log : L)
      (refused : ReplicationLog.append state.log ⟨shard, state.seq, .del victim⟩ =
        (false, log)) :
      EvictionEnd ceiling shard spared (gauge, state)
        (gauge, { state with evictCursor := cursor, log := log })

variable {ceiling : Option Nat} {shard : Nat} {spared : Option Bytes}

/-- A round keeps the dict's invariant and the spared key, and leaves one key
fewer. -/
theorem EvictionRound.keeps (round : EvictionRound ceiling shard spared before after)
    (valid : before.2.dict.Valid) :
    after.2.dict.Valid ∧
      ∀ key, spared = some key → after.2.dict.get key = before.2.dict.get key := by
  cases round with
  | remove cursor victim log overrun held other accepted =>
    obtain ⟨kept, -, looked⟩ := Dict.remove_spec valid victim
    refine ⟨kept, ?_⟩
    intro key same
    have different : key ≠ victim := by
      rintro rfl
      exact other same
    exact (looked key).trans (if_neg different)

theorem EvictionEnd.dict (ended : EvictionEnd ceiling shard spared before after) :
    after.2.dict = before.2.dict := by
  cases ended <;> rfl

/-- With more rounds than the shard has keys, the loop runs to its end. -/
theorem evictUntilFits_ends (rounds gauge : Nat) {state : ShardState L}
    (valid : state.dict.Valid) (enough : state.dict.len < rounds) :
    ∃ last, Relation.ReflTransGen (EvictionRound ceiling shard spared) (gauge, state) last ∧
      EvictionEnd ceiling shard spared last
        (evictUntilFits ceiling shard spared rounds gauge state) := by
  induction rounds generalizing gauge state with
  | zero => omega
  | succ rounds induction =>
    obtain ⟨chosen, none⟩ := Dict.sampleOldest_spec valid state.evictCursor
      (by decide : 1 ≤ evictionSamples) spared
    unfold evictUntilFits
    cases overrun : ceiling.any (fun ceiling => ceiling < gauge) with
    | false => exact ⟨_, .refl, .fits overrun⟩
    | true =>
      rw [if_pos rfl]
      have outcome := evictOne_outcome state shard spared
      generalize state.evictOne shard spared = result at outcome
      cases outcome with
      | nothing cursor sampled =>
        exact ⟨_, .refl, .bare cursor (none (by rw [sampled]))⟩
      | refused cursor victim log sampled refused =>
        exact ⟨_, .refl, .refused cursor victim log refused⟩
      | taken cursor victim log sampled accepted =>
        obtain ⟨held, other⟩ := chosen victim (by rw [sampled])
        have fewer := Dict.remove_len valid held
        have round : EvictionRound ceiling shard spared (gauge, state) _ :=
          .remove cursor victim log overrun held other accepted
        obtain ⟨last, more, ended⟩ := induction
          (gauge + (state.withoutVictim cursor victim log).dict.usedBytes - state.dict.usedBytes)
          (round.keeps valid).1 (show (state.dict.remove victim).2.len < rounds by omega)
        rw [MemoryGauge.apply_eq] at round
        exact ⟨last, .head round more, ended⟩

theorem evictUntilFits_enough (first second gauge : Nat) {state : ShardState L}
    (valid : state.dict.Valid) (enough : state.dict.len < first)
    (enough' : state.dict.len < second) :
    evictUntilFits ceiling shard spared first gauge state =
      evictUntilFits ceiling shard spared second gauge state := by
  induction first generalizing second gauge state with
  | zero => omega
  | succ first induction =>
    cases second with
    | zero => omega
    | succ second =>
      unfold evictUntilFits
      split
      · have outcome := evictOne_outcome state shard spared
        have chosen := (Dict.sampleOldest_spec valid state.evictCursor
          (by decide : 1 ≤ evictionSamples) spared).1
        generalize state.evictOne shard spared = result at outcome
        cases outcome with
        | nothing | refused => rfl
        | taken cursor victim log sampled accepted =>
          obtain ⟨held, -⟩ := chosen victim (by rw [sampled])
          have fewer := Dict.remove_len valid held
          exact induction second _ (Dict.remove_spec valid victim).1
            (show (state.dict.remove victim).2.len < first by omega)
            (show (state.dict.remove victim).2.len < second by omega)
      · rfl

theorem rounds_keep (rounds :
    Relation.ReflTransGen (EvictionRound ceiling shard spared) before after)
    (valid : before.2.dict.Valid) :
    after.2.dict.Valid ∧
      ∀ key, spared = some key → after.2.dict.get key = before.2.dict.get key := by
  induction rounds with
  | refl => exact ⟨valid, fun _ _ => rfl⟩
  | tail _ last induction =>
    obtain ⟨reached, kept⟩ := induction
    obtain ⟨afterValid, keptLast⟩ := last.keeps reached
    exact ⟨afterValid, fun key same => (keptLast key same).trans (kept key same)⟩

/-- From any shard, cursor, spared key, ceiling and gauge, and whatever the log
refuses: the loop ends after rounds that each removed, while the gauge was past
the ceiling, one stored key other than the spared one, once the log had taken
its deletion; and it ends with the gauge at or below the ceiling, with no key
but the spared one left, or right after a refused record. -/
theorem eviction_gives_up_only_when_it_must {state : ShardState L}
    (valid : state.dict.Valid) (ceiling : Option Nat) (shard : Nat)
    (spared : Option Bytes) (gauge : Nat) :
    ∃ last result,
      (∀ rounds, state.dict.len < rounds →
        evictUntilFits ceiling shard spared rounds gauge state = result) ∧
      Relation.ReflTransGen (EvictionRound ceiling shard spared) (gauge, state) last ∧
      EvictionEnd ceiling shard spared last result ∧
      ∀ key, spared = some key → result.2.dict.get key = state.dict.get key := by
  obtain ⟨last, rounds, ended⟩ := evictUntilFits_ends (state.dict.len + 1) gauge valid
    (Nat.lt_succ_self _)
  refine ⟨last, _, ?_, rounds, ended, ?_⟩
  · intro more enough
    exact evictUntilFits_enough more _ gauge valid enough (Nat.lt_succ_self _)
  · intro key same
    rw [ended.dict]
    exact (rounds_keep rounds valid).2 key same

omit [SipHasher] in
/-- Two keys over a ceiling of no bytes, one of them spared, and a log that
takes everything. -/
theorem eviction_gives_up_only_when_it_must_two_keys :
    let _ : SipHasher := ⟨fun _ _ _ => 3⟩
    let ops : List DictOp := [.insert [1] ⟨[7], none, 0⟩, .insert [2] ⟨[7], none, 0⟩]
    let dict := ((Dict.withSeed ⟨0, 0⟩).run ops).2
    let state : ShardState RefusingLog := .recovered dict 0 ⟨fun _ => true, 0, []⟩
    ∃ last result,
      evictUntilFits (some 0) 0 (some [1]) 3 dict.usedBytes state = result ∧
        EvictionEnd (some 0) 0 (some [1]) last result ∧
        (result.2.dict.get [1]).isSome ∧ result.2.log.records = [⟨0, 0, .del [2]⟩] := by
  intro hasher ops dict state
  have valid : state.dict.Valid := Dict.run_valid (Dict.valid_withSeed _) ops
  obtain ⟨last, result, same, -, ended, kept⟩ :=
    eviction_gives_up_only_when_it_must valid (some 0) 0 (some [1]) dict.usedBytes
  have ran := same 3 (by decide +kernel)
  refine ⟨last, result, ran, ended, ?_, ?_⟩
  · rw [kept [1] rfl]
    decide +kernel
  · rw [← ran]
    decide +kernel

end ShardState

end Seedstone
