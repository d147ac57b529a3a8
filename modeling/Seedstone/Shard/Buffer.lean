import Seedstone.Log.Layout

/-!
# A shard and its buffer

What a command, a sweep or an eviction does to a shard whose log is a
`FileLog`: it only adds records, to the buffer and to what the log ever took
alike, each of this shard and below the new sequence number.  A command that
does not write the log adds none while the shard refuses writes.
-/

namespace Seedstone

namespace ShardState

/-- A shard after any number of moves: what it appended, and that its sequence
number counts it. -/
structure Appends (shard : Nat) (before after : ShardState FileLog)
    (fresh : List Record) : Prop where
  accepted : after.log.accepted = before.log.accepted ++ fresh
  pending : after.log.pending = before.log.pending ++ fresh
  owned : ∀ record ∈ fresh, record.shard = shard ∧ record.seq < after.seq
  seq : after.seq = before.seq + fresh.length

namespace Appends

variable {shard : Nat} {before middle after : ShardState FileLog}
  {first second : List Record}

theorem of_same (log : after.log = before.log) (seq : after.seq = before.seq) :
    Appends shard before after [] where
  accepted := by rw [log, List.append_nil]
  pending := by rw [log, List.append_nil]
  owned := by simp
  seq := by simpa using seq

theorem trans (one : Appends shard before middle first) (two : Appends shard middle after second) :
    Appends shard before after (first ++ second) where
  accepted := by rw [two.accepted, one.accepted, List.append_assoc]
  pending := by rw [two.pending, one.pending, List.append_assoc]
  owned := by
    intro record member
    rcases List.mem_append.mp member with early | late
    · obtain ⟨shard, below⟩ := one.owned record early
      have grown := two.seq
      exact ⟨shard, by omega⟩
    · exact two.owned record late
  seq := by
    rw [two.seq, one.seq, List.length_append]
    omega

end Appends

variable [SipHasher] {shard : Nat} {now : Now} {before after : ShardState FileLog}

theorem Move.appends (moved : Move shard now before after) :
    ∃ fresh, Appends shard before after fresh := by
  cases moved with
  | idle same | operate same => exact ⟨[], .of_same same.log same.seq⟩
  | forget same key value deadline held due dict =>
    exact ⟨[], .of_same same.log same.seq⟩
  | refuse effect refused dict seq reading history => cases refused
  | commit mutation proper taken dict seq reading history =>
    have log : after.log = (before.log.append ⟨shard, before.seq, mutation.effect now⟩).2 :=
      (congrArg Prod.snd taken).symm
    refine ⟨[⟨shard, before.seq, mutation.effect now⟩], ?_, ?_, ?_, ?_⟩
    · rw [log]
      rfl
    · rw [log]
      rfl
    · intro record member
      rw [List.mem_singleton.mp member, seq]
      exact ⟨rfl, Nat.lt_succ_self _⟩
    · simpa using seq

theorem Moves.appends (moved : Moves shard now before after) :
    ∃ fresh, Appends shard before after fresh := by
  induction moved with
  | refl => exact ⟨[], .of_same rfl rfl⟩
  | tail _ last induction =>
    obtain ⟨first, one⟩ := induction
    obtain ⟨second, two⟩ := last.appends
    exact ⟨first ++ second, one.trans two⟩

/-- While writes are refused, a command that does not write the log logs
nothing: a key it finds due goes without a record. -/
theorem apply_quiet {L : Type} [ReplicationLog L] {state : ShardState L} {cmd : Command}
    (refusing : state.refusing = true) (reads : cmd.writesTheLog = false) :
    (state.apply shard cmd now).2.log = state.log ∧
      (state.apply shard cmd now).2.seq = state.seq := by
  cases cmd <;> simp_all [Command.writesTheLog, apply, Command.route, dispatch, touch]

end ShardState

end Seedstone
