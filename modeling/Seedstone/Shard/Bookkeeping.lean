import Seedstone.Dict.Accounting
import Seedstone.Shard.Moves

/-!
# What the counters of a shard promise

The counters of a dict stay exact through every operation, so the two fast
paths that trust the deadline flag, the one in front of every command and the
one in front of the sweep's walk, answer as the slow ones would.  Everything a
shard does to its dict is a run of operations, and so is accounted for.
-/

namespace Seedstone

variable [SipHasher]

theorem isDue_eq {dict : Dict} (sound : dict.Sound) (key : Bytes) (now : Nat) :
    isDue dict key now =
      (dict.get key).any (fun entry => Deadlines.dueOnRead entry.expiresAt now) := by
  unfold isDue Deadlines.takesUndated
  cases flag : dict.mayHoldDeadlines with
  | true => rfl
  | false =>
    cases found : dict.get key with
    | none => rfl
    | some entry =>
      have undated := sound.flagged flag key entry found
      simp [Deadlines.dueOnRead, undated]

/-- While the flag is down the walk `expire_step` skips would name no key. -/
theorem expireLoop_undated {dict : Dict} (sound : dict.Sound)
    (down : dict.mayHoldDeadlines = false) (now budget : Nat) (cursor : Cursor) :
    (dict.expireLoop now budget cursor).2 = [] := by
  induction budget generalizing cursor with
  | zero => rfl
  | succ budget induction =>
    have dead : ((dict.scan cursor).1.filter
        (fun item => Deadlines.dueOnSweep item.2.expiresAt now)).map Prod.fst = [] := by
      rw [List.map_eq_nil_iff, List.filter_eq_nil_iff]
      intro item member
      have held := Dict.get_of_mem_scan sound.toValid member
      have undated := sound.flagged down item.1 item.2 held
      simp [Deadlines.dueOnSweep, undated]
    unfold Dict.expireLoop
    dsimp only
    rw [dead]
    split
    · rfl
    · exact induction _

/-- After any sequence of operations on a new dict, `with_deadline` counts the
stored entries that carry a deadline, no operation takes from a counter more
than it holds, a flag that is down means that no entry carries a deadline, and
so neither fast path hides a key that is due. -/
theorem deadline_bookkeeping (seed : DictSeed) (ops : List DictOp) :
    let dict := ((Dict.withSeed seed).run ops).2
    (∀ key entry, dict.get key = some entry ↔
        ∃ slot ∈ dict.slots, slot.key = key ∧ slot.entry = entry) ∧
      (dict.slots.map Slot.key).Nodup ∧
      dict.withDeadline = dict.slots.countP (fun slot => slot.entry.expiresAt.isSome) ∧
      (∀ op, ∀ taken ∈ dict.subtractions op, taken.2 ≤ taken.1) ∧
      (dict.mayHoldDeadlines = false →
        ∀ key entry, dict.get key = some entry → entry.expiresAt = none) ∧
      ∀ now,
        (∀ key, isDue dict key now =
          (dict.get key).any (fun entry => Deadlines.dueOnRead entry.expiresAt now)) ∧
        (∀ key entry, dict.get key = some entry → Deadlines.dueOnRead entry.expiresAt now = true →
          isDue dict key now = true ∧ dict.mayHoldDeadlines = true) ∧
        ∀ cursor budget, (dict.expireStep cursor budget now).2 =
          (dict.expireLoop now budget cursor).2 := by
  intro dict
  have accounted : dict.Accounted := (Dict.accounted_withSeed seed).run ops
  refine ⟨?_, accounted.distinct, ?_, accounted.subtractions_le, accounted.flagged, ?_⟩
  · intro key entry
    exact accounted.toValid.get_eq_some_iff
  · rw [accounted.dates, total_datedWeight]
  · intro now
    refine ⟨fun key => isDue_eq accounted.toSound key now, ?_, ?_⟩
    · intro key entry found due
      refine ⟨by rw [isDue_eq accounted.toSound, found]; exact due, ?_⟩
      by_contra down
      rw [accounted.flagged (by simpa using down) key entry found] at due
      cases due
    · intro cursor budget
      unfold Dict.expireStep
      split
      · next skipped =>
        have down : dict.mayHoldDeadlines = false := by
          simpa [Deadlines.takesUndated] using skipped
        exact (expireLoop_undated accounted.toSound down now budget cursor).symm
      · rfl

namespace Dict

/-- A dict that comes from another by operations. -/
def Follows (before after : Dict) : Prop :=
  ∃ ops, after = (before.run ops).2

theorem Follows.refl (dict : Dict) : Follows dict dict :=
  ⟨[], rfl⟩

theorem Follows.step (dict : Dict) (op : DictOp) : Follows dict (dict.step op).2 :=
  ⟨[op], rfl⟩

theorem Follows.trans {first second third : Dict} (one : Follows first second)
    (two : Follows second third) : Follows first third := by
  obtain ⟨ops, rfl⟩ := one
  obtain ⟨more, rfl⟩ := two
  exact ⟨ops ++ more, (Machine.run_append Dict.step first ops more).symm⟩

end Dict

namespace ShardState

variable {L : Type} [ReplicationLog L] {shard : Nat} {now : Now}

theorem Move.follows {before after : ShardState L} (moved : Move shard now before after) :
    before.dict.Follows after.dict := by
  cases moved with
  | idle _ dict | refuse _ _ dict => exact dict ▸ .refl before.dict
  | operate same op harmless dict => exact dict ▸ .step before.dict op
  | forget same key value deadline held due dict =>
    exact dict ▸ .step before.dict (.remove key)
  | commit mutation proper taken dict seq reading history => exact ⟨mutation.ops, dict⟩

theorem Moves.follows {before after : ShardState L} (moved : Moves shard now before after) :
    before.dict.Follows after.dict := by
  induction moved with
  | refl => exact .refl _
  | tail _ last induction => exact induction.trans last.follows

end ShardState

end Seedstone
