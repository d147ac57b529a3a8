import Seedstone.Dict.Operations

/-!
# The shape of the tables

An operation either keeps the number of buckets and the place of the migration
or goes through `rehash_step` or the growth decision of `insert` first.  The
byte counter, the scan and the growth bound all follow from that.
-/

namespace Seedstone

namespace Dict

variable [SipHasher] {dict : Dict}

/-- Both tables keep their buckets and the migration stays where it is. -/
structure SameShape (before after : Dict) : Prop where
  seed : after.seed = before.seed
  old : after.old.length = before.old.length
  new : after.new.map List.length = before.new.map List.length
  rehashIndex : after.rehashIndex = before.rehashIndex

section

omit [SipHasher]

theorem SameShape.refl (dict : Dict) : SameShape dict dict :=
  ⟨rfl, rfl, rfl, rfl⟩

theorem SameShape.trans {first second third : Dict} (one : SameShape first second)
    (two : SameShape second third) : SameShape first third :=
  ⟨two.seed.trans one.seed, two.old.trans one.old, two.new.trans one.new,
    two.rehashIndex.trans one.rehashIndex⟩

theorem SameTables.sameShape {before after : Dict} (same : SameTables before after) :
    SameShape before after :=
  ⟨same.seed, by rw [same.old], by rw [same.new], same.rehashIndex⟩

end

theorem sameShape_modifyEntry (dict : Dict) (key : Bytes) (change : Entry → Entry) :
    SameShape dict (dict.modifyEntry key change) := by
  unfold modifyEntry
  dsimp only
  split
  · exact ⟨rfl, by simp [Table.modifyEntry], rfl, rfl⟩
  · split
    · exact SameShape.refl dict
    · next new rehashing =>
        exact ⟨rfl, rfl, by simp [Table.modifyEntry, rehashing], rfl⟩

omit [SipHasher] in
theorem sameShape_pushSlot (dict : Dict) (slot : Slot) : SameShape dict (dict.pushSlot slot) := by
  unfold pushSlot
  split
  · next new rehashing => exact ⟨rfl, rfl, by simp [Table.push, rehashing], rfl⟩
  · exact ⟨rfl, by simp [Table.push], rfl, rfl⟩

omit [SipHasher] in
theorem removeFrom_length (table : Table) (hash : BitVec 64) (key : Bytes) :
    (removeFrom table hash key).2.length = table.length := by
  unfold removeFrom
  dsimp only
  split
  · rfl
  · exact List.length_modify ..

theorem sameShape_removeSlot (dict : Dict) (key : Bytes) :
    SameShape dict (dict.removeSlot key).2 := by
  have oldLength := removeFrom_length dict.old (hashKey dict.seed key) key
  unfold removeSlot
  dsimp only
  split
  · next entry old removed =>
      rw [removed] at oldLength
      exact ⟨rfl, oldLength, rfl, rfl⟩
  · split
    · exact SameShape.refl dict
    · next new rehashing =>
        exact ⟨rfl, rfl, by simp [rehashing, removeFrom_length], rfl⟩

theorem sameShape_insert (dict : Dict) (key : Bytes) (entry : Entry) :
    SameShape dict.makeRoom (dict.insert key entry) := by
  have noted := (sameTables_noteDeadline dict.makeRoom entry.expiresAt).sameShape
  unfold insert
  dsimp only
  split
  · exact (noted.trans (sameShape_modifyEntry _ key _)).trans (sameTables_account _ _ _).sameShape
  · exact (noted.trans (sameShape_pushSlot _ _)).trans (sameTables_account _ _ _).sameShape

theorem sameShape_setDeadline (dict : Dict) (key : Bytes) (expiresAt : Option Nat) :
    SameShape dict (dict.setDeadline key expiresAt).2 := by
  have noted := (sameTables_noteDeadline dict expiresAt).sameShape
  unfold setDeadline
  dsimp only
  split
  · exact noted
  · exact (noted.trans (sameShape_modifyEntry _ key _)).trans (sameTables_account _ _ _).sameShape

theorem sameShape_touch (dict : Dict) (key : Bytes) : SameShape dict (dict.touch key) :=
  (sameTables_tick dict).sameShape.trans (sameShape_modifyEntry _ key _)

/-- `remove` takes the key's slot out, and counts it out if there was one. -/
theorem remove_snd (dict : Dict) (key : Bytes) :
    (dict.remove key).2 =
        ((if dict.isRehashing then dict.rehashStep 1 else dict).removeSlot key).2 ∨
      ∃ bytes dates, (dict.remove key).2 = (account
        ((if dict.isRehashing then dict.rehashStep 1 else dict).removeSlot key).2
          bytes dates).uncount := by
  unfold remove
  dsimp only
  generalize removeSlot _ key = outcome
  rcases outcome with ⟨_ | entry, after⟩
  · exact .inl rfl
  · exact .inr ⟨_, _, rfl⟩

theorem sameShape_remove (dict : Dict) (key : Bytes) :
    SameShape (if dict.isRehashing then dict.rehashStep 1 else dict) (dict.remove key).2 := by
  have removed := sameShape_removeSlot (if dict.isRehashing then dict.rehashStep 1 else dict) key
  rcases remove_snd dict key with same | ⟨_, _, same⟩ <;> rw [same]
  · exact removed
  · exact { removed with }

/-- The counters that do not depend on where the entries lie. -/
structure SameCounts (before after : Dict) : Prop where
  len : after.len = before.len
  mayHoldDeadlines : after.mayHoldDeadlines = before.mayHoldDeadlines
  withDeadline : after.withDeadline = before.withDeadline
  clock : after.clock = before.clock

section

omit [SipHasher]

theorem sameCounts_rehashStep (dict : Dict) (buckets : Nat) :
    SameCounts dict (dict.rehashStep buckets) := by
  unfold rehashStep
  split
  · exact ⟨rfl, rfl, rfl, rfl⟩
  · dsimp only
    split <;> exact ⟨rfl, rfl, rfl, rfl⟩

theorem sameCounts_makeRoom (dict : Dict) : SameCounts dict dict.makeRoom := by
  unfold makeRoom
  split
  · exact sameCounts_rehashStep dict 1
  · split <;> exact ⟨rfl, rfl, rfl, rfl⟩

theorem sameCounts_beforeRemove (dict : Dict) :
    SameCounts dict (if dict.isRehashing then dict.rehashStep 1 else dict) := by
  split
  · exact sameCounts_rehashStep dict 1
  · exact ⟨rfl, rfl, rfl, rfl⟩

end

theorem sameCounts_modifyEntry (dict : Dict) (key : Bytes) (change : Entry → Entry) :
    SameCounts dict (dict.modifyEntry key change) := by
  unfold modifyEntry
  dsimp only
  split
  · exact ⟨rfl, rfl, rfl, rfl⟩
  · split <;> exact ⟨rfl, rfl, rfl, rfl⟩

theorem sameCounts_removeSlot (dict : Dict) (key : Bytes) :
    SameCounts dict (dict.removeSlot key).2 := by
  unfold removeSlot
  dsimp only
  split
  · exact ⟨rfl, rfl, rfl, rfl⟩
  · split <;> exact ⟨rfl, rfl, rfl, rfl⟩

/-- What `rehash_step` leaves of a dict: at rest the dict itself; otherwise the
larger table alone once the last bucket is drained, and before that both tables,
with the migration further on. -/
inductive Migrated (dict : Dict) (buckets : Nat) : Dict → Prop where
  | resting (idle : dict.new = none) : Migrated dict buckets dict
  | finished {new migrated : Table} (rehashing : dict.new = some new)
      (passed : dict.old.length ≤ dict.rehashIndex + buckets)
      (length : migrated.length = new.length) :
      Migrated dict buckets { dict with
        usedBytes := dict.usedBytes - tableBytes dict.old.length
        old := migrated
        new := none
        rehashIndex := 0 }
  | moved {new old migrated : Table} (rehashing : dict.new = some new)
      (short : dict.rehashIndex + buckets < dict.old.length)
      (oldLength : old.length = dict.old.length)
      (newLength : migrated.length = new.length) :
      Migrated dict buckets { dict with
        old := old
        new := some migrated
        rehashIndex := dict.rehashIndex + buckets }

theorem Valid.migrated (valid : dict.Valid) (buckets : Nat) :
    Migrated dict buckets (dict.rehashStep buckets) := by
  unfold rehashStep
  cases rehashing : dict.new with
  | none => exact .resting rehashing
  | some new =>
    dsimp only
    have draining := valid.draining new rehashing
    generalize stopEq : min (dict.rehashIndex + buckets) dict.old.length = stop
    obtain ⟨_, _, oldLength, newLength, _⟩ := drain_spec (stop - dict.rehashIndex)
      valid.old (valid.new new rehashing) (by omega) valid.drained
    generalize drain dict.old new dict.rehashIndex (stop - dict.rehashIndex) =
      drained at oldLength newLength
    obtain ⟨old, migrated⟩ := drained
    dsimp only at oldLength newLength ⊢
    rw [oldLength]
    split
    · exact .finished rehashing (by omega) newLength
    · obtain rfl : dict.rehashIndex + buckets = stop := by omega
      exact .moved rehashing (by omega) oldLength newLength

end Dict

end Seedstone
