import Seedstone.Dict.Shape

/-!
# The deadline flag

`may_hold_deadlines` may only be down while no entry carries a deadline: it is
what lets a read skip the lookup in front of it and the sweep skip its walk.
-/

namespace Seedstone

namespace Dict

variable [SipHasher] {dict : Dict}

/-- A dict whose flag is down holds no deadline. -/
def Flagged (dict : Dict) : Prop :=
  dict.mayHoldDeadlines = false →
    ∀ key entry, dict.get key = some entry → entry.expiresAt = none

/-- The invariant a dict keeps together with its flag. -/
structure Sound (dict : Dict) : Prop extends Valid dict where
  flagged : dict.Flagged

theorem insert_mayHoldDeadlines (dict : Dict) (key : Bytes) (entry : Entry) :
    (dict.insert key entry).mayHoldDeadlines =
      (dict.mayHoldDeadlines || entry.expiresAt.isSome) := by
  have noted : (dict.makeRoom.noteDeadline entry.expiresAt).mayHoldDeadlines =
      (dict.mayHoldDeadlines || entry.expiresAt.isSome) := by
    rw [← (sameCounts_makeRoom dict).mayHoldDeadlines]
    rfl
  unfold insert
  dsimp only
  split
  · exact (sameCounts_modifyEntry _ _ _).mayHoldDeadlines.trans noted
  · unfold pushSlot
    split <;> exact noted

theorem setDeadline_mayHoldDeadlines (dict : Dict) (key : Bytes) (expiresAt : Option Nat) :
    (dict.setDeadline key expiresAt).2.mayHoldDeadlines =
      (dict.mayHoldDeadlines || expiresAt.isSome) := by
  unfold setDeadline
  dsimp only
  split
  · rfl
  · exact (sameCounts_modifyEntry _ _ _).mayHoldDeadlines

theorem touch_mayHoldDeadlines (dict : Dict) (key : Bytes) :
    (dict.touch key).mayHoldDeadlines = dict.mayHoldDeadlines :=
  (sameCounts_modifyEntry _ _ _).mayHoldDeadlines

theorem remove_mayHoldDeadlines (dict : Dict) (key : Bytes) :
    (dict.remove key).2.mayHoldDeadlines = dict.mayHoldDeadlines ∨ (dict.remove key).2.len = 0 := by
  have kept := (sameCounts_removeSlot _ key).mayHoldDeadlines.trans
    (sameCounts_beforeRemove dict).mayHoldDeadlines
  rcases remove_snd dict key with same | ⟨_, _, same⟩ <;> rw [same]
  · exact Or.inl kept
  · generalize (removeSlot _ key).2 = after at kept
    unfold uncount
    dsimp only
    split
    · next last => exact Or.inr last
    · exact Or.inl kept

theorem Valid.get_eq_none_of_len (valid : dict.Valid) (empty : dict.len = 0)
    (key : Bytes) : dict.get key = none := by
  rw [valid.counted] at empty
  rw [valid.get_eq_lookup, List.eq_nil_of_length_eq_zero empty]
  rfl

theorem sound_withSeed (seed : DictSeed) : (withSeed seed).Sound where
  toValid := valid_withSeed seed
  flagged := by
    intro _ key entry found
    rw [(valid_withSeed seed).get_eq_none_of_len rfl] at found
    simp at found

theorem Sound.insert (sound : dict.Sound) (key : Bytes) (entry : Entry) :
    (dict.insert key entry).Sound where
  toValid := (insert_spec sound.toValid key entry).1
  flagged := by
    intro down other found looked
    rw [insert_mayHoldDeadlines, Bool.or_eq_false_iff] at down
    rw [(insert_spec sound.toValid key entry).2] at looked
    split at looked
    · rw [Option.some.injEq] at looked
      rw [← looked]
      simpa using down.2
    · exact sound.flagged down.1 other found looked

theorem Sound.setDeadline (sound : dict.Sound) (key : Bytes)
    (expiresAt : Option Nat) : (dict.setDeadline key expiresAt).2.Sound where
  toValid := (setDeadline_spec sound.toValid key expiresAt).1
  flagged := by
    intro down other found looked
    rw [setDeadline_mayHoldDeadlines, Bool.or_eq_false_iff] at down
    rw [(setDeadline_spec sound.toValid key expiresAt).2.2] at looked
    split at looked
    · obtain ⟨before, -, rfl⟩ := Option.map_eq_some_iff.mp looked
      simpa using down.2
    · exact sound.flagged down.1 other found looked

theorem Sound.touch (sound : dict.Sound) (key : Bytes) : (dict.touch key).Sound where
  toValid := (touch_spec sound.toValid key).1
  flagged := by
    intro down other found looked
    rw [touch_mayHoldDeadlines] at down
    rw [(touch_spec sound.toValid key).2] at looked
    split at looked
    · obtain ⟨before, held, rfl⟩ := Option.map_eq_some_iff.mp looked
      exact sound.flagged down key before held
    · exact sound.flagged down other found looked

theorem Sound.remove (sound : dict.Sound) (key : Bytes) :
    (dict.remove key).2.Sound where
  toValid := (remove_spec sound.toValid key).1
  flagged := by
    intro down other found looked
    rcases remove_mayHoldDeadlines dict key with kept | empty
    · rw [kept] at down
      rw [(remove_spec sound.toValid key).2.2] at looked
      split at looked
      · simp at looked
      · exact sound.flagged down other found looked
    · rw [(remove_spec sound.toValid key).1.get_eq_none_of_len empty] at looked
      simp at looked

theorem Sound.rehashStep (sound : dict.Sound) (buckets : Nat) :
    (dict.rehashStep buckets).Sound where
  toValid := (rehashStep_spec sound.toValid buckets).1
  flagged := by
    intro down other found looked
    rw [(sameCounts_rehashStep dict buckets).mayHoldDeadlines] at down
    rw [get_rehashStep sound.toValid] at looked
    exact sound.flagged down other found looked

theorem sound_clear (dict : Dict) : dict.clear.Sound :=
  sound_withSeed dict.seed

end Dict

end Seedstone
