import Seedstone.Dict.Deadlines
import Seedstone.Shard.Housekeeping

/-!
# What a replay leaves

Replaying effects at a clock reading leaves the keyspace the effects describe,
read at that clock: an entry whose deadline has passed is gone, and every other
deadline is the instant its Unix millisecond falls on.  A passed deadline does
not remove its key on the spot, since a later effect may still move it, so the
invariant of the loop holds such keys as due now and remembers them.
-/

namespace Seedstone

variable [SipHasher] {dict : Dict} {now : Now} {due : List Bytes} {keyspace : Keyspace}

/-- The value and deadline a dict holds under each key. -/
def Dict.contents (dict : Dict) (key : Bytes) : Option (Bytes × Option Nat) :=
  (dict.get key).map fun entry => (entry.value, entry.expiresAt)

/-- The keyspace a log describes, as a dict holds it at a clock reading. -/
def Keyspace.resolve (keyspace : Keyspace) (now : Now) (key : Bytes) :
    Option (Bytes × Option Nat) :=
  (keyspace key).bind fun entry =>
    if (resolveDeadline now entry.2).2 then
      none
    else
      some (entry.1, (resolveDeadline now entry.2).1)

theorem Dict.contents_eq_none_iff (dict : Dict) (key : Bytes) :
    dict.contents key = none ↔ dict.get key = none :=
  Option.map_eq_none_iff

theorem Dict.contents_insert (valid : dict.Valid) (key : Bytes) (entry : Entry) :
    (dict.insert key entry).contents =
      Function.update dict.contents key (some (entry.value, entry.expiresAt)) := by
  funext other
  unfold Dict.contents
  rw [(Dict.insert_spec valid key entry).2, Function.update_apply]
  split <;> rfl

theorem Dict.contents_remove (valid : dict.Valid) (key : Bytes) :
    (dict.remove key).2.contents = Function.update dict.contents key none := by
  funext other
  unfold Dict.contents
  rw [(Dict.remove_spec valid key).2.2, Function.update_apply]
  split <;> rfl

theorem Dict.contents_setDeadline (valid : dict.Valid) (key : Bytes) (expiresAt : Option Nat) :
    (dict.setDeadline key expiresAt).2.contents = Function.update dict.contents key
        ((dict.contents key).map fun entry => (entry.1, expiresAt)) := by
  funext other
  unfold Dict.contents
  rw [(Dict.setDeadline_spec valid key expiresAt).2.2, Function.update_apply]
  split
  · rw [Option.map_map, Option.map_map]
    rfl
  · rfl

theorem Dict.contents_touch (valid : dict.Valid) (key : Bytes) :
    (dict.touch key).contents = dict.contents := by
  funext other
  unfold Dict.contents
  rw [(Dict.touch_spec valid key).2]
  split
  · next same =>
      rw [same, Option.map_map]
      rfl
  · rfl

theorem Dict.contents_rehashStep (valid : dict.Valid) (buckets : Nat) :
    (dict.rehashStep buckets).contents = dict.contents := by
  funext other
  unfold Dict.contents
  rw [Dict.get_rehashStep valid]

theorem Dict.contents_withSeed (seed : DictSeed) :
    (Dict.withSeed seed).contents = fun _ => none := by
  funext key
  rw [Dict.contents_eq_none_iff]
  exact (Dict.valid_withSeed seed).get_eq_none_of_len rfl key

/-- The invariant of the replay loop: the dict holds the keyspace, a passed
deadline standing as due now and its key remembered. -/
structure ReplayHolds (now : Now) (state : Dict × List Bytes) (keyspace : Keyspace) :
    Prop where
  sound : state.1.Sound
  contents : ∀ key, state.1.contents key =
    (keyspace key).map fun entry => (entry.1, (resolveDeadline now entry.2).1)
  remembered : ∀ key entry, keyspace key = some entry →
    (resolveDeadline now entry.2).2 = true → key ∈ state.2

theorem replayHolds_empty (now : Now) (seed : DictSeed) :
    ReplayHolds now (Dict.withSeed seed, []) Keyspace.empty where
  sound := Dict.sound_withSeed seed
  contents := by
    intro key
    rw [Dict.contents_withSeed]
    rfl
  remembered := by
    intro key entry found
    simp [Keyspace.empty] at found

theorem mem_due_replayEffect {effect : Effect} {key : Bytes} (member : key ∈ due) :
    key ∈ (replayEffect now (dict, due) effect).2 := by
  cases effect with
  | put | deadline =>
    unfold replayEffect
    dsimp only
    split
    · exact List.mem_append_left _ member
    · exact member
  | del | flush | rebase => exact member

theorem mem_due_put {key value : Bytes} {millis : Option Nat}
    (passed : (resolveDeadline now millis).2 = true) :
    key ∈ (replayEffect now (dict, due) (.put key value millis)).2 := by
  unfold replayEffect
  dsimp only
  rw [passed]
  simp

theorem mem_due_deadline {key : Bytes} {millis : Option Nat} (valid : dict.Valid)
    (present : dict.contents key ≠ none) (passed : (resolveDeadline now millis).2 = true) :
    key ∈ (replayEffect now (dict, due) (.deadline key millis)).2 := by
  have found : (dict.setDeadline key (resolveDeadline now millis).1).1 = true := by
    rw [(Dict.setDeadline_spec valid key _).2.1, Option.isSome_iff_ne_none]
    exact fun missing => present ((dict.contents_eq_none_iff key).mpr missing)
  unfold replayEffect
  dsimp only
  rw [passed, found]
  simp

theorem ReplayHolds.replayEffect {state : Dict × List Bytes}
    (holds : ReplayHolds now state keyspace) (effect : Effect) :
    ReplayHolds now (replayEffect now state effect) (effect.act keyspace) := by
  obtain ⟨dict, due⟩ := state
  obtain ⟨sound, contents, remembered⟩ := holds
  have valid := sound.toValid
  cases effect with
  | put key value millis =>
    refine ⟨sound.insert key _, ?_, ?_⟩
    · intro other
      refine (congrFun (Dict.contents_insert valid key _) other).trans ?_
      rw [Function.update_apply, Effect.act_put]
      split
      · rfl
      · exact contents other
    · intro other entry found passed
      rw [Effect.act_put] at found
      split at found
      · next same =>
          rw [Option.some.injEq] at found
          subst found same
          exact mem_due_put passed
      · exact mem_due_replayEffect (remembered other entry found passed)
  | del key =>
    refine ⟨sound.remove key, ?_, ?_⟩
    · intro other
      refine (congrFun (Dict.contents_remove valid key) other).trans ?_
      rw [Function.update_apply, Effect.act_del]
      split
      · rfl
      · exact contents other
    · intro other entry found passed
      rw [Effect.act_del] at found
      split at found
      · simp at found
      · exact remembered other entry found passed
  | deadline key millis =>
    refine ⟨sound.setDeadline key _, ?_, ?_⟩
    · intro other
      refine (congrFun (Dict.contents_setDeadline valid key _) other).trans ?_
      rw [Function.update_apply, Effect.act_deadline]
      split
      · have held := contents key
        dsimp only at held
        rw [held, Option.map_map, Option.map_map]
        rfl
      · exact contents other
    · intro other entry found passed
      rw [Effect.act_deadline] at found
      split at found
      · next same =>
          subst same
          obtain ⟨before, held, rfl⟩ := Option.map_eq_some_iff.mp found
          have present : dict.contents other ≠ none := by
            have looked := contents other
            rw [held] at looked
            simp [looked]
          exact mem_due_deadline valid present passed
      · exact mem_due_replayEffect (remembered other entry found passed)
  | flush =>
    refine ⟨Dict.sound_withSeed dict.seed, ?_, ?_⟩
    · intro other
      exact congrFun (Dict.contents_withSeed dict.seed) other
    · intro other entry found
      simp [Effect.act, Keyspace.empty] at found
  | rebase => exact ⟨sound, contents, remembered⟩

theorem ReplayHolds.foldl {state : Dict × List Bytes}
    (holds : ReplayHolds now state keyspace) (effects : List Effect) :
    ReplayHolds now (effects.foldl (Seedstone.replayEffect now) state)
      (Effect.actAll keyspace effects) := by
  induction effects generalizing state keyspace with
  | nil => exact holds
  | cons effect rest induction => exact induction (holds.replayEffect effect)

/-- Whether a held deadline is due. -/
def heldDue (now : Now) (entry : Bytes × Option Nat) : Bool :=
  entry.2.any (fun deadline => deadline ≤ now.instant)

theorem contents_removeDue (valid : dict.Valid) (key other : Bytes) :
    (removeDue now dict key).contents other =
      if other = key ∧ (dict.contents key).any (heldDue now) then none
      else dict.contents other := by
  have dead : ((dict.get key).any fun entry =>
      entry.expiresAt.any (fun deadline => deadline ≤ now.instant)) =
        (dict.contents key).any (heldDue now) := by
    unfold Dict.contents
    cases dict.get key <;> rfl
  unfold removeDue
  dsimp only
  rw [dead]
  by_cases gone : (dict.contents key).any (heldDue now) = true
  · rw [if_pos gone, congrFun (Dict.contents_remove valid key) other, Function.update_apply]
    simp [gone]
  · rw [if_neg gone]
    simp [gone]

theorem removeDue_sound (sound : dict.Sound) (key : Bytes) : (removeDue now dict key).Sound := by
  unfold removeDue
  dsimp only
  split
  · exact sound.remove key
  · exact sound

/-- The last loop of `replay_into` removes exactly the remembered keys that are
still due. -/
theorem contents_foldl_removeDue (now : Now) (sound : dict.Sound) (due : List Bytes) :
    (due.foldl (removeDue now) dict).Sound ∧
      ∀ key, (due.foldl (removeDue now) dict).contents key =
        if key ∈ due ∧ (dict.contents key).any (heldDue now) then none
        else dict.contents key := by
  induction due generalizing dict with
  | nil =>
    refine ⟨sound, ?_⟩
    intro key
    simp
  | cons head rest induction =>
    obtain ⟨restSound, restContents⟩ := induction (removeDue_sound sound head)
    refine ⟨restSound, ?_⟩
    intro key
    rw [List.foldl_cons, restContents, contents_removeDue sound.toValid]
    by_cases same : key = head
    · subst same
      by_cases gone : (dict.contents key).any (heldDue now) = true
      · simp [gone]
      · simp [gone]
    · simp [same]

omit [SipHasher] in
theorem heldDue_resolve (now : Now) (value : Bytes) (millis : Option Nat) :
    heldDue now (value, (resolveDeadline now millis).1) = (resolveDeadline now millis).2 := by
  unfold heldDue resolveDeadline Now.replayDeadline
  cases millis with
  | none => rfl
  | some millis =>
    dsimp only
    split
    · next deadline upTo =>
        split at upTo
        · simp at upTo
        · next ahead =>
            rw [Replayed.upTo.injEq] at upTo
            subst upTo
            unfold checkedAdd
            split
            · have later : ¬ now.instant + (millis - now.unixMillis) ≤ now.instant := by
                omega
              simp [later]
            · rfl
    · simp

/-- `replay_into` leaves the keyspace the records describe, read at the
clock. -/
theorem replayInto_contents (holds : ReplayHolds now (dict, due) keyspace) (seq : Nat)
    (records : List (Nat × Effect)) :
    (replayInto dict seq records now due).1.Sound ∧
      (replayInto dict seq records now due).1.contents =
        (Effect.actAll keyspace (records.map Prod.snd)).resolve now := by
  have loop := holds.foldl (records.map Prod.snd)
  obtain ⟨sound, contents⟩ := contents_foldl_removeDue now loop.sound
    ((records.map Prod.snd).foldl (Seedstone.replayEffect now) (dict, due)).2
  refine ⟨sound, ?_⟩
  funext key
  refine (contents key).trans ?_
  unfold Keyspace.resolve
  rw [loop.contents key]
  cases held : Effect.actAll keyspace (records.map Prod.snd) key with
  | none => simp
  | some entry =>
    have remembered := loop.remembered key entry held
    simp only [Option.map_some, Option.any_some, Option.bind_some,
      heldDue_resolve now entry.1 entry.2]
    by_cases passed : (resolveDeadline now entry.2).2 = true
    · simp [passed, remembered passed]
    · simp [passed]

end Seedstone
