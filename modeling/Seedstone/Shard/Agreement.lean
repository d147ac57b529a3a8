import Seedstone.Shard.Replay

/-!
# A shard's memory and the keyspace its log describes

`Agrees` relates a dict to a keyspace under clocks in lockstep: every entry the
dict holds is logged, its deadline at the Unix millisecond it falls on, and a
key the dict does not hold is logged at most with a deadline that has passed.
Keys that are `pending` may be missing from the keyspace: those a walk that
copies the dict has still to come to.  Each effect a shard logs keeps the
relation when the change it stands for is made.
-/

namespace Seedstone

/-- The Unix millisecond an instant falls on, as a record counts it: a deadline
past the last millisecond a `u64` holds is logged as that millisecond. -/
def unixOf (offset : Int) (instant : Nat) : Nat :=
  min (instant + offset).toNat u64Max

/-- A reading of two clocks that run `offset` milliseconds apart. -/
def Now.InLockstep (now : Now) (offset : Int) : Prop :=
  (now.unixMillis : Int) = now.instant + offset

/-- A deadline not before the reading it is logged at is logged as the
millisecond it falls on. -/
theorem Now.deadlineMillis_eq {now : Now} {offset : Int}
    (lockstep : now.InLockstep offset) {deadline : Option Nat}
    (ahead : ∀ instant, deadline = some instant → now.instant ≤ instant) :
    now.deadlineMillis deadline = deadline.map (unixOf offset) := by
  unfold Now.deadlineMillis
  cases deadline with
  | none => rfl
  | some instant =>
    have later := ahead instant rfl
    unfold Now.InLockstep at lockstep
    rw [Option.map_some, Option.map_some, Option.some.injEq]
    unfold unixOf
    omega

/-- What a keyspace may say of a deadline: the millisecond it falls on, or any
passed one for a deadline that has passed. -/
def Logged (offset : Int) (instant : Nat) (deadline millis : Option Nat) : Prop :=
  millis = deadline.map (unixOf offset) ∨
    ((∃ due, deadline = some due ∧ due ≤ instant) ∧
      ∃ passed, millis = some passed ∧ (passed : Int) ≤ instant + offset)

variable [SipHasher]

/-- The keyspace a log would have to describe for a dict. -/
def Dict.keyspace (dict : Dict) (offset : Int) : Keyspace :=
  fun key => (dict.contents key).map fun entry => (entry.1, entry.2.map (unixOf offset))

structure Agrees (offset : Int) (instant : Nat) (pending : Bytes → Prop) (dict : Dict)
    (keyspace : Keyspace) : Prop where
  sound : dict.Sound
  bounded : ∀ key value deadline, dict.contents key = some (value, some deadline) →
    deadline ≤ instantMax ∧ 0 ≤ deadline + offset
  held : ∀ key value deadline, dict.contents key = some (value, deadline) →
    (∃ millis, keyspace key = some (value, millis) ∧
      Logged offset instant deadline millis) ∨ (keyspace key = none ∧ pending key)
  absent : ∀ key, dict.contents key = none →
    ∀ entry, keyspace key = some entry →
      ∃ millis, entry.2 = some millis ∧ (millis : Int) ≤ instant + offset

namespace Agrees

variable {offset : Int} {instant : Nat} {pending : Bytes → Prop} {dict : Dict}
  {keyspace : Keyspace} {next : Dict} {key value : Bytes} {deadline : Option Nat}

theorem empty (offset : Int) (instant : Nat) (pending : Bytes → Prop) (seed : DictSeed) :
    Agrees offset instant pending (Dict.withSeed seed) Keyspace.empty where
  sound := Dict.sound_withSeed seed
  bounded := by
    intro key value deadline found
    simp [Dict.contents_withSeed] at found
  held := by
    intro key value deadline found
    simp [Dict.contents_withSeed] at found
  absent := by
    intro key _ entry logged
    simp [Keyspace.empty] at logged

theorem of_sound (sound : dict.Sound)
    (bounded : ∀ key value deadline, dict.contents key = some (value, some deadline) →
      deadline ≤ instantMax ∧ 0 ≤ deadline + offset) :
    Agrees offset instant pending dict (dict.keyspace offset) where
  sound := sound
  bounded := bounded
  held := by
    intro key value deadline found
    exact Or.inl ⟨_, by rw [Dict.keyspace, found]; rfl, Or.inl rfl⟩
  absent := by
    intro key missing entry logged
    simp [Dict.keyspace, missing] at logged

section

variable (agrees : Agrees offset instant pending dict keyspace)

include agrees

theorem later {next : Nat} (notBack : instant ≤ next) :
    Agrees offset next pending dict keyspace where
  __ := agrees
  held := by
    intro key value deadline found
    rcases agrees.held key value deadline found with ⟨millis, logged, same⟩ | missing
    · refine Or.inl ⟨millis, logged, ?_⟩
      rcases same with same | ⟨⟨due, carried, reached⟩, passed, said, before⟩
      · exact Or.inl same
      · exact Or.inr ⟨⟨due, carried, reached.trans notBack⟩, passed, said, by omega⟩
    · exact Or.inr missing
  absent := by
    intro key missing entry logged
    obtain ⟨millis, same, due⟩ := agrees.absent key missing entry logged
    exact ⟨millis, same, by omega⟩

/-- Only keys the dict holds and the keyspace lacks have to be pending. -/
theorem pending_of {other : Bytes → Prop}
    (kept : ∀ key, dict.contents key ≠ none → keyspace key = none → pending key → other key) :
    Agrees offset instant other dict keyspace where
  __ := agrees
  held := by
    intro key value deadline found
    rcases agrees.held key value deadline found with logged | ⟨missing, waiting⟩
    · exact Or.inl logged
    · exact Or.inr ⟨missing, kept key (by simp [found]) missing waiting⟩

theorem quiet (sound : next.Sound) (same : next.contents = dict.contents) :
    Agrees offset instant pending next keyspace where
  sound := sound
  bounded := by
    rw [same]
    exact agrees.bounded
  held := by
    rw [same]
    exact agrees.held
  absent := by
    rw [same]
    exact agrees.absent

theorem passed_of_due {deadline : Nat}
    (found : dict.contents key = some (value, some deadline)) (due : deadline ≤ instant) :
    ∀ entry, keyspace key = some entry →
      ∃ millis, entry.2 = some millis ∧ (millis : Int) ≤ instant + offset := by
  intro entry logged
  have bound := agrees.bounded key value deadline found
  rcases agrees.held key value (some deadline) found with ⟨millis, said, same⟩ | missing
  · rw [said, Option.some.injEq] at logged
    rcases same with same | ⟨-, passed, same, before⟩
    · refine ⟨unixOf offset deadline, ?_, ?_⟩
      · rw [← logged, same]
        rfl
      · unfold unixOf
        omega
    · refine ⟨passed, ?_, before⟩
      rw [← logged, same]
  · rw [missing.1] at logged
    simp at logged

theorem forget {deadline : Nat} (found : dict.contents key = some (value, some deadline))
    (due : deadline ≤ instant) : Agrees offset instant pending (dict.remove key).2 keyspace := by
  have valid := agrees.sound.toValid
  have after := Dict.contents_remove valid key
  refine ⟨agrees.sound.remove key, ?_, ?_, ?_⟩
  · intro other value deadline held
    rw [after, Function.update_apply] at held
    split at held
    · simp at held
    · exact agrees.bounded other value deadline held
  · intro other value deadline held
    rw [after, Function.update_apply] at held
    split at held
    · simp at held
    · exact agrees.held other value deadline held
  · intro other missing entry logged
    rw [after, Function.update_apply] at missing
    split at missing
    · next same =>
        rw [same] at logged
        exact agrees.passed_of_due found due entry logged
    · exact agrees.absent other missing entry logged

theorem del (key : Bytes) :
    Agrees offset instant pending (dict.remove key).2 ((Effect.del key).act keyspace) := by
  have after := Dict.contents_remove agrees.sound.toValid key
  refine ⟨agrees.sound.remove key, ?_, ?_, ?_⟩
  · intro other value deadline held
    rw [after, Function.update_apply] at held
    split at held
    · simp at held
    · exact agrees.bounded other value deadline held
  · intro other value deadline held
    rw [after, Function.update_apply] at held
    rw [Effect.act_del]
    split at held
    · simp at held
    · next different =>
        rw [if_neg different]
        exact agrees.held other value deadline held
  · intro other missing entry logged
    rw [after, Function.update_apply] at missing
    rw [Effect.act_del] at logged
    split at logged
    · simp at logged
    · next different =>
        rw [if_neg different] at missing
        exact agrees.absent other missing entry logged

/-- Any change of one key's entry, when the keyspace is left saying what the
dict holds of it. -/
theorem write {said : Option (Bytes × Option Nat)} (sound : next.Sound)
    (after : next.contents = Function.update dict.contents key (some (value, deadline)))
    (bounded : ∀ millis, deadline = some millis → millis ≤ instantMax ∧ 0 ≤ millis + offset)
    (written : (∃ millis, said = some (value, millis) ∧
      Logged offset instant deadline millis) ∨ (said = none ∧ pending key)) :
    Agrees offset instant pending next (Function.update keyspace key said) := by
  refine ⟨sound, ?_, ?_, ?_⟩
  · intro other otherValue otherDeadline held
    rw [after, Function.update_apply] at held
    split at held
    · rw [Option.some.injEq, Prod.mk.injEq] at held
      exact bounded otherDeadline held.2
    · exact agrees.bounded other otherValue otherDeadline held
  · intro other otherValue otherDeadline held
    rw [after, Function.update_apply] at held
    rw [Function.update_apply]
    split at held
    · next same =>
        rw [Option.some.injEq, Prod.mk.injEq] at held
        rw [if_pos same, same, ← held.1, ← held.2]
        exact written
    · next different =>
        rw [if_neg different]
        exact agrees.held other otherValue otherDeadline held
  · intro other missing entry logged
    rw [after, Function.update_apply] at missing
    rw [Function.update_apply] at logged
    split at missing
    · simp at missing
    · next different =>
        rw [if_neg different] at logged
        exact agrees.absent other missing entry logged

theorem put (sound : next.Sound)
    (after : next.contents = Function.update dict.contents key (some (value, deadline)))
    (bounded : ∀ millis, deadline = some millis → millis ≤ instantMax ∧ 0 ≤ millis + offset) :
    Agrees offset instant pending next
      ((Effect.put key value (deadline.map (unixOf offset))).act keyspace) :=
  agrees.write sound after bounded (Or.inl ⟨_, rfl, Or.inl rfl⟩)

theorem setDeadline (present : dict.contents key ≠ none)
    (bounded : ∀ millis, deadline = some millis → millis ≤ instantMax ∧ 0 ≤ millis + offset) :
    Agrees offset instant pending (dict.setDeadline key deadline).2
      ((Effect.deadline key (deadline.map (unixOf offset))).act keyspace) := by
  have after := Dict.contents_setDeadline agrees.sound.toValid key deadline
  obtain ⟨⟨value, before⟩, found⟩ := Option.ne_none_iff_exists'.mp present
  rw [found, Option.map_some] at after
  apply agrees.write (agrees.sound.setDeadline key deadline) after bounded
  rcases agrees.held key value before found with ⟨millis, said, -⟩ | ⟨missing, waiting⟩
  · rw [said]
    exact Or.inl ⟨_, rfl, Or.inl rfl⟩
  · rw [missing]
    exact Or.inr ⟨rfl, waiting⟩

end

theorem flush (dict : Dict) (offset : Int) (instant : Nat) (pending : Bytes → Prop)
    (keyspace : Keyspace) : Agrees offset instant pending dict.clear (Effect.flush.act keyspace) :=
  empty offset instant pending dict.seed

end Agrees

end Seedstone
