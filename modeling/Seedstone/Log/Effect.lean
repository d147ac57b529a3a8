import Seedstone.Dict.Table

/-!
# Effects

What a record's payload says: the effect one mutation had on one key, or on
the whole shard.  Deadlines are absolute Unix milliseconds.  `Effect.act` is
the meaning of an effect: a change of the keyspace a log describes, which maps
each key to its value and the Unix millisecond its deadline falls on.
-/

namespace Seedstone

inductive Effect where
  | put (key value : Bytes) (deadline : Option Nat)
  | del (key : Bytes)
  | deadline (key : Bytes) (deadline : Option Nat)
  | flush
  | rebase
deriving DecidableEq, Repr

/-- One record a shard appends to its log. -/
structure Record where
  shard : Nat
  seq : Nat
  effect : Effect
deriving DecidableEq, Repr

/-- The keys a log describes, each with its value and its deadline in Unix milliseconds.
-/
abbrev Keyspace := Bytes → Option (Bytes × Option Nat)

namespace Keyspace

def empty : Keyspace :=
  fun _ => none

end Keyspace

namespace Effect

def act (keyspace : Keyspace) : Effect → Keyspace
  | .put key value millis => Function.update keyspace key (some (value, millis))
  | .del key => Function.update keyspace key none
  | .deadline key millis =>
    Function.update keyspace key
      ((keyspace key).map fun entry => (entry.1, millis))
  | .flush => Keyspace.empty
  | .rebase => keyspace

theorem act_put (keyspace : Keyspace) (key value : Bytes) (millis : Option Nat) (other : Bytes) :
    act keyspace (.put key value millis) other =
      if other = key then some (value, millis) else keyspace other := by
  unfold act
  exact Function.update_apply keyspace key _ other

theorem act_del (keyspace : Keyspace) (key other : Bytes) :
    act keyspace (.del key) other = if other = key then none else keyspace other := by
  unfold act
  exact Function.update_apply keyspace key _ other

theorem act_deadline (keyspace : Keyspace) (key : Bytes) (millis : Option Nat) (other : Bytes) :
    act keyspace (.deadline key millis) other =
      if other = key then (keyspace key).map (fun entry => (entry.1, millis))
      else keyspace other := by
  unfold act
  exact Function.update_apply keyspace key _ other

/-- The keyspace a sequence of effects leaves. -/
def actAll (keyspace : Keyspace) (effects : List Effect) : Keyspace :=
  effects.foldl act keyspace

@[simp]
theorem actAll_cons (keyspace : Keyspace) (effect : Effect) (effects : List Effect) :
    actAll keyspace (effect :: effects) = actAll (act keyspace effect) effects :=
  rfl

theorem actAll_append (keyspace : Keyspace) (first second : List Effect) :
    actAll keyspace (first ++ second) = actAll (actAll keyspace first) second := by
  unfold actAll
  exact List.foldl_append

/-- What one key's entry can be turned into: something fixed, itself, or itself
under another deadline. -/
inductive Fate where
  | fixed (entry : Option (Bytes × Option Nat))
  | same
  | redated (millis : Option Nat)

def Fate.of : Fate → Option (Bytes × Option Nat) → Option (Bytes × Option Nat)
  | .fixed entry, _ => entry
  | .same, before => before
  | .redated millis, before => before.map fun entry => (entry.1, millis)

theorem Fate.of_of (second first : Fate) :
    ∃ both : Fate, ∀ entry, both.of entry = second.of (first.of entry) := by
  cases second with
  | fixed entry => exact ⟨.fixed entry, fun _ => rfl⟩
  | same => exact ⟨first, fun _ => rfl⟩
  | redated millis =>
    cases first with
    | fixed entry => exact ⟨.fixed (entry.map fun held => (held.1, millis)), fun _ => rfl⟩
    | same => exact ⟨.redated millis, fun _ => rfl⟩
    | redated earlier =>
      refine ⟨.redated millis, ?_⟩
      intro entry
      cases entry <;> rfl

theorem act_fate (effect : Effect) (key : Bytes) :
    ∃ fate : Fate, ∀ keyspace, act keyspace effect key = fate.of (keyspace key) := by
  cases effect with
  | put target value millis =>
    by_cases hit : key = target
    · exact ⟨.fixed (some (value, millis)), fun keyspace => by simp [act_put, hit, Fate.of]⟩
    · exact ⟨.same, fun keyspace => by simp [act_put, hit, Fate.of]⟩
  | del target =>
    by_cases hit : key = target
    · exact ⟨.fixed none, fun keyspace => by simp [act_del, hit, Fate.of]⟩
    · exact ⟨.same, fun keyspace => by simp [act_del, hit, Fate.of]⟩
  | deadline target millis =>
    by_cases hit : key = target
    · exact ⟨.redated millis, fun keyspace => by simp [act_deadline, hit, Fate.of]⟩
    · exact ⟨.same, fun keyspace => by simp [act_deadline, hit, Fate.of]⟩
  | flush => exact ⟨.fixed none, fun _ => rfl⟩
  | rebase => exact ⟨.same, fun _ => rfl⟩

/-- Effects act on each key by itself, and in one of three ways. -/
theorem actAll_fate (effects : List Effect) (key : Bytes) :
    ∃ fate : Fate, ∀ keyspace, actAll keyspace effects key = fate.of (keyspace key) := by
  induction effects with
  | nil => exact ⟨.same, fun _ => rfl⟩
  | cons effect effects induction =>
    obtain ⟨first, acts⟩ := act_fate effect key
    obtain ⟨rest, actsAll⟩ := induction
    obtain ⟨both, composed⟩ := rest.of_of first
    refine ⟨both, ?_⟩
    intro keyspace
    rw [actAll_cons, actsAll, acts, composed]

end Effect

end Seedstone
