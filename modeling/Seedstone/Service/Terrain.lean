import Seedstone.Service.FanOut
import Seedstone.Shard.Scanning

/-!
# The shards a walk crosses

A node as one client's walk meets it: before each of its envelopes is answered
the shards take whatever other clients and the node's own upkeep bring, and the
envelope is then served at one reading of the clocks or refused.  `Follows` is
what holds of any stretch of that: the walk's own past stays, and a key that is
live at every moment stays as far ahead of it as it was.
-/

namespace Seedstone.Service

/-- What comes before an envelope is answered, and when it is served, if it is. -/
structure Interlude where
  others : List (Nat × Now × ShardInput)
  served : Except ReplyError Now

/-- An envelope of the walk, and its answer. -/
structure Sent where
  shard : Nat
  cmd : Command
  reply : Reply
deriving DecidableEq, Repr

/-- The shards, what comes before each of the next envelopes, and what has happened. -/
structure Terrain (L : Type) where
  shards : List (ShardState L)
  upcoming : List Interlude
  moments : List (Now × List (ShardState L))
  sent : List Sent

namespace Terrain

variable {L : Type} [ReplicationLog L] [SipHasher]

def start (shards : List (ShardState L)) (upcoming : List Interlude) : Terrain L :=
  ⟨shards, upcoming, [], []⟩

/-- One shard takes one input. -/
def act (terrain : Terrain L) (event : Nat × Now × ShardInput) : Terrain L :=
  let shards := terrain.shards.modify event.1 fun state =>
    state.take event.1 event.2.1 event.2.2
  { terrain with shards := shards, moments := terrain.moments ++ [(event.2.1, shards)] }

/-- `dispatch_at`; with no interlude left nobody answers. -/
def serve (terrain : Terrain L) (shard : Nat) (cmd : Command) : Reply × Terrain L :=
  match terrain.upcoming with
  | [] => (.error .shardUnavailable, terrain)
  | interlude :: upcoming =>
    let terrain := interlude.others.foldl act { terrain with upcoming := upcoming }
    match interlude.served, terrain.shards[shard]? with
    | .error error, _ => (.error error, terrain)
    | .ok _, none => (.error .shardUnavailable, terrain)
    | .ok now, some state =>
      ((({ state with reading := now.instant } : ShardState L).apply shard cmd now).1,
        terrain.act (shard, now, .command cmd))

/-- What a walk asks, answered by the shards; `elsewhere` would answer the rest. -/
def handle (elsewhere : (question : Ask) → question.Answer) (question : Ask)
    (terrain : Terrain L) : question.Answer × Terrain L :=
  match question with
  | .shards => (terrain.shards.length, terrain)
  | .dispatchAt shard cmd =>
    let (reply, after) := terrain.serve shard cmd
    (reply, { after with sent := after.sent ++ [⟨shard, cmd, reply⟩] })
  | other => (elsewhere other, terrain)

/-- `dispatch_at` with the envelope noted. -/
def send (terrain : Terrain L) (shard : Nat) (cmd : Command) : Terrain L :=
  { (terrain.serve shard cmd).2 with
    sent := (terrain.serve shard cmd).2.sent ++ [⟨shard, cmd, (terrain.serve shard cmd).1⟩] }

theorem handle_dispatchAt (elsewhere : (question : Ask) → question.Answer)
    (shard : Nat) (cmd : Command) (terrain : Terrain L) :
    handle elsewhere (.dispatchAt shard cmd) terrain =
      ((terrain.serve shard cmd).1, terrain.send shard cmd) :=
  rfl

def Sound (terrain : Terrain L) : Prop :=
  ∀ state ∈ terrain.shards, state.dict.Sound

/-- A key of one shard that was there and not due at every moment. -/
def LiveThroughout (terrain : Terrain L) (shard : Nat) (key : Bytes) : Prop :=
  ∀ moment ∈ terrain.moments, ∃ state, moment.2[shard]? = some state ∧
    state.dict.live moment.1.instant key ≠ none

def AheadAt (terrain : Terrain L) (shard : Nat) (cursor : Cursor) (key : Bytes) : Prop :=
  ∃ state, terrain.shards[shard]? = some state ∧ state.dict.Ahead cursor key

/-- Every table at every moment had fewer than `bound` buckets. -/
def TablesBelow (bound : Nat) (terrain : Terrain L) : Prop :=
  ∀ moment ∈ terrain.moments, ∀ state ∈ moment.2, state.dict.TablesBelow bound

instance (terrain : Terrain L) (shard : Nat) (key : Bytes) :
    Decidable (terrain.LiveThroughout shard key) :=
  decidable_of_iff (∀ moment ∈ terrain.moments,
      ∃ state ∈ moment.2[shard]?, state.dict.live moment.1.instant key ≠ none) Iff.rfl

instance (bound : Nat) (terrain : Terrain L) : Decidable (terrain.TablesBelow bound) :=
  inferInstanceAs (Decidable (∀ moment ∈ terrain.moments, ∀ state ∈ moment.2,
    state.dict.TablesBelow bound))

structure Follows (before after : Terrain L) : Prop where
  shards : after.shards.length = before.shards.length
  moments : before.moments <+: after.moments
  sound : before.Sound → after.Sound
  ahead : before.Sound → ∀ {shard : Nat} {cursor : Cursor} {key : Bytes},
    after.LiveThroughout shard key → before.AheadAt shard cursor key →
      after.AheadAt shard cursor key

variable {before after terrain : Terrain L}

omit [ReplicationLog L] in
theorem LiveThroughout.earlier {shard : Nat} {key : Bytes}
    (live : after.LiveThroughout shard key) (moments : before.moments <+: after.moments) :
    before.LiveThroughout shard key :=
  fun moment member => live moment (moments.subset member)

omit [ReplicationLog L] [SipHasher] in
theorem TablesBelow.earlier {bound : Nat} (below : after.TablesBelow bound)
    (moments : before.moments <+: after.moments) : before.TablesBelow bound :=
  fun moment member => below moment (moments.subset member)

omit [ReplicationLog L] in
theorem Follows.refl (terrain : Terrain L) : Follows terrain terrain :=
  ⟨rfl, List.prefix_rfl, id, fun _ _ _ _ _ ahead => ahead⟩

omit [ReplicationLog L] in
theorem Follows.trans {first second third : Terrain L} (one : Follows first second)
    (two : Follows second third) : Follows first third where
  shards := two.shards.trans one.shards
  moments := one.moments.trans two.moments
  sound := two.sound ∘ one.sound
  ahead := by
    intro sound shard cursor key live ahead
    exact two.ahead (one.sound sound) live (one.ahead sound (live.earlier two.moments) ahead)

omit [ReplicationLog L] in
theorem Follows.beside (shards : after.shards = before.shards)
    (moments : after.moments = before.moments) : Follows before after where
  shards := congrArg List.length shards
  moments := by rw [moments]
  sound := by
    unfold Sound
    rw [shards]
    exact id
  ahead := by
    intro _ shard cursor key _ ahead
    unfold AheadAt
    rw [shards]
    exact ahead

section

variable (terrain)

theorem follows_act (event : Nat × Now × ShardInput) :
    Follows terrain (terrain.act event) := by
  obtain ⟨target, now, input⟩ := event
  refine ⟨by simp [act], List.prefix_append _ _, ?_, ?_⟩
  · intro sound state member
    obtain ⟨index, inside, rfl⟩ := List.mem_iff_getElem.mp member
    simp only [act, List.length_modify] at inside
    simp only [act, List.getElem_modify]
    split
    · exact ShardState.sound_take (sound _ (List.getElem_mem inside)) input
    · exact sound _ (List.getElem_mem inside)
  · rintro sound shard cursor key live ⟨state, found, ahead⟩
    obtain ⟨later, there, alive⟩ := live (now, (terrain.act (target, now, input)).shards)
      (by simp [act])
    refine ⟨later, there, ?_⟩
    simp only [act, List.getElem?_modify, found] at there
    split at there
    · next same =>
        obtain rfl : state.take target now input = later := Option.some.inj there
        exact ShardState.ahead_take (sound state (List.mem_of_getElem? found)) ahead alive
    · obtain rfl : state = later := Option.some.inj there
      exact ahead

theorem follows_acts (events : List (Nat × Now × ShardInput)) :
    Follows terrain (events.foldl act terrain) := by
  induction events generalizing terrain with
  | nil => exact .refl terrain
  | cons event events induction =>
    exact (follows_act terrain event).trans (induction (terrain.act event))

theorem follows_serve (shard : Nat) (cmd : Command) :
    Follows terrain (terrain.serve shard cmd).2 := by
  unfold serve
  split
  · exact .refl terrain
  · next interlude upcoming next =>
      have waited : Follows terrain { terrain with upcoming := upcoming } := .beside rfl rfl
      have reached := waited.trans (follows_acts _ interlude.others)
      dsimp only
      split
      · exact reached
      · exact reached
      · exact reached.trans (follows_act _ _)

@[simp]
theorem sent_acts (events : List (Nat × Now × ShardInput)) :
    (events.foldl act terrain).sent = terrain.sent := by
  induction events generalizing terrain with
  | nil => rfl
  | cons event events induction => exact induction (terrain.act event)

theorem sent_serve (shard : Nat) (cmd : Command) :
    (terrain.serve shard cmd).2.sent = terrain.sent := by
  unfold serve
  split
  · rfl
  · dsimp only
    split
    · simp
    · simp
    · exact sent_acts _ _

theorem sent_send (shard : Nat) (cmd : Command) :
    (terrain.send shard cmd).sent =
      terrain.sent ++ [⟨shard, cmd, (terrain.serve shard cmd).1⟩] := by
  rw [send, sent_serve]

theorem follows_send (shard : Nat) (cmd : Command) :
    Follows terrain (terrain.send shard cmd) :=
  (terrain.follows_serve shard cmd).trans (.beside rfl rfl)

end

/-- A scan step is refused, or answered by the shard's dict at a moment that is
then the last. -/
theorem serve_scanStep_cases (sound : terrain.Sound) (shard count : Nat) (cursor : Cursor)
    (pattern : Option Bytes) :
    (∃ error, (terrain.serve shard (.scanStep cursor count pattern)).1 = .error error) ∨
      ∃ state now,
        (terrain.send shard (.scanStep cursor count pattern)).shards[shard]? = some state ∧
        (now, (terrain.send shard (.scanStep cursor count pattern)).shards) ∈
          (terrain.send shard (.scanStep cursor count pattern)).moments ∧ state.dict.Sound ∧
        (terrain.serve shard (.scanStep cursor count pattern)).1 =
          scanStep state.dict cursor count pattern now.instant := by
  unfold send serve
  split
  · exact Or.inl ⟨_, rfl⟩
  · next interlude upcoming next =>
      have waited : Follows terrain { terrain with upcoming := upcoming } := .beside rfl rfl
      have reached := (waited.trans (follows_acts _ interlude.others)).sound sound
      dsimp only
      split
      · exact Or.inl ⟨_, rfl⟩
      · exact Or.inl ⟨_, rfl⟩
      · next now state served found =>
          refine Or.inr ⟨state.take shard now (.command (.scanStep cursor count pattern)),
            now, ?_, ?_, reached state (List.mem_of_getElem? found), rfl⟩
          · simp [act, found]
          · simp [act]

/-- A scan step that is answered at all is answered as the shard's dict then has
it. -/
theorem serve_scanStep (sound : terrain.Sound) {shard count : Nat} {cursor : Cursor}
    {pattern : Option Bytes} :
    (∃ error, (terrain.serve shard (.scanStep cursor count pattern)).1 = .error error) ∨
      ∃ keys next visited,
        (terrain.serve shard (.scanStep cursor count pattern)).1 = .scan next keys visited ∧
        ∃ state now,
          (terrain.send shard (.scanStep cursor count pattern)).shards[shard]? = some state ∧
          (now, (terrain.send shard (.scanStep cursor count pattern)).shards) ∈
            (terrain.send shard (.scanStep cursor count pattern)).moments ∧
          ScanAnswer state.dict pattern now.instant cursor (max count 1) keys next visited := by
  rcases serve_scanStep_cases sound shard count cursor pattern with
    refused | ⟨state, now, found, moment, held, answered⟩
  · exact Or.inl refused
  · obtain ⟨budget, positive⟩ : ∃ budget, max count 1 = budget + 1 := ⟨max count 1 - 1, by omega⟩
    have answer := scanAnswer_scanLoop held.toValid pattern now.instant budget cursor
    rw [← positive] at answer
    exact Or.inr ⟨_, _, _, answered, state, now, found, moment, answer⟩

omit [ReplicationLog L] in
/-- A walk that had returned a key or had it ahead still has or does, once it is
answered. -/
theorem returned_or_ahead {shard : Nat} {cursor next : Cursor} {keys returned : List Bytes}
    {state : ShardState L} {now : Now} {key : Bytes} (found : terrain.shards[shard]? = some state)
    (moment : (now, terrain.shards) ∈ terrain.moments)
    (answer : state.dict.Ahead cursor key → state.dict.live now.instant key ≠ none →
      key ∈ keys ∨ (next ≠ 0 ∧ state.dict.Ahead next key)) (live : terrain.LiveThroughout shard key)
    (before : key ∈ returned ∨ terrain.AheadAt shard cursor key) :
    key ∈ returned ++ keys ∨ (next ≠ 0 ∧ terrain.AheadAt shard next key) := by
  obtain ⟨there, same, alive⟩ := live (now, terrain.shards) moment
  obtain rfl : state = there := Option.some.inj (found.symm.trans same)
  rcases before with already | ⟨other, held, ahead⟩
  · exact Or.inl (List.mem_append_left _ already)
  · obtain rfl : state = other := Option.some.inj (found.symm.trans held)
    rcases answer ahead alive with fresh | ⟨more, later⟩
    · exact Or.inl (List.mem_append_right _ fresh)
    · exact Or.inr ⟨more, state, found, later⟩

end Terrain

end Seedstone.Service
