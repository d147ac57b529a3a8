import Seedstone.Dict.Walk
import Seedstone.Shard.Agreement
import Seedstone.Shard.Decision

/-!
# The moves of a shard

Everything a command, a sweep or an eviction does to a shard is a sequence of
deeds, and a deed is a sequence of moves: an operation on the dict that no
key's contents show, the removal of a due key while writes are refused, a
refused record, or a mutation whose record was taken.  Each invariant of a
shard is proved once over the deeds or over the moves.
-/

namespace Seedstone

namespace Mutation

variable [SipHasher]

/-- A deadline a handler stores under a key: one not before the reading that
the clock can represent, or the one the key already carries. -/
def Storable (now : Now) (dict : Dict) (key : Bytes) (expiresAt : Option Nat) : Prop :=
  ∀ instant, expiresAt = some instant →
    now.instant ≤ instant ∧
      (instant ≤ instantMax ∨ ∃ value, dict.contents key = some (value, some instant))

/-- What the handlers check before they log. -/
def Proper (now : Now) (dict : Dict) : Mutation → Prop
  | .put key _ expiresAt => Storable now dict key expiresAt
  | .del _ => True
  | .deadline key expiresAt =>
    dict.contents key ≠ none ∧ Storable now dict key expiresAt
  | .flush => True

end Mutation

namespace Agrees

variable [SipHasher] {offset : Int} {now : Now} {pending : Bytes → Prop} {dict : Dict}
  {keyspace : Keyspace}

theorem bounded_of_storable (agrees : Agrees offset now.instant pending dict keyspace)
    (lockstep : now.InLockstep offset) {key : Bytes} {expiresAt : Option Nat}
    (storable : Mutation.Storable now dict key expiresAt) :
    ∀ instant, expiresAt = some instant → instant ≤ instantMax ∧ 0 ≤ instant + offset := by
  intro instant same
  obtain ⟨ahead, fits | ⟨value, kept⟩⟩ := storable instant same
  · unfold Now.InLockstep at lockstep
    exact ⟨fits, by omega⟩
  · exact agrees.bounded key value instant kept

/-- A mutation and the effect logged for it keep memory and log in agreement. -/
theorem mutation (agrees : Agrees offset now.instant pending dict keyspace)
    (lockstep : now.InLockstep offset) (mutation : Mutation) (proper : mutation.Proper now dict) :
    Agrees offset now.instant pending (mutation.apply dict)
      ((mutation.effect now).act keyspace) := by
  cases mutation with
  | put key value expiresAt =>
    have logged := Now.deadlineMillis_eq lockstep
      (fun instant same => (proper instant same).1)
    have inserted := agrees.sound.insert key ⟨value, expiresAt, 0⟩
    simp only [Mutation.effect, logged]
    apply agrees.put (inserted.touch key)
    · rw [Dict.contents_touch inserted.toValid, Dict.contents_insert agrees.sound.toValid]
    · exact agrees.bounded_of_storable lockstep proper
  | del key => exact agrees.del key
  | deadline key expiresAt =>
    have logged := Now.deadlineMillis_eq lockstep
      (fun instant same => (proper.2 instant same).1)
    simp only [Mutation.effect, logged]
    exact agrees.setDeadline proper.1 (agrees.bounded_of_storable lockstep proper.2)
  | flush => exact Agrees.flush dict offset now.instant pending keyspace

end Agrees

namespace ShardState

variable {L : Type} [ReplicationLog L] [SipHasher] {before after : ShardState L} {dict : Dict}
  {key : Bytes}

/-- The parts of a state a move that logs nothing leaves alone. -/
structure SameLog (before after : ShardState L) : Prop where
  seq : after.seq = before.seq
  log : after.log = before.log
  reading : after.reading = before.reading
  history : after.history = before.history

/-- An operation that changes no key's value or deadline. -/
def Harmless : DictOp → Prop
  | .touch _ => True
  | .rehashStep _ => True
  | _ => False

inductive Move (shard : Nat) (now : Now) : ShardState L → ShardState L → Prop where
  | idle {before after : ShardState L} (same : SameLog before after)
      (dict : after.dict = before.dict) : Move shard now before after
  | operate {before after : ShardState L} (same : SameLog before after)
      (op : DictOp) (harmless : Harmless op)
      (dict : after.dict = (before.dict.step op).2) : Move shard now before after
  | forget {before after : ShardState L} (same : SameLog before after)
      (key value : Bytes) (deadline : Nat)
      (held : before.dict.contents key = some (value, some deadline))
      (due : deadline ≤ now.instant)
      (dict : after.dict = (before.dict.remove key).2) : Move shard now before after
  | refuse {before after : ShardState L} (effect : Effect)
      (refused : ReplicationLog.append before.log ⟨shard, before.seq, effect⟩ =
        (false, after.log))
      (dict : after.dict = before.dict) (seq : after.seq = before.seq)
      (reading : after.reading = before.reading)
      (history : after.history = before.history) : Move shard now before after
  | commit {before after : ShardState L} (mutation : Mutation)
      (proper : before.dict.Sound → mutation.Proper now before.dict)
      (taken : ReplicationLog.append before.log
        ⟨shard, before.seq, mutation.effect now⟩ = (true, after.log))
      (dict : after.dict = mutation.apply before.dict)
      (seq : after.seq = before.seq + 1)
      (reading : after.reading = before.reading)
      (history : after.history =
        before.history ++ [(before.reading, mutation.apply before.dict)]) :
      Move shard now before after

/-- What one step of a shard amounts to. -/
abbrev Moves (shard : Nat) (now : Now) : ShardState L → ShardState L → Prop :=
  Relation.ReflTransGen (Move shard now)

variable {shard : Nat} {now : Now} {state : ShardState L}

theorem Move.sound (moved : Move shard now before after) (sound : before.dict.Sound) :
    after.dict.Sound := by
  cases moved with
  | idle _ dict | refuse _ _ dict => exact dict ▸ sound
  | operate same op harmless dict =>
    rw [dict]
    cases op with
    | touch key => exact sound.touch key
    | rehashStep buckets => exact sound.rehashStep buckets
    | insert key entry => exact harmless.elim
    | remove key => exact harmless.elim
    | setDeadline key expiresAt => exact harmless.elim
    | clear => exact harmless.elim
  | forget same key value deadline held due dict => exact dict ▸ sound.remove key
  | commit mutation proper taken dict seq reading history =>
    rw [dict]
    cases mutation with
    | put key value expiresAt => exact (sound.insert key _).touch key
    | del key => exact sound.remove key
    | deadline key expiresAt => exact sound.setDeadline key expiresAt
    | flush => exact Dict.sound_clear before.dict

theorem Moves.sound (moved : Moves shard now before after) (sound : before.dict.Sound) :
    after.dict.Sound := by
  induction moved with
  | refl => exact sound
  | tail _ last induction => exact last.sound induction

theorem moves_idle (same : SameLog before after) (dict : after.dict = before.dict) :
    Moves shard now before after :=
  .single (.idle same dict)

omit [ReplicationLog L] [SipHasher] in
@[simp]
theorem answer_snd (outcome : Bool × ShardState L) (reply : Reply) :
    (answer outcome reply).2 = outcome.2 := by
  unfold answer
  split <;> rfl

/-- One thing a shard does; a flush is among them only if `flushes`. -/
inductive Deed (flushes : Prop) (shard : Nat) (now : Now) :
    ShardState L → ShardState L → Prop where
  | count {before : ShardState L} (expired evicted : Nat) (expireCursor evictCursor : Cursor) :
      Deed flushes shard now before { before with
        expired := expired
        evicted := evicted
        expireCursor := expireCursor
        evictCursor := evictCursor }
  | touch {before : ShardState L} (key : Bytes) :
      Deed flushes shard now before (before.touch key)
  | forget {before : ShardState L} (key : Bytes)
      (due : isDue before.dict key now.instant = true) :
      Deed flushes shard now before { before with dict := (before.dict.remove key).2 }
  | mutate {before : ShardState L} (mutation : Mutation)
      (proper : before.dict.Sound → mutation.Proper now before.dict)
      (flush : mutation = .flush → flushes) :
      Deed flushes shard now before
        (before.mutate shard (mutation.effect now) (mutation.apply before.dict)).2

abbrev Deeds (flushes : Prop) (shard : Nat) (now : Now) : ShardState L → ShardState L → Prop :=
  Relation.ReflTransGen (Deed flushes shard now)

/-- What lazy expiry establishes in front of a handler: the key it names is
not due. -/
def Fresh (now : Now) (dict : Dict) (key : Bytes) : Prop :=
  ∀ value instant, dict.contents key = some (value, some instant) →
    now.instant < instant

omit [ReplicationLog L] [SipHasher] in
theorem checkedAdd_storable {instant millis result : Nat}
    (added : checkedAdd instant millis = some result) : instant ≤ result ∧ result ≤ instantMax := by
  unfold checkedAdd at added
  split at added
  · rw [Option.some.injEq] at added
    omega
  · simp at added

theorem storable_deadline (dict : Dict) (key : Bytes) (expiry : Option Expiry) :
    Mutation.Storable now dict key (deadline now.instant expiry) := by
  intro instant same
  unfold deadline at same
  split at same
  · simp at same
  · obtain ⟨ahead, fits⟩ := checkedAdd_storable same
    exact ⟨ahead, Or.inl fits⟩

theorem storable_kept {entry : Entry} (fresh : Fresh now dict key)
    (found : dict.get key = some entry) : Mutation.Storable now dict key entry.expiresAt := by
  intro instant same
  have held : dict.contents key = some (entry.value, some instant) := by
    unfold Dict.contents
    rw [found, ← same]
    rfl
  exact ⟨Nat.le_of_lt (fresh entry.value instant held), Or.inr ⟨entry.value, held⟩⟩

theorem contents_ne_none (present : ¬ (dict.get key).isNone) : dict.contents key ≠ none := by
  intro missing
  rw [Dict.contents_eq_none_iff] at missing
  simp [missing] at present

/-- A decision whose mutation the handlers may log. -/
def DecidesProper (flushes : Prop) (now : Now) (dict : Dict) : Decision → Prop
  | .mutates mutation _ =>
    (dict.Sound → mutation.Proper now dict) ∧ (mutation = .flush → flushes)
  | .answers _ | .touches _ _ => True

variable {flushes : Prop} {dict : Dict}

theorem proper_set (args : SetArgs) (fresh : dict.Sound → Fresh now dict args.key) :
    DecidesProper flushes now dict (args.decide now dict) := by
  unfold SetArgs.decide
  dsimp only
  split
  · trivial
  · split
    · trivial
    · refine ⟨fun sound => ?_, by simp⟩
      dsimp only [Mutation.Proper]
      split
      · cases found : dict.get args.key with
        | none => exact nofun
        | some entry => exact storable_kept (fresh sound) found
      · exact storable_deadline dict args.key args.expiry

theorem proper_setExpiry (key : Bytes) (span : Int) (unit : Nat → Expiry) :
    DecidesProper flushes now dict ((spanDeadline now.instant span unit).decide key dict) := by
  unfold SpanDeadline.decide spanDeadline
  split_ifs with missing passed
  · trivial
  · exact ⟨fun _ => trivial, by simp⟩
  · exact ⟨fun _ => ⟨contents_ne_none missing, storable_deadline dict key _⟩, by simp⟩

theorem proper_incrBy (key : Bytes) (delta : Int) (fresh : dict.Sound → Fresh now dict key) :
    DecidesProper flushes now dict ((Command.incrBy key delta).decide now dict) := by
  have added : ∀ current expiresAt, (dict.Sound → Mutation.Storable now dict key expiresAt) →
      DecidesProper flushes now dict (incrDecide key delta (some (current, expiresAt))) := by
    intro current expiresAt storable
    unfold incrDecide
    dsimp only
    cases checkedAddI64 current delta with
    | none => trivial
    | some next => exact ⟨storable, by simp⟩
  dsimp only [Command.decide]
  cases found : dict.get key with
  | none => exact added 0 none nofun
  | some entry =>
    rw [Option.elim_some]
    cases parseI64 entry.value with
    | none => trivial
    | some current =>
      exact added current entry.expiresAt fun sound => storable_kept (fresh sound) found

theorem proper_decide (cmd : Command)
    (fresh : ∀ key, cmd.route = .key key → dict.Sound → Fresh now dict key) :
    DecidesProper (cmd = .flushDb) now dict (cmd.decide now dict) := by
  cases cmd with
  | set key value expiry cond keepTtl get =>
    exact proper_set ⟨key, value, expiry, cond, keepTtl, get⟩ (fresh key rfl)
  | setEx key seconds value => exact proper_set (SetArgs.setEx key value seconds) (fresh key rfl)
  | pSetEx key millis value => exact proper_set (SetArgs.pSetEx key value millis) (fresh key rfl)
  | setNx key value =>
    dsimp only [Command.decide]
    split_ifs
    · trivial
    · exact ⟨fun _ instant same => (by cases same), by simp⟩
  | incrBy key delta => exact proper_incrBy key delta (fresh key rfl)
  | expire key seconds => exact proper_setExpiry key seconds .ex
  | pExpire key millis | expireAt key millis | pExpireAt key millis =>
    exact proper_setExpiry key millis .px
  | persist key =>
    dsimp only [Command.decide]
    split_ifs with undated
    · trivial
    · refine ⟨fun _ => ⟨contents_ne_none fun missing => ?_, fun instant same => (by cases same)⟩,
        by simp⟩
      simp [Option.isNone_iff_eq_none.mp missing] at undated
  | del | flushDb =>
    dsimp only [Command.decide]
    split_ifs
    · trivial
    · exact ⟨fun _ => trivial, by simp⟩
  | get | ttl | pTtl | «exists» | type | strLen | dbSize | scanStep | stats | snapshot => trivial

theorem deeds_dispatch (cmd : Command)
    (fresh : ∀ key, cmd.route = .key key → state.dict.Sound → Fresh now state.dict key) :
    Deeds (cmd = .flushDb) shard now state (state.dispatch shard cmd now).2 := by
  have proper := proper_decide cmd fresh
  rw [dispatch_eq_run]
  generalize cmd.decide now state.dict = decision at proper
  cases decision with
  | answers reply => exact .refl
  | touches key reply => exact .single (.touch key)
  | mutates mutation reply =>
    rw [Decision.run, answer_snd]
    exact .single (.mutate mutation proper.1 proper.2)

theorem fresh_of_not_due (sound : dict.Sound) (ahead : isDue dict key now.instant = false) :
    Fresh now dict key := by
  intro value instant held
  unfold Dict.contents at held
  obtain ⟨entry, found, pair⟩ := Option.map_eq_some_iff.mp held
  rw [Prod.mk.injEq] at pair
  unfold isDue at ahead
  split at ahead
  · next skipped =>
      have down : dict.mayHoldDeadlines = false := by
        simpa [Deadlines.takesUndated] using skipped
      have undated := sound.flagged down key entry found
      rw [undated] at pair
      simp at pair
  · rw [found, Option.any_some, pair.2] at ahead
    simpa [Deadlines.dueOnRead] using ahead

theorem fresh_of_removed (sound : dict.Sound) (key : Bytes) :
    Fresh now (dict.remove key).2 key := by
  intro value instant held
  rw [Dict.contents_remove sound.toValid, Function.update_self] at held
  simp at held

theorem held_of_due (due : isDue dict key now.instant = true) :
    ∃ value instant, dict.contents key = some (value, some instant) ∧ instant ≤ now.instant := by
  unfold isDue at due
  split at due
  · simp at due
  · cases found : dict.get key with
    | none => simp [found] at due
    | some entry =>
      rw [found, Option.any_some] at due
      cases dated : entry.expiresAt with
      | none => simp [Deadlines.dueOnRead, dated] at due
      | some instant =>
        refine ⟨entry.value, instant, ?_, ?_⟩
        · unfold Dict.contents
          rw [found, Option.map_some, dated]
        · simpa [Deadlines.dueOnRead, dated] using due

omit [SipHasher] in
theorem mutate_true_dict {effect : Effect} {next : Dict}
    (taken : state.mutate shard effect next = (true, after)) : after.dict = next := by
  unfold mutate at taken
  split at taken
  · simp at taken
  · rw [Prod.mk.injEq] at taken
    rw [← taken.2]
    rfl

theorem deed_del (key : Bytes) : Deed flushes shard now state
    (state.mutate shard (.del key) (state.dict.remove key).2).2 :=
  .mutate (.del key) (fun _ => trivial) (by simp)

theorem deeds_apply (sound : state.dict.Sound) (cmd : Command) :
    Deeds (cmd = .flushDb) shard now state (state.apply shard cmd now).2 := by
  have removed : ∀ {key} {dict : Dict}, cmd.route = .key key → dict = (state.dict.remove key).2 →
      ∀ other, cmd.route = .key other → dict.Sound → Fresh now dict other := by
    intro key dict keyed same other named _
    rw [keyed] at named
    cases named
    rw [same]
    exact fresh_of_removed sound key
  have applied : Applied shard cmd now state _ := state.applied cmd
  generalize state.apply shard cmd now = outcome at applied
  cases applied with
  | fresh ahead =>
    exact deeds_dispatch cmd fun key keyed sound => fresh_of_not_due sound (ahead key keyed)
  | forgot key keyed refusing due =>
    have forgotten : Deeds (cmd = .flushDb) shard now state _ := .single (.forget key due)
    exact (forgotten.tail (.count _ _ _ _)).trans (deeds_dispatch cmd (removed keyed rfl))
  | evicted key keyed due taken =>
    have deleted : Deeds (cmd = .flushDb) shard now state _ := .single (deed_del key)
    have gone := mutate_true_dict taken
    rw [taken] at deleted
    exact (deleted.tail (.count _ _ _ _)).trans (deeds_dispatch cmd (removed keyed gone))
  | refused key lost =>
    have deleted : Deeds (cmd = .flushDb) shard now state _ := .single (deed_del key)
    rwa [lost] at deleted

theorem deeds_sweepKeys (keys : List Bytes) :
    Deeds flushes shard now state (state.sweepKeys shard keys).2 := by
  induction keys generalizing state with
  | nil => exact .refl
  | cons key rest induction =>
    have deleted : Deeds flushes shard now state _ := .single (deed_del key)
    unfold sweepKeys
    split
    · next after outcome => rwa [outcome] at deleted
    · next after outcome =>
        rw [outcome] at deleted
        exact (deleted.tail (.count _ _ _ _)).trans induction

theorem deeds_sweepExpired (instant : Nat) :
    Deeds flushes shard now state (state.sweepExpired shard instant) := by
  have swept : Deeds flushes shard now state (state.sweepKeys shard
      (state.dict.expireStep state.expireCursor expireBucketsPerTick instant).2).2 :=
    deeds_sweepKeys _
  unfold sweepExpired
  dsimp only
  split
  · next after outcome =>
      rw [outcome] at swept
      exact swept.tail (.count _ _ _ _)
  · next after outcome => rwa [outcome] at swept

theorem deeds_evictOne (spared : Option Bytes) :
    Deeds flushes shard now state (state.evictOne shard spared).2 := by
  unfold evictOne
  dsimp only
  have advanced : Deeds flushes shard now state { state with
      evictCursor := (state.dict.sampleOldest state.evictCursor evictionSamples spared).2 } :=
    .single (.count _ _ _ _)
  split
  · exact advanced
  · next victim sampled =>
      have deleted := advanced.tail (deed_del victim)
      split
      · next after outcome => rwa [outcome] at deleted
      · next after outcome =>
          rw [outcome] at deleted
          exact deleted.tail (.count _ _ _ _)

theorem deeds_evictUntilFits (ceiling : Option Nat) (spared : Option Bytes) (rounds gauge : Nat) :
    Deeds flushes shard now state (evictUntilFits ceiling shard spared rounds gauge state).2 := by
  induction rounds generalizing gauge state with
  | zero => exact .refl
  | succ rounds induction =>
    have evicted : Deeds flushes shard now state (state.evictOne shard spared).2 :=
      deeds_evictOne spared
    unfold evictUntilFits
    split
    · split
      · next after outcome => rwa [outcome] at evicted
      · next after outcome =>
          rw [outcome] at evicted
          exact evicted.trans (induction _)
    · exact .refl

theorem Deed.moves (deed : Deed flushes shard now before after) :
    Moves shard now before after := by
  cases deed with
  | count expired evicted expireCursor evictCursor => exact moves_idle ⟨rfl, rfl, rfl, rfl⟩ rfl
  | touch key => exact .single (.operate ⟨rfl, rfl, rfl, rfl⟩ (.touch key) trivial rfl)
  | forget key due =>
    obtain ⟨value, instant, held, reached⟩ := held_of_due due
    exact .single (.forget ⟨rfl, rfl, rfl, rfl⟩ key value instant held reached rfl)
  | mutate mutation proper flush =>
    unfold ShardState.mutate append
    cases outcome : ReplicationLog.append before.log ⟨shard, before.seq, mutation.effect now⟩ with
    | mk taken log =>
      cases taken with
      | false => exact .single (.refuse (mutation.effect now) outcome rfl rfl rfl rfl)
      | true => exact .single (.commit mutation proper outcome rfl rfl rfl rfl)

theorem Deeds.moves (deeds : Deeds flushes shard now before after) :
    Moves shard now before after := by
  induction deeds with
  | refl => exact .refl
  | tail _ last induction => exact induction.trans last.moves

/-- Whether writes are refused is the executor's to say. -/
theorem Deeds.refusing (deeds : Deeds flushes shard now before after) :
    after.refusing = before.refusing := by
  induction deeds with
  | refl => rfl
  | @tail middle _ _ last induction =>
    rw [← induction]
    cases last with
    | count | touch | forget => rfl
    | mutate mutation proper flush =>
      unfold ShardState.mutate append
      rcases ReplicationLog.append middle.log _ with ⟨_ | _, log⟩ <;> rfl

end ShardState

end Seedstone
