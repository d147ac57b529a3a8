import Seedstone.Dict.FiniteMap
import Seedstone.Shard.Housekeeping

/-!
# What a command decides

A command settles what it answers and which mutation it makes from the dict
alone; the log only has its say on the record.  `Command.decide` is that
decision, and `dispatch` carries it out.  Everything a command, a sweep or an
eviction does to a shard is a sequence of deeds: a count, a touch, the removal
of a due key without a record, or a mutation.
-/

namespace Seedstone

/-- What a taken record stands for. -/
inductive Mutation where
  | put (key value : Bytes) (expiresAt : Option Nat)
  | del (key : Bytes)
  | deadline (key : Bytes) (expiresAt : Option Nat)
  | flush
deriving DecidableEq, Repr

namespace Mutation

/-- The effect logged for a mutation made at a reading. -/
def effect (now : Now) : Mutation → Effect
  | .put key value expiresAt => .put key value (now.deadlineMillis expiresAt)
  | .del key => .del key
  | .deadline key expiresAt => .deadline key (now.deadlineMillis expiresAt)
  | .flush => .flush

/-- The operations that make a mutation's change. -/
def ops : Mutation → List DictOp
  | .put key value expiresAt => [.insert key ⟨value, expiresAt, 0⟩, .touch key]
  | .del key => [.remove key]
  | .deadline key expiresAt => [.setDeadline key expiresAt]
  | .flush => [.clear]

variable [SipHasher]

def apply (mutation : Mutation) (dict : Dict) : Dict :=
  (dict.run mutation.ops).2

end Mutation

/-- An answer, an answer about a key that counts as used, or a mutation and its
answer if the record is taken. -/
inductive Decision where
  | answers (reply : Reply)
  | touches (key : Bytes) (reply : Reply)
  | mutates (mutation : Mutation) (reply : Reply)

def Decision.reply : Decision → Reply
  | .answers reply | .touches _ reply | .mutates _ reply => reply

section

variable [SipHasher]

def SetArgs.decide (args : SetArgs) (now : Now) (dict : Dict) : Decision :=
  let found := dict.get args.key
  let old := if args.get then found.map Entry.value else none
  if args.cond = some .nx ∧ found.isSome then
    .answers (.bulk old)
  else if args.cond = some .xx ∧ found.isNone then
    .answers (.bulk none)
  else
    .mutates
      (.put args.key args.value
        (if args.keepTtl then found.bind Entry.expiresAt else deadline now.instant args.expiry))
      (if args.get then .bulk old else .ok)

def SpanDeadline.decide (span : SpanDeadline) (key : Bytes) (dict : Dict) : Decision :=
  if (dict.get key).isNone then
    .answers (.integer 0)
  else
    match span with
    | .passed => .mutates (.del key) (.integer 1)
    | .upTo deadline => .mutates (.deadline key deadline) (.integer 1)

/-- What `INCRBY` decides of a number and the deadline it is held under. -/
def incrDecide (key : Bytes) (delta : Int) : Option (Int × Option Nat) → Decision
  | none => .answers (.error .notAnInteger)
  | some (current, expiresAt) =>
    match checkedAddI64 current delta with
    | none => .answers (.error .wouldOverflow)
    | some next => .mutates (.put key (i64Text next) expiresAt) (.integer next)

def Command.decide (now : Now) (dict : Dict) : Command → Decision
  | .get key => .touches key (.bulk (((dict.touch key).get key).map Entry.value))
  | .set key value expiry cond keepTtl old =>
    SetArgs.decide ⟨key, value, expiry, cond, keepTtl, old⟩ now dict
  | .setEx key seconds value => (SetArgs.setEx key value seconds).decide now dict
  | .setNx key value =>
    if (dict.get key).isSome then
      .answers (.integer 0)
    else
      .mutates (.put key value none) (.integer 1)
  | .pSetEx key millis value => (SetArgs.pSetEx key value millis).decide now dict
  | .del key =>
    if (dict.get key).isNone then
      .answers (.removed false)
    else
      .mutates (.del key) (.removed true)
  | .incrBy key delta =>
    incrDecide key delta ((dict.get key).elim (some (0, none)) fun entry =>
      (parseI64 entry.value).map fun n => (n, entry.expiresAt))
  | .expire key seconds => (spanDeadline now.instant seconds .ex).decide key dict
  | .pExpire key millis | .expireAt key millis | .pExpireAt key millis =>
    (spanDeadline now.instant millis .px).decide key dict
  | .ttl key => .answers (ttlReply dict key now.instant remainingSeconds)
  | .pTtl key => .answers (ttlReply dict key now.instant remainingMillis)
  | .persist key =>
    if (dict.get key).all (fun entry => entry.expiresAt.isNone) then
      .answers (.integer 0)
    else
      .mutates (.deadline key none) (.integer 1)
  | .exists key => .answers (.integer (if (dict.get key).isSome then 1 else 0))
  | .type key => .answers (.status (typeName dict key))
  | .strLen key => .touches key (.integer (valueLen (dict.touch key) key))
  | .flushDb => if dict.isEmpty then .answers .ok else .mutates .flush .ok
  | .dbSize => .answers (.integer (saturatingI64 dict.len))
  | .scanStep cursor count pattern =>
    .answers (Seedstone.scanStep dict cursor count pattern now.instant)
  | .stats => .answers (.stats dict.len dict.withDeadline)
  | .snapshot _ => .answers .ok

variable {L : Type} [ReplicationLog L]

def Decision.run (shard : Nat) (now : Now) (state : ShardState L) :
    Decision → Reply × ShardState L
  | .answers reply => (reply, state)
  | .touches key reply => (reply, state.touch key)
  | .mutates mutation reply =>
    ShardState.answer
      (state.mutate shard (mutation.effect now) (mutation.apply state.dict)) reply

namespace ShardState

variable {shard : Nat} {now : Now} (state : ShardState L)

theorem set_eq_run (args : SetArgs) :
    state.set shard now args = (args.decide now state.dict).run shard now state := by
  unfold set SetArgs.decide
  dsimp only
  split_ifs <;> rfl

theorem setExpiry_eq_run (key : Bytes) (span : SpanDeadline) :
    state.setExpiry shard now key span = (span.decide key state.dict).run shard now state := by
  unfold setExpiry SpanDeadline.decide
  cases span <;> dsimp only <;> split_ifs <;> rfl

/-- A command carries out what it decided. -/
theorem dispatch_eq_run (cmd : Command) :
    state.dispatch shard cmd now = (cmd.decide now state.dict).run shard now state := by
  cases cmd with
  | set key value expiry cond keepTtl get =>
    exact state.set_eq_run ⟨key, value, expiry, cond, keepTtl, get⟩
  | setEx key seconds value => exact state.set_eq_run (SetArgs.setEx key value seconds)
  | pSetEx key millis value => exact state.set_eq_run (SetArgs.pSetEx key value millis)
  | expire key seconds => exact state.setExpiry_eq_run key _
  | pExpire key millis | expireAt key millis | pExpireAt key millis =>
    exact state.setExpiry_eq_run key _
  | setNx key value =>
    have chosen : (SetArgs.setNx key value).decide now state.dict =
        if (state.dict.get key).isSome then .answers (.bulk none)
        else .mutates (.put key value none) .ok := by
      simp [SetArgs.decide, SetArgs.setNx, deadline]
    unfold dispatch setNx
    dsimp only
    rw [set_eq_run, chosen]
    unfold Command.decide
    dsimp only
    split_ifs
    · rfl
    · simp only [Decision.run, answer]
      split_ifs <;> rfl
  | incrBy key delta =>
    simp only [dispatch, incrBy, Command.decide]
    cases state.dict.get key with
    | none => simp only [Option.elim_none, incrDecide]; cases checkedAddI64 0 delta <;> rfl
    | some entry =>
      simp only [Option.elim_some]
      cases parseI64 entry.value with
      | none => rfl
      | some current =>
        simp only [Option.map_some, incrDecide]
        cases checkedAddI64 current delta <;> rfl
  | del | persist | flushDb =>
    unfold dispatch Command.decide
    simp only [del, persist, flushDb]
    split_ifs <;> rfl
  | get | ttl | pTtl | «exists» | type | strLen | dbSize | scanStep | stats | snapshot => rfl

/-- What lazy expiry leaves in front of a command. -/
inductive Applied (shard : Nat) (cmd : Command) (now : Now) (state : ShardState L) :
    Reply × ShardState L → Prop where
  | fresh (ahead : ∀ key, cmd.route = .key key → isDue state.dict key now.instant = false) :
      Applied shard cmd now state (state.dispatch shard cmd now)
  | forgot (key : Bytes) (keyed : cmd.route = .key key) (refusing : state.refusing = true)
      (due : isDue state.dict key now.instant = true) :
      Applied shard cmd now state (dispatch { state with
        dict := (state.dict.remove key).2
        expired := state.expired + 1 } shard cmd now)
  | evicted (key : Bytes) {after : ShardState L} (keyed : cmd.route = .key key)
      (due : isDue state.dict key now.instant = true)
      (taken : state.mutate shard (.del key) (state.dict.remove key).2 = (true, after)) :
      Applied shard cmd now state
        (dispatch { after with expired := after.expired + 1 } shard cmd now)
  | refused (key : Bytes) {after : ShardState L}
      (lost : state.mutate shard (.del key) (state.dict.remove key).2 = (false, after)) :
      Applied shard cmd now state (.error .logWriteFailed, after)

theorem applied (cmd : Command) : Applied shard cmd now state (state.apply shard cmd now) := by
  unfold apply
  cases route : cmd.route with
  | every | unaddressed => exact .fresh fun key keyed => by rw [route] at keyed; cases keyed
  | key key =>
    dsimp only [removeIfExpired, evictIfExpired]
    cases due : isDue state.dict key now.instant with
    | false =>
      have unmoved : ∀ other, cmd.route = .key other →
          isDue state.dict other now.instant = false := by
        intro other keyed
        rw [route] at keyed
        cases keyed
        exact due
      split <;> exact .fresh unmoved
    | true =>
      split
      · next refusing => exact .forgot key route refusing due
      · cases outcome : state.mutate shard (.del key) (state.dict.remove key).2 with
        | mk taken after =>
          cases taken with
          | false => exact .refused key outcome
          | true => exact .evicted key route due outcome

end ShardState

end

end Seedstone
