import Seedstone.Glob
import Seedstone.Log.Effect
import Seedstone.Shard.Command

/-!
# The interpreter

`apply` of `apply.rs`: one command against one shard's dict, its reply, and
the record it appends before it changes anything.  The log is a parameter; it
may refuse any record, and a refused record stops the change it was for.
-/

namespace Seedstone

/-- What a shard asks of its log: whether a record was taken, and the log
after. -/
class ReplicationLog (L : Type) where
  append : L → Record → Bool × L

/-- One shard's state.  `reading` and `history` are ghost: the instant the
current step runs at, and the dict as it stood after the change of each
accepted record.  No answer and no other field depends on them. -/
structure ShardState (L : Type) where
  dict : Dict
  seq : Nat
  log : L
  expireCursor : Cursor
  evictCursor : Cursor
  evicted : Nat
  expired : Nat
  refusing : Bool
  reading : Nat
  history : List (Nat × Dict)

namespace ShardState

/-- A shard's state as recovery rebuilt it. -/
def recovered {L : Type} (dict : Dict) (seq : Nat) (log : L) : ShardState L where
  dict := dict
  seq := seq
  log := log
  expireCursor := 0
  evictCursor := 0
  evicted := 0
  expired := 0
  refusing := false
  reading := 0
  history := []

variable {L : Type} [ReplicationLog L]

/-- `append`: one record for a mutation about to happen; `seq` advances only
when the log took it. -/
def append (state : ShardState L) (shard : Nat) (effect : Effect) :
    Bool × ShardState L :=
  match ReplicationLog.append state.log ⟨shard, state.seq, effect⟩ with
  | (true, log) => (true, { state with log := log, seq := state.seq + 1 })
  | (false, log) => (false, { state with log := log })

/-- The change a taken record was for. -/
def change (state : ShardState L) (next : Dict) : ShardState L :=
  { state with
    dict := next
    history := state.history ++ [(state.reading, next)] }

/-- Every mutation: its record first, then the change, and no change when the
record was refused. -/
def mutate (state : ShardState L) (shard : Nat) (effect : Effect)
    (next : Dict) : Bool × ShardState L :=
  match state.append shard effect with
  | (false, state) => (false, state)
  | (true, state) => (true, state.change next)

/-- The answer of a handler whose mutation may have been refused. -/
def answer (outcome : Bool × ShardState L) (reply : Reply) : Reply × ShardState L :=
  if outcome.1 then (reply, outcome.2) else (.error .logWriteFailed, outcome.2)

end ShardState

section Reads

variable [SipHasher]

/-- Whether `key` holds an entry whose deadline has come due. -/
def isDue (dict : Dict) (key : Bytes) (now : Nat) : Bool :=
  if !dict.mayHoldDeadlines && !Deadlines.takesUndated then
    false
  else
    (dict.get key).any (fun entry => Deadlines.dueOnRead entry.expiresAt now)

def removeIfExpired (dict : Dict) (key : Bytes) (now : Nat) : Bool × Dict :=
  if isDue dict key now then (true, (dict.remove key).2) else (false, dict)

def typeName (dict : Dict) (key : Bytes) : String :=
  if (dict.get key).isSome then "string" else "none"

/-- A length as an `i64`, saturating. -/
def saturatingI64 (n : Nat) : Int :=
  min (n : Int) i64Max

def valueLen (dict : Dict) (key : Bytes) : Int :=
  match dict.get key with
  | none => 0
  | some entry => saturatingI64 entry.value.length

def remainingSeconds (expiresAt now : Nat) : Int :=
  saturatingI64 ((expiresAt - now + 500) / 1000)

def remainingMillis (expiresAt now : Nat) : Int :=
  saturatingI64 (expiresAt - now)

def ttlReply (dict : Dict) (key : Bytes) (now : Nat)
    (remaining : Nat → Nat → Int) : Reply :=
  match (dict.get key).map Entry.expiresAt with
  | none => .integer (-2)
  | some none => .integer (-1)
  | some (some deadline) => .integer (remaining deadline now)

/-- The bucket loop of `scan_step`, with at least one step left. -/
def scanLoop (dict : Dict) (pattern : Option Bytes) (now : Nat) :
    Nat → Cursor → List Bytes × Cursor × Nat
  | 0, cursor => ([], cursor, 0)
  | count + 1, cursor =>
    let (items, next) := dict.scanInOrder cursor reverseBinary
    let live := items.filter
      (fun item => !Deadlines.dueOnRead item.2.expiresAt now)
    let keys := (live.map Prod.fst).filter
      (fun key => pattern.all (fun pattern => Glob.isMatch pattern key))
    if next = 0 then
      (keys, next, 1)
    else
      let (rest, last, visited) := scanLoop dict pattern now count next
      (keys ++ rest, last, visited + 1)

def scanStep (dict : Dict) (cursor : Cursor) (count : Nat)
    (pattern : Option Bytes) (now : Nat) : Reply :=
  let (keys, next, visited) := scanLoop dict pattern now (max count 1) cursor
  .scan next keys visited

end Reads

/-- The arguments of `SET`, as `set` receives them. -/
structure SetArgs where
  key : Bytes
  value : Bytes
  expiry : Option Expiry
  cond : Option Cond
  keepTtl : Bool
  get : Bool

namespace SetArgs

def setEx (key value : Bytes) (seconds : Nat) : SetArgs :=
  ⟨key, value, some (.ex seconds), none, false, false⟩

def setNx (key value : Bytes) : SetArgs :=
  ⟨key, value, none, some .nx, false, false⟩

def pSetEx (key value : Bytes) (millis : Nat) : SetArgs :=
  ⟨key, value, some (.px millis), none, false, false⟩

end SetArgs

/-- What a span turned out to mean, once its unit is out of the way. -/
inductive SpanDeadline where
  | upTo (deadline : Option Nat)
  | passed
deriving DecidableEq, Repr

def spanDeadline (now : Nat) (span : Int) (unit : Nat → Expiry) : SpanDeadline :=
  if span ≤ 0 then .passed else .upTo (deadline now (some (unit span.toNat)))

namespace ShardState

variable {L : Type} [ReplicationLog L] [SipHasher]

/-- A write of a whole entry: the record carries the deadline it is stored
with, and the entry is stamped as just used. -/
def put (state : ShardState L) (shard : Nat) (now : Now) (key value : Bytes)
    (expiresAt : Option Nat) : Bool × ShardState L :=
  state.mutate shard (.put key value (now.deadlineMillis expiresAt))
    ((state.dict.insert key ⟨value, expiresAt, 0⟩).touch key)

def set (state : ShardState L) (shard : Nat) (now : Now) (args : SetArgs) :
    Reply × ShardState L :=
  let found := state.dict.get args.key
  let old := if args.get then found.map Entry.value else none
  let kept := found.bind Entry.expiresAt
  if args.cond = some .nx ∧ found.isSome then
    (.bulk old, state)
  else if args.cond = some .xx ∧ found.isNone then
    (.bulk none, state)
  else
    let expiresAt := if args.keepTtl then kept else deadline now.instant args.expiry
    answer (state.put shard now args.key args.value expiresAt)
      (if args.get then .bulk old else .ok)

def setNx (state : ShardState L) (shard : Nat) (now : Now) (key value : Bytes) :
    Reply × ShardState L :=
  match state.set shard now (SetArgs.setNx key value) with
  | (.ok, state) => (.integer 1, state)
  | (.bulk none, state) => (.integer 0, state)
  | other => other

def del (state : ShardState L) (shard : Nat) (key : Bytes) : Reply × ShardState L :=
  if (state.dict.get key).isNone then
    (.removed false, state)
  else
    answer (state.mutate shard (.del key) (state.dict.remove key).2) (.removed true)

def incrBy (state : ShardState L) (shard : Nat) (now : Now) (key : Bytes)
    (delta : Int) : Reply × ShardState L :=
  let current :=
    match state.dict.get key with
    | none => some (0, none)
    | some entry => (parseI64 entry.value).map (fun n => (n, entry.expiresAt))
  match current with
  | none => (.error .notAnInteger, state)
  | some (current, expiresAt) =>
    match checkedAddI64 current delta with
    | none => (.error .wouldOverflow, state)
    | some next =>
      answer (state.put shard now key (i64Text next) expiresAt) (.integer next)

def setExpiry (state : ShardState L) (shard : Nat) (now : Now) (key : Bytes)
    (span : SpanDeadline) : Reply × ShardState L :=
  if (state.dict.get key).isNone then
    (.integer 0, state)
  else
    match span with
    | .passed =>
      answer (state.mutate shard (.del key) (state.dict.remove key).2) (.integer 1)
    | .upTo deadline =>
      answer
        (state.mutate shard (.deadline key (now.deadlineMillis deadline))
          (state.dict.setDeadline key deadline).2)
        (.integer 1)

def persist (state : ShardState L) (shard : Nat) (key : Bytes) :
    Reply × ShardState L :=
  if (state.dict.get key).all (fun entry => entry.expiresAt.isNone) then
    (.integer 0, state)
  else
    answer
      (state.mutate shard (.deadline key none) (state.dict.setDeadline key none).2)
      (.integer 1)

def flushDb (state : ShardState L) (shard : Nat) : Reply × ShardState L :=
  if state.dict.isEmpty then
    (.ok, state)
  else
    answer (state.mutate shard .flush state.dict.clear) .ok

/-- `evict_if_expired`: whether an entry was reclaimed, or `none` when its
record was refused. -/
def evictIfExpired (state : ShardState L) (shard : Nat) (key : Bytes)
    (now : Nat) : Option Bool × ShardState L :=
  if isDue state.dict key now then
    match state.mutate shard (.del key) (state.dict.remove key).2 with
    | (true, state) => (some true, state)
    | (false, state) => (none, state)
  else
    (some false, state)

def touch (state : ShardState L) (key : Bytes) : ShardState L :=
  { state with dict := state.dict.touch key }

/-- The dispatch of `apply`, after lazy expiry. -/
def dispatch (state : ShardState L) (shard : Nat) (cmd : Command) (now : Now) :
    Reply × ShardState L :=
  match cmd with
  | .get key =>
    let state := state.touch key
    (.bulk ((state.dict.get key).map Entry.value), state)
  | .set key value expiry cond keepTtl get =>
    state.set shard now ⟨key, value, expiry, cond, keepTtl, get⟩
  | .setEx key seconds value => state.set shard now (SetArgs.setEx key value seconds)
  | .setNx key value => state.setNx shard now key value
  | .pSetEx key millis value => state.set shard now (SetArgs.pSetEx key value millis)
  | .del key => state.del shard key
  | .incrBy key delta => state.incrBy shard now key delta
  | .expire key seconds =>
    state.setExpiry shard now key (spanDeadline now.instant seconds .ex)
  | .pExpire key millis | .expireAt key millis | .pExpireAt key millis =>
    state.setExpiry shard now key (spanDeadline now.instant millis .px)
  | .ttl key => (ttlReply state.dict key now.instant remainingSeconds, state)
  | .pTtl key => (ttlReply state.dict key now.instant remainingMillis, state)
  | .persist key => state.persist shard key
  | .exists key =>
    (.integer (if (state.dict.get key).isSome then 1 else 0), state)
  | .type key => (.status (typeName state.dict key), state)
  | .strLen key =>
    let state := state.touch key
    (.integer (valueLen state.dict key), state)
  | .flushDb => state.flushDb shard
  | .dbSize => (.integer (saturatingI64 state.dict.len), state)
  | .scanStep cursor count pattern =>
    (Seedstone.scanStep state.dict cursor count pattern now.instant, state)
  | .stats => (.stats state.dict.len state.dict.withDeadline, state)
  | .snapshot _ => (.ok, state)

/-- `apply`: lazy expiry of the command's key, then the command. -/
def apply (state : ShardState L) (shard : Nat) (cmd : Command) (now : Now) :
    Reply × ShardState L :=
  match cmd.route with
  | .key key =>
    if state.refusing then
      let (reclaimed, dict) := removeIfExpired state.dict key now.instant
      dispatch { state with
        dict := dict
        expired := state.expired + reclaimed.toNat } shard cmd now
    else
      match state.evictIfExpired shard key now.instant with
      | (none, state) => (.error .logWriteFailed, state)
      | (some reclaimed, state) =>
        dispatch { state with expired := state.expired + reclaimed.toNat }
          shard cmd now
  | _ => dispatch state shard cmd now

end ShardState

end Seedstone
