import Seedstone.Shard.Apply

/-!
# Expiry sweeps, evictions and replay

The other ways a shard's dict changes: the active sweep and the eviction loop
of `executor.rs`, which append a deletion before each removal, and
`replay_into`, which applies recovered records to a dict.
-/

namespace Seedstone

def rehashBucketsPerTick : Nat := 1024

def expireBucketsPerTick : Nat := 256

def evictionSamples : Nat := 5

namespace ShardState

variable {L : Type} [ReplicationLog L] [SipHasher]

/-- The removal loop of `sweep_expired`; a refused record ends it. -/
def sweepKeys (state : ShardState L) (shard : Nat) :
    List Bytes → Bool × ShardState L
  | [] => (true, state)
  | key :: rest =>
    match state.mutate shard (.del key) (state.dict.remove key).2 with
    | (false, state) => (false, state)
    | (true, state) =>
      sweepKeys { state with expired := state.expired + 1 } shard rest

/-- `sweep_expired`: the cursor stays when a removal was refused. -/
def sweepExpired (state : ShardState L) (shard : Nat) (now : Nat) :
    ShardState L :=
  let (next, dead) :=
    state.dict.expireStep state.expireCursor expireBucketsPerTick now
  match state.sweepKeys shard dead with
  | (true, state) => { state with expireCursor := next }
  | (false, state) => state

/-- One round of the eviction loop: whether a victim was taken. -/
def evictOne (state : ShardState L) (shard : Nat) (spared : Option Bytes) :
    Bool × ShardState L :=
  let (victim, cursor) :=
    state.dict.sampleOldest state.evictCursor evictionSamples spared
  let state := { state with evictCursor := cursor }
  match victim with
  | none => (false, state)
  | some victim =>
    match state.mutate shard (.del victim) (state.dict.remove victim).2 with
    | (false, state) => (false, state)
    | (true, state) => (true, { state with evicted := state.evicted + 1 })

/-- `evict_until_fits`, for at most `rounds` rounds: the gauge, which this
shard alone moves meanwhile, and the state. -/
def evictUntilFits (ceiling : Option Nat) (shard : Nat) (spared : Option Bytes) :
    Nat → Nat → ShardState L → Nat × ShardState L
  | 0, gauge, state => (gauge, state)
  | rounds + 1, gauge, state =>
    if ceiling.any (fun ceiling => ceiling < gauge) then
      match state.evictOne shard spared with
      | (false, next) => (gauge, next)
      | (true, next) =>
        evictUntilFits ceiling shard spared rounds
          (gauge + next.dict.usedBytes - state.dict.usedBytes) next
    else
      (gauge, state)

end ShardState

/-- The deadline a replayed entry is held under, and whether it has passed: a
passed deadline is held as due now. -/
def resolveDeadline (now : Now) (millis : Option Nat) : Option Nat × Bool :=
  match millis with
  | none => (none, false)
  | some millis =>
    match now.replayDeadline millis with
    | .upTo deadline => (deadline, false)
    | .past => (some now.instant, true)

variable [SipHasher]

/-- One record of `replay_into`: the dict, and the keys held as due. -/
def replayEffect (now : Now) (state : Dict × List Bytes) (effect : Effect) :
    Dict × List Bytes :=
  let (dict, due) := state
  match effect with
  | .put key value millis =>
    let (expiresAt, passed) := resolveDeadline now millis
    (dict.insert key ⟨value, expiresAt, 0⟩, if passed then due ++ [key] else due)
  | .del key => ((dict.remove key).2, due)
  | .deadline key millis =>
    let (expiresAt, passed) := resolveDeadline now millis
    let (found, dict) := dict.setDeadline key expiresAt
    (dict, if found && passed then due ++ [key] else due)
  | .flush => (dict.clear, due)
  | .rebase => (dict, due)

/-- The end of `replay_into`: a key held as due whose deadline still has passed is
removed. -/
def removeDue (now : Now) (dict : Dict) (key : Bytes) : Dict :=
  let dead := (dict.get key).any fun entry =>
    entry.expiresAt.any (fun deadline => deadline ≤ now.instant)
  if dead then (dict.remove key).2 else dict

/-- `replay_into`: the records of a recovered prefix, each with its number. -/
def replayInto (dict : Dict) (seq : Nat) (records : List (Nat × Effect))
    (now : Now) (due : List Bytes) : Dict × Nat :=
  let (dict, due) := (records.map Prod.snd).foldl (replayEffect now) (dict, due)
  let seq := records.foldl (fun _ record => record.1 + 1) seq
  (due.foldl (removeDue now) dict, seq)

end Seedstone
