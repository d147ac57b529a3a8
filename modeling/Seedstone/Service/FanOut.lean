import Seedstone.Service.NodeInfo
import Seedstone.Service.Walk

/-!
# Commands no single shard answers

`fan_out.rs`.  A connection is a program that asks things of the node around it
(`Ask`): the router's operations, what the node's cells hold, the transport and
the stop signal.  The walks of `KEYS` run concurrently inside one task, so which
of them hears its answer next is one more thing asked.
-/

namespace Seedstone.Service

inductive Ask where
  | look
  | shards
  | dispatch (cmd : Command)
  | dispatchMany (cmds : List Command)
  | dispatchAt (shard : Nat) (cmd : Command)
  | dispatchEvery (cmd : Command)
  | info (wanted : List Bytes)
  | wake (waiting : Nat)
  | write (bytes : Bytes)
  | stop

abbrev Ask.Answer : Ask → Type
  | .look => NodeInfo
  | .shards => Nat
  | .dispatch _ => Reply
  | .dispatchMany _ => List Reply
  | .dispatchAt _ _ => Reply
  | .dispatchEvery _ => List Reply
  | .info _ => Bytes
  | .wake _ => Nat
  | .write _ => Bool
  | .stop => Unit

abbrev Edge (α : Type) : Type :=
  Program Ask Ask.Answer α

def ask (question : Ask) : Edge question.Answer :=
  Program.perform question

theorem run_ask_bind {σ β : Type} (handle : (question : Ask) → σ → question.Answer × σ)
    (question : Ask) (next : question.Answer → Edge β) (state : σ) :
    (ask question >>= next).run handle state =
      (next (handle question state).1).run handle (handle question state).2 :=
  rfl

def chunkCommands : Nat := 128

def keysReplyBytes : Nat := 67108864

def keysTooLarge : Bytes :=
  ascii "ERR KEYS reply exceeds the per-request limit; use SCAN"

def walkStepBuckets : Nat := 1024

def scanDefaultCount : Nat := 10

def invalidCursor : Bytes :=
  ascii "ERR invalid cursor"

inductive Fold where
  | sum
  | array
deriving DecidableEq, Repr

def Fold.isIdentityOnOne : Fold → Bool
  | .sum => true
  | .array => false

inductive Gather where
  | sum
  | allOk
  | started
deriving DecidableEq, Repr

/-- `i64::saturating_add`. -/
def saturatingAddI64 (first second : Int) : Int :=
  max i64Min (min (first + second) i64Max)

structure Gathered where
  total : Int
  started : Option String
  running : Bool

/-- The loop of `broadcast`: a reply that is not folded in answers at once. -/
def gatherReplies (gather : Gather) : List Reply → Gathered → Except Frame Gathered
  | [], gathered => .ok gathered
  | reply :: replies, gathered =>
    match reply with
    | .status text =>
      if gather = .started then
        gatherReplies gather replies { gathered with started := some text }
      else
        .error (replyToFrame (.status text))
    | .error error =>
      if error = .saveInProgress ∧ gather = .started then
        gatherReplies gather replies { gathered with running := true }
      else
        .error (replyToFrame (.error error))
    | .integer n =>
      gatherReplies gather replies
        { gathered with total := saturatingAddI64 gathered.total n }
    | .ok => gatherReplies gather replies gathered
    | other => .error (replyToFrame other)

def gatheredFrame (gather : Gather) (gathered : Gathered) : Frame :=
  match gather with
  | .sum => .integer gathered.total
  | .allOk => .simple (ascii "OK")
  | .started =>
    match gathered.started with
    | some text => .simple (ascii text)
    | none =>
      if gathered.running then
        replyToFrame (.error .saveInProgress)
      else
        replyToFrame (.error .shardUnavailable)

def broadcast (cmd : Command) (gather : Gather) : Edge Frame := do
  let replies ← ask (.dispatchEvery cmd)
  match gatherReplies gather replies ⟨0, none, false⟩ with
  | .error frame => return frame
  | .ok gathered => return gatheredFrame gather gathered

inductive WalkStop where
  | shard (error : ReplyError)
  | tooLarge

/-- One shard's walk in `keys`. -/
inductive KeysWalk where
  | running (cursor : Cursor) (found : List Bytes)
  | ended (outcome : Except WalkStop (List Bytes))

/-- One turn of a walk's loop; `gathered` is the total the walks share. -/
def keysStep (pattern : Bytes) (ceiling shard gathered : Nat) (cursor : Cursor)
    (found : List Bytes) : Edge (KeysWalk × Nat) := do
  let reply ← ask (.dispatchAt shard (.scanStep cursor walkStepBuckets (some pattern)))
  match reply with
  | .scan next keys _ =>
    let total := gathered + (keys.map List.length).sum
    if ceiling < total then
      return (.ended (.error .tooLarge), total)
    else if next = 0 then
      return (.ended (.ok (found ++ keys)), total)
    else
      return (.running next (found ++ keys), total)
  | .error error => return (.ended (.error (.shard error)), gathered)
  | _ => return (.ended (.error (.shard .shardUnavailable)), gathered)

/-- The walks that have not ended, each with its shard. -/
def waitingWalks (walks : List KeysWalk) : List (Nat × Cursor × List Bytes) :=
  walks.zipIdx.filterMap fun (walk, shard) =>
    match walk with
    | .running cursor found => some (shard, cursor, found)
    | .ended _ => none

/-- `join_all` over the walks, for so many turns. -/
def keysLoop (pattern : Bytes) (ceiling : Nat) :
    Nat → List KeysWalk → Nat → Edge (List KeysWalk)
  | 0, walks, _ => pure walks
  | turns + 1, walks, gathered =>
    match waitingWalks walks with
    | [] => pure walks
    | first :: others => do
        let woken ← ask (.wake (others.length + 1))
        let (shard, cursor, found) := (first :: others).getD woken first
        let (walk, total) ← keysStep pattern ceiling shard gathered cursor found
        keysLoop pattern ceiling turns (walks.set shard walk) total

/-- The walks' keys in shard order, or what the first that failed answers. -/
def joinWalks : List KeysWalk → Except Frame (List Bytes)
  | [] => .ok []
  | walk :: walks =>
    match walk with
    | .ended (.ok found) =>
      match joinWalks walks with
      | .ok rest => .ok (found ++ rest)
      | .error frame => .error frame
    | .ended (.error (.shard error)) => .error (.error (ascii error.wireText))
    | .ended (.error .tooLarge) => .error (.error keysTooLarge)
    | .running _ _ => .error (.error (ascii ReplyError.shardUnavailable.wireText))

/-- The order of byte strings. -/
def bytesLe : Bytes → Bytes → Bool
  | [], _ => true
  | _ :: _, [] => false
  | first :: rest, other :: others => first < other || (first = other && bytesLe rest others)

/-- `sort_unstable` and `dedup`. -/
def sortDedup (keys : List Bytes) : List Bytes :=
  (keys.mergeSort bytesLe).destutter (· ≠ ·)

/-- A walk's cursor takes each value at most once on its way back to `0`. -/
def keysTurns (shards : Nat) : Nat :=
  18446744073709551616 * shards

def keys (pattern : Bytes) (ceiling : Nat) : Edge Frame := do
  let shards ← ask .shards
  let walks ← keysLoop pattern ceiling (keysTurns shards)
    (List.replicate shards (.running 0 [])) 0
  match joinWalks walks with
  | .error frame => return frame
  | .ok all => return .array ((sortDedup all).map .bulk)

/-- The loop of `scan`; a step costs at least one bucket of the call's budget. -/
def scanLoop (pattern : Option Bytes) : Nat → Crossing → Edge (Except Frame Crossing)
  | 0, crossing => pure (.ok crossing)
  | budget + 1, crossing =>
    match crossing.wantsStep with
    | none => pure (.ok crossing)
    | some step => do
        let reply ← ask (.dispatchAt step.shard (.scanStep step.cursor step.count pattern))
        match reply with
        | .scan next keys visited =>
          scanLoop pattern budget (crossing.feed next keys visited)
        | .error error => return .error (.error (ascii error.wireText))
        | _ => return .error (.error (ascii ReplyError.shardUnavailable.wireText))

/-- The answer of a call: the cursor to go on at as a bulk string, and the keys. -/
def scanFrame (crossing : Crossing) : Frame :=
  let (next, keys) := crossing.finish
  .array [.bulk (decimal next.toNat), .array (keys.map .bulk)]

def scan (cursor : Cursor) (pattern : Option Bytes) (keyTarget : Nat) : Edge Frame := do
  let shards ← ask .shards
  match Crossing.begin shards cursor keyTarget walkStepBuckets with
  | none => return .error invalidCursor
  | some crossing =>
    match ← scanLoop pattern crossing.bucketsLeft crossing with
    | .error frame => return frame
    | .ok crossing => return scanFrame crossing

/-- The loop of `fold_array`. -/
def foldEntries : List Reply → Except Frame (List Frame)
  | [] => .ok []
  | reply :: replies =>
    match reply with
    | .bulk value =>
      match foldEntries replies with
      | .ok entries => .ok (replyToFrame (.bulk value) :: entries)
      | .error frame => .error frame
    | .error error => .error (replyToFrame (.error error))
    | _ => .error (.error unrenderableReply)

def foldArray (replies : List Reply) (expected : Nat) : Except Frame (List Frame) :=
  match foldEntries replies with
  | .error frame => .error frame
  | .ok entries =>
    if entries.length ≠ expected then .error (.error unrenderableReply) else .ok entries

def fanOutSum : List Command → Int → Edge Frame
  | [], total => pure (.integer total)
  | cmd :: cmds, total => do
      match ← ask (.dispatch cmd) with
      | .removed removed => fanOutSum cmds (saturatingAddI64 total removed.toNat)
      | .integer n => fanOutSum cmds (saturatingAddI64 total n)
      | other => return replyToFrame other

/-- A slice of `chunkCommands` at a time; each has a command at least. -/
def fanOutArray : Nat → List Command → List Frame → Edge Frame
  | 0, _, entries => pure (.array entries)
  | slices + 1, cmds, entries =>
    let slice := cmds.take chunkCommands
    if slice.isEmpty then
      pure (.array entries)
    else do
      let replies ← ask (.dispatchMany slice)
      match foldArray replies slice.length with
      | .ok part => fanOutArray slices (cmds.drop chunkCommands) (entries ++ part)
      | .error frame => return frame

def fanOut (cmds : List Command) (fold : Fold) : Edge Frame :=
  match fold with
  | .sum => fanOutSum cmds 0
  | .array => fanOutArray cmds.length cmds []

end Seedstone.Service
