import Seedstone.Node.Checkpoint

/-!
# The executor

`Executor` of `executor.rs` and `SyncState` of `durability.rs`: the task that
owns a range of shards, answers envelopes, hands what they append to the
writer, and keeps the replies of writes until the writer says they are durable.
Each handler runs from one await of the loop to the next.
-/

namespace Seedstone

structure SyncPolicy where
  minInterval : Option Nat
  holdAcks : Bool
deriving DecidableEq, Repr

namespace SyncPolicy

def always : SyncPolicy :=
  ⟨some 0, true⟩

def interval : SyncPolicy :=
  ⟨some 100, false⟩

def never : SyncPolicy :=
  ⟨none, false⟩

end SyncPolicy

/-- `WRITER_BUDGET`, in bytes. -/
def writerBudget : Nat :=
  4 * 1024 * 1024

/-- A batch handed to the writer and not yet durable: per shard it touched,
the shard's flushed point. -/
structure Sent where
  batch : Nat
  shards : List (Nat × Nat)
deriving DecidableEq, Repr

/-- A batch's replies, waiting for the sync that covers them; `wrote` says
which of its commands wrote the log.  `served` is ghost. -/
structure Held where
  batch : Nat
  client : Nat
  replies : List Reply
  wrote : List Bool
  served : List Served
deriving DecidableEq, Repr

inductive Mode where
  | serving
  | refusing (refused ticks : Nat)
deriving DecidableEq, Repr

/-- One executor's side of its link to the writer.  `submissions` and `floor`
are ghost: what it handed over, batch by batch, and how much of that it had let
go of at the last fault. -/
structure SyncState where
  policy : SyncPolicy
  link : Bool
  staging : List Record
  sent : List Sent
  sentBytes : Nat
  ackedBytes : Nat
  held : List Held
  batch : Nat
  durableBatch : Option Nat
  mode : Mode
  writerLost : Bool
  submissions : List (List Record)
  floor : Nat

namespace SyncState

def new (policy : SyncPolicy) : SyncState where
  policy := policy
  link := true
  staging := []
  sent := []
  sentBytes := 0
  ackedBytes := 0
  held := []
  batch := 0
  durableBatch := none
  mode := .serving
  writerLost := false
  submissions := []
  floor := 0

def overBudget (sync : SyncState) : Bool :=
  writerBudget < sync.sentBytes - sync.ackedBytes

def holds (sync : SyncState) : Bool :=
  sync.policy.holdAcks && sync.link

def isRefusing (sync : SyncState) : Bool :=
  match sync.mode with
  | .serving => false
  | .refusing .. => true

def track (sync : SyncState) (sent : Sent) : SyncState :=
  if sync.policy.minInterval.isSome then
    { sync with sent := sync.sent ++ [sent] }
  else
    sync

/-- The replies of a batch whose writes are answered with the refusal; a reply
that already is an error stays. -/
def refuseWrites : List Reply → List Bool → List Reply
  | .error error :: replies, _ :: wrote => .error error :: refuseWrites replies wrote
  | reply :: replies, wrote :: rest =>
    (if wrote then .error .logWriteFailed else reply) :: refuseWrites replies rest
  | replies, _ => replies

/-- Whether the replies of `batch` go out with a sync through `through`. -/
def releases (through : Nat) (held : Held) : Bool :=
  held.batch ≤ through

end SyncState

inductive EvictionMode where
  | noEviction
  | allKeysLru
deriving DecidableEq, Repr

structure MemoryLimit where
  ceiling : Option Nat
  mode : EvictionMode
deriving DecidableEq, Repr

def MemoryLimit.exceeded (limit : MemoryLimit) (used : Nat) : Bool :=
  limit.ceiling.any (fun ceiling => ceiling < used)

/-- One unit of work: commands with their shards, and who waits for the
replies. -/
structure Envelope where
  cmds : List (Nat × Command)
  client : Nat
deriving DecidableEq, Repr

/-- Whether the executor is in its loop, waits for the writer's last sync, or
has ended. -/
inductive ExecutorPhase where
  | serving
  | stopping
  | ended
deriving DecidableEq, Repr

/-- `image` is ghost: the newest image that became durable. -/
structure Executor where
  index : Nat
  firstShard : Nat
  states : List (ShardState FileLog)
  limit : MemoryLimit
  checkpoint : SegmentCheckpoint
  sync : SyncState
  changes : Nat
  changesAtOpen : Option Nat
  snapshotAsked : Bool
  saves : List (Nat × List Reply)
  savesAfter : List (Nat × List Reply)
  phase : ExecutorPhase
  image : Option Completed

namespace Executor

def new (index firstShard : Nat) (states : List (ShardState FileLog))
    (limit : MemoryLimit) (policy : SyncPolicy) (generation : Nat)
    (config : CheckpointConfig) : Executor where
  index := index
  firstShard := firstShard
  states := states
  limit := limit
  checkpoint := .new generation index config
  sync := .new policy
  changes := 0
  changesAtOpen := none
  snapshotAsked := false
  saves := []
  savesAfter := []
  phase := .serving
  image := none

/-- One shard's buffer into the staging buffer, and its flushed point. -/
def stageShard (touched : List (Nat × Nat) × Executor) (offset : Nat) :
    List (Nat × Nat) × Executor :=
  let (points, this) := touched
  match this.states[offset]? with
  | none => (points, this)
  | some state =>
    let (records, log) := state.log.flushInto
    let this := { this with
      states := this.states.set offset { state with log := log }
      sync := { this.sync with staging := this.sync.staging ++ records } }
    match records.isEmpty, log.flushedThrough with
    | false, some through => (points ++ [(offset, through)], this)
    | _, _ => (points, this)

def stage (this : Executor) (offsets : List Nat) : List (Nat × Nat) × Executor :=
  offsets.foldl stageShard ([], this)

def stageAll (this : Executor) : List (Nat × Nat) × Executor :=
  this.stage (List.range this.states.length)

/-- `submit`: what was staged goes to the writer as one batch; whether anything
was. -/
def submit (this : Executor) (shards : List (Nat × Nat)) : Task (Bool × Executor) :=
  if this.sync.staging.isEmpty then
    pure (false, this)
  else do
    let records := this.sync.staging
    let batch := this.sync.batch
    let sync := { this.sync with
      staging := []
      sentBytes := this.sync.sentBytes + encodedLen records
      batch := batch + 1
      submissions := this.sync.submissions ++ [records] }
    if sync.link then
      Task.toWriter (.submit this.index batch records)
      pure (true, { this with sync := sync.track ⟨batch, shards⟩ })
    else
      pure (true, { this with sync := { sync with ackedBytes := sync.sentBytes } })

/-- Replies on their way to the clients, in order. -/
def sendAll : List Answer → Task Unit
  | [] => pure ()
  | answer :: rest => do
      Task.answer answer
      sendAll rest

/-- `fail_all`: every held batch is answered, its writes with the refusal. -/
def failAll (this : Executor) : Task Executor := do
  sendAll (this.sync.held.map fun held =>
    ⟨this.index, held.client, SyncState.refuseWrites held.replies held.wrote, held.served⟩)
  pure { this with sync := { this.sync with held := [] } }

/-- `release_through`: every held batch up to and including `through`. -/
def releaseThrough (this : Executor) (through : Nat) : Task Executor := do
  sendAll ((this.sync.held.takeWhile (SyncState.releases through)).map fun held =>
    ⟨this.index, held.client, held.replies, held.served⟩)
  pure { this with sync := { this.sync with
    held := this.sync.held.dropWhile (SyncState.releases through) } }

/-- The replies of the waiting `SAVE`s. -/
def sendSaves (this : Executor) (saves : List (Nat × List Reply)) : Task Unit :=
  sendAll (saves.map fun save => ⟨this.index, save.1, save.2, []⟩)

/-- `ask_for_snapshot`: the checkpoint opens a cycle on the next tick. -/
def askForSnapshot (this : Executor) : Executor :=
  if this.snapshotAsked then
    this
  else
    { this with checkpoint := this.checkpoint.nudge, snapshotAsked := true }

/-- `snapshot`: a client's `SAVE` (`wait`) or `BGSAVE`. -/
def snapshot (this : Executor) (wait : Bool) (copies client : Nat) : Task Executor :=
  if !wait then
    if this.checkpoint.isOpen || this.snapshotAsked then do
      Task.answer ⟨this.index, client,
        List.replicate copies (.error .saveInProgress), []⟩
      pure this
    else do
      Task.answer ⟨this.index, client,
        List.replicate copies (.status "Background saving started"), []⟩
      pure this.askForSnapshot
  else if this.checkpoint.isOpen then
    pure { this with
      savesAfter := this.savesAfter ++ [(client, List.replicate copies .ok)] }
  else
    let this := this.askForSnapshot
    pure { this with saves := this.saves ++ [(client, List.replicate copies .ok)] }

/-- `answer_saves`: the waiting `SAVE`s, after a tick. -/
def answerSaves (this : Executor) (completed faulted : Bool) : Task Executor :=
  if completed then do
    this.sendSaves this.saves
    if this.savesAfter.isEmpty then
      pure { this with saves := [] }
    else
      pure { this with saves := this.savesAfter, savesAfter := [] }.askForSnapshot
  else if faulted then do
    this.sendSaves ((this.saves ++ this.savesAfter).map fun save =>
      (save.1, save.2.map fun _ => .error .snapshotFailed))
    pure { this with saves := [], savesAfter := [] }
  else
    pure this

/-- Every owned shard is told whether its executor refuses writes. -/
def setRefusing (states : List (ShardState FileLog)) (refusing : Bool) :
    List (ShardState FileLog) :=
  states.map fun state => { state with refusing := refusing }

/-- `refuse`: from here writes are refused until a snapshot of memory is
durable. -/
def refuse (this : Executor) : Task Executor := do
  let this ← this.failAll
  let sync := { this.sync with
    sent := []
    ackedBytes := this.sync.sentBytes
    floor := this.sync.submissions.length }
  let this :=
    if sync.isRefusing then
      { this with sync := sync }
    else
      { this with
        sync := { sync with mode := .refusing 0 0 }
        states := setRefusing this.states true }
  let checkpoint ← this.checkpoint.force
  pure { this with
    checkpoint := checkpoint
    saves := this.saves ++ this.savesAfter
    savesAfter := [] }

/-- The points a `Durable` raises. -/
def syncCompleted (states : List (ShardState FileLog)) (sent : Sent) :
    List (ShardState FileLog) :=
  sent.shards.foldl
    (fun states point => states.modify point.1 fun state =>
      { state with log := state.log.syncCompleted (some point.2) })
    states

def progress (this : Executor) : Progress → Task Executor
  | .written bytes =>
    pure { this with sync := { this.sync with
      ackedBytes := max this.sync.ackedBytes bytes } }
  | .durable throughBatch bytes _ =>
    let sync := { this.sync with
      ackedBytes := max this.sync.ackedBytes bytes
      durableBatch := pointMax this.sync.durableBatch throughBatch }
    match throughBatch with
    | none => pure { this with sync := sync }
    | some through =>
      let covered := fun (sent : Sent) => decide (sent.batch ≤ through)
      let this := { this with
        sync := { sync with sent := sync.sent.dropWhile covered }
        states := (sync.sent.takeWhile covered).foldl syncCompleted this.states }
      this.releaseThrough through
  | .fault => this.refuse
  | .nudge => pure { this with checkpoint := this.checkpoint.nudge }
  | .stopped => pure this

/-- The writer is gone: the refusal this begins is never ended. -/
def lost (this : Executor) : Task Executor :=
  refuse { this with sync := { this.sync with link := false, writerLost := true } }

/-- A command's reply and whether it appended; `served` is ghost. -/
structure Answered where
  reply : Reply
  appended : Bool
  served : Served
deriving DecidableEq, Repr

/-- The state of an owned shard. -/
def stateOf (this : Executor) (shard : Nat) : Option (ShardState FileLog) :=
  if shard < this.firstShard then none else this.states[shard - this.firstShard]?

variable [SipHasher]

/-- The key a command must not evict. -/
def spared (cmd : Command) : Option Bytes :=
  match cmd.route with
  | .key key => some key
  | .every | .unaddressed => none

/-- A command that reaches its handler, and the evictions it makes room with:
not while refusing, for an eviction is a write of its own. -/
def execute (this : Executor) (shard : Nat) (state : ShardState FileLog)
    (cmd : Command) (now : Now) : Task (Reply × ShardState FileLog) := do
  let (reply, after) := { state with reading := now.instant }.apply shard cmd now
  Task.gaugeApply state.dict.usedBytes after.dict.usedBytes
  if this.limit.mode = .allKeysLru ∧ !this.sync.isRefusing then
    let used ← Task.gaugeUsed
    let (_, evicted) := ShardState.evictUntilFits this.limit.ceiling shard (spared cmd)
      (after.dict.len + 1) used after
    Task.gaugeApply after.dict.usedBytes evicted.dict.usedBytes
    pure (reply, evicted)
  else
    pure (reply, after)

/-- A refusal that reaches no handler. -/
def refusedWith (this : Executor) (cmd : Command) (error : ReplyError) :
    Answered × Executor :=
  (⟨.error error, false, ⟨cmd, []⟩⟩, this)

/-- `answer`: one command of an envelope. -/
def answer (this : Executor) (shard : Nat) (cmd : Command) (now : Now) :
    Task (Answered × Executor) :=
  match this.stateOf shard with
  | none => pure (this.refusedWith cmd .shardUnavailable)
  | some state =>
    if cmd = .stats then
      pure (⟨.stats state.dict.len state.dict.withDeadline, false, ⟨cmd, []⟩⟩, this)
    else
      match this.sync.mode, cmd.writesTheLog with
      | .refusing refused ticks, true =>
        pure (refusedWith { this with sync := { this.sync with
          mode := .refusing (refused + 1) ticks } } cmd .logWriteFailed)
      | _, _ => do
          let used ← Task.gaugeUsed
          if this.limit.mode = .noEviction ∧ cmd.deniedWhenFull ∧
              this.limit.exceeded used then
            pure (this.refusedWith cmd .outOfMemory)
          else
            let (reply, after) ← this.execute shard state cmd now
            pure (⟨reply, decide (after.seq ≠ state.seq),
                ⟨cmd, after.log.accepted.drop state.log.accepted.length⟩⟩,
              { this with states := this.states.set (shard - this.firstShard) after })

def answerAll (this : Executor) (now : Now) :
    List (Nat × Command) → Task (List Answered × Executor)
  | [] => pure ([], this)
  | (shard, cmd) :: rest => do
      let (first, this) ← this.answer shard cmd now
      let (others, this) ← this.answerAll now rest
      pure (first :: others, this)

/-- The end of `serve`: what the batch appended goes to the writer, and the
replies to the client, at once or once they are durable. -/
def handOver (this : Executor) (envelope : Envelope) (answered : List Answered)
    (holds : Bool) : Task Executor := do
  let wroteEach :=
    if holds then
      answered.map fun one => one.appended && one.served.command.writesTheLog
    else
      []
  let (touched, this) :=
    if answered.any Answered.appended then
      stage { this with changes := this.changes + answered.countP Answered.appended }
        (envelope.cmds.map fun cmd => cmd.1 - this.firstShard)
    else
      ([], this)
  let batch := this.sync.batch
  let (submitted, this) ← this.submit touched
  let replies := answered.map Answered.reply
  let served := answered.map Answered.served
  if submitted && wroteEach.any id then
    pure { this with sync := { this.sync with
      held := this.sync.held ++ [⟨batch, envelope.client, replies, wroteEach, served⟩] } }
  else
    Task.answer ⟨this.index, envelope.client, replies, served⟩
    pure this

def serve (this : Executor) (now : Now) (envelope : Envelope) : Task Executor :=
  match envelope.cmds with
  | (_, .snapshot wait) :: _ => this.snapshot wait envelope.cmds.length envelope.client
  | _ => do
      let holds := this.sync.holds && !this.sync.isRefusing
      let (answered, this) ← this.answerAll now envelope.cmds
      this.handOver envelope answered holds

/-- One shard's share of the tick. -/
def tickShard {L : Type} [ReplicationLog L] (refusing : Bool) (now shard : Nat)
    (state : ShardState L) : ShardState L :=
  let state := { state with
    reading := now
    dict := state.dict.rehashStep rehashBucketsPerTick }
  if refusing then state else state.sweepExpired shard now

def tickShards (refusing : Bool) (now : Nat) :
    Nat → List (ShardState FileLog) → Task (List (ShardState FileLog))
  | _, [] => pure []
  | shard, state :: states => do
      let after := tickShard refusing now shard state
      Task.gaugeApply state.dict.usedBytes after.dict.usedBytes
      let rest ← tickShards refusing now (shard + 1) states
      pure (after :: rest)

def countTick (sync : SyncState) : SyncState :=
  match sync.mode with
  | .serving => sync
  | .refusing refused ticks => { sync with mode := .refusing refused (ticks + 1) }

/-- Where the log stands: with no writer the footer waits for nothing. -/
def position (this : Executor) : LogPosition :=
  let batch := if this.sync.batch = 0 then none else some (this.sync.batch - 1)
  { bytes := this.sync.sentBytes
    batch := batch
    durable := if this.sync.link then this.sync.durableBatch else batch }

/-- What a durable image brings: the writer is told, and a refusal ends. -/
def completed (this : Executor) (done : Completed) : Task Executor := do
  let this := { this with
    changes := this.changes - this.changesAtOpen.getD this.changes
    changesAtOpen := none
    image := some done }
  if this.sync.link then
    Task.toWriter (.covered this.index done.cycle done.throughBatch done.bytes)
  if this.sync.isRefusing && !this.sync.writerLost then
    pure { this with
      sync := { this.sync with mode := .serving }
      states := setRefusing this.states false }
  else
    pure this

def imaged (this : Executor) : Option Completed → Task Executor
  | none => pure this
  | some done => this.completed done

/-- What follows from the checkpoint's tick. -/
def afterTick (this : Executor) (tick : Tick) : Task Executor := do
  let this ← this.imaged tick.completed
  let this ← this.answerSaves tick.completed.isSome tick.faulted
  if this.checkpoint.isOpen && this.changesAtOpen.isNone then
    pure { this with changesAtOpen := some this.changes }
  else
    pure this

/-- The checkpoint's part of the tick. -/
def checkpointTick (this : Executor) (now : Now) : Task Executor := do
  let this :=
    if this.checkpoint.isOpen then this else { this with changesAtOpen := none }
  let (tick, checkpoint, states) ←
    this.checkpoint.tick this.firstShard this.states now this.position
  let this := { this with
    checkpoint := checkpoint
    states := states
    snapshotAsked := false }
  if tick.wantsSync && this.sync.link then
    Task.toWriter .syncNow
  this.afterTick tick

def housekeeping (this : Executor) (now : Now) : Task Executor := do
  let states ← tickShards this.sync.isRefusing now.instant this.firstShard this.states
  let (touched, this) := { this with states := states }.stageAll
  let (_, this) ← this.submit touched
  checkpointTick { this with sync := countTick this.sync } now

def serveAll (this : Executor) : List (Now × Envelope) → Task Executor
  | [] => pure this
  | (now, envelope) :: rest => do
      let this ← this.serve now envelope
      this.serveAll rest

/-- `stop`, up to the wait for the writer's last sync. -/
def stop (this : Executor) (queued : List (Now × Envelope)) : Task Executor := do
  let this ← this.serveAll queued
  let (touched, this) := this.stageAll
  let (_, this) ← this.submit touched
  if this.sync.link then
    Task.toWriter (.stop this.index)
    pure { this with phase := .stopping }
  else
    let this ← this.releaseThrough this.sync.batch
    pure { this with phase := .ended }

/-- The end of `stop`: what no sync covered goes out as the refusal. -/
def ending (this : Executor) : Task Executor := do
  let this ← this.failAll
  pure { this with phase := .ended }

/-- A message of the writer, in the loop or while stopping. -/
def hear (this : Executor) (message : Progress) : Task Executor :=
  if this.phase = .stopping ∧ message = .stopped then
    this.ending
  else
    this.progress message

/-- The writer's channel closed, in the loop or while stopping. -/
def hearNothing (this : Executor) : Task Executor := do
  let after ← this.lost
  if this.phase = .stopping then after.ending else pure after

/-- What `stop` returned, once it has: whether the log ended intact. -/
def stopReturned (this : Executor) : Option Bool :=
  if this.phase = .ended then some (!this.sync.isRefusing) else none

end Executor

end Seedstone
