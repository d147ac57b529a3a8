import Seedstone.Node.World

/-!
# The checkpoint

`SegmentCheckpoint` of `checkpoint.rs`: an executor's snapshot of its shards,
taken a budget at a time.  A cycle takes every shard's sequence number as its
base, scans the dicts into a file, waits until the log is durable through what
the executor had sent when the scan ended, and is finished by a footer and two
syncs.
-/

namespace Seedstone

structure CheckpointConfig where
  floor : Nat
  ratio : Nat
  bytesPerTick : Nat
deriving DecidableEq, Repr

/-- Where the executor's log stands at a tick. -/
structure LogPosition where
  bytes : Nat
  batch : Option Nat
  durable : Option Nat
deriving DecidableEq, Repr

/-- A snapshot became durable.  `bases` and `openedAfter` are ghost: the bases
of its cycle, and how often the checkpoint had been forced when it opened. -/
structure Completed where
  cycle : Nat
  throughBatch : Option Nat
  bytes : Nat
  ticks : Nat
  bases : List Nat
  openedAfter : Nat
deriving DecidableEq, Repr

structure Tick where
  completed : Option Completed
  faulted : Bool
  wantsSync : Bool
deriving DecidableEq, Repr

def Tick.none : Tick :=
  ⟨Option.none, false, false⟩

/-- What an ended scan's footer waits for. -/
structure Waiting where
  sent : Option Nat
  asked : Bool
deriving DecidableEq, Repr

/-- One cycle in progress; `file` says whether its file was created.
`openedAfter` is ghost. -/
structure Cycle where
  file : Bool
  number : Nat
  bases : List Nat
  cursors : List (Option Cursor)
  counts : List Nat
  buffer : List Piece
  bytes : Nat
  ticks : Nat
  waiting : Option Waiting
  footerWritten : Bool
  dirPending : Bool
  throughBatch : Option Nat
  openedUnix : Nat
  openedAfter : Nat
deriving DecidableEq, Repr

namespace Cycle

def fresh (number : Nat) (bases : List Nat) (throughBatch : Option Nat) : Cycle where
  file := false
  number := number
  bases := bases
  cursors := bases.map fun _ => some 0
  counts := bases.map fun _ => 0
  buffer := []
  bytes := 0
  ticks := 0
  waiting := none
  footerWritten := false
  dirPending := false
  throughBatch := throughBatch
  openedUnix := 0
  openedAfter := 0

def scannedAll (cycle : Cycle) : Bool :=
  cycle.cursors.all Option.isNone

end Cycle

/-- What one tick of an open cycle came to; `failed` is the `Err`. -/
inductive Step where
  | pending (ask : Bool)
  | durable
  | failed
deriving DecidableEq, Repr

/-- `forces` is ghost: how often `force` was called. -/
structure SegmentCheckpoint where
  generation : Nat
  executor : Nat
  config : CheckpointConfig
  cycle : Nat
  completed : Nat
  lastSnapshot : Nat
  openedAt : Nat
  forced : Bool
  nudged : Bool
  «open» : Option Cycle
  forces : Nat

namespace SegmentCheckpoint

def new (generation executor : Nat) (config : CheckpointConfig) : SegmentCheckpoint where
  generation := generation
  executor := executor
  config := config
  cycle := 0
  completed := 0
  lastSnapshot := 0
  openedAt := 0
  forced := false
  nudged := false
  «open» := none
  forces := 0

def isOpen (checkpoint : SegmentCheckpoint) : Bool :=
  checkpoint.open.isSome

/-- Bytes of live log at which the next cycle opens; the product saturates. -/
def threshold (checkpoint : SegmentCheckpoint) : Nat :=
  max checkpoint.config.floor
    (min (checkpoint.config.ratio * checkpoint.lastSnapshot) u64Max)

def openCycle (checkpoint : SegmentCheckpoint) (states : List (ShardState FileLog))
    (log : LogPosition) (unixMillis : Nat) : SegmentCheckpoint × Cycle :=
  let cycle : Cycle :=
    { Cycle.fresh checkpoint.cycle (states.map ShardState.seq) log.batch with
      openedUnix := unixMillis
      openedAfter := checkpoint.forces }
  ({ checkpoint with openedAt := log.bytes, cycle := checkpoint.cycle + 1 }, cycle)

/-- The name of the file of a cycle. -/
def fileName (checkpoint : SegmentCheckpoint) (cycle : Cycle) : FileName :=
  .snapshot checkpoint.generation checkpoint.executor cycle.number

/-- Per owned shard, its id and what `values` has for it. -/
def perShard (firstShard : Nat) (values : List Nat) : List (Nat × Nat) :=
  values.zipIdx.map fun value => (firstShard + value.2, value.1)

def header (checkpoint : SegmentCheckpoint) (firstShard : Nat) (cycle : Cycle) :
    SnapshotHeader where
  generation := checkpoint.generation
  executor := checkpoint.executor
  cycle := cycle.number
  unixMillis := cycle.openedUnix
  bases := perShard firstShard cycle.bases

/-- `ensure_file`: whether the cycle's file is there, header and directory
entry synced. -/
def ensureFile (checkpoint : SegmentCheckpoint) (firstShard : Nat) (cycle : Cycle) :
    Task (Bool × Cycle) :=
  if cycle.file then
    pure (true, cycle)
  else do
    let name := checkpoint.fileName cycle
    let header := checkpoint.header firstShard cycle
    let ok ← (Task.create name).andThen <|
      (Task.write name [.snapshotHeader header]).andThen <|
      (Task.syncData name).andThen Task.syncDir
    if ok then
      pure (true, { cycle with bytes := header.encodedLen, file := true })
    else
      pure (false, cycle)

/-- `restart`: the scan goes into a new file, with the same bases. -/
def restart (checkpoint : SegmentCheckpoint) (cycle : Cycle) :
    Task (SegmentCheckpoint × Cycle) := do
  let restarted : Cycle :=
    { Cycle.fresh checkpoint.cycle cycle.bases cycle.throughBatch with
      ticks := cycle.ticks
      openedUnix := cycle.openedUnix
      openedAfter := cycle.openedAfter }
  let _ ← Task.remove (checkpoint.fileName cycle)
  pure ({ checkpoint with cycle := checkpoint.cycle + 1 }, restarted)

/-- `drain`: writes whatever the buffer holds. -/
def drain (checkpoint : SegmentCheckpoint) (cycle : Cycle) : Task (Bool × Cycle) :=
  if cycle.buffer.isEmpty then
    pure (true, cycle)
  else do
    let ok ← Task.write (checkpoint.fileName cycle) cycle.buffer
    if ok then
      pure (true, { cycle with
        bytes := cycle.bytes + (cycle.buffer.map Piece.encodedLen).sum
        buffer := [] })
    else
      pure (false, cycle)

/-- What the footer waits for, if the log is not durable through all the image may hold.
-/
def logShortOfImage (log : LogPosition) (cycle : Cycle) : Option Waiting × Cycle :=
  let waiting := cycle.waiting.getD ⟨log.batch, false⟩
  let cycle := { cycle with waiting := some waiting }
  if waiting.sent ≠ cycle.throughBatch ∧ pointLt log.durable waiting.sent then
    (some waiting, cycle)
  else
    (none, cycle)

/-- `sync_footer`: the file, then the directory; a failed directory sync is
tried again. -/
def syncFooter (checkpoint : SegmentCheckpoint) (cycle : Cycle) :
    Task (Step × SegmentCheckpoint × Cycle) := do
  let ok ← Task.syncData (checkpoint.fileName cycle)
  if ok then
    let settled ← Task.syncDir
    if settled then
      pure (.durable, checkpoint, { cycle with dirPending := false })
    else
      pure (.failed, checkpoint, { cycle with dirPending := true })
  else
    let (checkpoint, cycle) ← checkpoint.restart cycle
    pure (.failed, checkpoint, cycle)

/-- The end of a scan: the footer is written once nothing is waited for; until
then the writer is asked, once, for the sync that is.  Whether it is asked, and
the cycle. -/
def endOfScan (firstShard : Nat) (log : LogPosition) (cycle : Cycle) : Bool × Cycle :=
  match logShortOfImage log cycle with
  | (some waiting, cycle) =>
    (!waiting.asked, { cycle with waiting := some { waiting with asked := true } })
  | (none, cycle) =>
    (false, { cycle with
      buffer := cycle.buffer ++
        [.footer cycle.number (perShard firstShard cycle.counts), .endOfLog]
      footerWritten := true })

/-- The bucket loop of `scan` over one dict: the entries met, the bytes spent,
and the cursor, `none` once it came back to `0`. -/
def scanShard (budget shard base : Nat) (now : Now) (dict : Dict) :
    Nat → Nat → Cursor → List Piece × Nat × Option Cursor
  | 0, spent, cursor => ([], spent, some cursor)
  | fuel + 1, spent, cursor =>
    if budget ≤ spent then
      ([], spent, some cursor)
    else
      let (items, next) := dict.scan cursor
      let pieces := items.map fun item =>
        Piece.record ⟨shard, base,
          .put item.1 item.2.value (now.deadlineMillis item.2.expiresAt)⟩
      let spent := spent + (pieces.map Piece.encodedLen).sum
      if next = 0 then
        (pieces, spent, none)
      else
        let (rest, spent, last) := scanShard budget shard base now dict fuel spent next
        (pieces ++ rest, spent, last)

/-- The shard loop of `scan`: the entries met, the cursors and the counts.  A
dict's walk takes at most one step per bucket. -/
def scanShards (budget : Nat) (now : Now) :
    Nat → Nat → List (ShardState FileLog) → List Nat → List (Option Cursor) → List Nat →
      List Piece × List (Option Cursor) × List Nat
  | shard, spent, _ :: states, _ :: bases, none :: cursors, count :: counts =>
    let (pieces, cursors, counts) :=
      scanShards budget now (shard + 1) spent states bases cursors counts
    (pieces, none :: cursors, count :: counts)
  | shard, spent, state :: states, base :: bases, some cursor :: cursors, count :: counts =>
    let (found, spent, last) := scanShard budget shard base now state.dict
      state.dict.old.length spent cursor
    let (pieces, cursors, counts) :=
      scanShards budget now (shard + 1) spent states bases cursors counts
    (found ++ pieces, last :: cursors, (count + found.length) :: counts)
  | _, _, _, _, cursors, counts => ([], cursors, counts)

/-- `scan`: up to the budget's worth of entries into the buffer. -/
def scan (checkpoint : SegmentCheckpoint) (firstShard : Nat)
    (states : List (ShardState FileLog)) (now : Now) (cycle : Cycle) : Cycle :=
  let (pieces, cursors, counts) := scanShards checkpoint.config.bytesPerTick now
    firstShard 0 states cycle.bases cycle.cursors cycle.counts
  { cycle with
    buffer := cycle.buffer ++ pieces
    cursors := cursors
    counts := counts }

/-- The failing end of a step: the file is given up. -/
def abandon (checkpoint : SegmentCheckpoint) (cycle : Cycle) :
    Task (Step × SegmentCheckpoint × Cycle) := do
  let (checkpoint, cycle) ← checkpoint.restart cycle
  pure (.failed, checkpoint, cycle)

/-- `step_inner`: one tick of an open cycle. -/
def stepInner (checkpoint : SegmentCheckpoint) (firstShard : Nat)
    (states : List (ShardState FileLog)) (now : Now) (log : LogPosition) (cycle : Cycle) :
    Task (Step × SegmentCheckpoint × Cycle) := do
  let (ok, cycle) ← checkpoint.ensureFile firstShard { cycle with ticks := cycle.ticks + 1 }
  if !ok then
    checkpoint.abandon cycle
  else if cycle.dirPending then
    let settled ← Task.syncDir
    if settled then
      pure (.durable, checkpoint, { cycle with dirPending := false })
    else
      pure (.failed, checkpoint, cycle)
  else if cycle.footerWritten then
    checkpoint.syncFooter cycle
  else
    let cycle := checkpoint.scan firstShard states now cycle
    let (ask, cycle) :=
      if cycle.scannedAll then endOfScan firstShard log cycle else (false, cycle)
    let (ok, cycle) ← checkpoint.drain cycle
    if !ok then
      checkpoint.abandon cycle
    else if cycle.footerWritten then
      checkpoint.syncFooter cycle
    else
      pure (.pending ask, checkpoint, cycle)

/-- `finish`: the shards are covered below the bases of the durable image. -/
def finish (checkpoint : SegmentCheckpoint) (states : List (ShardState FileLog))
    (cycle : Cycle) : Completed × SegmentCheckpoint × List (ShardState FileLog) :=
  let covered := fun (offset : Nat) (state : ShardState FileLog) =>
    match cycle.bases[offset]? with
    | some (base + 1) => { state with log := state.log.covered base }
    | _ => state
  (⟨cycle.number, cycle.throughBatch, cycle.bytes, cycle.ticks, cycle.bases,
      cycle.openedAfter⟩,
    { checkpoint with
      «open» := none
      lastSnapshot := cycle.bytes
      completed := checkpoint.completed + 1 },
    states.mapIdx covered)

/-- `step`, and what the tick makes of it. -/
def advance (checkpoint : SegmentCheckpoint) (firstShard : Nat)
    (states : List (ShardState FileLog)) (now : Now) (log : LogPosition) (cycle : Cycle) :
    Task (Tick × SegmentCheckpoint × List (ShardState FileLog)) := do
  let (step, checkpoint, cycle) ← checkpoint.stepInner firstShard states now log cycle
  match step with
  | .pending ask =>
    pure (⟨none, false, ask⟩, { checkpoint with «open» := some cycle }, states)
  | .durable =>
    let (done, checkpoint, states) := checkpoint.finish states cycle
    pure (⟨some done, false, false⟩, checkpoint, states)
  | .failed =>
    pure (⟨none, true, false⟩, { checkpoint with «open» := some cycle }, states)

/-- `tick`: a cycle opens when it was forced, asked for, or when the live log
has grown enough; an open one takes a step. -/
def tick (checkpoint : SegmentCheckpoint) (firstShard : Nat)
    (states : List (ShardState FileLog)) (now : Now) (log : LogPosition) :
    Task (Tick × SegmentCheckpoint × List (ShardState FileLog)) :=
  match checkpoint.open with
  | some cycle => checkpoint.advance firstShard states now log cycle
  | none =>
    if !checkpoint.forced && !checkpoint.nudged &&
        log.bytes - checkpoint.openedAt < checkpoint.threshold then
      pure (Tick.none, checkpoint, states)
    else
      let (checkpoint, cycle) := checkpoint.openCycle states log now.unixMillis
      advance { checkpoint with forced := false, nudged := false } firstShard states
        now log cycle

/-- `force`: an open cycle is given up, and the next tick opens one. -/
def force (checkpoint : SegmentCheckpoint) : Task SegmentCheckpoint := do
  match checkpoint.open with
  | none => pure ()
  | some cycle =>
    if cycle.file then
      let _ ← Task.remove (checkpoint.fileName cycle)
  pure { checkpoint with
    «open» := none
    forced := true
    forces := checkpoint.forces + 1 }

def nudge (checkpoint : SegmentCheckpoint) : SegmentCheckpoint :=
  { checkpoint with nudged := true }

end SegmentCheckpoint

end Seedstone
