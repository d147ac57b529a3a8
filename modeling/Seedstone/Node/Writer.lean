import Seedstone.Node.Executor
import Mathlib.Data.List.Sort

/-!
# The writer

`Writer` of `writer.rs`: the one task that owns the segment, its syncs and the
directory's garbage.  It waits at three places, the sync of a rotation and the
two of the stop; `WriterPhase` says where it stands, and each handler runs from
one await to the next.
-/

namespace Seedstone

/-- `WRITTEN_GRAIN`, in bytes. -/
def writtenGrain : Nat :=
  writerBudget / 4

/-- The node's open segment. -/
structure Segment where
  rotation : Nat
  attempted : Nat
  bytesWritten : Nat
  dirty : Bool
  syncFailed : Bool
deriving DecidableEq, Repr

/-- One executor, as the writer sees it.  `taken` and `settled` are ghost: the
batches received so far, and those written or dropped. -/
structure Lane where
  received : Option Nat
  written : Option Nat
  durable : Option Nat
  pendingBytes : Nat
  writtenBytes : Nat
  reportedBytes : Nat
  covered : Option Nat
  snapshotBytes : Option Nat
  nudged : Bool
  refusing : Bool
  stopped : Bool
  taken : Nat
  settled : Nat
deriving DecidableEq, Repr

def Lane.new : Lane where
  received := none
  written := none
  durable := none
  pendingBytes := 0
  writtenBytes := 0
  reportedBytes := 0
  covered := none
  snapshotBytes := none
  nudged := false
  refusing := false
  stopped := false
  taken := 0
  settled := 0

/-- A rotation that was closed, and what each executor last wrote into it. -/
structure Closed where
  rotation : Nat
  lastBatch : List (Option Nat)
  bytes : Nat
deriving DecidableEq, Repr

/-- Where the writer stands between two handlers: before its loop, in it, in
the middle of a drain, at one of its three awaits, at its end, or lost at an
await; `waits` is ghost: the syncs a lost writer no longer waits for. -/
inductive WriterPhase where
  | opened
  | idle
  | draining
  | rotating (flight : Flight)
  | lastFlight (frozen : List (Option Nat)) (flight : Flight)
  | lastSync (frozen : List (Option Nat)) (flight : Flight)
  | ended
  | lost (waits : List (List (Option Nat) × Flight))
deriving DecidableEq, Repr

namespace WriterPhase

/-- The syncs a phase waits for, with what each freezes. -/
def waits : WriterPhase → List (List (Option Nat) × Flight)
  | .rotating flight => [([], flight)]
  | .lastFlight frozen flight | .lastSync frozen flight => [(frozen, flight)]
  | .lost waits => waits
  | .opened | .idle | .draining | .ended => []

/-- Whether the writer's task is over. -/
def gone : WriterPhase → Bool
  | .ended | .lost _ => true
  | _ => false

end WriterPhase

structure Writer where
  generation : Nat
  cuts : List (Nat × Nat)
  policy : SyncPolicy
  segmentBytes : Nat
  config : CheckpointConfig
  segment : Segment
  lanes : List Lane
  staged : List Record
  inFlight : Option (List (Option Nat) × Flight)
  issuedAt : Nat
  syncWanted : Bool
  round : Nat
  closed : List Closed
  olderBytes : Nat
  phase : WriterPhase

namespace Writer

/-- What `open` returns, once the first segment is there. -/
def new (generation : Nat) (cuts : List (Nat × Nat)) (policy : SyncPolicy)
    (segmentBytes : Nat) (config : CheckpointConfig) (executors now olderBytes : Nat) :
    Writer where
  generation := generation
  cuts := cuts
  policy := policy
  segmentBytes := segmentBytes
  config := config
  segment := ⟨0, 0, 0, false, false⟩
  lanes := List.replicate executors Lane.new
  staged := []
  inFlight := none
  -- one interval before now, so that the first write is synced at once
  issuedAt :=
    if policy.minInterval.getD 0 ≤ now then now - policy.minInterval.getD 0 else now
  syncWanted := false
  round := 0
  closed := []
  olderBytes := olderBytes
  phase := .opened

def fileName (writer : Writer) : FileName :=
  .segment writer.generation writer.segment.rotation

def frozen (writer : Writer) : List (Option Nat) :=
  writer.lanes.map Lane.written

/-- A loop over the lanes: each is changed, and its executor may be told
something. -/
def tellLanes (tell : Nat → Lane → Option Progress × Lane) :
    Nat → List Lane → Task (List Lane)
  | _, [] => pure []
  | executor, lane :: lanes => do
      let (message, lane) := tell executor lane
      match message with
      | none => pure ()
      | some message => Task.toExecutor executor message
      let rest ← tellLanes tell (executor + 1) lanes
      pure (lane :: rest)

def tell (writer : Writer) (telling : Nat → Lane → Option Progress × Lane) :
    Task Writer := do
  let lanes ← tellLanes telling 0 writer.lanes
  pure { writer with lanes := lanes }

/-- `mark`: the sync about to be issued covers it. -/
def mark (writer : Writer) : Task (Bool × Writer) := do
  let ok ← Task.write writer.fileName [.syncMark]
  if ok then
    pure (true, { writer with segment := { writer.segment with
      bytesWritten := writer.segment.bytesWritten + Piece.syncMark.encodedLen } })
  else
    pure (false, writer)

/-- What `fail` does to a lane: dropped bytes count as consumed. -/
def failLane (fresh : Bool) (_executor : Nat) (lane : Lane) : Option Progress × Lane :=
  let told := fresh || decide (0 < lane.pendingBytes)
  (if told then some .fault else none,
    { lane with
      pendingBytes := 0
      writtenBytes := lane.writtenBytes + lane.pendingBytes
      received := lane.written
      refusing := lane.refusing || told
      settled := lane.taken })

/-- `fail`: the segment is never written again, what was staged is dropped, and
the round in flight is let go. -/
def fail (writer : Writer) : Task Writer := do
  let fresh := !writer.segment.syncFailed
  match writer.inFlight with
  | none => pure ()
  | some (_, flight) => Task.letGo flight
  tell { writer with
    segment := { writer.segment with syncFailed := true, dirty := false }
    staged := []
    inFlight := none } (failLane fresh)

def durableLane (round : Nat) (through : Option Nat) (lane : Lane) :
    Option Progress × Lane :=
  if pointLt lane.durable through then
    (some (.durable through lane.writtenBytes round),
      { lane with durable := through, reportedBytes := lane.writtenBytes })
  else
    (none, lane)

/-- `report_durable`: each executor whose covered batch advanced. -/
def reportDurable (writer : Writer) (covered : List (Option Nat)) : Task Writer :=
  writer.tell fun executor lane =>
    match covered[executor]? with
    | some through => durableLane writer.round through lane
    | none => (none, lane)

/-- `settle`: `Durable` through what the round froze, or the node's refusal. -/
def settle (writer : Writer) (covered : List (Option Nat)) (ok : Bool) : Task Writer :=
  if ok then writer.reportDurable covered else writer.fail

/-- `maybe_issue`: a sync of the segment, if one is due. -/
def maybeIssue (writer : Writer) (now : Nat) : Task Writer :=
  if writer.segment.syncFailed || writer.inFlight.isSome then
    pure writer
  else
    let cadence := if writer.segment.dirty then writer.policy.minInterval else none
    let asked := writer.syncWanted && cadence.isNone
    if cadence.isNone && !asked then
      pure writer
    else if cadence.any (fun interval => now - writer.issuedAt < interval) then
      pure writer
    else do
      let (ok, writer) ← mark { writer with syncWanted := false }
      if ok then
        let flight ← Task.syncLater writer.fileName
        pure { writer with
          segment := { writer.segment with dirty := false }
          round := writer.round + 1
          inFlight := some (writer.frozen, flight)
          issuedAt := now }
      else
        writer.fail

/-- Whether every executor's image covers its batches in a rotation. -/
def coveredByAll (lanes : List Lane) (closed : Closed) : Bool :=
  (lanes.zip closed.lastBatch).all fun (lane, last) =>
    last.all fun batch => lane.covered.any fun covered => batch ≤ covered

/-- The trigger of `nudge_if_due` for one lane. -/
def nudgeLane (writer : Writer) (executor : Nat) (lane : Lane) : Option Progress × Lane :=
  let retained := writer.olderBytes + (writer.closed.map Closed.bytes).sum
  let holdsOlder := decide (0 < writer.olderBytes) && lane.snapshotBytes.isNone
  let holdsFront := writer.closed.head?.any fun front =>
    (front.lastBatch[executor]?.getD none).any fun batch =>
      lane.covered.all fun covered => covered < batch
  let threshold := max writer.config.floor
    (min (writer.config.ratio * lane.snapshotBytes.getD 0) u64Max)
  if !lane.nudged && (holdsOlder || holdsFront) && decide (threshold < retained) then
    (some .nudge, { lane with nudged := true })
  else
    (none, lane)

def nudgeIfDue (writer : Writer) : Task Writer :=
  writer.tell writer.nudgeLane

/-- What was removed so far, and whether that is durable. -/
structure Removing where
  olderLeft : Bool
  unsynced : Bool
  current : Option Nat
  stoppedAfter : Option Nat
  files : Nat
deriving DecidableEq, Repr

/-- `remove`: the length is read first. -/
def removeFile (name : FileName) : Task Disk.Removal := do
  let _ ← Task.len name
  Task.remove name

/-- One file of the loop of `remove_older`, past the boundary between two
generations. -/
def removeOne (generation : Nat) (name : FileName) (state : Removing) : Task Removing := do
  match ← removeFile name with
  | .removed => pure { state with unsynced := true, files := state.files + 1 }
  | .notFound => pure state
  | .failed =>
    pure { state with olderLeft := true, stoppedAfter := some generation }

/-- The loop of `remove_older`: a generation's removals are made durable before
the next one's begin, and one not wholly removed keeps every newer one. -/
def removeLoop (roundClosed : Bool) :
    List (Nat × FileName) → Removing → Task Removing
  | [], state => pure state
  | (generation, name) :: rest, state => do
      if !roundClosed || state.stoppedAfter.any (fun stopped => stopped < generation) then
        removeLoop roundClosed rest { state with olderLeft := true }
      else if state.current ≠ some generation then
        let settled ← if state.unsynced then Task.syncDir else pure true
        if settled then
          let state ← removeOne generation name
            { state with unsynced := false, current := some generation }
          removeLoop roundClosed rest state
        else
          removeLoop roundClosed rest
            { state with stoppedAfter := state.current, olderLeft := true }
      else
        let state ← removeOne generation name state
        removeLoop roundClosed rest state

/-- The older generations' files among `names`, oldest generation first.  The source orders
those of one generation by name; here they stay as listed, which may be in any order. -/
def olderFiles (generation : Nat) (names : List FileName) : List (Nat × FileName) :=
  (names.filterMap fun name =>
    (name.generation?.filter fun older => older < generation).map fun older =>
      (older, name)).insertionSort fun first second => first.1 ≤ second.1

def removeOlder (writer : Writer) (names : List FileName) (roundClosed : Bool) :
    Task Removing :=
  removeLoop roundClosed (olderFiles writer.generation names)
    ⟨false, false, none, none, 0⟩

/-- The reporting executor's older snapshots of this generation. -/
def oldSnapshots (writer : Writer) (executor cycle : Nat) (names : List FileName) :
    List FileName :=
  names.filter fun name =>
    match name with
    | .snapshot generation owner this =>
      generation = writer.generation ∧ owner = executor ∧ this < cycle
    | _ => false

/-- Removes each of `names`, and counts those that went. -/
def removeAll : List FileName → Task Nat
  | [] => pure 0
  | name :: rest => do
      let removal ← removeFile name
      let others ← removeAll rest
      pure (others + if removal = .removed then 1 else 0)

/-- The closed rotations every executor has covered, a prefix, except rotation
`0` while an older generation's file remains: those that stay, and how many
went. -/
def removeClosed (generation : Nat) (lanes : List Lane) (olderLeft : Bool) :
    Bool → List Closed → Task (List Closed × Nat)
  | _, [] => pure ([], 0)
  | unsynced, closed :: rest => do
      if !coveredByAll lanes closed then
        pure (closed :: rest, 0)
      else if closed.rotation = 0 ∧ olderLeft then
        let (kept, files) ← removeClosed generation lanes olderLeft unsynced rest
        pure (closed :: kept, files)
      else
        let settled ← if unsynced then Task.syncDir else pure true
        if !settled then
          pure (closed :: rest, 0)
        else
          match ← removeFile (.segment generation closed.rotation) with
          | .removed =>
            let (kept, files) ← removeClosed generation lanes olderLeft false rest
            pure (kept, files + 1)
          | _ => pure (closed :: rest, 0)

/-- `compact`: removes what is redundant now. -/
def compact (writer : Writer) (executor cycle : Nat) : Task Writer := do
  let listed ← Task.list
  let names := listed.getD []
  let roundClosed := writer.lanes.all fun lane => lane.snapshotBytes.isSome
  let older ← writer.removeOlder names roundClosed
  let snapshots ← removeAll (writer.oldSnapshots executor cycle names)
  let (closed, rotations) ← removeClosed writer.generation writer.lanes older.olderLeft
    older.unsynced writer.closed
  let writer := { writer with
    olderBytes := if older.olderLeft then writer.olderBytes else 0
    closed := closed }
  if older.files + snapshots + rotations = 0 then
    pure writer
  else
    let _ ← Task.syncDir
    pure writer

def take (writer : Writer) : ToWriter → Task Writer
  | .submit executor batch records =>
    pure { writer with
      lanes := writer.lanes.modify executor fun lane => { lane with
        received := some batch
        pendingBytes := lane.pendingBytes + encodedLen records
        taken := batch + 1 }
      staged := writer.staged ++ records }
  | .covered executor cycle throughBatch snapshotBytes =>
    compact { writer with
      lanes := writer.lanes.modify executor fun lane => { lane with
        covered := pointMax lane.covered throughBatch
        snapshotBytes := some snapshotBytes
        nudged := false
        refusing := false } } executor cycle
  | .syncNow => pure { writer with syncWanted := true }
  | .stop executor =>
    pure { writer with
      lanes := writer.lanes.modify executor fun lane => { lane with stopped := true } }

/-- The open segment has nothing left to sync. -/
def clean (writer : Writer) : Writer :=
  { writer with segment := { writer.segment with dirty := false } }

/-- `take`, in the middle of a drain. -/
def draining (writer : Writer) (message : ToWriter) : Task Writer := do
  let writer ← writer.take message
  pure { writer with phase := .draining }

def createSegment (writer : Writer) (rotation : Nat) : Task Bool :=
  let name := FileName.segment writer.generation rotation
  (Task.create name).andThen <|
    (Task.write name [.segmentHeader ⟨writer.generation, rotation, writer.cuts⟩]).andThen <|
    Task.syncData name

/-- `rotate`, once the old file is synced: whether a clean segment is open. -/
def openNext (writer : Writer) : Task (Bool × Writer) := do
  let next := writer.segment.attempted + 1
  let writer := { writer with segment := { writer.segment with attempted := next } }
  let created ← (writer.createSegment next).andThen Task.syncDir
  if created then
    let writer ← nudgeIfDue { writer with
      segment := ⟨next, next, 0, false, false⟩
      closed := writer.closed ++
        [⟨writer.segment.rotation, writer.frozen, writer.segment.bytesWritten⟩] }
    pure (true, writer)
  else
    let writer ← writer.fail
    pure (false, writer)

def writtenLane (_executor : Nat) (lane : Lane) : Option Progress × Lane :=
  let lane := { lane with
    written := lane.received
    writtenBytes := lane.writtenBytes + lane.pendingBytes
    pendingBytes := 0
    settled := lane.taken }
  if writtenGrain ≤ lane.writtenBytes - lane.reportedBytes then
    (some (.written lane.writtenBytes), { lane with reportedBytes := lane.writtenBytes })
  else
    (none, lane)

/-- `write_staged`, once a clean segment is open. -/
def writeOut (writer : Writer) : Task Writer := do
  let ok ← Task.write writer.fileName (writer.staged.map Piece.record)
  if ok then
    tell { writer with
      staged := []
      segment := { writer.segment with
        bytesWritten := writer.segment.bytesWritten + encodedLen writer.staged
        dirty := true } } writtenLane
  else
    writer.fail

def needsRotation (writer : Writer) : Bool :=
  writer.segment.syncFailed || decide (writer.segmentBytes ≤ writer.segment.bytesWritten)

/-- The end of `last_round`: each executor may end. -/
def sayStopped (writer : Writer) : Task Writer := do
  let writer ← writer.tell fun _ lane => (some .stopped, lane)
  pure { writer with phase := .ended }

/-- `last_round`, once no round is in flight. -/
def lastSyncOf (writer : Writer) : Task Writer :=
  if writer.segment.dirty && !writer.segment.syncFailed then do
    let (ok, writer) ← writer.mark
    if ok then
      let flight ← Task.syncLater writer.fileName
      pure { writer with
        round := writer.round + 1
        phase := .lastSync writer.frozen flight }
    else
      let writer ← writer.fail
      writer.sayStopped
  else
    writer.sayStopped

def lastRound (writer : Writer) : Task Writer :=
  match writer.inFlight with
  | some (frozen, flight) =>
    pure { writer with inFlight := none, phase := .lastFlight frozen flight }
  | none => writer.lastSyncOf

/-- What follows a drain's write. -/
def afterWrite (writer : Writer) (now : Nat) : Task Writer := do
  let writer ← maybeIssue { writer with phase := .idle } now
  if writer.lanes.all Lane.stopped then writer.lastRound else pure writer

/-- `write_staged` from the swap on. -/
def rotateAndWrite (writer : Writer) (now : Nat) : Task Writer := do
  let (ok, writer) ← writer.openNext
  let writer ← if ok then writer.writeOut else pure writer
  writer.afterWrite now

/-- The end of a drain: `write_staged`, up to the await of a rotation's sync. -/
def flush (writer : Writer) (now : Nat) : Task Writer :=
  if writer.staged.isEmpty then
    writer.afterWrite now
  else if !writer.needsRotation then do
    let writer ← writer.writeOut
    writer.afterWrite now
  else if writer.segment.dirty && !writer.segment.syncFailed then do
    let (ok, writer) ← writer.mark
    if ok then
      let flight ← Task.syncLater writer.fileName
      pure { writer with phase := .rotating flight }
    else
      let writer ← writer.fail
      writer.afterWrite now
  else
    writer.rotateAndWrite now

/-- A sync the writer waits for has answered; what it did to the file is
already done. -/
def completed (writer : Writer) (ok : Bool) (now : Nat) : Task Writer :=
  match writer.phase with
  | .idle =>
    match writer.inFlight with
    | none => pure writer
    | some (covered, _) => do
        let writer ← settle { writer with inFlight := none } covered ok
        writer.maybeIssue now
  | .rotating _ =>
    if ok then
      writer.clean.rotateAndWrite now
    else do
      let writer ← writer.fail
      writer.afterWrite now
  | .lastFlight covered _ => do
      let writer ← writer.settle covered ok
      writer.lastSyncOf
  | .lastSync covered _ => do
      let writer ←
        if ok then
          writer.clean.reportDurable covered
        else
          writer.fail
      writer.sayStopped
  | .opened | .draining | .ended | .lost _ => pure writer

/-- The sync the writer waits for, if it waits for one. -/
def awaited (writer : Writer) : Option Flight :=
  match writer.phase with
  | .idle => writer.inFlight.map Prod.snd
  | .rotating flight | .lastFlight _ flight | .lastSync _ flight => some flight
  | .opened | .draining | .ended | .lost _ => none

end Writer

end Seedstone
