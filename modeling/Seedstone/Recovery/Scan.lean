import Seedstone.Recovery.Directory

/-!
# The second pass of a start

`Scan` of `recovery.rs`: every segment in order, its intact records bucketed by shard,
its damage sorted into a crash's tear and loss, and what both say of each shard.
-/

namespace Seedstone

namespace Recovery

/-- A record of a bucket: its number, the generation and the file it came from, and
its effect. -/
structure Logged where
  seq : Nat
  generation : Nat
  file : Nat
  effect : Effect
deriving DecidableEq, Repr

/-- `Scan`; the vectors over shards and over files are functions. -/
structure Scan where
  report : Report
  buckets : Nat → List Logged
  cuts : Nat → List (Nat × Nat)
  served : List Nat
  damaged : Nat → Bool
  position : Nat
  last : Nat → Option (Nat × Nat)
  lastLossHole : Option Nat
  anyLossHole : Bool
  lastTearHole : Option Nat
  behindTear : Nat → Bool
  tearIndex : Option Nat
  lastMarkEnd : Nat
  unattributedLoss : Bool
  unread : Nat → Bool
  version : UInt8

namespace Scan

/-- A scan to begin with; a snapshot header that was damage is a loss already. -/
def new (tearIndex : Option Nat) (headerDamage : Bool) : Scan where
  report := .none
  buckets := fun _ => []
  cuts := fun _ => []
  served := []
  damaged := fun _ => false
  position := 0
  last := fun _ => none
  lastLossHole := none
  anyLossHole := false
  lastTearHole := none
  behindTear := fun _ => false
  tearIndex := tearIndex
  lastMarkEnd := 0
  unattributedLoss := headerDamage
  unread := fun _ => false
  version := 0

/-- A segment, or the rest of one, that could not be read. -/
def abandon (scan : Scan) (index : Nat) : Scan :=
  { scan with
    report := { scan.report with abandonedSegments := scan.report.abandonedSegments + 1 }
    unattributedLoss := true
    unread := Function.update scan.unread index true }

/-- One cut point of a header of `generation`. -/
def takeCut (generation : Nat) (scan : Scan) (cut : Nat × Nat) : Scan :=
  let cuts := scan.cuts cut.1
  if (generation, cut.2) ∈ cuts then
    scan
  else
    { scan with cuts := Function.update scan.cuts cut.1 (cuts ++ [(generation, cut.2)]) }

/-- Whether an item is a sync mark. -/
def isMark (version : UInt8) (item : Item) : Bool :=
  item.shard = syncMarkShard && syncMarkVersion ≤ version && item.payload.isEmpty

/-- A record of `item`'s shard that decoded. -/
def bucketed (scan : Scan) (item : Item) (generation file : Nat) (effect : Effect) : Scan :=
  { scan with
    served :=
      if effect = .rebase ∨ generation ∈ scan.served then scan.served
      else scan.served ++ [generation]
    buckets := Function.update scan.buckets item.shard
      (scan.buckets item.shard ++ [⟨item.seq, generation, file, effect⟩]) }

/-- A record of `item`'s shard that this build cannot read. -/
def malformed (scan : Scan) (item : Item) (file : Nat) : Scan :=
  { scan with
    report := { scan.report with malformed := scan.report.malformed + 1 }
    damaged := Function.update scan.damaged item.shard true
    unread := Function.update scan.unread file true }

/-- The position of the record of `item`'s shard with the highest number. -/
def lastOf (scan : Scan) (item : Item) : Option (Nat × Nat) :=
  if (scan.last item.shard).all fun (seq, _) => seq ≤ item.seq then
    some (item.seq, scan.position)
  else
    scan.last item.shard

/-- `item`: one intact record. -/
def item (shards generation file : Nat) (scan : Scan) (item : Item) : Scan :=
  if isMark scan.version item then
    { scan with lastMarkEnd := item.stop }
  else
    let counted := { scan with
      report := { scan.report with records := scan.report.records + 1 }
      position := scan.position + 1 }
    if shards ≤ item.shard then
      { counted with
        report := { counted.report with malformed := counted.report.malformed + 1 } }
    else
      let placed := { counted with last := Function.update scan.last item.shard (scan.lastOf item) }
      match Effect.decode item.payload with
      | some effect => placed.bucketed item generation file effect
      | none => placed.malformed item file

/-- Damage, as position, start and bytes. -/
structure Hole where
  position : Nat
  start : Nat
  bytes : Nat
deriving DecidableEq, Repr

/-- One hole of `classify`; `tear` says whether the segment can hold a tear. -/
def classifyHole (tear : Bool) (scan : Scan) (hole : Hole) : Scan :=
  if tear && scan.lastMarkEnd ≤ hole.start then
    { scan with
      report := { scan.report with tornBytes := scan.report.tornBytes + hole.bytes }
      lastTearHole := some hole.position }
  else
    { scan with lastLossHole := some hole.position, anyLossHole := true }

def classify (scan : Scan) (found : List Hole) (tear : Bool) : Scan :=
  found.foldl (classifyHole tear) scan

/-- The loop over a segment's records: the scan so far, the holes met, the end of the
record before and the damage counted by then. -/
structure Pass where
  scan : Scan
  holes : Nat
  found : List Hole
  boundary : Nat
  bytes : Nat

namespace Pass

def begin (scan : Scan) : Pass :=
  ⟨scan, 0, [], 0, 0⟩

/-- A hole entered since the record before lies where the next record is counted. -/
def foundBy (pass : Pass) (damage : Damage) : List Hole :=
  if pass.holes < damage.holes then
    pass.found ++ [⟨pass.scan.position, pass.boundary, damage.bytes - pass.bytes⟩]
  else
    pass.found

/-- A record, and the damage met by then. -/
def take (shards generation file : Nat) (pass : Pass) (read : Item × Damage) : Pass where
  scan := pass.scan.item shards generation file read.1
  holes := max pass.holes read.2.holes
  found := pass.foundBy read.2
  boundary := read.1.stop
  bytes := read.2.bytes

/-- The damage of the whole segment. -/
def foundInAll (pass : Pass) (damage : Damage) : List Hole :=
  if 0 < damage.truncatedTail then
    pass.foundBy damage ++ [⟨pass.scan.position, pass.boundary, damage.truncatedTail⟩]
  else
    pass.foundBy damage

/-- The damage in a scan's report, and whether the file is to be kept for it. -/
def reportDamage (scan : Scan) (index : Nat) (damage : Damage) : Scan :=
  { scan with
    report := { scan.report with
      damageBytes := scan.report.damageBytes + (damage.bytes + damage.truncatedTail)
      holes := scan.report.holes + damage.holes }
    unread :=
      if 0 < damage.bytes ∨ 0 < damage.holes ∨ 0 < damage.truncatedTail then
        Function.update scan.unread index true
      else
        scan.unread }

/-- The end of a segment; `failed` says whether a read did. -/
def finish (pass : Pass) (index : Nat) (failed : Bool) (damage : Damage) : Scan :=
  let scan := if failed then pass.scan.abandon index else pass.scan
  let scan := if damage.abandoned then scan.abandon index else scan
  let tear := decide (scan.tearIndex = some index) && syncMarkVersion ≤ scan.version &&
    !(failed || damage.abandoned)
  (reportDamage scan index damage).classify (pass.foundInAll damage) tear

end Pass

/-- What the reader gives of a segment's body. -/
abbrev Reading := List (Item × Damage) × Reader.Answer × Reader

/-- The records of a segment, once its header is read. -/
def body (scan : Scan) (shards generation index : Nat) (reading : Reading) :
    Except Halt Scan :=
  let pass := reading.1.foldl (Pass.take shards generation index) (.begin scan)
  match reading.2.1 with
  | .panicked => .error .panicked
  | .stuck => .error .stuck
  | .failed => .ok (pass.finish index true reading.2.2.damage)
  | .finished | .item _ => .ok (pass.finish index false reading.2.2.damage)

/-- What a segment's header says: nothing, where the file stops inside it, and damage
where it does not read. -/
inductive Opening where
  | empty
  | unreadable
  | readable (read : ReadHeader) (reading : Reading)

/-- A segment's header, and the records behind it. -/
def opening (shards : Nat) (mode : ReaderMode) (file : SegmentFile) : Except Halt Opening :=
  match file.stored.len, file.stored.source with
  | some len, some src =>
    match readSegmentHeader src len with
    | .ok (some (read, src)) =>
      if sound shards read.header.cuts then
        .ok (.readable read (Reader.new src (len - read.len) mode).readAll)
      else
        .ok .unreadable
    | .ok none => .ok .empty
    | .error (.newerVersion version) => .error (.newerVersion file.name version)
    | .error (.olderVersion version) => .error (.olderVersion file.name version)
    | .error .short | .error .badMagic | .error .badChecksum => .ok .unreadable
  | _, _ => .ok .unreadable

/-- One more segment. -/
def counted (scan : Scan) : Scan :=
  { scan with report := { scan.report with segments := scan.report.segments + 1 } }

/-- The cut points of a header, and a scan ready for the records behind it. -/
def headed (scan : Scan) (generation : Nat) (read : ReadHeader) : Scan :=
  { read.header.cuts.foldl (takeCut generation) scan with
    version := read.version
    lastMarkEnd := 0 }

/-- `segment`: reads one segment, the `index`th, into the buckets. -/
def segment (shards : Nat) (mode : ReaderMode) (scan : Scan) (file : SegmentFile)
    (index : Nat) : Except Halt Scan :=
  match opening shards mode file with
  | .error halt => .error halt
  | .ok .empty => .ok scan.counted
  | .ok .unreadable => .ok (scan.counted.abandon index)
  | .ok (.readable read reading) =>
    (scan.counted.headed file.generation read).body shards file.generation index reading

/-- Every segment, in order. -/
def segments (shards : Nat) (mode : ReaderMode) (scan : Scan) (files : List SegmentFile) :
    Except Halt Scan :=
  files.zipIdx.foldlM (fun scan (file, index) => scan.segment shards mode file index) scan

/-- Whether a hole may have taken records of a shard with nothing left to show for it. -/
def hides (last : Option (Nat × Nat)) (hole : Option Nat) : Bool :=
  hole.any fun hole => last.all fun (_, at') => at' < hole

def chargeHoles (scan : Scan) : Scan :=
  { scan with
    damaged := fun shard => scan.damaged shard || hides (scan.last shard) scan.lastLossHole
    behindTear := fun shard => scan.behindTear shard || hides (scan.last shard) scan.lastTearHole }

/-- Where a `Rebase` record stands. -/
def rebaseOf (logged : Logged) : Option (Nat × Nat) :=
  if logged.effect = .rebase then some (logged.generation, logged.seq) else none

/-- The bases of a shard in a snapshot's header. -/
def basesOf (shard : Nat) (header : SnapshotHeader) : List (Nat × Nat) :=
  (header.bases.filter fun (other, _) => other = shard).map fun (_, base) =>
    (header.generation, base)

/-- `rebases`: where each shard is known to have been cut. -/
def rebases (scan : Scan) (snaps : List SnapFile) (shard : Nat) : List (Nat × Nat) :=
  let headers := snaps.filterMap SnapFile.header
  let served := fun (generation : Nat) =>
    decide (generation ∈ scan.served) || headers.any fun header => header.generation = generation
  (scan.buckets shard).filterMap rebaseOf ++
    (scan.cuts shard).filter (fun (generation, _) => served generation) ++
    headers.flatMap (basesOf shard)

end Scan

end Recovery

end Seedstone
