import Seedstone.Recovery.Images

/-!
# A start

The fourth pass replays each shard's tail over its image, the fifth removes what
nothing used, and `recover` is all five.
-/

namespace Seedstone

namespace Recovery

/-- Whether a record is at or above `start` and no newer generation made it dead. -/
def isLive (rebases : List (Nat × Nat)) (start : Nat) (logged : Logged) : Bool :=
  decide (start ≤ logged.seq) && !rebases.any fun (newer, from') =>
    decide (logged.generation < newer) && decide (from' ≤ logged.seq)

/-- By number, the newest generation first within one. -/
def Logged.NotAfter (first second : Logged) : Prop :=
  first.seq < second.seq ∨ first.seq = second.seq ∧ second.generation ≤ first.generation

instance : DecidableRel Logged.NotAfter :=
  fun first second => by
    unfold Logged.NotAfter
    infer_instance

/-- The loop of `prefix`: the records applied, the number expected next, how many came
after a gap, and the files that hold them. `expected` is a natural number where the
source's is a `u64`, so that applying a record numbered `2 ^ 64 - 1`, whose successor
does not fit a `u64`, is outside the model. -/
structure Prefix where
  records : List (Nat × Effect)
  expected : Nat
  discarded : Nat
  kept : List Nat
deriving DecidableEq, Repr

namespace Prefix

/-- One live record; below the number expected it is a duplicate. -/
def take (found : Prefix) (logged : Logged) : Prefix :=
  if 0 < found.discarded ∨ found.expected < logged.seq then
    { found with discarded := found.discarded + 1, kept := logged.file :: found.kept }
  else if logged.seq = found.expected then
    { found with
      records := found.records ++ [(logged.seq, logged.effect)]
      expected := found.expected + 1
      kept := logged.file :: found.kept }
  else
    found

end Prefix

/-- `prefix`: a shard's records up to the first missing number, and how many came after
it. -/
def gaplessPrefix (bucket : List Logged) (rebases : List (Nat × Nat)) (start : Nat) : Prefix :=
  let live := (bucket.filter (isLive rebases start)).insertionSort Logged.NotAfter
  live.foldl Prefix.take
    ⟨[], start, 0, (bucket.filter fun logged => logged.effect = .rebase).map Logged.file⟩

structure RecoveredShard where
  dict : Dict
  seq : Nat
  lossy : Bool
  cut : Bool
  imageUnixMillis : Option Nat

variable [SipHasher]

/-- A shard, and the prefix it was replayed from. -/
structure Tail where
  found : Prefix
  shard : RecoveredShard

/-- `replay_tails`, for one shard. -/
def replayTail (spec : RecoverSpec) (scan : Scan) (rebases : Nat → List (Nat × Nat))
    (chosen : Choosing) (shard : Nat) : Tail :=
  let base := (chosen.images shard).getD 0
  let found := gaplessPrefix (scan.buckets shard) (rebases shard) base
  let gap := decide (0 < found.discarded)
  let (dict, due) := chosen.building shard
  let (dict, seq) := replayInto dict base found.records spec.now due
  let shortOfRefused := (chosen.refused shard).any fun refused => seq < refused
  let lossy := scan.damaged shard || scan.unattributedLoss || shortOfRefused ||
    (gap && scan.anyLossHole)
  ⟨found, ⟨dict, seq, lossy, gap || lossy || scan.behindTear shard, chosen.times shard⟩⟩

def replayTails (spec : RecoverSpec) (scan : Scan) (rebases : Nat → List (Nat × Nat))
    (chosen : Choosing) : List Tail :=
  (List.range spec.shards).map (replayTail spec scan rebases chosen)

/-- A shard the report names as cut. -/
def truncation (tail : Tail × Nat) : Option ShardTruncation :=
  if 0 < tail.1.found.discarded then
    some ⟨tail.2, tail.1.found.records.length, tail.1.found.discarded⟩
  else
    none

/-- A refused snapshot stays if the log of a shard it was refused for stops short of its
base. -/
def keepUnfinished (shards : List RecoveredShard) (snap : SnapFile) : SnapFile :=
  { snap with
    damaged := snap.damaged || snap.unfinishedFor.any fun (shard, base) =>
      shards[shard]?.any fun recovered => recovered.seq < base }

/-- The names `remove_garbage` removes. -/
def garbage (snaps : List SnapFile) (segments : List SegmentFile) (kept : List Nat)
    (unread : Nat → Bool) : List Bytes :=
  (snaps.filter fun snap => !snap.used && !snap.damaged).map SnapFile.name ++
    (segments.zipIdx.filter fun (_, index) => !decide (index ∈ kept) && !unread index).map
      fun (file, _) => file.name

/-- `Recovery`, with the files removed. -/
structure Recovered where
  shards : List RecoveredShard
  report : Report
  removed : List Bytes

/-- The report of the whole start. -/
def reportOf (scan : Scan) (chosen : Choosing) (snaps : List SnapFile) (tails : List Tail)
    (removed : Nat) : Report :=
  { scan.report with
    applied := (tails.map fun tail => tail.found.records.length).sum
    discarded := (tails.map fun tail => tail.found.discarded).sum
    truncated := tails.zipIdx.filterMap truncation
    snapshotsUsed := chosen.snapshotsUsed
    snapshotsRefused := chosen.snapshotsRefused +
      (snaps.filter fun snap => snap.header.isNone).length
    filesRemoved := removed }

/-- What pass 2 reads. -/
def scanned (spec : RecoverSpec) (directory : Directory) (snaps : List SnapFile) :
    Except Halt Scan := do
  let segments := segmentFiles directory.entries
  let start := Scan.new (tearIndex segments directory.counter) (snaps.any SnapFile.damaged)
  let scan ← start.segments spec.shards spec.reader segments
  pure scan.chargeHoles

def recover (spec : RecoverSpec) (directory : Directory) : Except Halt Recovered := do
  let snaps ← readHeaders spec.shards directory.entries
  let scan ← scanned spec directory snaps
  let rebases := scan.rebases snaps
  let (chosen, read) ← readImages spec rebases snaps (.begin spec.seed)
  let tails := replayTails spec scan rebases chosen
  let shards := tails.map Tail.shard
  let unused := garbage (read.map (keepUnfinished shards)) (segmentFiles directory.entries)
    (tails.flatMap fun tail => tail.found.kept) scan.unread
  let removed := unused.filter directory.removes
  pure ⟨shards, reportOf scan chosen snaps tails removed.length, removed⟩

end Recovery

end Seedstone
