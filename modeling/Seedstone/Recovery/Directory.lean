import Seedstone.Log.Files
import Seedstone.Log.Names
import Mathlib.Data.List.Sort

/-!
# What a start finds

The directory `wal/` as `recovery.rs` reads it, what a start asks for and what it
answers, and the first pass: every snapshot's header, and the segments in the order
they are read.
-/

namespace Seedstone

namespace Recovery

/-- A file: its length and its bytes, where the disk gives them. -/
structure Stored where
  len : Option Nat
  source : Option Source

/-- A file that reads as it was written. -/
def Stored.whole (bytes : Bytes) : Stored :=
  ⟨some bytes.length, some ⟨bytes, false⟩⟩

/-- A directory in the order it is listed, with the counter `read_generation` finds in
it.  `removes` says which removals succeed. -/
structure Directory where
  entries : List (Bytes × Stored)
  counter : Option Nat
  removes : Bytes → Bool

/-- `RecoverSpec`; the number of shards is a `u16`. -/
structure RecoverSpec where
  shards : Nat
  shardsFit : shards < 65536
  reader : ReaderMode
  trustUnfinished : Bool
  seed : DictSeed
  now : Now

/-- Why a start ends without an answer: another build's file, or a reader that fails. -/
inductive Halt where
  | newerVersion (name : Bytes) (version : UInt8)
  | olderVersion (name : Bytes) (version : UInt8)
  | panicked
  | stuck
deriving DecidableEq, Repr

structure ShardTruncation where
  shard : Nat
  applied : Nat
  discarded : Nat
deriving DecidableEq, Repr

/-- `Report`, without the times. -/
structure Report where
  segments : Nat
  records : Nat
  applied : Nat
  discarded : Nat
  malformed : Nat
  damageBytes : Nat
  holes : Nat
  tornBytes : Nat
  abandonedSegments : Nat
  truncated : List ShardTruncation
  snapshotsUsed : Nat
  snapshotsRefused : Nat
  filesRemoved : Nat
deriving DecidableEq, Repr

def Report.none : Report :=
  ⟨0, 0, 0, 0, 0, 0, 0, 0, 0, [], 0, 0, 0⟩

/-- Points that name shards of the node, each once. -/
def sound (shards : Nat) (points : List (Nat × Nat)) : Bool :=
  points.all (fun point => point.1 < shards) && (points.map Prod.fst).Nodup

def headerChunk : Nat := 16 * 1024

/-- `SnapFile`; `fromName` is what `parse_snapshot_name` reads in its name. -/
structure SnapFile where
  name : Bytes
  stored : Stored
  fromName : Nat × Nat × Nat
  header : Option SnapshotHeader
  used : Bool
  damaged : Bool
  unfinishedFor : List (Nat × Nat)

namespace SnapFile

/-- Generation and cycle. -/
def age (snap : SnapFile) : Nat × Nat :=
  (snap.fromName.1, snap.fromName.2.2)

/-- Newest first. -/
def NotOlder (first second : SnapFile) : Prop :=
  second.age.1 < first.age.1 ∨ second.age.1 = first.age.1 ∧ second.age.2 ≤ first.age.2

instance : DecidableRel NotOlder :=
  fun first second => by
    unfold NotOlder
    infer_instance

/-- A file pass 1 took `header` from. -/
def found (name : Bytes) (stored : Stored) (fromName : Nat × Nat × Nat)
    (header : Option SnapshotHeader) (damaged : Bool) : SnapFile :=
  ⟨name, stored, fromName, header, false, damaged, []⟩

end SnapFile

/-- `read_fully`: an error ends it as the end of the file does. -/
def readFully (source : Option Source) (want : Nat) : Bytes :=
  match source with
  | some src => src.bytes.take want
  | none => []

/-- The header of one snapshot. -/
def readHeader (shards : Nat) (name : Bytes) (stored : Stored) (fromName : Nat × Nat × Nat) :
    Except Halt SnapFile :=
  match SnapshotHeader.decode (readFully stored.source headerChunk) with
  | .ok header =>
    if (header.generation, header.executor, header.cycle) ≠ fromName then
      .ok (.found name stored fromName none false)
    else if sound shards header.bases then
      .ok (.found name stored fromName (some header) false)
    else
      .ok (.found name stored fromName none true)
  | .error (.newerVersion version) => .error (.newerVersion name version)
  | .error (.olderVersion version) => .error (.olderVersion name version)
  | .error .short | .error .badMagic | .error .badChecksum =>
    .ok (.found name stored fromName none true)

/-- The snapshots among the entries, with what their names say. -/
def snapshotEntries (entries : List (Bytes × Stored)) :
    List (Bytes × Stored × (Nat × Nat × Nat)) :=
  entries.filterMap fun (name, stored) =>
    (parseSnapshotName name).map fun fromName => (name, stored, fromName)

/-- `read_headers`: every snapshot, newest first. -/
def readHeaders (shards : Nat) (entries : List (Bytes × Stored)) :
    Except Halt (List SnapFile) := do
  let snaps ← (snapshotEntries entries).mapM fun (name, stored, fromName) =>
    readHeader shards name stored fromName
  pure (snaps.insertionSort SnapFile.NotOlder)

structure SegmentFile where
  generation : Nat
  rotation : Nat
  name : Bytes
  stored : Stored

namespace SegmentFile

/-- By generation, rotation and name. -/
def NotLater (first second : SegmentFile) : Prop :=
  first.generation < second.generation ∨
    first.generation = second.generation ∧ (first.rotation < second.rotation ∨
      first.rotation = second.rotation ∧ first.name ≤ second.name)

instance : DecidableRel NotLater :=
  fun first second => by
    unfold NotLater
    infer_instance

end SegmentFile

/-- What a segment's name says; the previous layout's names are read too. -/
def parseAnySegmentName (name : Bytes) : Option (Nat × Nat) :=
  (parseSegmentName name).or ((parseName name segSuffix).map fun (generation, _, rotation) =>
    (generation, rotation))

def segmentFiles (entries : List (Bytes × Stored)) : List SegmentFile :=
  (entries.filterMap fun (name, stored) =>
    (parseAnySegmentName name).map fun (generation, rotation) =>
      (⟨generation, rotation, name, stored⟩ : SegmentFile)).insertionSort SegmentFile.NotLater

/-- The segment a tear can be in: the last, if its generation is the counter's. -/
def tearIndex (segments : List SegmentFile) (counter : Option Nat) : Option Nat :=
  (segments.getLast?.filter fun file => some file.generation = counter).map
    fun _ => segments.length - 1

end Recovery

end Seedstone
