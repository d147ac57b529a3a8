import Seedstone.Recovery.Scan
import Seedstone.Shard.Image

/-!
# The third pass of a start

Every snapshot, newest first: its entries go into the dicts of the shards that still
want an image, and at the file's end its footer says whether the image stands.
-/

namespace Seedstone

namespace Recovery

variable [SipHasher]

/-- `Building`: per shard its dict, and the image keys whose deadline had passed. -/
abbrev Building := Nat → Dict × List Bytes

inductive Verdict where
  | usable
  | unfinished
  | damaged
deriving DecidableEq, Repr

/-- One more entry of `shard`; none if the file does not list it. -/
def countEntry (shard : Nat) : List (Nat × Nat) → Option (List (Nat × Nat))
  | [] => none
  | (other, count) :: rest =>
    if other = shard then
      some ((other, count + 1) :: rest)
    else
      (countEntry shard rest).map ((other, count) :: ·)

/-- The loop over a snapshot's records. -/
structure ImagePass where
  clean : Bool
  footer : Option (List (Nat × Nat))
  counts : List (Nat × Nat)
  building : Building

namespace ImagePass

def begin (header : SnapshotHeader) (building : Building) : ImagePass :=
  ⟨true, none, header.bases.map fun (shard, _) => (shard, 0), building⟩

def takeEntry (now : Now) (wanted : List (Nat × Nat)) (pass : ImagePass) (item : Item) :
    ImagePass :=
  match countEntry item.shard pass.counts with
  | none => { pass with clean := false }
  | some counts =>
    match (Effect.decode item.payload).bind
      (Seedstone.takeEntry now (pass.building item.shard)) with
    | none => { pass with counts := counts, clean := false }
    | some taken =>
      if wanted.any fun (shard, _) => shard = item.shard then
        { pass with
          counts := counts
          building := Function.update pass.building item.shard taken }
      else
        { pass with counts := counts }

/-- One record; nothing more is read once the file is not clean. -/
def take (now : Now) (wanted : List (Nat × Nat)) (pass : ImagePass) (item : Item) : ImagePass :=
  if !pass.clean then
    pass
  else if pass.footer.isSome then
    { pass with clean := false }
  else if item.shard = footerShard then
    { pass with
      footer := decodeFooter item.payload
      clean := (decodeFooter item.payload).isSome }
  else
    pass.takeEntry now wanted item

/-- What the file comes to. -/
def verdict (trustUnfinished : Bool) (pass : ImagePass) (damage : Damage) : Verdict :=
  let whole := pass.clean && damage.bytes = 0 && damage.holes = 0 && !damage.abandoned
  match pass.footer with
  | none =>
    if trustUnfinished then .usable else if whole then .unfinished else .damaged
  | some counts =>
    if whole && damage.truncatedTail = 0 && counts = pass.counts then .usable else .damaged

end ImagePass

/-- `read_image`, from the records of the file's body. -/
def imageOf (spec : RecoverSpec) (header : SnapshotHeader) (wanted : List (Nat × Nat))
    (building : Building) (reading : Scan.Reading) : Except Halt (Verdict × Building) :=
  let pass := (reading.1.map Prod.fst).foldl (ImagePass.take spec.now wanted)
    (.begin header building)
  let damage := reading.2.2.damage
  if !pass.clean then
    .ok (pass.verdict spec.trustUnfinished damage, pass.building)
  else
    match reading.2.1 with
    | .panicked => .error .panicked
    | .stuck => .error .stuck
    | .failed =>
      .ok (({ pass with clean := false }).verdict spec.trustUnfinished damage, pass.building)
    | .finished | .item _ => .ok (pass.verdict spec.trustUnfinished damage, pass.building)

def readImage (spec : RecoverSpec) (stored : Stored) (header : SnapshotHeader)
    (wanted : List (Nat × Nat)) (building : Building) : Except Halt (Verdict × Building) :=
  match stored.len, stored.source with
  | some len, some src =>
    if src.bytes.length < header.encodedLen then
      .ok (.damaged, building)
    else
      imageOf spec header wanted building
        (Reader.new ⟨src.bytes.drop header.encodedLen, src.faulty⟩ (len - header.encodedLen)
          spec.reader).readAll
  | _, _ => .ok (.damaged, building)

def isDead (generation base : Nat) (rebases : List (Nat × Nat)) : Bool :=
  rebases.any fun (newer, at') => decide (generation < newer) && decide (at' < base)

/-- `Chosen`, the dicts being built, and the part of the report the pass fills. -/
structure Choosing where
  images : Nat → Option Nat
  times : Nat → Option Nat
  refused : Nat → Option Nat
  building : Building
  snapshotsUsed : Nat
  snapshotsRefused : Nat

namespace Choosing

/-- The dicts start empty, each under its shard's seed. -/
def begin (seed : DictSeed) : Choosing where
  images := fun _ => none
  times := fun _ => none
  refused := fun _ => none
  building := fun shard => (Dict.withSeed (shardSeed seed (BitVec.ofNat 16 shard)), [])
  snapshotsUsed := 0
  snapshotsRefused := 0

/-- The shards of a header that want its image. -/
def wanted (rebases : Nat → List (Nat × Nat)) (choosing : Choosing) (header : SnapshotHeader) :
    List (Nat × Nat) :=
  header.bases.filter fun (shard, base) =>
    (choosing.images shard).isNone && !isDead header.generation base (rebases shard)

/-- The base a list of points has for a shard. -/
def baseFor (points : List (Nat × Nat)) (shard : Nat) : Option Nat :=
  (points.find? fun (other, _) => other = shard).map Prod.snd

/-- The shards of `wanted` take the image. -/
def take (choosing : Choosing) (header : SnapshotHeader) (wanted : List (Nat × Nat))
    (building : Building) : Choosing where
  images := fun shard => (baseFor wanted shard).or (choosing.images shard)
  times := fun shard =>
    if (baseFor wanted shard).isSome then some header.unixMillis else choosing.times shard
  refused := choosing.refused
  building := building
  snapshotsUsed := choosing.snapshotsUsed + 1
  snapshotsRefused := choosing.snapshotsRefused

/-- The shards of `wanted` wait for an older image. -/
def refuse (choosing : Choosing) (wanted : List (Nat × Nat)) (building : Building) :
    Choosing where
  images := choosing.images
  times := choosing.times
  refused := fun shard => pointMax (choosing.refused shard) (baseFor wanted shard)
  building := fun shard =>
    if (baseFor wanted shard).isSome then ((building shard).1.clear, []) else building shard
  snapshotsUsed := choosing.snapshotsUsed
  snapshotsRefused := choosing.snapshotsRefused + 1

/-- One file of `read_images`. -/
def snap (spec : RecoverSpec) (rebases : Nat → List (Nat × Nat)) (choosing : Choosing)
    (file : SnapFile) : Except Halt (Choosing × SnapFile) :=
  match file.header with
  | none => .ok (choosing, file)
  | some header =>
    let wanted := choosing.wanted rebases header
    if wanted.isEmpty then
      .ok (choosing, file)
    else do
      let (verdict, building) ← readImage spec file.stored header wanted choosing.building
      if verdict = .usable then
        pure (choosing.take header wanted building, { file with used := true })
      else
        pure (choosing.refuse wanted building,
          { file with
            damaged := file.damaged || verdict = .damaged
            unfinishedFor := if verdict = .unfinished then wanted else file.unfinishedFor })

end Choosing

/-- `read_images`: the newest usable image of every shard. -/
def readImages (spec : RecoverSpec) (rebases : Nat → List (Nat × Nat)) :
    List SnapFile → Choosing → Except Halt (Choosing × List SnapFile)
  | [], choosing => .ok (choosing, [])
  | file :: files, choosing => do
      let (choosing, file) ← choosing.snap spec rebases file
      let (choosing, files) ← readImages spec rebases files choosing
      pure (choosing, file :: files)

end Recovery

end Seedstone
