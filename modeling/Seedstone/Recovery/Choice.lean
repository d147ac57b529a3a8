import Seedstone.Recovery.Evidence
import Seedstone.Recovery.Loading

/-!
# What a start picks

The image and the records of every shard, in terms of what the directory holds: the
stops its generations left, the newest image no newer stop lies below, and from its
base on, at each number, the newest record no newer stop killed.
-/

namespace Seedstone

namespace Recovery

/-- A snapshot pass 1 reads a header in. -/
def IsSnapshot (spec : RecoverSpec) (directory : Directory) (snap : SnapFile)
    (header : SnapshotHeader) : Prop :=
  ∃ entry ∈ snapshotEntries directory.entries,
    readHeader spec.shards entry.1 entry.2.1 entry.2.2 = .ok snap ∧ snap.header = some header

/-- A generation left an effect other than a `Rebase`, or a snapshot header. -/
def Served (spec : RecoverSpec) (directory : Directory) (generation : Nat) : Prop :=
  LeftEffect (recordsOf spec directory) generation ∨
    ∃ snap header, IsSnapshot spec directory snap header ∧ header.generation = generation

/-- Where a generation is known to have taken a shard up, or to have imaged it. -/
inductive IsStop (spec : RecoverSpec) (directory : Directory) (shard : Nat) :
    Nat → Nat → Prop where
  | rebase {logged : Logged} (read : logged ∈ bucketOf (recordsOf spec directory) shard)
      (rebase : logged.effect = .rebase) :
      IsStop spec directory shard logged.generation logged.seq
  | cut {generation number : Nat} (read : (shard, generation, number) ∈ cutsOf spec directory)
      (served : Served spec directory generation) :
      IsStop spec directory shard generation number
  | base {snap : SnapFile} {header : SnapshotHeader} {base : Nat}
      (read : IsSnapshot spec directory snap header) (listed : (shard, base) ∈ header.bases) :
      IsStop spec directory shard header.generation base

/-- No newer generation has a stop at or below a record's number. -/
def Live (spec : RecoverSpec) (directory : Directory) (shard : Nat) (logged : Logged) : Prop :=
  ∀ generation number, IsStop spec directory shard generation number →
    logged.generation < generation → logged.seq < number

open Classical in
/-- A shard's live records, in the order they are read. -/
noncomputable def liveRecords (spec : RecoverSpec) (directory : Directory) (shard : Nat) :
    List Logged :=
  (bucketOf (recordsOf spec directory) shard).filter fun logged =>
    Live spec directory shard logged

/-- An image of a shard: the snapshot, its header and the base it gives the shard. -/
structure Image where
  snap : SnapFile
  header : SnapshotHeader
  base : Nat

namespace Image

/-- By generation and cycle. -/
def NotOlder (first second : Image) : Prop :=
  second.header.generation < first.header.generation ∨
    second.header.generation = first.header.generation ∧ second.header.cycle ≤ first.header.cycle

/-- The number a replay starts at. -/
def start (image : Option Image) : Nat :=
  (image.map Image.base).getD 0

/-- The keyspace an image describes. -/
def keyspace (mode : ReaderMode) (shard : Nat) : Option Image → Keyspace
  | none => .empty
  | some image => pictured (imageEntries mode image.snap.stored image.header shard)

end Image

variable [SipHasher]

/-- An image that reads as usable, with no stop of a newer generation strictly below its
base. -/
structure Eligible (spec : RecoverSpec) (directory : Directory) (shard : Nat) (image : Image) :
    Prop where
  snapshot : IsSnapshot spec directory image.snap image.header
  listed : (shard, image.base) ∈ image.header.bases
  usable : verdictOf spec image.snap.stored image.header = .ok .usable
  standing : ∀ generation number, IsStop spec directory shard generation number →
    image.header.generation < generation → image.base ≤ number

/-- The newest eligible image, or none where none is. -/
inductive Chosen (spec : RecoverSpec) (directory : Directory) (shard : Nat) :
    Option Image → Prop where
  | none (nothing : ∀ image, ¬ Eligible spec directory shard image) :
      Chosen spec directory shard none
  | newest {image : Image} (eligible : Eligible spec directory shard image)
      (newest : ∀ other, Eligible spec directory shard other → image.NotOlder other) :
      Chosen spec directory shard (some image)

/-- What a start gives a shard. -/
structure Picked (spec : RecoverSpec) (directory : Directory) (recovered : Recovered)
    (shard : Nat) (image : Option Image) (applied : List Logged) (state : RecoveredShard) :
    Prop where
  chosen : Chosen spec directory shard image
  gapless : Gapless (liveRecords spec directory shard) (Image.start image) applied
  answered : recovered.shards[shard]? = some state
  seq : state.seq = Image.start image + applied.length
  contents : state.dict.contents = (Effect.actAll (Image.keyspace spec.reader shard image)
    (applied.map Logged.effect)).resolve spec.now
  imaged : state.imageUnixMillis = image.map fun image => image.header.unixMillis
  truncated : ∀ cut : ShardTruncation, cut.shard = shard →
    (cut ∈ recovered.report.truncated ↔ 0 < cut.discarded ∧
      cut = ⟨shard, applied.length, (above (liveRecords spec directory shard)
        (Image.start image + applied.length)).length⟩)

section

variable {snap : SnapFile} {header : SnapshotHeader}

omit [SipHasher]

/-- A header that was read is the one its file is named for. -/
theorem readHeader_header {shards : Nat} {name : Bytes} {stored : Stored}
    {fromName : Nat × Nat × Nat}
    (read : readHeader shards name stored fromName = .ok snap)
    (found : snap.header = some header) :
    snap.fromName = (header.generation, header.executor, header.cycle) ∧
      sound shards header.bases = true := by
  unfold readHeader at read
  split at read
  · split at read
    · cases read
      cases found
    · next same =>
        split at read
        · next sound =>
            cases read
            cases found
            exact ⟨(not_not.mp same).symm, sound⟩
        · cases read
          cases found
  · cases read
  · cases read
  all_goals
    cases read
    cases found

variable {spec : RecoverSpec} {directory : Directory} {snaps : List SnapFile}

theorem mem_readHeaders (read : readHeaders spec.shards directory.entries = .ok snaps)
    (snap : SnapFile) :
    snap ∈ snaps ↔ ∃ entry ∈ snapshotEntries directory.entries,
      readHeader spec.shards entry.1 entry.2.1 entry.2.2 = .ok snap := by
  unfold readHeaders at read
  obtain ⟨found, each, sorted⟩ := Fallible.exists_of_bind_eq_ok read
  cases sorted
  rw [List.mem_insertionSort, Fallible.mem_of_mapM_eq_ok each]

theorem isSnapshot_iff (read : readHeaders spec.shards directory.entries = .ok snaps) :
    IsSnapshot spec directory snap header ↔ snap ∈ snaps ∧ snap.header = some header := by
  rw [mem_readHeaders read]
  unfold IsSnapshot
  constructor
  · rintro ⟨entry, member, reads, found⟩
    exact ⟨⟨entry, member, reads⟩, found⟩
  · rintro ⟨⟨entry, member, reads⟩, found⟩
    exact ⟨entry, member, reads, found⟩

theorem IsSnapshot.age (snapshot : IsSnapshot spec directory snap header) :
    snap.age = (header.generation, header.cycle) := by
  obtain ⟨entry, -, reads, found⟩ := snapshot
  unfold SnapFile.age
  rw [(readHeader_header reads found).1]

theorem IsSnapshot.nodup (snapshot : IsSnapshot spec directory snap header) :
    (header.bases.map Prod.fst).Nodup := by
  obtain ⟨entry, -, reads, found⟩ := snapshot
  have sound := (readHeader_header reads found).2
  unfold Recovery.sound at sound
  rw [Bool.and_eq_true, decide_eq_true_eq] at sound
  exact sound.2

instance : Std.Refl SnapFile.NotOlder :=
  ⟨fun _ => Or.inr ⟨rfl, Nat.le_refl _⟩⟩

instance : Std.Total SnapFile.NotOlder :=
  ⟨fun first second => by
    unfold SnapFile.NotOlder
    omega⟩

instance : IsTrans SnapFile SnapFile.NotOlder :=
  ⟨fun first second third one two => by
    unfold SnapFile.NotOlder at *
    omega⟩

theorem readHeaders_sorted (read : readHeaders spec.shards directory.entries = .ok snaps) :
    snaps.Pairwise SnapFile.NotOlder := by
  unfold readHeaders at read
  obtain ⟨found, _, sorted⟩ := Fallible.exists_of_bind_eq_ok read
  cases sorted
  exact List.pairwise_insertionSort SnapFile.NotOlder found

/-- The stops the code collects are the stops there are. -/
theorem mem_rebases (read : readHeaders spec.shards directory.entries = .ok snaps)
    {scan : Scan} (scanned : scanned spec directory snaps = .ok scan)
    (shard generation number : Nat) :
    (generation, number) ∈ scan.rebases snaps shard ↔
      IsStop spec directory shard generation number := by
  have sees := scanned_sees scanned
  have served : ∀ generation, Served spec directory generation ↔
      generation ∈ scan.served ∨
        ∃ header ∈ snaps.filterMap SnapFile.header, header.generation = generation := by
    intro generation
    unfold Served
    rw [sees.served]
    simp only [isSnapshot_iff read, List.mem_filterMap]
    constructor
    · rintro (left | ⟨snap, header, found, rfl⟩)
      · exact .inl left
      · exact .inr ⟨header, ⟨snap, found⟩, rfl⟩
    · rintro (left | ⟨header, ⟨snap, found⟩, rfl⟩)
      · exact .inl left
      · exact .inr ⟨snap, header, found, rfl⟩
  unfold Scan.rebases
  dsimp only
  rw [List.mem_append, List.mem_append, sees.buckets]
  constructor
  · rintro ((rebase | cut) | base)
    · obtain ⟨logged, member, found⟩ := List.mem_filterMap.mp rebase
      unfold Scan.rebaseOf at found
      split at found
      · next here =>
          cases found
          exact .rebase member here
      · cases found
    · obtain ⟨member, left⟩ := List.mem_filter.mp cut
      refine .cut ((sees.cuts shard generation number).mp member) ((served generation).mpr ?_)
      simpa only [Bool.or_eq_true, decide_eq_true_eq, List.any_eq_true] using left
    · obtain ⟨header, member, found⟩ := List.mem_flatMap.mp base
      obtain ⟨snap, inside, reads⟩ := List.mem_filterMap.mp member
      unfold Scan.basesOf at found
      obtain ⟨⟨other, base⟩, listed, same⟩ := List.mem_map.mp found
      obtain ⟨listed, here⟩ := List.mem_filter.mp listed
      cases same
      cases of_decide_eq_true here
      exact .base ((isSnapshot_iff read).mpr ⟨inside, reads⟩) listed
  · intro stop
    cases stop with
    | @rebase logged member rebase =>
      refine .inl (.inl (List.mem_filterMap.mpr ⟨logged, member, ?_⟩))
      exact if_pos rebase
    | cut member left =>
      refine .inl (.inr (List.mem_filter.mpr ⟨(sees.cuts ..).mpr member, ?_⟩))
      simpa only [Bool.or_eq_true, decide_eq_true_eq, List.any_eq_true] using
        (served generation).mp left
    | @base snap header base snapshot listed =>
      obtain ⟨inside, reads⟩ := (isSnapshot_iff read).mp snapshot
      refine .inr (List.mem_flatMap.mpr
        ⟨header, List.mem_filterMap.mpr ⟨snap, inside, reads⟩, ?_⟩)
      refine List.mem_map.mpr ⟨(shard, number), List.mem_filter.mpr ⟨listed, ?_⟩, rfl⟩
      exact decide_eq_true rfl

end

end Recovery

end Seedstone
