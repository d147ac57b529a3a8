import Seedstone.Recovery.Choice

/-!
# That a start picks it

The loop over the snapshots ends with the first that stands, for every shard on its
own, and the replay over it with the gapless prefix of the live records.
-/

namespace Seedstone

namespace Recovery

variable {points : List (Nat × Nat)} {shard base : Nat} {header : SnapshotHeader}
  {file : SnapFile}

theorem baseFor_cons (other base shard : Nat) (points : List (Nat × Nat)) :
    Choosing.baseFor ((other, base) :: points) shard =
      if other = shard then some base else Choosing.baseFor points shard := by
  unfold Choosing.baseFor
  by_cases same : other = shard
  · rw [List.find?_cons_of_pos (by simpa using same), if_pos same]
    rfl
  · rw [List.find?_cons_of_neg (by simpa using same), if_neg same]

theorem mem_of_baseFor (found : Choosing.baseFor points shard = some base) :
    (shard, base) ∈ points := by
  obtain ⟨⟨other, number⟩, first, rfl⟩ := Option.map_eq_some_iff.mp found
  have same : other = shard := by simpa using List.find?_some first
  subst same
  exact List.mem_of_find?_eq_some first

theorem baseFor_isSome_iff :
    (Choosing.baseFor points shard).isSome = true ↔ shard ∈ points.map Prod.fst := by
  unfold Choosing.baseFor
  rw [Option.isSome_map, List.find?_isSome, ← ImagePass.any_eq_true_iff_mem]
  simp only [List.any_eq_true, decide_eq_true_eq]

theorem baseFor_of_mem (nodup : (points.map Prod.fst).Nodup)
    (listed : (shard, base) ∈ points) : Choosing.baseFor points shard = some base := by
  induction points with
  | nil => cases listed
  | cons point rest induction =>
    obtain ⟨other, number⟩ := point
    rw [List.map_cons, List.nodup_cons] at nodup
    rw [baseFor_cons]
    rcases List.mem_cons.mp listed with here | later
    · cases here
      exact if_pos rfl
    · have apart : other ≠ shard := by
        rintro rfl
        exact nodup.1 (List.mem_map.mpr ⟨_, later, rfl⟩)
      rw [if_neg apart]
      exact induction nodup.2 later

theorem baseFor_filter (nodup : (points.map Prod.fst).Nodup) (wants : Nat → Nat → Bool)
    (shard : Nat) :
    Choosing.baseFor (points.filter fun (shard, base) => wants shard base) shard =
      (Choosing.baseFor points shard).filter (wants shard) := by
  apply Option.ext
  intro base
  rw [Option.filter_eq_some_iff]
  constructor
  · intro found
    obtain ⟨listed, wanted⟩ := List.mem_filter.mp (mem_of_baseFor found)
    exact ⟨baseFor_of_mem nodup listed, wanted⟩
  · rintro ⟨found, wanted⟩
    exact baseFor_of_mem (nodup.sublist (List.filter_sublist.map Prod.fst))
      (List.mem_filter.mpr ⟨mem_of_baseFor found, wanted⟩)

variable [SipHasher]

/-- The image of a shard in a snapshot, if it stands. -/
def candidate (spec : RecoverSpec) (rebases : List (Nat × Nat)) (shard : Nat)
    (file : SnapFile) : Option Image :=
  file.header.bind fun header =>
    ((Choosing.baseFor header.bases shard).filter fun base =>
      !isDead header.generation base rebases).bind fun base =>
        if verdictOf spec file.stored header = .ok .usable then some ⟨file, header, base⟩ else none

/-- What the loop has of a shard once it picked `image`. -/
structure Standing (spec : RecoverSpec) (shard : Nat) (choosing : Choosing)
    (image : Option Image) : Prop where
  images : choosing.images shard = image.map Image.base
  times : choosing.times shard = image.map fun image => image.header.unixMillis
  building : ReplayHolds spec.now (choosing.building shard)
    (Image.keyspace spec.reader shard image)

theorem standing_begin (spec : RecoverSpec) (shard : Nat) :
    Standing spec shard (.begin spec.seed) none :=
  ⟨rfl, rfl, replayHolds_empty _ _⟩

section

variable {spec : RecoverSpec} {shard : Nat} {choosing : Choosing} {picked : Option Image}
  {rebases : Nat → List (Nat × Nat)} {wanted : List (Nat × Nat)}

omit [SipHasher] in
theorem baseFor_wanted (choosing : Choosing) (rebases : Nat → List (Nat × Nat))
    (shard : Nat) (nodup : (header.bases.map Prod.fst).Nodup) :
    Choosing.baseFor (choosing.wanted rebases header) shard =
      (Choosing.baseFor header.bases shard).filter fun base =>
        (choosing.images shard).isNone && !isDead header.generation base (rebases shard) :=
  baseFor_filter nodup
    (fun shard base =>
      (choosing.images shard).isNone && !isDead header.generation base (rebases shard)) shard

theorem Standing.unwanted (standing : Standing spec shard choosing picked)
    (unwanted : Choosing.baseFor wanted shard = none) (stored : Stored) (header : SnapshotHeader) :
    Standing spec shard
        (choosing.take header wanted (loaded spec stored header wanted choosing.building)) picked ∧
      Standing spec shard
        (choosing.refuse wanted (loaded spec stored header wanted choosing.building)) picked := by
  have absent : shard ∉ wanted.map Prod.fst := by
    rw [← baseFor_isSome_iff, unwanted]
    exact Bool.false_ne_true
  have same : loaded spec stored header wanted choosing.building shard =
      choosing.building shard := if_neg absent
  refine ⟨⟨?_, ?_, ?_⟩, ⟨standing.images, standing.times, ?_⟩⟩
  · simp only [Choosing.take, unwanted, Option.none_or]
    exact standing.images
  · simp only [Choosing.take, unwanted, Option.isSome_none, Bool.false_eq_true, if_false]
    exact standing.times
  · simp only [Choosing.take, same]
    exact standing.building
  · simp only [Choosing.refuse, unwanted, Option.isSome_none, Bool.false_eq_true, if_false, same]
    exact standing.building

theorem Standing.taken (standing : Standing spec shard choosing none)
    (wants : Choosing.baseFor wanted shard = some base) :
    Standing spec shard
      (choosing.take header wanted (loaded spec file.stored header wanted choosing.building))
      (some ⟨file, header, base⟩) := by
  have member : shard ∈ wanted.map Prod.fst := by
    rw [← baseFor_isSome_iff, wants]
    rfl
  refine ⟨?_, ?_, ?_⟩
  · simp only [Choosing.take, wants, Option.some_or, Option.map_some]
  · simp only [Choosing.take, wants, Option.isSome_some, if_true, Option.map_some]
  · have built : loaded spec file.stored header wanted choosing.building shard =
        (imageEntries spec.reader file.stored header shard).foldl (replayEffect spec.now)
          (choosing.building shard) := if_pos member
    simp only [Choosing.take, built]
    exact standing.building.foldl (imageEntries spec.reader file.stored header shard)

theorem Standing.refused {building : Building} (standing : Standing spec shard choosing none)
    (wants : Choosing.baseFor wanted shard = some base) :
    Standing spec shard (choosing.refuse wanted building) none := by
  refine ⟨standing.images, standing.times, ?_⟩
  simp only [Choosing.refuse, wants, Option.isSome_some, if_true]
  exact replayHolds_empty _ _

theorem Standing.snap {after : SnapFile} {next : Choosing}
    (standing : Standing spec shard choosing picked)
    (nodup : ∀ header, file.header = some header → (header.bases.map Prod.fst).Nodup)
    (read : choosing.snap spec rebases file = .ok (next, after)) :
    Standing spec shard next (picked.or (candidate spec (rebases shard) shard file)) := by
  unfold Choosing.snap at read
  cases found : file.header with
  | none =>
    rw [found] at read
    cases read
    have none : candidate spec (rebases shard) shard file = none := by
      unfold candidate
      rw [found]
      rfl
    rw [none, Option.or_none]
    exact standing
  | some header =>
    rw [found] at read
    dsimp only at read
    have wants := baseFor_wanted choosing rebases shard (nodup header found)
    have offers : candidate spec (rebases shard) shard file =
        ((Choosing.baseFor header.bases shard).filter fun base =>
          !isDead header.generation base (rebases shard)).bind fun base =>
            if verdictOf spec file.stored header = .ok .usable then
              some ⟨file, header, base⟩ else none := by
      unfold candidate
      rw [found]
      rfl
    generalize choosing.wanted rebases header = wanted at read wants
    -- what the shard wants decides: a shard with an image wants nothing
    have decided : (Choosing.baseFor wanted shard = none ∧
          picked.or (candidate spec (rebases shard) shard file) = picked) ∨
        ∃ base, Choosing.baseFor wanted shard = some base ∧ picked = none ∧
          candidate spec (rebases shard) shard file =
            if verdictOf spec file.stored header = .ok .usable then
              some ⟨file, header, base⟩ else none := by
      rw [wants, offers, standing.images]
      cases picked with
      | some image => simp
      | none =>
        simp only [Option.map_none, Option.isNone_none, Bool.true_and, Option.none_or]
        cases (Choosing.baseFor header.bases shard).filter fun base =>
          !isDead header.generation base (rebases shard) with
        | none => simp
        | some base => simp
    split at read
    · next empty =>
        cases read
        obtain ⟨-, same⟩ | ⟨base, wanting, -⟩ := decided
        · rw [same]
          exact standing
        · have none := List.isEmpty_iff.mp empty
          rw [none] at wanting
          cases wanting
    · obtain ⟨⟨verdict, building⟩, image, chosen⟩ := Fallible.exists_of_bind_eq_ok read
      rw [readImage_eq] at image
      cases judged : verdictOf spec file.stored header with
      | error halt =>
        rw [judged] at image
        cases image
      | ok reached =>
        rw [judged] at image
        cases image
        dsimp only at chosen
        obtain ⟨unwanted, same⟩ | ⟨base, wanting, rfl, offered⟩ := decided
        · rw [same]
          obtain ⟨kept, refused⟩ := standing.unwanted unwanted file.stored header
          split at chosen
          · cases chosen
            exact kept
          · cases chosen
            exact refused
        · rw [offered, Option.none_or, judged]
          split at chosen
          · next usable =>
              cases chosen
              subst usable
              rw [if_pos rfl]
              exact standing.taken wanting
          · next refused =>
              cases chosen
              rw [if_neg fun same => refused (Except.ok.inj same)]
              exact standing.refused wanting

theorem Standing.readImages {files read : List SnapFile} {last : Choosing}
    (standing : Standing spec shard choosing picked)
    (nodup : ∀ file ∈ files, ∀ header, file.header = some header →
      (header.bases.map Prod.fst).Nodup)
    (ran : Recovery.readImages spec rebases files choosing = .ok (last, read)) :
    Standing spec shard last
      (picked.or (files.findSome? (candidate spec (rebases shard) shard))) := by
  induction files generalizing choosing picked read with
  | nil =>
    cases ran
    rw [List.findSome?_nil, Option.or_none]
    exact standing
  | cons file rest induction =>
    unfold Recovery.readImages at ran
    obtain ⟨⟨next, after⟩, first, remaining⟩ := Fallible.exists_of_bind_eq_ok ran
    obtain ⟨⟨final, others⟩, later, done⟩ := Fallible.exists_of_bind_eq_ok remaining
    cases done
    have stands := standing.snap (nodup file (by simp)) first
    have ends := induction stands (fun other member => nodup other (by simp [member])) later
    rw [Option.or_assoc] at ends
    rw [List.findSome?_cons]
    cases offered : candidate spec (rebases shard) shard file with
    | none =>
      rw [offered, Option.none_or] at ends
      exact ends
    | some image =>
      rw [offered, Option.some_or] at ends
      exact ends

end

section

variable {spec : RecoverSpec} {directory : Directory} {snaps : List SnapFile} {scan : Scan}

omit [SipHasher] in
theorem isDead_eq_false_iff {generation : Nat} {rebases : List (Nat × Nat)} :
    isDead generation base rebases = false ↔
      ∀ newer number, (newer, number) ∈ rebases → generation < newer → base ≤ number := by
  unfold isDead
  rw [List.any_eq_false]
  constructor
  · intro none newer number member above
    have alive := none (newer, number) member
    simp only [Bool.and_eq_true, decide_eq_true_eq, not_and, Nat.not_lt] at alive
    exact alive above
  · rintro none ⟨newer, number⟩ member
    simp only [Bool.and_eq_true, decide_eq_true_eq, not_and, Nat.not_lt]
    exact none newer number member

theorem candidate_eq_some_iff (read : readHeaders spec.shards directory.entries = .ok snaps)
    (scanned : scanned spec directory snaps = .ok scan) (inside : file ∈ snaps) {image : Image} :
    candidate spec (scan.rebases snaps shard) shard file = some image ↔
      image.snap = file ∧ Eligible spec directory shard image := by
  have stops := mem_rebases read scanned shard
  unfold candidate
  constructor
  · intro offered
    obtain ⟨header, found, offered⟩ := Option.bind_eq_some_iff.mp offered
    obtain ⟨base, listed, offered⟩ := Option.bind_eq_some_iff.mp offered
    obtain ⟨listed, alive⟩ := Option.filter_eq_some_iff.mp listed
    split at offered
    · next usable =>
        cases offered
        refine ⟨rfl, (isSnapshot_iff read).mpr ⟨inside, found⟩, mem_of_baseFor listed, usable, ?_⟩
        intro generation number stop
        rw [Bool.not_eq_true', isDead_eq_false_iff] at alive
        exact alive generation number ((stops generation number).mpr stop)
    · cases offered
  · rintro ⟨rfl, eligible⟩
    obtain ⟨-, found⟩ := (isSnapshot_iff read).mp eligible.snapshot
    have listed := baseFor_of_mem eligible.snapshot.nodup eligible.listed
    have alive : isDead image.header.generation image.base (scan.rebases snaps shard) = false := by
      rw [isDead_eq_false_iff]
      intro generation number member
      exact eligible.standing generation number ((stops generation number).mp member)
    rw [found, Option.bind_some, listed, Option.filter_some, alive, if_pos (by rfl),
      Option.bind_some, if_pos eligible.usable]

/-- The first snapshot that stands is the newest. -/
theorem chosen_findSome (read : readHeaders spec.shards directory.entries = .ok snaps)
    (scanned : scanned spec directory snaps = .ok scan) (shard : Nat) :
    Chosen spec directory shard
      (snaps.findSome? (candidate spec (scan.rebases snaps shard) shard)) := by
  have offers : ∀ {image : Image}, Eligible spec directory shard image → image.snap ∈ snaps ∧
      candidate spec (scan.rebases snaps shard) shard image.snap = some image := by
    intro image eligible
    have inside := ((isSnapshot_iff read).mp eligible.snapshot).1
    exact ⟨inside, (candidate_eq_some_iff read scanned inside).mpr ⟨rfl, eligible⟩⟩
  cases picked : snaps.findSome? (candidate spec (scan.rebases snaps shard) shard) with
  | none =>
    refine .none fun image eligible => ?_
    obtain ⟨inside, offered⟩ := offers eligible
    rw [List.findSome?_eq_none_iff.mp picked image.snap inside] at offered
    cases offered
  | some image =>
    obtain ⟨newer, file, older, split, offered, passed⟩ := List.findSome?_eq_some_iff.mp picked
    have inside : file ∈ snaps := by simp [split]
    obtain ⟨rfl, eligible⟩ := (candidate_eq_some_iff read scanned inside).mp offered
    refine .newest eligible fun other standing => ?_
    obtain ⟨member, stands⟩ := offers standing
    rw [split, List.mem_append, List.mem_cons] at member
    rcases member with before | same | after
    · rw [passed other.snap before] at stands
      cases stands
    · rw [same, offered] at stands
      cases stands
      exact .inr ⟨rfl, Nat.le_refl _⟩
    · have sorted := readHeaders_sorted read
      rw [split, List.pairwise_append, List.pairwise_cons] at sorted
      have order := sorted.2.1.1 other.snap after
      unfold SnapFile.NotOlder at order
      rw [eligible.snapshot.age, standing.snapshot.age] at order
      exact order

end

section

variable {records applied : List Logged} {start : Nat}

omit [SipHasher]

variable {spec : RecoverSpec} {directory : Directory} {snaps : List SnapFile} {scan : Scan}

/-- The records `prefix` looks at are the live ones from the base on. -/
theorem filter_isLive (read : readHeaders spec.shards directory.entries = .ok snaps)
    (scanned : scanned spec directory snaps = .ok scan) (shard start : Nat) :
    (scan.buckets shard).filter (isLive (scan.rebases snaps shard) start) =
      (liveRecords spec directory shard).filter fun logged => decide (start ≤ logged.seq) := by
  classical
  have stops := mem_rebases read scanned shard
  unfold liveRecords
  rw [List.filter_filter, (scanned_sees scanned).buckets shard]
  refine List.filter_congr fun logged _ => ?_
  unfold isLive
  congr 1
  rw [Bool.eq_iff_iff, Bool.not_eq_true', List.any_eq_false, decide_eq_true_eq]
  unfold Live
  constructor
  · intro none generation number stop above
    have alive := none (generation, number) ((stops generation number).mpr stop)
    simp only [Bool.and_eq_true, decide_eq_true_eq, not_and, Nat.not_le] at alive
    exact alive above
  · rintro live ⟨generation, number⟩ member
    simp only [Bool.and_eq_true, decide_eq_true_eq, not_and, Nat.not_le]
    exact live generation number ((stops generation number).mp member)

theorem filter_filter_le {wants : Logged → Bool}
    (onward : ∀ logged, wants logged = true → start ≤ logged.seq) :
    (records.filter fun logged => decide (start ≤ logged.seq)).filter wants =
      records.filter wants := by
  rw [List.filter_filter]
  refine List.filter_congr fun logged _ => ?_
  rw [Bool.eq_iff_iff, Bool.and_eq_true, decide_eq_true_eq]
  exact ⟨And.left, fun wanted => ⟨wanted, onward logged wanted⟩⟩

theorem numbered_filter_le {number : Nat} (onward : start ≤ number) :
    numbered (records.filter fun logged => decide (start ≤ logged.seq)) number =
      numbered records number :=
  filter_filter_le fun logged same => by
    rw [of_decide_eq_true same]
    exact onward

theorem Gapless.of_filter_le
    (gapless : Gapless (records.filter fun logged => decide (start ≤ logged.seq)) start applied) :
    Gapless records start applied where
  each index inside := by
    have each := gapless.each index inside
    rwa [numbered_filter_le (Nat.le_add_right _ _)] at each
  missing := by
    have missing := gapless.missing
    rwa [numbered_filter_le (Nat.le_add_right _ _)] at missing

theorem Gapless.seq (gapless : Gapless records start applied) (index : Nat)
    (inside : index < applied.length) : applied[index].seq = start + index := by
  have member := List.mem_of_find?_eq_some (gapless.each index inside).first
  exact of_decide_eq_true (List.mem_filter.mp member).2

theorem foldl_seq
    (counts : ∀ index (inside : index < applied.length), applied[index].seq = start + index) :
    (applied.map fun logged => (logged.seq, logged.effect)).foldl
      (fun _ record => record.1 + 1) start = start + applied.length := by
  induction applied generalizing start with
  | nil => rfl
  | cons logged rest induction =>
    have first : logged.seq = start := counts 0 (Nat.zero_lt_succ _)
    rw [List.map_cons, List.foldl_cons, first, induction, List.length_cons]
    · omega
    · intro index inside
      have later := counts (index + 1) (Nat.succ_lt_succ inside)
      rw [List.getElem_cons_succ] at later
      omega

end

omit [SipHasher] in
theorem mem_truncated {tails : List Tail} {cut : ShardTruncation} {tail : Tail}
    (there : tails[cut.shard]? = some tail) :
    cut ∈ tails.zipIdx.filterMap truncation ↔ 0 < cut.discarded ∧
      cut = ⟨cut.shard, tail.found.records.length, tail.found.discarded⟩ := by
  rw [List.mem_filterMap]
  constructor
  · rintro ⟨⟨other, index⟩, member, found⟩
    have indexed := List.mem_zipIdx_iff_getElem?.mp member
    unfold truncation at found
    dsimp only at found indexed
    split at found
    · next gap =>
        cases found
        dsimp only at there
        rw [there] at indexed
        cases indexed
        exact ⟨gap, rfl⟩
    · cases found
  · rintro ⟨gap, same⟩
    refine ⟨(tail, cut.shard), List.mem_zipIdx_iff_getElem?.mpr there, ?_⟩
    have short : 0 < tail.found.discarded := by
      rw [same] at gap
      exact gap
    unfold truncation
    rw [if_pos short, ← same]

/-- Whether a segment is of this build, and its read comes to an end. -/
def segmentReads (spec : RecoverSpec) (file : SegmentFile) : Bool :=
  match Scan.opening spec.shards spec.reader file with
  | .error _ => false
  | .ok (.readable _ reading) => reading.2.1 ≠ .panicked && reading.2.1 ≠ .stuck
  | .ok _ => true

/-- Whether a snapshot is of this build, and its read comes to an end. -/
def snapshotReads (spec : RecoverSpec) (entry : Bytes × Stored × (Nat × Nat × Nat)) : Bool :=
  match readHeader spec.shards entry.1 entry.2.1 entry.2.2 with
  | .error _ => false
  | .ok snap => snap.header.all fun header => (verdictOf spec snap.stored header).isOk

/-- Every file can be read through: none is of another build, and no read panics or goes
on for ever. -/
structure Yields (spec : RecoverSpec) (directory : Directory) : Prop where
  segments : ∀ file ∈ segmentFiles directory.entries, segmentReads spec file = true
  snapshots : ∀ entry ∈ snapshotEntries directory.entries, snapshotReads spec entry = true

section

variable {spec : RecoverSpec} {directory : Directory}

section

omit [SipHasher]

theorem exists_readHeaders (headers : ∀ entry ∈ snapshotEntries directory.entries,
      ∃ snap, readHeader spec.shards entry.1 entry.2.1 entry.2.2 = .ok snap) :
    ∃ snaps, readHeaders spec.shards directory.entries = .ok snaps := by
  obtain ⟨found, each⟩ := Fallible.exists_mapM_eq_ok headers
  refine ⟨found.insertionSort SnapFile.NotOlder, ?_⟩
  unfold readHeaders
  show (List.mapM (fun entry : Bytes × Stored × (Nat × Nat × Nat) =>
    readHeader spec.shards entry.1 entry.2.1 entry.2.2) _ >>= _) = _
  rw [each]
  rfl

theorem exists_segment {file : SegmentFile} (reads : segmentReads spec file = true) (scan : Scan)
    (index : Nat) : ∃ next, scan.segment spec.shards spec.reader file index = .ok next := by
  unfold segmentReads at reads
  unfold Scan.segment
  cases opened : Scan.opening spec.shards spec.reader file with
  | error halt =>
    rw [opened] at reads
    cases reads
  | ok opening =>
    rw [opened] at reads
    cases opening with
    | empty | unreadable => exact ⟨_, rfl⟩
    | readable header reading =>
      obtain ⟨items, answer, last⟩ := reading
      unfold Scan.body
      cases answer with
      | item | finished | failed => exact ⟨_, rfl⟩
      | panicked | stuck => cases reads

theorem exists_scanned
    (segments : ∀ file ∈ segmentFiles directory.entries, segmentReads spec file = true)
    (snaps : List SnapFile) : ∃ scan, scanned spec directory snaps = .ok scan := by
  have each : ∀ file ∈ (segmentFiles directory.entries).zipIdx, ∀ scan : Scan,
      ∃ next, scan.segment spec.shards spec.reader file.1 file.2 = .ok next :=
    fun file member scan =>
      exists_segment (segments file.1 (List.fst_mem_of_mem_zipIdx member)) scan file.2
  obtain ⟨last, ran⟩ := Fallible.exists_foldlM_eq_ok each
    (Scan.new (tearIndex (segmentFiles directory.entries) directory.counter)
      (snaps.any SnapFile.damaged))
  refine ⟨last.chargeHoles, ?_⟩
  unfold scanned Scan.segments
  exact congrArg (· >>= fun scan => pure scan.chargeHoles) ran

end

theorem Yields.headers (yields : Yields spec directory) :
    ∀ entry ∈ snapshotEntries directory.entries,
      ∃ snap, readHeader spec.shards entry.1 entry.2.1 entry.2.2 = .ok snap := by
  intro entry member
  have reads := yields.snapshots entry member
  unfold snapshotReads at reads
  split at reads
  · cases reads
  · next snap read => exact ⟨snap, read⟩

theorem Yields.images (yields : Yields spec directory) {snap : SnapFile}
    (snapshot : IsSnapshot spec directory snap header) :
    ∃ verdict, verdictOf spec snap.stored header = .ok verdict := by
  obtain ⟨entry, member, read, found⟩ := snapshot
  have reads := yields.snapshots entry member
  unfold snapshotReads at reads
  rw [read] at reads
  dsimp only at reads
  rw [found, Option.all_some] at reads
  cases judged : verdictOf spec snap.stored header with
  | error halt =>
    rw [judged] at reads
    cases reads
  | ok verdict => exact ⟨verdict, rfl⟩

theorem exists_snap {rebases : Nat → List (Nat × Nat)}
    (judged : ∀ header, file.header = some header →
      ∃ verdict, verdictOf spec file.stored header = .ok verdict) (choosing : Choosing) :
    ∃ next, choosing.snap spec rebases file = .ok next := by
  unfold Choosing.snap
  cases found : file.header with
  | none => exact ⟨_, rfl⟩
  | some header =>
    obtain ⟨verdict, reached⟩ := judged header found
    dsimp only
    split
    · exact ⟨_, rfl⟩
    · rw [readImage_eq, reached]
      by_cases usable : verdict = .usable
      · exact ⟨_, if_pos usable⟩
      · exact ⟨_, if_neg usable⟩

theorem exists_readImages (rebases : Nat → List (Nat × Nat)) {files : List SnapFile}
    (judged : ∀ file ∈ files, ∀ header, file.header = some header →
      ∃ verdict, verdictOf spec file.stored header = .ok verdict) (choosing : Choosing) :
    ∃ last, readImages spec rebases files choosing = .ok last := by
  induction files generalizing choosing with
  | nil => exact ⟨_, rfl⟩
  | cons file rest induction =>
    obtain ⟨⟨next, after⟩, here⟩ := exists_snap (judged file (by simp)) choosing
    obtain ⟨⟨last, others⟩, later⟩ :=
      induction (fun other member => judged other (by simp [member])) next
    refine ⟨(last, after :: others), ?_⟩
    unfold readImages
    rw [here]
    show (readImages spec rebases rest next >>= _) = _
    rw [later]
    rfl

end

theorem recover_of_passes {spec : RecoverSpec} {directory : Directory}
    {snaps files : List SnapFile} {scan : Scan} {chosen : Choosing}
    (read : readHeaders spec.shards directory.entries = .ok snaps)
    (scanned : scanned spec directory snaps = .ok scan)
    (images : readImages spec (scan.rebases snaps) snaps (.begin spec.seed) = .ok (chosen, files)) :
    ∃ recovered, recover spec directory = .ok recovered ∧
      recovered.shards = (replayTails spec scan (scan.rebases snaps) chosen).map Tail.shard ∧
      recovered.report.truncated =
        (replayTails spec scan (scan.rebases snaps) chosen).zipIdx.filterMap truncation := by
  unfold recover
  rw [read]
  show ∃ recovered, (Recovery.scanned spec directory snaps >>= _) = _ ∧ _
  rw [scanned]
  show ∃ recovered, (readImages spec (scan.rebases snaps) snaps (.begin spec.seed) >>= _) = _ ∧ _
  rw [images]
  exact ⟨_, rfl, rfl, rfl⟩

/-- Every start over files that can be read through picks, for each shard, the newest
eligible image and over it the live records up to the first number that has none. -/
theorem recover_picks (spec : RecoverSpec) (directory : Directory)
    (yields : Yields spec directory) :
    ∃ recovered, recover spec directory = .ok recovered ∧
      ∀ shard < spec.shards, ∃ image applied state,
        Picked spec directory recovered shard image applied state := by
  obtain ⟨snaps, read⟩ := exists_readHeaders yields.headers
  obtain ⟨scan, scanned⟩ := exists_scanned yields.segments snaps
  have judged : ∀ file ∈ snaps, ∀ header, file.header = some header →
      ∃ verdict, verdictOf spec file.stored header = .ok verdict :=
    fun file member header found =>
      yields.images ((isSnapshot_iff read).mpr ⟨member, found⟩)
  obtain ⟨⟨chosen, files⟩, images⟩ :=
    exists_readImages (scan.rebases snaps) judged (.begin spec.seed)
  obtain ⟨recovered, ran, shards, truncated⟩ := recover_of_passes read scanned images
  refine ⟨recovered, ran, fun shard inside => ?_⟩
  have standing := (standing_begin spec shard).readImages
    (fun file member header found =>
      ((isSnapshot_iff read).mpr ⟨member, found⟩).nodup) images
  rw [Option.none_or] at standing
  have newest := chosen_findSome read scanned shard
  generalize snaps.findSome? (candidate spec (scan.rebases snaps shard) shard) = image
    at standing newest
  have base : (chosen.images shard).getD 0 = Image.start image := by
    rw [standing.images]
    rfl
  obtain ⟨applied, found⟩ := gaplessPrefix_spec (scan.buckets shard)
    (scan.rebases snaps shard) (Image.start image)
  rw [filter_isLive read scanned] at found
  have gapless := found.gapless.of_filter_le
  have replayed := replayInto_contents standing.building (Image.start image)
    (gaplessPrefix (scan.buckets shard) (scan.rebases snaps shard) (Image.start image)).records
  have tail : (replayTails spec scan (scan.rebases snaps) chosen)[shard]? =
      some (replayTail spec scan (scan.rebases snaps) chosen shard) := by
    unfold replayTails
    rw [List.getElem?_map, List.getElem?_range inside]
    rfl
  refine ⟨image, applied, (replayTail spec scan (scan.rebases snaps) chosen shard).shard,
    newest, gapless, ?_, ?_, ?_, standing.times, ?_⟩
  · rw [shards, List.getElem?_map, tail]
    rfl
  · unfold replayTail replayInto
    dsimp only
    rw [base, found.records, foldl_seq gapless.seq]
  · unfold replayTail
    dsimp only
    rw [base, replayed.2, found.records, List.map_map]
    rfl
  · intro cut here
    subst here
    rw [truncated, mem_truncated tail]
    have replays : (replayTail spec scan (scan.rebases snaps) chosen cut.shard).found =
        gaplessPrefix (scan.buckets cut.shard) (scan.rebases snaps cut.shard)
          (Image.start image) := by
      unfold replayTail
      dsimp only
      rw [base]
    rw [replays, found.records, found.discarded, List.length_map,
      above, filter_filter_le fun logged further => by have := of_decide_eq_true further; omega]
    rfl

/-- Two generations of one shard: the first left an image with base 1 and a record the
second rebased over. -/
def rebasedDirectory : Directory where
  entries :=
    [(snapshotName 1 0 1, .whole (encodePieces
        [.snapshotHeader ⟨1, 0, 1, 500, [(0, 1)]⟩, .record ⟨0, 1, .put [1] [7] none⟩,
          .footer 1 [(0, 1)]])),
      (segmentName 1 0, .whole (encodePieces
        [.segmentHeader ⟨1, 0, []⟩, .record ⟨0, 0, .put [1] [7] none⟩,
          .record ⟨0, 1, .put [2] [8] none⟩, .record ⟨0, 2, .put [3] [9] none⟩])),
      (segmentName 2 0, .whole (encodePieces
        [.segmentHeader ⟨2, 0, [(0, 2)]⟩, .record ⟨0, 2, .rebase⟩,
          .record ⟨0, 3, .del [1]⟩]))]
  counter := some 2
  removes := fun _ => true

omit [SipHasher] in
theorem recover_picks_rebased :
    let _ : SipHasher := ⟨fun _ _ _ => 3⟩
    let spec : RecoverSpec :=
      ⟨1, by decide, .resynchronising, false, ⟨0, 0⟩, ⟨1000, 1000, by decide⟩⟩
    ∃ recovered, recover spec rebasedDirectory = .ok recovered ∧
      ∀ shard < 1, ∃ image applied state,
        Picked spec rebasedDirectory recovered shard image applied state := by
  intro hasher spec
  exact recover_picks spec rebasedDirectory ⟨by decide +kernel, by decide +kernel⟩

end Recovery

end Seedstone
