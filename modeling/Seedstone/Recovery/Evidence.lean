import Seedstone.Library.Fallible
import Seedstone.Recovery.Gapless

/-!
# What the segments show

The records and the cut points a directory's segments hold, file by file, and that
the scan keeps exactly these: each shard's bucket is its records in the order they
are read, and a generation served if a record of it is no `Rebase`.
-/

namespace Seedstone

namespace Recovery

/-- The header and the records of a segment that can be read. -/
def opened (shards : Nat) (mode : ReaderMode) (file : SegmentFile) :
    Option (ReadHeader × Scan.Reading) :=
  match Scan.opening shards mode file with
  | .ok (.readable read reading) => some (read, reading)
  | _ => none

/-- The record of an item, with its shard. -/
def loggedOf (shards : Nat) (version : UInt8) (generation file : Nat) (item : Item) :
    Option (Nat × Logged) :=
  if Scan.isMark version item ∨ shards ≤ item.shard then
    none
  else
    (Effect.decode item.payload).map fun effect =>
      (item.shard, ⟨item.seq, generation, file, effect⟩)

/-- The records of a segment. -/
def recordsIn (shards : Nat) (mode : ReaderMode) (file : SegmentFile × Nat) :
    List (Nat × Logged) :=
  match opened shards mode file.1 with
  | none => []
  | some (read, reading) =>
    reading.1.filterMap fun found =>
      loggedOf shards read.version file.1.generation file.2 found.1

/-- The cut points of a segment's header: shard, generation and number. -/
def cutsIn (shards : Nat) (mode : ReaderMode) (file : SegmentFile × Nat) :
    List (Nat × Nat × Nat) :=
  match opened shards mode file.1 with
  | none => []
  | some (read, _) => read.header.cuts.map fun (shard, seq) => (shard, file.1.generation, seq)

/-- The records of one shard. -/
def bucketOf (records : List (Nat × Logged)) (shard : Nat) : List Logged :=
  (records.filter fun record => record.1 = shard).map Prod.snd

theorem bucketOf_append (first second : List (Nat × Logged)) (shard : Nat) :
    bucketOf (first ++ second) shard = bucketOf first shard ++ bucketOf second shard := by
  simp [bucketOf]

/-- A generation left an effect other than a `Rebase`. -/
def LeftEffect (records : List (Nat × Logged)) (generation : Nat) : Prop :=
  ∃ record ∈ records, record.2.generation = generation ∧ record.2.effect ≠ .rebase

/-- A scan keeps these records and these cut points. -/
structure Sees (scan : Scan) (records : List (Nat × Logged)) (cuts : List (Nat × Nat × Nat)) :
    Prop where
  buckets : ∀ shard, scan.buckets shard = bucketOf records shard
  cuts : ∀ shard generation seq,
    (generation, seq) ∈ scan.cuts shard ↔ (shard, generation, seq) ∈ cuts
  served : ∀ generation, generation ∈ scan.served ↔ LeftEffect records generation

theorem sees_new (tearIndex : Option Nat) (headerDamage : Bool) :
    Sees (.new tearIndex headerDamage) [] [] :=
  ⟨fun _ => rfl, fun _ _ _ => by simp [Scan.new], fun _ => by simp [Scan.new, LeftEffect]⟩

section

variable {scan : Scan} {records : List (Nat × Logged)} {cuts : List (Nat × Nat × Nat)}

theorem Sees.relabel {other : Scan} (sees : Sees scan records cuts)
    (buckets : other.buckets = scan.buckets) (cut : other.cuts = scan.cuts)
    (served : other.served = scan.served) : Sees other records cuts :=
  ⟨fun shard => by rw [buckets]; exact sees.buckets shard,
    fun shard generation seq => by rw [cut]; exact sees.cuts shard generation seq,
    fun generation => by rw [served]; exact sees.served generation⟩

theorem Sees.takeCut (sees : Sees scan records cuts) (generation : Nat) (cut : Nat × Nat) :
    Sees (scan.takeCut generation cut) records (cuts ++ [(cut.1, generation, cut.2)]) := by
  have member : ∀ shard other seq, (other, seq) ∈ (scan.takeCut generation cut).cuts shard ↔
      (other, seq) ∈ scan.cuts shard ∨ (shard, other, seq) = (cut.1, generation, cut.2) := by
    intro shard other seq
    unfold Scan.takeCut
    dsimp only
    split
    · next known =>
        refine ⟨Or.inl, ?_⟩
        rintro (before | same)
        · exact before
        · cases same
          exact known
    · by_cases same : shard = cut.1
      · subst same
        simp [Function.update_self]
      · simp [same]
  have others : (scan.takeCut generation cut).buckets = scan.buckets ∧
      (scan.takeCut generation cut).served = scan.served := by
    unfold Scan.takeCut
    dsimp only
    split <;> exact ⟨rfl, rfl⟩
  refine ⟨fun shard => by rw [others.1]; exact sees.buckets shard, ?_,
    fun other => by rw [others.2]; exact sees.served other⟩
  intro shard other seq
  rw [member, sees.cuts, List.mem_append, List.mem_singleton]

theorem Sees.takeCuts (sees : Sees scan records cuts) (generation : Nat)
    (points : List (Nat × Nat)) :
    Sees (points.foldl (Scan.takeCut generation) scan) records
      (cuts ++ points.map fun (shard, seq) => (shard, generation, seq)) := by
  induction points generalizing scan cuts with
  | nil => simpa using sees
  | cons point points induction =>
    have rest := induction (sees.takeCut generation point)
    rwa [List.append_assoc] at rest

theorem leftEffect_append {first second : List (Nat × Logged)} {generation : Nat} :
    LeftEffect (first ++ second) generation ↔
      LeftEffect first generation ∨ LeftEffect second generation := by
  simp only [LeftEffect, List.mem_append, or_and_right, exists_or]

theorem Sees.bucketed (sees : Sees scan records cuts) (item : Item) (generation file : Nat)
    (effect : Effect) :
    Sees (scan.bucketed item generation file effect)
      (records ++ [(item.shard, ⟨item.seq, generation, file, effect⟩)]) cuts := by
  refine ⟨?_, sees.cuts, ?_⟩
  · intro shard
    rw [bucketOf_append, ← sees.buckets]
    unfold Scan.bucketed
    by_cases same : shard = item.shard
    · subst same
      simp [bucketOf, Function.update_self]
    · simp [bucketOf, Function.update_of_ne same, Ne.symm same]
  · intro other
    rw [leftEffect_append, ← sees.served]
    unfold Scan.bucketed
    dsimp only
    have last : LeftEffect [(item.shard, (⟨item.seq, generation, file, effect⟩ : Logged))] other ↔
        generation = other ∧ effect ≠ .rebase := by
      simp [LeftEffect]
    rw [last]
    split
    · next known =>
        refine ⟨Or.inl, ?_⟩
        rintro (before | ⟨rfl, served⟩)
        · exact before
        · exact known.resolve_left served
    · next fresh =>
        rw [List.mem_append, List.mem_singleton]
        constructor
        · rintro (before | rfl)
          · exact Or.inl before
          · exact Or.inr ⟨rfl, fun rebase => fresh (Or.inl rebase)⟩
        · rintro (before | ⟨rfl, _⟩)
          · exact Or.inl before
          · exact Or.inr rfl

theorem Sees.item (sees : Sees scan records cuts) (shards generation file : Nat) (item : Item) :
    Sees (scan.item shards generation file item)
      (records ++ (loggedOf shards scan.version generation file item).toList) cuts := by
  unfold Scan.item loggedOf
  by_cases mark : Scan.isMark scan.version item = true
  · rw [if_pos mark, if_pos (Or.inl mark), Option.toList_none, List.append_nil]
    exact sees.relabel rfl rfl rfl
  · rw [if_neg mark]
    dsimp only
    by_cases outside : shards ≤ item.shard
    · rw [if_pos outside, if_pos (Or.inr outside), Option.toList_none, List.append_nil]
      exact sees.relabel rfl rfl rfl
    · rw [if_neg outside, if_neg (by simp [mark, outside])]
      cases Effect.decode item.payload with
      | none =>
        rw [Option.map_none, Option.toList_none, List.append_nil]
        exact sees.relabel rfl rfl rfl
      | some effect =>
        refine Sees.bucketed ?_ item generation file effect
        exact sees.relabel rfl rfl rfl

theorem item_version (shards generation file : Nat) (item : Item) :
    (scan.item shards generation file item).version = scan.version := by
  unfold Scan.item
  split
  · rfl
  · dsimp only
    split
    · rfl
    · cases Effect.decode item.payload <;> rfl

theorem Sees.pass {pass : Scan.Pass} (sees : Sees pass.scan records cuts)
    (shards generation file : Nat) (items : List (Item × Damage)) :
    Sees (items.foldl (Scan.Pass.take shards generation file) pass).scan
      (records ++ items.filterMap fun found =>
        loggedOf shards pass.scan.version generation file found.1) cuts := by
  induction items generalizing pass records with
  | nil => simpa using sees
  | cons found rest induction =>
    have step : Sees (pass.take shards generation file found).scan _ cuts :=
      sees.item shards generation file found.1
    have rest := induction step
    have version : (pass.take shards generation file found).scan.version =
        pass.scan.version := item_version ..
    rw [version, List.append_assoc] at rest
    rw [List.foldl_cons, List.filterMap_cons]
    cases read : loggedOf shards pass.scan.version generation file found.1 with
    | none | some =>
      rw [read] at rest
      exact rest

theorem Sees.classify (sees : Sees scan records cuts) (found : List Scan.Hole) (tear : Bool) :
    Sees (scan.classify found tear) records cuts := by
  unfold Scan.classify
  induction found generalizing scan with
  | nil => exact sees
  | cons hole rest induction =>
    refine induction ?_
    unfold Scan.classifyHole
    split <;> exact sees.relabel rfl rfl rfl

theorem Sees.abandon (sees : Sees scan records cuts) (index : Nat) :
    Sees (scan.abandon index) records cuts :=
  sees.relabel rfl rfl rfl

theorem Sees.finish {pass : Scan.Pass} (sees : Sees pass.scan records cuts) (index : Nat)
    (failed : Bool) (damage : Damage) : Sees (pass.finish index failed damage) records cuts := by
  unfold Scan.Pass.finish
  dsimp only
  apply Sees.classify
  have first : Sees (if failed then pass.scan.abandon index else pass.scan) records cuts := by
    split
    · exact sees.abandon index
    · exact sees
  have second : Sees (if damage.abandoned then
      (if failed then pass.scan.abandon index else pass.scan).abandon index
      else if failed then pass.scan.abandon index else pass.scan) records cuts := by
    split
    · exact first.abandon index
    · exact first
  exact second.relabel rfl rfl rfl

theorem Sees.body (sees : Sees scan records cuts) {shards generation index : Nat}
    {reading : Scan.Reading} {after : Scan}
    (read : scan.body shards generation index reading = .ok after) :
    Sees after (records ++ reading.1.filterMap fun found =>
      loggedOf shards scan.version generation index found.1) cuts := by
  have pass : Sees (reading.1.foldl (Scan.Pass.take shards generation index)
      (.begin scan)).scan _ cuts :=
    Sees.pass (sees : Sees (Scan.Pass.begin scan).scan records cuts) shards generation index
      reading.1
  unfold Scan.body at read
  dsimp only at read
  cases answer : reading.2.1 with
  | panicked | stuck =>
    rw [answer] at read
    cases read
  | failed | finished | item =>
    rw [answer] at read
    cases read
    exact pass.finish ..

theorem Sees.segment (sees : Sees scan records cuts) {shards : Nat} {mode : ReaderMode}
    {file : SegmentFile} {index : Nat} {after : Scan}
    (read : scan.segment shards mode file index = .ok after) :
    Sees after (records ++ recordsIn shards mode (file, index))
      (cuts ++ cutsIn shards mode (file, index)) := by
  have counted : Sees scan.counted records cuts := sees.relabel rfl rfl rfl
  unfold Scan.segment at read
  unfold recordsIn cutsIn opened
  dsimp only
  cases found : Scan.opening shards mode file with
  | error halt =>
    rw [found] at read
    cases read
  | ok opening =>
    rw [found] at read
    cases opening with
    | empty =>
      cases read
      rw [List.append_nil, List.append_nil]
      exact counted
    | unreadable =>
      cases read
      rw [List.append_nil, List.append_nil]
      exact counted.abandon index
    | readable header reading =>
      have cut := counted.takeCuts file.generation header.header.cuts
      have begun : Sees (scan.counted.headed file.generation header) records _ :=
        cut.relabel rfl rfl rfl
      exact begun.body read

theorem Sees.segments {shards : Nat} {mode : ReaderMode} (files : List (SegmentFile × Nat)) :
    ∀ {scan after : Scan} {records : List (Nat × Logged)} {cuts : List (Nat × Nat × Nat)},
      Sees scan records cuts →
      files.foldlM (fun (scan : Scan) (file, index) => scan.segment shards mode file index) scan =
        .ok after → Sees after (records ++ files.flatMap (recordsIn shards mode))
        (cuts ++ files.flatMap (cutsIn shards mode)) := by
  induction files with
  | nil =>
    intro scan after records cuts sees read
    cases read
    simpa using sees
  | cons file rest induction =>
    intro scan after records cuts sees read
    rw [List.foldlM_cons] at read
    obtain ⟨next, first, later⟩ := Fallible.exists_of_bind_eq_ok read
    have done := induction (sees.segment first) later
    rwa [List.append_assoc, List.append_assoc, ← List.flatMap_cons, ← List.flatMap_cons] at done

end

/-- The intact records of a directory, with their shards, in the order they are read. -/
def recordsOf (spec : RecoverSpec) (directory : Directory) : List (Nat × Logged) :=
  (segmentFiles directory.entries).zipIdx.flatMap (recordsIn spec.shards spec.reader)

/-- The cut points of a directory's segment headers. -/
def cutsOf (spec : RecoverSpec) (directory : Directory) : List (Nat × Nat × Nat) :=
  (segmentFiles directory.entries).zipIdx.flatMap (cutsIn spec.shards spec.reader)

theorem scanned_sees {spec : RecoverSpec} {directory : Directory} {snaps : List SnapFile}
    {scan : Scan} (read : scanned spec directory snaps = .ok scan) :
    Sees scan (recordsOf spec directory) (cutsOf spec directory) := by
  unfold scanned at read
  obtain ⟨before, segments, charged⟩ := Fallible.exists_of_bind_eq_ok read
  cases charged
  have done := Sees.segments _ (sees_new ..) segments
  exact done.relabel rfl rfl rfl

end Recovery

end Seedstone
