import Seedstone.Node.Custody
import Seedstone.Node.Ticking

/-!
# The writer keeps what it answers for

`Custody` holds of the writer between any two of its calls that matter, and every
handler of its loop keeps it.  A failure on the disk breaks it for a moment; `fail`
restores it by telling the executors.
-/

namespace Seedstone

namespace Disk

variable {disk : Disk} {name other : FileName}

theorem setFile_same (name : FileName) (file : FileState) :
    (disk.setFile name file).files name = file :=
  Function.update_self ..

theorem setFile_other (different : other ≠ name) (file : FileState) :
    (disk.setFile name file).files other = disk.files other :=
  Function.update_of_ne different ..

theorem extends_setFile {file : FileState} (grown : (disk.files name).Extends file) :
    disk.Extends (disk.setFile name file) := by
  intro other _
  by_cases same : other = name
  · subst same
    rw [setFile_same]
    exact grown
  · rw [setFile_other same]
    exact .refl _

theorem extends_write (name : FileName) (pieces : List Piece) :
    disk.Extends (disk.write name pieces).2 := by
  unfold write
  dsimp only
  split
  · exact extends_setFile ⟨⟨[pieces], rfl⟩, Nat.le_refl _⟩
  · exact extends_setFile ⟨⟨[], (List.append_nil _).symm⟩, Nat.le_refl _⟩

theorem write_other (different : other ≠ name) (pieces : List Piece) :
    (disk.write name pieces).2.files other = disk.files other := by
  unfold write
  dsimp only
  split <;> exact setFile_other different _

theorem write_ok {pieces : List Piece} (ok : (disk.write name pieces).1 = true) :
    (disk.write name pieces).2.files name =
      { disk.files name with writes := (disk.files name).writes ++ [pieces] } := by
  unfold write at *
  dsimp only at *
  split at ok
  · next good =>
      rw [if_pos good]
      exact setFile_same ..
  · cases ok

/-- No segment fails when one file changes, and does not fail. -/
theorem healthier_of_other {after : Disk}
    (changed : ∀ other, other ≠ name → after.files other = disk.files other)
    (healthy : (disk.files name).failed = false → (after.files name).failed = false)
    (generation : Nat) : disk.Healthier generation after := by
  intro rotation _ good
  by_cases same : FileName.segment generation rotation = name
  · rw [same] at good ⊢
    exact healthy good
  · rw [changed _ same]
    exact good

theorem extends_settle (flight : Flight) (ok : Bool) :
    disk.Extends (disk.settle flight ok) := by
  unfold settle
  dsimp only
  split
  · exact extends_setFile ⟨⟨[], (List.append_nil _).symm⟩, Nat.le_max_left _ _⟩
  · exact extends_setFile ⟨⟨[], (List.append_nil _).symm⟩, Nat.le_refl _⟩

theorem settle_other {flight : Flight} (different : other ≠ flight.name) (ok : Bool) :
    (disk.settle flight ok).files other = disk.files other := by
  unfold settle
  dsimp only
  split <;> exact setFile_other different _

theorem settle_ok (flight : Flight) :
    (disk.settle flight true).files flight.name =
      { disk.files flight.name with
        synced := max (disk.files flight.name).synced flight.covers } :=
  setFile_same ..

theorem settle_writes (flight : Flight) (ok : Bool) (name : FileName) :
    ((disk.settle flight ok).files name).writes = (disk.files name).writes := by
  by_cases same : name = flight.name
  · subst same
    unfold settle
    dsimp only
    split <;> rw [setFile_same]
  · rw [settle_other same]

theorem proven_settle {flight : Flight} {generation rotation : Nat}
    (name : flight.name = .segment generation rotation) {records : List Record}
    (flown : (disk.settle flight true).Flown flight records) :
    (disk.settle flight true).Proven generation records := by
  refine ⟨rotation, ?_⟩
  rw [← name]
  refine FileState.Holds.mono flown.2 ?_
  rw [settle_ok]
  exact Nat.le_max_right _ _

theorem Extends.trans {first second third : Disk} (one : first.Extends second)
    (two : second.Extends third) : first.Extends third := by
  intro name segment
  obtain ⟨more, writes⟩ := (one name segment).writes
  obtain ⟨most, last⟩ := (two name segment).writes
  exact ⟨⟨more ++ most, by rw [last, writes, List.append_assoc]⟩,
    (one name segment).synced.trans (two name segment).synced⟩

end Disk

namespace Writer

variable {lanes : List Lane} {after : Writer} {waiting : List (List (Option Nat) × Flight)}
  {name : FileName} {later : World}

/-- What a loop over the lanes from `first` on tells one executor. -/
def toldFrom (telling : Nat → Lane → Option Progress × Lane) (first : Nat)
    (lanes : List Lane) (executor : Nat) : List Progress :=
  if first ≤ executor then
    (lanes[executor - first]?.bind fun lane => (telling executor lane).1).toList
  else
    []

theorem toldFrom_cons (telling : Nat → Lane → Option Progress × Lane) (first : Nat)
    (lane : Lane) (lanes : List Lane) (executor : Nat) :
    toldFrom telling first (lane :: lanes) executor =
      if executor = first then (telling first lane).1.toList
      else toldFrom telling (first + 1) lanes executor := by
  unfold toldFrom
  rcases Nat.lt_trichotomy executor first with less | rfl | more
  · rw [if_neg (by omega), if_neg (by omega), if_neg (by omega)]
  · simp
  · obtain ⟨offset, rfl⟩ : ∃ offset, executor = first + 1 + offset :=
      ⟨executor - (first + 1), by omega⟩
    have shifted : first + 1 + offset - first = offset + 1 := by omega
    rw [if_pos (by omega), if_neg (by omega), if_pos (by omega), shifted,
      List.getElem?_cons_succ, Nat.add_sub_cancel_left]

theorem run_tellLanes (telling : Nat → Lane → Option Progress × Lane) (lanes : List Lane) :
    ∀ (first : Nat) (world : World),
    (tellLanes telling first lanes).run World.handle world =
      (lanes.mapIdx fun offset lane => (telling (first + offset) lane).2,
        { world with
          progress := fun executor =>
            world.progress executor ++ toldFrom telling first lanes executor }) := by
  induction lanes with
  | nil =>
    intro first world
    simp [tellLanes, toldFrom]
  | cons lane lanes induction =>
    intro first world
    have shifted : (fun offset lane => (telling (first + 1 + offset) lane).2) =
        fun offset lane => (telling (first + (offset + 1)) lane).2 := by
      funext offset lane
      rw [Nat.add_right_comm, Nat.add_assoc]
    simp only [toldFrom_cons, List.mapIdx_cons, Nat.add_zero]
    unfold tellLanes
    cases message : (telling first lane).1 with
    | none =>
      simp only [message, Program.run_bind, Program.run_pure, induction, shifted]
      congr 2
      funext executor
      split
      · next same =>
          rw [same, toldFrom, if_neg (by omega)]
          rfl
      · rfl
    | some message =>
      simp only [message, Program.run_bind, Program.run_pure, Task.run_toExecutor,
        induction, shifted]
      congr 2
      funext executor
      split
      · next same =>
          rw [same, toldFrom, if_neg (by omega), Function.update_self, List.append_nil]
          rfl
      · next different => rw [Function.update_of_ne different]

theorem run_tell (writer : Writer) (telling : Nat → Lane → Option Progress × Lane)
    (world : World) :
    (writer.tell telling).run World.handle world =
      ({ writer with
          lanes := writer.lanes.mapIdx fun executor lane => (telling executor lane).2 },
        { world with
          progress := fun executor =>
            world.progress executor ++ toldFrom telling 0 writer.lanes executor }) := by
  simp only [tell, Program.run_bind, run_tellLanes, Program.run_pure, Nat.zero_add]

theorem toldFrom_zero {telling : Nat → Lane → Option Progress × Lane} {executor : Nat}
    {lane : Lane} (located : lanes[executor]? = some lane) :
    toldFrom telling 0 lanes executor = (telling executor lane).1.toList := by
  simp [toldFrom, located]

/-- The writer as a lane's custody sees it; `waits` are the syncs it waits for
outside its loop. -/
def desk (writer : Writer) (waits : List (List (Option Nat) × Flight)) : Desk where
  generation := writer.generation
  rotation := writer.segment.rotation
  dirty := writer.segment.dirty
  syncFailed := writer.segment.syncFailed
  staged := writer.staged
  rounds := writer.inFlight.toList ++ waits

/-- The segment's own state: rotations not yet attempted are untouched, and an
open segment has no failure behind it. -/
structure Ground (generation : Nat) (segment : Segment)
    (rounds : List (List (Option Nat) × Flight)) (disk : Disk) : Prop where
  grounded : segment.syncFailed = true → rounds = []
  attempted : segment.rotation ≤ segment.attempted
  untouched : ∀ rotation, segment.attempted < rotation →
    disk.files (.segment generation rotation) = FileState.empty
  named : ∀ round ∈ rounds, ∃ rotation ≤ segment.attempted,
    round.2.name = .segment generation rotation
  healthy : segment.syncFailed = false →
    (disk.files (.segment generation segment.rotation)).failed = false

structure Custody (clients : Nat → Client) (waits : List (List (Option Nat) × Flight))
    (writer : Writer) (world : World) : Prop where
  lanes : ∀ executor lane, writer.lanes[executor]? = some lane →
    LaneCustody (clients executor) (world.progress executor) world.disk (writer.desk waits)
      executor lane
  ground : Ground writer.generation writer.segment (writer.desk waits).rounds world.disk

variable {clients : Nat → Client} {waits : List (List (Option Nat) × Flight)}
  {writer : Writer} {world : World}

theorem custody_tell {telling : Nat → Lane → Option Progress × Lane}
    (ground : Ground writer.generation writer.segment (writer.desk waits).rounds world.disk)
    (lanes : ∀ executor lane, writer.lanes[executor]? = some lane →
      LaneCustody (clients executor)
        (world.progress executor ++ (telling executor lane).1.toList) world.disk
        (writer.desk waits) executor (telling executor lane).2) :
    (writer.tell telling).Leads world (Custody clients waits) := by
  rw [Task.Leads, run_tell]
  refine ⟨?_, ground⟩
  intro executor lane located
  rw [List.getElem?_mapIdx] at located
  obtain ⟨original, found, rfl⟩ := Option.map_eq_some_iff.mp located
  have custody := lanes executor original found
  rw [← toldFrom_zero found] at custody
  exact custody

/-- The rounds in flight change, and whether the segment is to be synced. -/
theorem Custody.redesk {still : List (List (Option Nat) × Flight)} {dirty : Bool}
    (custody : Custody clients waits writer world)
    (desk : after.desk waiting = { writer.desk waits with dirty := dirty, rounds := still })
    (attempted : after.segment.attempted = writer.segment.attempted)
    (lanes : after.lanes = writer.lanes)
    (each : ∀ executor lane, writer.lanes[executor]? = some lane →
      LaneCustody (clients executor) (world.progress executor) world.disk
      { writer.desk waits with dirty := dirty, rounds := still } executor lane)
    (grounded : writer.segment.syncFailed = true → still = [])
    (named : ∀ round ∈ still, ∃ rotation ≤ writer.segment.attempted,
      round.2.name = .segment writer.generation rotation) :
    Custody clients waiting after world := by
  have generation : after.generation = writer.generation := congrArg Desk.generation desk
  have rotation : after.segment.rotation = writer.segment.rotation :=
    congrArg Desk.rotation desk
  have failed : after.segment.syncFailed = writer.segment.syncFailed :=
    congrArg Desk.syncFailed desk
  refine ⟨by rwa [lanes, desk], ⟨by rwa [failed, desk], ?_, ?_, ?_, ?_⟩⟩
  · rw [rotation, attempted]
    exact custody.ground.attempted
  · rw [generation, attempted]
    exact custody.ground.untouched
  · rwa [desk, attempted, generation]
  · rw [failed, generation, rotation]
    exact custody.ground.healthy

theorem Custody.alike (custody : Custody clients waits writer world)
    (desk : after.desk waiting = writer.desk waits)
    (attempted : after.segment.attempted = writer.segment.attempted)
    (lanes : after.lanes = writer.lanes) : Custody clients waiting after world :=
  custody.redesk desk attempted lanes custody.lanes custody.ground.grounded custody.ground.named

/-- What is left of `Custody` right after a first failure: the figures, and what was
told. -/
structure Shaken (clients : Nat → Client) (writer : Writer) (world : World) : Prop where
  fresh : writer.segment.syncFailed = false
  lanes : ∀ executor lane, writer.lanes[executor]? = some lane →
    LaneBooks (clients executor) writer.staged lane ∧
      Truthful (clients executor) (world.progress executor) world.disk writer.generation
  attempted : writer.segment.rotation ≤ writer.segment.attempted
  untouched : ∀ rotation, writer.segment.attempted < rotation →
    world.disk.files (.segment writer.generation rotation) = FileState.empty
  named : ∀ round ∈ writer.inFlight.toList, ∃ rotation ≤ writer.segment.attempted,
    round.2.name = .segment writer.generation rotation

theorem untouched_of_other {generation attempted : Nat} {disk after : Disk}
    (changed : ∀ other, other ≠ name → after.files other = disk.files other)
    (named : ∃ rotation ≤ attempted, name = .segment generation rotation)
    (untouched : ∀ rotation, attempted < rotation →
      disk.files (.segment generation rotation) = FileState.empty) :
    ∀ rotation, attempted < rotation →
      after.files (.segment generation rotation) = FileState.empty := by
  intro rotation above
  rw [changed, untouched rotation above]
  obtain ⟨last, le, rfl⟩ := named
  intro same
  cases same
  omega

theorem Custody.shaken (custody : Custody clients waits writer world)
    (fresh : writer.segment.syncFailed = false) {disk : Disk}
    (grown : world.disk.Extends disk)
    (untouched : ∀ rotation, writer.segment.attempted < rotation →
      disk.files (.segment writer.generation rotation) = FileState.empty) :
    Shaken clients writer { world with disk := disk } where
  fresh := fresh
  lanes executor lane located :=
    ⟨(custody.lanes executor lane located).books,
      (custody.lanes executor lane located).truthful.grow grown⟩
  attempted := custody.ground.attempted
  untouched := untouched
  named round member := custody.ground.named round (List.mem_append_left _ member)

theorem Shaken.fail (shaken : Shaken clients writer world) :
    writer.fail.Leads world (Custody clients []) := by
  have tells : ∀ disk : Disk, world.disk.Extends disk →
      (∀ rotation, writer.segment.attempted < rotation →
        disk.files (.segment writer.generation rotation) = FileState.empty) →
      (tell { writer with
        segment := { writer.segment with syncFailed := true, dirty := false }
        staged := []
        inFlight := none } (failLane true)).Leads { world with disk := disk }
          (Custody clients []) := by
    intro disk grown untouched
    apply custody_tell
    · exact ⟨fun _ => rfl, shaken.attempted, untouched,
        nofun, nofun⟩
    · intro executor lane located
      obtain ⟨books, truthful⟩ := shaken.lanes executor lane located
      have staged : LaneBooks (clients executor) (writer.desk []).staged lane := books
      exact staged.failFresh (truthful.grow grown)
  unfold Writer.fail
  rw [shaken.fresh]
  cases flying : writer.inFlight with
  | none => exact tells world.disk (.refl _) shaken.untouched
  | some round =>
    rw [Task.leads_bind]
    refine tells _ (Disk.extends_settle round.2 false) (untouched_of_other
      (fun other different => Disk.settle_other different false)
      (shaken.named round (by simp [flying])) shaken.untouched)

/-- `fail`, whether or not the segment had failed before. -/
theorem Custody.fail (custody : Custody clients [] writer world) :
    writer.fail.Leads world (Custody clients []) := by
  cases failed : writer.segment.syncFailed with
  | false => exact (custody.shaken failed (.refl _) custody.ground.untouched).fail
  | true =>
    have alone := custody.ground.grounded failed
    have grounded : writer.inFlight = none := by
      simpa [desk] using alone
    unfold Writer.fail
    rw [grounded, failed]
    apply custody_tell
    · exact ⟨fun _ => rfl, custody.ground.attempted, custody.ground.untouched,
        nofun, nofun⟩
    · intro executor lane located
      exact (custody.lanes executor lane located).failAgain failed alone

section

variable (custody : Custody clients waits writer world)

include custody

theorem Custody.grow {disk : Disk} (grown : world.disk.Extends disk)
    (changed : ∀ other, other ≠ name → disk.files other = world.disk.files other)
    (named : ∃ rotation ≤ writer.segment.attempted, name = .segment writer.generation rotation)
    (healthy : (world.disk.files name).failed = false → (disk.files name).failed = false) :
    Custody clients waits writer { world with disk := disk } where
  lanes executor lane located := (custody.lanes executor lane located).grow grown
    (Disk.healthier_of_other changed healthy _)
  ground := { custody.ground with
    untouched := untouched_of_other changed named custody.ground.untouched
    healthy := fun clean => by
      have good := custody.ground.healthy clean
      by_cases same : FileName.segment writer.generation writer.segment.rotation = name
      · rw [same] at good ⊢
        exact healthy good
      · rw [changed _ same]
        exact good }

theorem Custody.written {pieces : List Piece}
    (ok : (world.disk.write writer.fileName pieces).1 = true) :
    Custody clients waits writer
      { world with disk := (world.disk.write writer.fileName pieces).2 } :=
  custody.grow (Disk.extends_write _ _) (fun _ different => Disk.write_other different pieces)
    ⟨_, custody.ground.attempted, rfl⟩ fun good => by
      rw [Disk.write_ok ok]
      exact good

theorem Custody.unwritten (fresh : writer.segment.syncFailed = false) (pieces : List Piece) :
    Shaken clients writer
      { world with disk := (world.disk.write writer.fileName pieces).2 } :=
  custody.shaken fresh (Disk.extends_write _ _)
    (untouched_of_other (fun _ different => Disk.write_other different pieces)
      ⟨_, custody.ground.attempted, rfl⟩ custody.ground.untouched)

theorem Custody.mark (fresh : writer.segment.syncFailed = false) :
    (∃ bytes disk, writer.mark.run World.handle world =
        ((true, { writer with segment := { writer.segment with bytesWritten := bytes } }),
          { world with disk := disk }) ∧
      Custody clients waits
        { writer with segment := { writer.segment with bytesWritten := bytes } }
        { world with disk := disk }) ∨
    ∃ disk, writer.mark.run World.handle world = ((false, writer), { world with disk := disk }) ∧
      Shaken clients writer { world with disk := disk } := by
  by_cases ok : (world.disk.write writer.fileName [.syncMark]).1 = true
  · have written := custody.written ok
    refine Or.inl ⟨writer.segment.bytesWritten + Piece.syncMark.encodedLen, _, ?_,
      written.alike rfl rfl rfl⟩
    simp [Writer.mark, ok]
  · refine Or.inr ⟨_, ?_, custody.unwritten fresh [.syncMark]⟩
    simp [Writer.mark, ok]

end

theorem Custody.issued (custody : Custody clients [] writer world)
    (alone : writer.inFlight = none) (fresh : writer.segment.syncFailed = false)
    (desk : after.desk waiting = { writer.desk [] with
      dirty := after.segment.dirty
      rounds := [(writer.frozen, world.disk.syncLater writer.fileName)] })
    (attempted : after.segment.attempted = writer.segment.attempted)
    (lanes : after.lanes = writer.lanes) : Custody clients waiting after world := by
  have none : (writer.desk []).rounds = [] := by
    simp [Writer.desk, alone]
  refine custody.redesk desk attempted lanes ?_ ?_ ?_
  · intro executor lane located
    apply (custody.lanes executor lane located).issue none
    rw [frozen, List.getElem?_map, located]
    rfl
  · intro isFailed
    rw [fresh] at isFailed
    cases isFailed
  · intro round member
    rw [List.mem_singleton.mp member]
    exact ⟨_, custody.ground.attempted, rfl⟩

theorem Custody.maybeIssue (custody : Custody clients [] writer world) (now : Nat) :
    (writer.maybeIssue now).Leads world (Custody clients []) := by
  unfold Writer.maybeIssue
  split
  · exact custody
  · next idle =>
      have fresh : writer.segment.syncFailed = false := by
        by_contra failed
        simp [failed] at idle
      have alone : writer.inFlight = none := by
        by_contra flying
        simp [Option.isSome_iff_ne_none.mpr flying] at idle
      dsimp only
      generalize (if writer.segment.dirty then writer.policy.minInterval else none) = cadence
      split
      · exact custody
      · split
        · exact custody
        · have unwanted : Custody clients [] { writer with syncWanted := false } world :=
            custody.alike rfl rfl rfl
          rw [Task.leads_bind]
          rcases unwanted.mark fresh with ⟨bytes, disk, ran, marked⟩ | ⟨disk, ran, shaken⟩
          · rw [ran]
            exact marked.issued alone fresh rfl rfl rfl
          · rw [ran]
            exact shaken.fail

section

variable (custody : Custody clients waits writer world)

include custody

theorem Custody.reportDurable {covered : List (Option Nat)}
    (landed : ∀ executor lane, writer.lanes[executor]? = some lane → ∀ through,
      covered[executor]? = some (some through) →
      through < (clients executor).submissions.length ∧
      ∀ batch ≤ through, Promised (clients executor) (world.progress executor) batch
      (world.disk.Proven writer.generation)) :
    (writer.reportDurable covered).Leads world (Custody clients waits) := by
  apply custody_tell custody.ground
  intro executor lane located
  have lane_custody := custody.lanes executor lane located
  cases found : covered[executor]? with
  | none => simpa using lane_custody
  | some through =>
    simp only [durableLane]
    split
    · cases through with
      | none =>
        exact (lane_custody.say (by simp)).relabel ⟨rfl, rfl, rfl, rfl, rfl⟩
      | some through =>
        obtain ⟨below, proven⟩ := landed executor lane located through found
        have truthful := lane_custody.truthful.sayDurable below proven
        exact (lane_custody.tell (truthful _ _)).relabel ⟨rfl, rfl, rfl, rfl, rfl⟩
    · simpa using lane_custody

theorem Custody.elsewhere {after : Nat → Client}
    (segments : ∀ generation rotation,
      later.disk.files (.segment generation rotation) =
      world.disk.files (.segment generation rotation))
    (lanes : ∀ executor lane, LaneCustody (clients executor) (world.progress executor)
      world.disk (writer.desk waits) executor lane →
      LaneCustody (after executor) (later.progress executor) world.disk
      (writer.desk waits) executor lane) : Custody after waits writer later := by
  have same : ∀ name, name.isSegment = true →
      later.disk.files name = world.disk.files name := by
    intro name segment
    cases name <;> simp [FileName.isSegment] at segment
    exact segments _ _
  refine ⟨?_, ⟨custody.ground.grounded, custody.ground.attempted, ?_,
    custody.ground.named, ?_⟩⟩
  · intro executor lane located
    apply (lanes executor lane (custody.lanes executor lane located)).grow
    · intro name segment
      rw [same name segment]
      exact .refl _
    · intro rotation _ good
      rw [segments]
      exact good
  · intro rotation above
    rw [segments]
    exact custody.ground.untouched rotation above
  · intro clean
    rw [segments]
    exact custody.ground.healthy clean

theorem Custody.aside (aside : World.Aside world later) : Custody clients waits writer later := by
  apply custody.elsewhere aside.segments
  intro executor lane held
  rw [aside.progress]
  exact held

theorem Custody.nudgeIfDue : writer.nudgeIfDue.Leads world (Custody clients waits) := by
  apply custody_tell custody.ground
  intro executor lane located
  have lane_custody := custody.lanes executor lane located
  unfold nudgeLane
  dsimp only
  split
  · exact (lane_custody.say (by simp)).relabel ⟨rfl, rfl, rfl, rfl, rfl⟩
  · simpa using lane_custody

end

/-- `write_staged`, once a clean segment is open. -/
theorem Custody.writeOut (custody : Custody clients [] writer world)
    (fresh : writer.segment.syncFailed = false) :
    writer.writeOut.Leads world (Custody clients []) := by
  by_cases ok : (world.disk.write writer.fileName (writer.staged.map Piece.record)).1 = true
  · simp only [Task.Leads, Writer.writeOut, Program.run_bind, Task.run_write, World.onDisk_fst, ok,
      if_true, World.onDisk_snd]
    have written := custody.written ok
    have ground := written.ground
    apply custody_tell
    · exact { ground with }
    · intro executor lane located
      have held := (written.lanes executor lane located).write fresh (ground.healthy fresh) ?_
      · unfold writtenLane
        dsimp only
        split
        · exact (held.say (by simp)).relabel ⟨rfl, rfl, rfl, rfl, rfl⟩
        · rw [Option.toList_none, List.append_nil]
          exact held
      · intro records staged
        have file := Disk.write_ok ok
        refine ⟨(world.disk.files writer.fileName).writes.length, ?_,
          writer.staged.map Piece.record, ?_,
          fun record member => List.mem_map_of_mem (staged record member)⟩
        · change _ < ((world.disk.write writer.fileName
            (writer.staged.map Piece.record)).2.files writer.fileName).writes.length
          simp [file]
        · change ((world.disk.write writer.fileName
            (writer.staged.map Piece.record)).2.files writer.fileName).writes[_]? = _
          simp [file]
  · simp only [Task.Leads, Writer.writeOut, Program.run_bind, Task.run_write, World.onDisk_fst, ok,
      Bool.false_eq_true, if_false, World.onDisk_snd]
    exact (custody.unwritten fresh _).fail

/-- Only the file named changes, and no channel. -/
structure Touches (name : FileName) (before after : World) : Prop where
  others : ∀ other, other ≠ name → after.disk.files other = before.disk.files other
  progress : after.progress = before.progress

theorem Touches.trans {first second third : World} (one : Touches name first second)
    (two : Touches name second third) : Touches name first third :=
  ⟨fun other different => (two.others other different).trans (one.others other different),
    two.progress.trans one.progress⟩

theorem create_files (disk : Disk) (name : FileName) :
    (disk.create name).2.files = disk.files := by
  unfold Disk.create
  dsimp only
  split
  · rfl
  · split <;> rfl

theorem syncDir_files (disk : Disk) : disk.syncDir.2.files = disk.files := by
  unfold Disk.syncDir
  split <;> rfl

theorem touches_create (name : FileName) (world : World) :
    Touches name world ((Task.create name).run World.handle world).2 :=
  ⟨fun other _ => congrFun (create_files world.disk name) other, rfl⟩

theorem touches_write (name : FileName) (pieces : List Piece) (world : World) :
    Touches name world ((Task.write name pieces).run World.handle world).2 :=
  ⟨fun _ different => Disk.write_other different pieces, rfl⟩

theorem touches_syncData (name : FileName) (world : World) :
    Touches name world ((Task.syncData name).run World.handle world).2 :=
  ⟨fun _ different => Disk.settle_other different _, rfl⟩

theorem touches_syncDir (name : FileName) (world : World) :
    Touches name world (Task.syncDir.run World.handle world).2 :=
  ⟨fun other _ => congrFun (syncDir_files world.disk) other, rfl⟩

theorem touches_andThen {first second : Task Bool}
    (one : ∀ world, Touches name world (first.run World.handle world).2)
    (two : ∀ world, Touches name world (second.run World.handle world).2) (world : World) :
    Touches name world ((first.andThen second).run World.handle world).2 := by
  rw [Task.run_andThen]
  split
  · exact (one world).trans (two _)
  · exact one world

theorem touches_createSegment (writer : Writer) (rotation : Nat) (world : World) :
    Touches (.segment writer.generation rotation) world
      (((writer.createSegment rotation).andThen Task.syncDir).run World.handle world).2 :=
  touches_andThen (touches_andThen (touches_create _)
    (touches_andThen (touches_write _ _) (touches_syncData _))) (touches_syncDir _) world

/-- A task that succeeds only if the file named has not failed under it. -/
def Clean (name : FileName) (task : Task Bool) : Prop :=
  ∀ world : World, (world.disk.files name).failed = false →
    (task.run World.handle world).1 = true →
    ((task.run World.handle world).2.disk.files name).failed = false

theorem clean_andThen {first second : Task Bool} (one : Clean name first)
    (two : Clean name second) : Clean name (first.andThen second) := by
  intro world good ok
  rw [Task.run_andThen] at ok ⊢
  split at ok
  · next done =>
      rw [if_pos done]
      exact two _ (one world good done) ok
  · cases ok

theorem clean_create (name : FileName) : Clean name (Task.create name) := by
  intro world good _
  rw [Task.run_create, World.onDisk_snd]
  dsimp only
  rw [create_files]
  exact good

theorem clean_write (name : FileName) (pieces : List Piece) :
    Clean name (Task.write name pieces) := by
  intro world good ok
  rw [Task.run_write, World.onDisk_snd]
  dsimp only
  rw [Disk.write_ok ok]
  exact good

theorem clean_syncData (name : FileName) : Clean name (Task.syncData name) := by
  intro world good ok
  have verdict : world.disk.verdict = true := ok
  rw [Task.run_syncData, World.onDisk_snd]
  unfold Disk.syncData
  dsimp only
  rw [verdict]
  change ((world.disk.called.settle (world.disk.syncLater name) true).files
    (world.disk.syncLater name).name).failed = false
  rw [Disk.settle_ok]
  exact good

theorem clean_syncDir (name : FileName) : Clean name Task.syncDir := by
  intro world good _
  rw [Task.run_syncDir, World.onDisk_snd]
  dsimp only
  rw [syncDir_files]
  exact good

theorem clean_createSegment (writer : Writer) (rotation : Nat) :
    Clean (.segment writer.generation rotation)
      ((writer.createSegment rotation).andThen Task.syncDir) :=
  clean_andThen (clean_andThen (clean_create _)
    (clean_andThen (clean_write _ _) (clean_syncData _))) (clean_syncDir _)

/-- The next rotation's file changes; it held nothing. -/
theorem Custody.touched (custody : Custody clients waits writer world) {rotation : Nat}
    (next : writer.segment.attempted < rotation)
    (touches : Touches (.segment writer.generation rotation) world later) :
    Custody clients waits
      { writer with segment := { writer.segment with attempted := rotation } } later := by
  have empty := custody.ground.untouched rotation next
  have attempted := custody.ground.attempted
  have others : ∀ other, other ≠ rotation →
      later.disk.files (.segment writer.generation other) =
        world.disk.files (.segment writer.generation other) := by
    intro other different
    apply touches.others
    intro same
    cases same
    exact different rfl
  have grown : world.disk.Extends later.disk := by
    intro name _
    by_cases same : name = .segment writer.generation rotation
    · subst same
      rw [empty]
      exact ⟨⟨_, rfl⟩, Nat.zero_le _⟩
    · rw [touches.others name same]
      exact .refl _
  have healthier : world.disk.Healthier writer.generation later.disk := by
    intro other written good
    rw [others other]
    · exact good
    · rintro rfl
      rw [empty] at written
      exact written rfl
  refine ⟨?_, ⟨custody.ground.grounded, by simp only; omega, ?_, ?_, ?_⟩⟩
  · intro executor lane located
    rw [touches.progress]
    exact (custody.lanes executor lane located).grow grown healthier
  · intro other above
    have beyond : rotation < other := above
    rw [others other (by omega)]
    exact custody.ground.untouched other (by omega)
  · intro round member
    obtain ⟨other, le, name⟩ := custody.ground.named round member
    exact ⟨other, le.trans next.le, name⟩
  · intro clean
    rw [others _ (by simp only; omega)]
    exact custody.ground.healthy clean

/-- `rotate`, once the old file is synced. -/
theorem Custody.openNext (custody : Custody clients [] writer world)
    (settled : writer.segment.dirty = false ∨ writer.segment.syncFailed = true) :
    Custody clients [] (writer.openNext.run World.handle world).1.2
        (writer.openNext.run World.handle world).2 ∧
      ((writer.openNext.run World.handle world).1.1 = true →
        (writer.openNext.run World.handle world).1.2.segment.syncFailed = false) := by
  unfold Writer.openNext
  dsimp only
  have touches := touches_createSegment { writer with
    segment := { writer.segment with attempted := writer.segment.attempted + 1 } }
    (writer.segment.attempted + 1) world
  have clean := clean_createSegment { writer with
    segment := { writer.segment with attempted := writer.segment.attempted + 1 } }
    (writer.segment.attempted + 1) world
  rw [Program.run_bind]
  generalize ((createSegment { writer with
    segment := { writer.segment with attempted := writer.segment.attempted + 1 } }
    (writer.segment.attempted + 1)).andThen Task.syncDir).run World.handle world = outcome
    at touches clean ⊢
  obtain ⟨created, later⟩ := outcome
  have touched := custody.touched (Nat.lt_succ_self _) touches
  dsimp only at clean ⊢
  cases created with
  | true =>
    rw [if_pos rfl, Program.run_bind]
    have opened : Custody clients [] { writer with
        segment := ⟨writer.segment.attempted + 1, writer.segment.attempted + 1, 0, false,
          false⟩
        closed := writer.closed ++ [⟨writer.segment.rotation, writer.frozen,
          writer.segment.bytesWritten⟩] } later := by
      refine ⟨?_, ⟨fun failed => (by cases failed), Nat.le_refl _,
        touched.ground.untouched, touched.ground.named, fun _ => clean ?_ rfl⟩⟩
      · intro executor lane located
        exact (touched.lanes executor lane located).swap settled
          (writer.segment.attempted + 1)
      · rw [custody.ground.untouched _ (Nat.lt_succ_self _)]
        rfl
    exact ⟨opened.nudgeIfDue, fun _ => by
      simp only [Writer.nudgeIfDue, run_tell, Program.run_pure]⟩
  | false =>
    rw [if_neg Bool.false_ne_true, Program.run_bind]
    exact ⟨touched.fail, nofun⟩

theorem within_removeFile (name : FileName) :
    (removeFile name).Within Call.Aside fun _ => True := by
  exact .after (Call.len name) trivial fun _ => .called (Call.remove name) trivial

theorem within_removeOne (generation : Nat) (name : FileName) (state : Removing) :
    (removeOne generation name state).Within Call.Aside fun _ => True := by
  apply (within_removeFile name).bind
  intro removal _
  cases removal <;> exact .pure trivial

theorem within_removeLoop (roundClosed : Bool) (files : List (Nat × FileName)) :
    ∀ state, (removeLoop roundClosed files state).Within Call.Aside fun _ => True := by
  induction files with
  | nil => exact fun _ => .pure trivial
  | cons file rest induction =>
    intro state
    unfold removeLoop
    split
    · exact induction _
    · split
      · split
        · refine .after Call.syncDir trivial fun settled => ?_
          cases settled
          · exact induction _
          · exact (within_removeOne _ _ _).bind fun _ _ => induction _
        · exact (within_removeOne _ _ _).bind fun _ _ => induction _
      · exact (within_removeOne _ _ _).bind fun _ _ => induction _

theorem within_removeAll (names : List FileName) :
    (removeAll names).Within Call.Aside fun _ => True := by
  induction names with
  | nil => exact .pure trivial
  | cons name rest induction =>
    apply (within_removeFile name).bind
    intro _ _
    exact induction.bind fun _ _ => .pure trivial

theorem within_removeClosed (generation : Nat) (lanes : List Lane) (olderLeft : Bool)
    (closed : List Closed) : ∀ unsynced,
    (removeClosed generation lanes olderLeft unsynced closed).Within Call.Aside
      fun _ => True := by
  induction closed with
  | nil => exact fun _ => .pure trivial
  | cons first rest induction =>
    intro unsynced
    unfold removeClosed
    split
    · exact .pure trivial
    · split
      · exact (induction unsynced).bind fun _ _ => .pure trivial
      · split
        · refine .after Call.syncDir trivial fun settled => ?_
          cases settled
          · exact .pure trivial
          · refine (within_removeFile _).bind fun removal _ => ?_
            cases removal with
            | removed => exact (induction false).bind fun _ _ => .pure trivial
            | notFound | failed => exact .pure trivial
        · refine (within_removeFile _).bind fun removal _ => ?_
          cases removal with
          | removed => exact (induction false).bind fun _ _ => .pure trivial
          | notFound | failed => exact .pure trivial

theorem within_compact (writer : Writer) (executor cycle : Nat) :
    (writer.compact executor cycle).Within Call.Aside fun after =>
      after = { writer with olderBytes := after.olderBytes, closed := after.closed } := by
  refine .after Call.list trivial fun listed => ?_
  apply (within_removeLoop _ _ _).bind
  intro older _
  apply (within_removeAll _).bind
  intro snapshots _
  apply (within_removeClosed _ _ _ _ _).bind
  rintro ⟨closed, rotations⟩ _
  dsimp only
  split
  · exact .pure rfl
  · exact .after Call.syncDir trivial fun _ => .pure rfl

theorem Custody.relabel (custody : Custody clients waits writer world)
    (same : ∀ (executor : Nat) lane, lanes[executor]? = some lane → ∃ original : Lane,
      writer.lanes[executor]? = some original ∧ original.SameBatches lane) :
    Custody clients waits { writer with lanes := lanes } world := by
  refine ⟨?_, custody.ground⟩
  intro executor lane located
  obtain ⟨original, found, same⟩ := same executor lane located
  exact (custody.lanes executor original found).relabel same

theorem modify_some {executor other : Nat} {change : Lane → Lane} {lane : Lane}
    (located : (lanes.modify executor change)[other]? = some lane) :
    ∃ original, lanes[other]? = some original ∧
      lane = if executor = other then change original else original := by
  rw [List.getElem?_modify] at located
  obtain ⟨original, found, same⟩ := Option.map_eq_some_iff.mp located
  exact ⟨original, found, same.symm⟩

/-- `take`.  A batch is the next of its executor, and not empty. -/
theorem Custody.take (custody : Custody clients [] writer world) (message : ToWriter)
    (next : ∀ executor batch records, message = .submit executor batch records →
      ∀ lane, writer.lanes[executor]? = some lane → lane.taken = batch ∧
        (clients executor).submissions[batch]? = some records ∧ records ≠ []) :
    (writer.take message).Leads world (Custody clients []) := by
  cases message with
  | submit executor batch records =>
    refine ⟨?_, custody.ground⟩
    intro other lane located
    obtain ⟨original, found, rfl⟩ := modify_some located
    split
    · next same =>
        subst same
        obtain ⟨rfl, submitted, nonempty⟩ := next _ _ _ rfl original found
        exact (custody.lanes executor original found).take submitted nonempty
    · exact (custody.lanes other original found).stage records
  | covered executor cycle throughBatch snapshotBytes =>
    have covered : Custody clients [] { writer with
        lanes := writer.lanes.modify executor fun lane => { lane with
          covered := pointMax lane.covered throughBatch
          snapshotBytes := some snapshotBytes
          nudged := false
          refusing := false } } world := by
      apply custody.relabel
      intro other lane located
      obtain ⟨original, found, rfl⟩ := modify_some located
      refine ⟨original, found, ?_⟩
      split <;> exact ⟨rfl, rfl, rfl, rfl, rfl⟩
    obtain ⟨same, aside⟩ := World.Aside.run (within_compact _ executor cycle) world
    refine (covered.aside aside).alike ?_ ?_ ?_
    all_goals
      unfold Writer.take
      rw [same]
    rfl
  | syncNow => exact custody.alike rfl rfl rfl
  | stop executor =>
    apply custody.relabel
    intro other lane located
    obtain ⟨original, found, rfl⟩ := modify_some located
    refine ⟨original, found, ?_⟩
    split <;> exact ⟨rfl, rfl, rfl, rfl, rfl⟩

end Writer

end Seedstone
