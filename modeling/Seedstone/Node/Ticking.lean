import Seedstone.Node.Checkpoint

/-!
# What a checkpoint touches

A tick of the checkpoint calls on the disk for snapshot files and the directory
only, and changes nothing of a shard but its durable point.  The bases of the
image it completes are those its cycle was opened with.
-/

namespace Seedstone

variable {name : FileName} {α : Type}

/-- The calls that leave the segments and the channels alone. -/
def Call.Aside : Call → Prop
  | .write name _ | .syncData name => name.isSegment = false
  | .create _ | .remove _ | .list | .len _ | .syncDir | .gaugeUsed | .gaugeApply .. => True
  | _ => False

theorem Disk.setFile_segment {disk : Disk} (aside : name.isSegment = false)
    (file : FileState) (generation rotation : Nat) :
    (disk.setFile name file).files (.segment generation rotation) =
      disk.files (.segment generation rotation) := by
  apply Function.update_of_ne
  rintro rfl
  simp [FileName.isSegment] at aside

/-- What those calls leave alone. -/
structure World.Aside (before after : World) : Prop where
  segments : ∀ generation rotation,
    after.disk.files (.segment generation rotation) =
      before.disk.files (.segment generation rotation)
  inbox : after.inbox = before.inbox
  progress : after.progress = before.progress
  answered : after.answered = before.answered

namespace World.Aside

theorem refl (world : World) : World.Aside world world :=
  ⟨fun _ _ => rfl, rfl, rfl, rfl⟩

theorem trans {first second third : World} (one : World.Aside first second)
    (two : World.Aside second third) : World.Aside first third where
  segments generation rotation :=
    (two.segments generation rotation).trans (one.segments generation rotation)
  inbox := two.inbox.trans one.inbox
  progress := two.progress.trans one.progress
  answered := two.answered.trans one.answered

theorem onDisk {world : World} {outcome : α × Disk}
    (segments : ∀ generation rotation, outcome.2.files (.segment generation rotation) =
      world.disk.files (.segment generation rotation)) :
    World.Aside world (world.onDisk outcome).2 :=
  ⟨segments, rfl, rfl, rfl⟩

theorem handle {call : Call} (aside : call.Aside) (world : World) :
    World.Aside world (World.handle call world).2 := by
  cases call with
  | create name =>
    apply onDisk
    intro generation rotation
    unfold Disk.create
    dsimp only
    split
    · rfl
    · split <;> rfl
  | write name pieces =>
    apply onDisk
    intro generation rotation
    unfold Disk.write
    dsimp only
    split <;> exact Disk.setFile_segment aside _ generation rotation
  | syncData name =>
    apply onDisk
    intro generation rotation
    unfold Disk.syncData Disk.settle
    dsimp only
    split <;> exact Disk.setFile_segment aside _ generation rotation
  | syncDir =>
    apply onDisk
    intro generation rotation
    unfold Disk.syncDir
    split <;> rfl
  | remove name =>
    apply onDisk
    intro generation rotation
    unfold Disk.remove
    dsimp only
    split
    · rfl
    · split <;> rfl
  | list | len => exact onDisk fun _ _ => rfl
  | gaugeUsed => exact refl world
  | gaugeApply before after => exact ⟨fun _ _ => rfl, rfl, rfl, rfl⟩
  | syncLater | letGo | toWriter | toExecutor | answer => exact aside.elim

theorem run {post : α → Prop} {task : Task α} (within : task.Within Call.Aside post)
    (world : World) :
    post (task.run World.handle world).1 ∧ World.Aside world (task.run World.handle world).2 :=
  within.run_related refl trans (fun _ => handle) world

end World.Aside

namespace Task

theorem within_andThen {allowed : Call → Prop} {first second : Task Bool}
    (one : first.Within allowed fun _ => True) (two : second.Within allowed fun _ => True) :
    (first.andThen second).Within allowed fun _ => True := by
  apply one.bind
  intro ok _
  cases ok
  · exact .pure trivial
  · exact two

end Task

/-- A shard but for its log's durable point. -/
def ShardState.undated (state : ShardState FileLog) : ShardState FileLog :=
  { state with log := { state.log with durable := none } }

/-- What two shards that differ in their durable points share. -/
structure SameShard (before after : ShardState FileLog) : Prop where
  dict : after.dict = before.dict
  seq : after.seq = before.seq
  refusing : after.refusing = before.refusing
  pending : after.log.pending = before.log.pending
  accepted : after.log.accepted = before.log.accepted

/-- Two lists of shards that differ in durable points only. -/
def SameShards (before after : List (ShardState FileLog)) : Prop :=
  after.map ShardState.undated = before.map ShardState.undated

namespace SameShards

variable {before middle after : List (ShardState FileLog)}

theorem refl (states : List (ShardState FileLog)) : SameShards states states :=
  rfl

theorem trans (one : SameShards before middle) (two : SameShards middle after) :
    SameShards before after :=
  Eq.trans two one

theorem map {view : ShardState FileLog → α}
    (blind : ∀ state, view state.undated = view state) (same : SameShards before after) :
    after.map view = before.map view := by
  have undated := congrArg (List.map view) same
  simpa only [List.map_map, Function.comp_def, blind] using undated

theorem seq (same : SameShards before after) :
    after.map ShardState.seq = before.map ShardState.seq :=
  same.map fun _ => rfl

theorem length (same : SameShards before after) : after.length = before.length := by
  simpa using congrArg List.length same

theorem getElem? (same : SameShards before after) {offset : Nat}
    {state : ShardState FileLog} (located : after[offset]? = some state) :
    ∃ original, before[offset]? = some original ∧ SameShard original state := by
  have position := congrArg (fun states => states[offset]?) same
  simp only [List.getElem?_map, located, Option.map_some] at position
  obtain ⟨original, found, undated⟩ := Option.map_eq_some_iff.mp position.symm
  exact ⟨original, found, (congrArg (fun state => state.dict) undated).symm,
    (congrArg (fun state => state.seq) undated).symm,
    (congrArg (fun state => state.refusing) undated).symm,
    (congrArg (fun state => state.log.pending) undated).symm,
    (congrArg (fun state => state.log.accepted) undated).symm⟩

end SameShards

namespace SegmentCheckpoint

/-- A cycle further on: its bases and its opening stay. -/
structure SameCycle (before after : Cycle) : Prop where
  bases : after.bases = before.bases
  openedAfter : after.openedAfter = before.openedAfter

namespace SameCycle

theorem refl (cycle : Cycle) : SameCycle cycle cycle :=
  ⟨rfl, rfl⟩

theorem trans {first second third : Cycle} (one : SameCycle first second)
    (two : SameCycle second third) : SameCycle first third :=
  ⟨two.bases.trans one.bases, two.openedAfter.trans one.openedAfter⟩

end SameCycle

variable {checkpoint : SegmentCheckpoint}

theorem fileName_aside (checkpoint : SegmentCheckpoint) (cycle : Cycle) :
    (checkpoint.fileName cycle).isSegment = false :=
  rfl

theorem within_ensureFile (firstShard : Nat) (cycle : Cycle) :
    (checkpoint.ensureFile firstShard cycle).Within Call.Aside fun outcome =>
      SameCycle cycle outcome.2 := by
  unfold ensureFile
  split
  · exact .pure (.refl cycle)
  · have aside := fileName_aside checkpoint cycle
    apply (Task.within_andThen (.called (Call.create _) trivial)
      (Task.within_andThen (.called (Call.write _ _) aside)
        (Task.within_andThen (.called (Call.syncData _) aside)
          (.called Call.syncDir trivial)))).bind
    intro ok _
    cases ok
    · exact .pure (.refl cycle)
    · exact .pure ⟨rfl, rfl⟩

theorem within_restart (cycle : Cycle) :
    (checkpoint.restart cycle).Within Call.Aside fun outcome =>
      outcome.1.forces = checkpoint.forces ∧ SameCycle cycle outcome.2 := by
  exact .after (Call.remove _) trivial fun _ => .pure ⟨rfl, rfl, rfl⟩

theorem within_abandon (cycle : Cycle) :
    (checkpoint.abandon cycle).Within Call.Aside fun outcome =>
      outcome.2.1.forces = checkpoint.forces ∧ SameCycle cycle outcome.2.2 := by
  apply (within_restart cycle).bind
  rintro ⟨after, restarted⟩ same
  exact .pure same

theorem within_drain (cycle : Cycle) :
    (checkpoint.drain cycle).Within Call.Aside fun outcome =>
      SameCycle cycle outcome.2 := by
  unfold drain
  split
  · exact .pure (.refl cycle)
  · refine .after (Call.write _ _) (fileName_aside checkpoint cycle) fun ok => ?_
    cases ok
    · exact .pure (.refl cycle)
    · exact .pure ⟨rfl, rfl⟩

theorem within_syncFooter (cycle : Cycle) :
    (checkpoint.syncFooter cycle).Within Call.Aside fun outcome =>
      outcome.2.1.forces = checkpoint.forces ∧ SameCycle cycle outcome.2.2 := by
  refine .after (Call.syncData _) (fileName_aside checkpoint cycle) fun ok => ?_
  cases ok
  · apply (within_restart cycle).bind
    rintro ⟨after, restarted⟩ same
    exact .pure same
  · refine .after Call.syncDir trivial fun settled => ?_
    cases settled
    · exact .pure ⟨rfl, rfl, rfl⟩
    · exact .pure ⟨rfl, rfl, rfl⟩

theorem sameCycle_endOfScan (firstShard : Nat) (log : LogPosition) (cycle : Cycle) :
    SameCycle cycle (endOfScan firstShard log cycle).2 := by
  unfold endOfScan logShortOfImage
  dsimp only
  split
  · next waiting after outcome =>
      split at outcome <;> cases outcome
      exact ⟨rfl, rfl⟩
  · next after outcome =>
      split at outcome <;> cases outcome
      exact ⟨rfl, rfl⟩

theorem within_stepInner (firstShard : Nat) (states : List (ShardState FileLog))
    (now : Now) (log : LogPosition) (cycle : Cycle) :
    (checkpoint.stepInner firstShard states now log cycle).Within Call.Aside
      fun outcome =>
        outcome.2.1.forces = checkpoint.forces ∧ SameCycle cycle outcome.2.2 := by
  apply (within_ensureFile firstShard _).bind
  rintro ⟨ok, ensured⟩ same
  have kept : SameCycle cycle ensured := ⟨same.bases, same.openedAfter⟩
  dsimp only
  split
  · exact (within_abandon ensured).weaken fun _ after => ⟨after.1, kept.trans after.2⟩
  · split
    · refine .after Call.syncDir trivial fun settled => ?_
      cases settled
      · exact .pure ⟨rfl, kept⟩
      · exact .pure ⟨rfl, kept.trans ⟨rfl, rfl⟩⟩
    · split
      · exact (within_syncFooter ensured).weaken fun _ after =>
          ⟨after.1, kept.trans after.2⟩
      · generalize scanned : checkpoint.scan firstShard states now ensured = swept
        have sweptSame : SameCycle cycle swept := by
          rw [← scanned]
          exact kept.trans ⟨rfl, rfl⟩
        generalize ended :
          (if swept.scannedAll then endOfScan firstShard log swept else (false, swept)) = outcome
        have endedSame : SameCycle cycle outcome.2 := by
          rw [← ended]
          split
          · exact sweptSame.trans (sameCycle_endOfScan firstShard log swept)
          · exact sweptSame
        apply (within_drain outcome.2).bind
        rintro ⟨drained, last⟩ lastSame
        have lastKept : SameCycle cycle last := endedSame.trans lastSame
        dsimp only
        split
        · exact (within_abandon last).weaken fun _ after =>
            ⟨after.1, lastKept.trans after.2⟩
        · split
          · exact (within_syncFooter last).weaken fun _ after =>
              ⟨after.1, lastKept.trans after.2⟩
          · exact .pure ⟨rfl, lastKept⟩

theorem sameShards_finish (states : List (ShardState FileLog)) (cycle : Cycle) :
    SameShards states (checkpoint.finish states cycle).2.2 := by
  unfold SameShards finish
  dsimp only
  apply List.ext_getElem?
  intro offset
  simp only [List.getElem?_map, List.getElem?_mapIdx, Option.map_map]
  congr 1
  funext state
  simp only [Function.comp_apply]
  split <;> rfl

/-- What a tick over an open cycle comes to. -/
structure Ticked (checkpoint : SegmentCheckpoint) (states : List (ShardState FileLog))
    (bases : List Nat) (openedAfter : Nat)
    (outcome : Tick × SegmentCheckpoint × List (ShardState FileLog)) : Prop where
  forces : outcome.2.1.forces = checkpoint.forces
  shards : SameShards states outcome.2.2
  going : ∀ cycle, outcome.2.1.open = some cycle →
    cycle.bases = bases ∧ cycle.openedAfter = openedAfter
  done : ∀ done, outcome.1.completed = some done →
    done.bases = bases ∧ done.openedAfter = openedAfter

theorem within_advance (firstShard : Nat) (states : List (ShardState FileLog))
    (now : Now) (log : LogPosition) (cycle : Cycle) :
    (checkpoint.advance firstShard states now log cycle).Within Call.Aside
      (Ticked checkpoint states cycle.bases cycle.openedAfter) := by
  apply (within_stepInner firstShard states now log cycle).bind
  rintro ⟨step, after, last⟩ ⟨forces, same⟩
  cases step with
  | pending | failed =>
    refine .pure ⟨forces, .refl states, ?_, by simp⟩
    intro going found
    cases found
    exact ⟨same.bases, same.openedAfter⟩
  | durable =>
    refine .pure ⟨forces, sameShards_finish states last, ?_, ?_⟩
    · intro going found
      simp at found
    · intro done found
      cases found
      exact ⟨same.bases, same.openedAfter⟩

/-- `tick`: an open cycle goes on, or one is opened with the shards' sequence
numbers, or nothing happens. -/
theorem within_tick (firstShard : Nat) (states : List (ShardState FileLog))
    (now : Now) (log : LogPosition) :
    (checkpoint.tick firstShard states now log).Within Call.Aside fun outcome =>
      (∃ cycle, checkpoint.open = some cycle ∧
          Ticked checkpoint states cycle.bases cycle.openedAfter outcome) ∨
        Ticked checkpoint states (states.map ShardState.seq) checkpoint.forces
          outcome := by
  unfold tick
  cases opened : checkpoint.open with
  | some cycle =>
    exact (within_advance firstShard states now log cycle).weaken fun _ ticked =>
      Or.inl ⟨cycle, rfl, ticked⟩
  | none =>
    dsimp only
    split
    · refine .pure (Or.inr ⟨rfl, .refl states, ?_, by simp [Tick.none]⟩)
      intro going found
      simp [opened] at found
    · exact (within_advance firstShard states now log _).weaken fun _ ticked =>
        Or.inr { ticked with }

theorem within_force :
    checkpoint.force.Within Call.Aside fun after =>
      after.open = none ∧ after.forces = checkpoint.forces + 1 := by
  unfold force
  cases checkpoint.open with
  | none => exact .pure ⟨rfl, rfl⟩
  | some cycle =>
    dsimp only
    split
    · exact .after (Call.remove _) trivial fun _ => .pure ⟨rfl, rfl⟩
    · exact .pure ⟨rfl, rfl⟩

end SegmentCheckpoint

end Seedstone
