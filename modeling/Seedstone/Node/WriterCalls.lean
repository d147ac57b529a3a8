import Seedstone.Node.Keeping

/-!
# What the writer's handlers do

A handler of the writer that takes no message does two kinds of things: calls on no
channel, which leave the lanes and what is staged alone, and loops over the lanes, of
which there are five.  `Steps` are the tasks made of them and `Moves` is what a run of
one comes to; what holds of every handler is shown for each kind once.
-/

namespace Seedstone

/-- Calls on no channel, that remove nothing. -/
def Call.Mute : Call → Prop
  | .toWriter _ | .answer _ | .toExecutor .. | .remove _ => False
  | _ => True

/-- What those calls leave alone. -/
structure World.Mute (before after : World) : Prop where
  inbox : after.inbox = before.inbox
  answered : after.answered = before.answered
  progress : after.progress = before.progress

theorem World.Mute.handle {call : Call} (mute : call.Mute) (world : World) :
    World.Mute world (World.handle call world).2 := by
  cases call with
  | toWriter | answer | toExecutor | remove => exact mute.elim
  | create | write | syncData | syncLater | letGo | syncDir | list | len | gaugeUsed
  | gaugeApply => exact ⟨rfl, rfl, rfl⟩

/-- What the writer leaves alone. -/
structure World.Unsent (before after : World) : Prop where
  inbox : after.inbox = before.inbox
  answered : after.answered = before.answered

/-- What of a lane only a message of its executor changes. -/
def Lane.standing (lane : Lane) : Nat × Bool × Option Nat × Option Nat :=
  (lane.taken, lane.stopped, lane.covered, lane.snapshotBytes)

/-- No executor has a `stopped` to hear. -/
def World.Unsaid (world : World) : Prop :=
  ∀ executor, .stopped ∉ world.progress executor

theorem World.Unsaid.last {world : World} (unsaid : world.Unsaid) (executor : Nat)
    (before after : List Progress)
    (split : world.progress executor = before ++ .stopped :: after) : after = [] := by
  have silent := unsaid executor
  rw [split] at silent
  simp at silent

/-- The records a message brings. -/
def ToWriter.records : ToWriter → List Record
  | .submit _ _ records => records
  | _ => []

namespace Writer

variable {after : Writer}

/-- The batches taken from each executor stay as they are. -/
def SameTaken (before after : Writer) : Prop :=
  after.lanes.map Lane.taken = before.lanes.map Lane.taken

/-- A writer at work: what was staged is still staged, or gone. -/
structure Steady (before after : Writer) : Prop where
  standing : after.lanes.map Lane.standing = before.lanes.map Lane.standing
  generation : after.generation = before.generation
  staged : after.staged = before.staged ∨ after.staged = []

namespace Steady

theorem of_same {before : Writer} (lanes : after.lanes = before.lanes)
    (generation : after.generation = before.generation)
    (staged : after.staged = before.staged) : Steady before after :=
  ⟨by rw [lanes], generation, Or.inl staged⟩

theorem trans {first second third : Writer} (one : Steady first second)
    (two : Steady second third) : Steady first third := by
  refine ⟨two.standing.trans one.standing, two.generation.trans one.generation, ?_⟩
  rcases two.staged with same | gone
  · rw [same]
    exact one.staged
  · exact Or.inr gone

theorem taken {before : Writer} (steady : Steady before after) :
    SameTaken before after := by
  have first := congrArg (List.map Prod.fst) steady.standing
  rw [List.map_map, List.map_map] at first
  exact first

end Steady

/-- The lanes and what is staged are the same. -/
structure Same (before after : Writer) : Prop where
  lanes : after.lanes = before.lanes
  generation : after.generation = before.generation
  staged : after.staged = before.staged

/-- The loops over the lanes, and whether what was staged is gone by then; the last of
them only if the writer is `over`. -/
inductive Telling (ends : Prop) : Bool → (Nat → Lane → Option Progress × Lane) → Prop where
  | nudge (writer : Writer) : Telling ends false writer.nudgeLane
  | durable {telling : Nat → Lane → Option Progress × Lane}
      (each : ∀ executor, (∃ round through, telling executor = durableLane round through) ∨
        telling executor = fun lane => (none, lane)) : Telling ends false telling
  | fault (fresh : Bool) : Telling ends true (failLane fresh)
  | written : Telling ends true writtenLane
  | stopped (last : ends) : Telling ends false fun _ lane => (some .stopped, lane)

/-- The tasks made of such loops and of calls on no channel. -/
inductive Steps (ends : Prop) : Writer → Task Writer → Prop where
  | done {writer after : Writer} (same : Same writer after) : Steps ends writer (pure after)
  | call {writer : Writer} {call : Call} {next : call.Return → Task Writer}
      (mute : call.Mute) (rest : ∀ answer, Steps ends writer (next answer)) :
      Steps ends writer (.call call next)
  | told {writer after : Writer} {drops : Bool}
      {telling : Nat → Lane → Option Progress × Lane} {next : Writer → Task Writer}
      (kind : Telling ends drops telling) (lanes : after.lanes = writer.lanes)
      (generation : after.generation = writer.generation)
      (staged : after.staged = if drops then [] else writer.staged)
      (rest : ∀ told, Steps ends told (next told)) :
      Steps ends writer (after.tell telling >>= next)

/-- What a run of such a task comes to. -/
inductive Moves (ends : Prop) (origin : Writer) (start : World) : Writer → World → Prop where
  | start : Moves ends origin start origin start
  | aside {writer after : Writer} {world later : World}
      (moves : Moves ends origin start writer world) (same : Same writer after)
      (mute : World.Mute world later) : Moves ends origin start after later
  | told {writer after : Writer} {world : World} {drops : Bool}
      {telling : Nat → Lane → Option Progress × Lane}
      (moves : Moves ends origin start writer world) (kind : Telling ends drops telling)
      (lanes : after.lanes = writer.lanes) (generation : after.generation = writer.generation)
      (staged : after.staged = if drops then [] else writer.staged) :
      Moves ends origin start ((after.tell telling).run World.handle world).1
        ((after.tell telling).run World.handle world).2

section

variable {ends : Prop} {origin writer : Writer} {start world : World} {drops : Bool}
  {telling : Nat → Lane → Option Progress × Lane} {task : Task Writer}

theorem Telling.standing (kind : Telling ends drops telling) (executor : Nat) (lane : Lane) :
    (telling executor lane).2.standing = lane.standing := by
  cases kind with
  | nudge writer =>
    unfold nudgeLane
    dsimp only
    split <;> rfl
  | durable each =>
    rcases each executor with ⟨round, through, same⟩ | same
    · rw [same, durableLane]
      split <;> rfl
    · rw [same]
  | fault | stopped => rfl
  | written =>
    unfold writtenLane
    dsimp only
    split <;> rfl

theorem Telling.running (kind : Telling ends drops telling) (running : ¬ends) (executor : Nat)
    (lane : Lane) : (telling executor lane).1 ≠ some .stopped := by
  cases kind with
  | nudge writer =>
    unfold nudgeLane
    dsimp only
    split <;> simp
  | durable each =>
    rcases each executor with ⟨round, through, same⟩ | same
    · rw [same, durableLane]
      split <;> simp
    · rw [same]
      simp
  | fault fresh =>
    unfold failLane
    dsimp only
    split <;> simp
  | written =>
    unfold writtenLane
    dsimp only
    split <;> simp
  | stopped last => exact absurd last running

section

variable (moves : Moves ends origin start writer world)

include moves

theorem Moves.steady : Steady origin writer := by
  induction moves with
  | start => exact .of_same rfl rfl rfl
  | aside _ same _ induction =>
    exact induction.trans (.of_same same.lanes same.generation same.staged)
  | @told writer after world drops telling _ kind lanes generation staged induction =>
    refine induction.trans ⟨?_, ?_, ?_⟩
    · rw [run_tell, lanes]
      apply List.ext_getElem?
      intro executor
      simp only [List.getElem?_map, List.getElem?_mapIdx, Option.map_map]
      congr 1
      funext lane
      exact kind.standing executor lane
    · rw [run_tell]
      exact generation
    · rw [run_tell, staged]
      cases drops
      · exact Or.inl rfl
      · exact Or.inr rfl

theorem Moves.unsent : World.Unsent start world := by
  induction moves with
  | start => exact ⟨rfl, rfl⟩
  | aside _ _ mute induction =>
    exact ⟨mute.inbox.trans induction.inbox, mute.answered.trans induction.answered⟩
  | told _ _ _ _ _ induction =>
    rw [run_tell]
    exact ⟨induction.inbox, induction.answered⟩

theorem Moves.unsaid (running : ¬ends) (unsaid : start.Unsaid) : world.Unsaid := by
  induction moves with
  | start => exact unsaid
  | aside _ _ mute induction =>
    intro executor
    rw [mute.progress]
    exact induction executor
  | @told writer after world drops telling _ kind _ _ _ induction =>
    intro executor
    rw [run_tell]
    simp only [List.mem_append, not_or]
    refine ⟨induction executor, ?_⟩
    unfold toldFrom
    split
    · intro member
      rw [Option.mem_toList, Option.bind_eq_some_iff] at member
      obtain ⟨lane, _, said⟩ := member
      exact kind.running running executor lane said
    · exact List.not_mem_nil

end

theorem Steps.moves (steps : Steps ends writer task) :
    task.Ensures World.handle (Moves ends origin start writer) (Moves ends origin start) := by
  induction steps with
  | done same => exact .pure fun _ moves => moves.aside same ⟨rfl, rfl, rfl⟩
  | call mute _ induction =>
    exact fun world moves => induction _ _ (moves.aside ⟨rfl, rfl, rfl⟩ (.handle mute world))
  | told kind lanes generation staged _ induction =>
    have tells := fun world (moves : Moves ends origin start _ world) =>
      moves.told kind lanes generation staged
    exact Program.Ensures.bind tells fun told => induction told

theorem Steps.run (steps : Steps ends writer task) (world : World) :
    Moves ends writer world (task.run World.handle world).1 (task.run World.handle world).2 :=
  steps.moves world .start

theorem Steps.since (steps : Steps ends after task) (same : Same writer after) :
    Steps ends writer task := by
  induction steps with
  | done further =>
    exact .done ⟨further.lanes.trans same.lanes, further.generation.trans same.generation,
      further.staged.trans same.staged⟩
  | call mute _ induction => exact .call mute fun answer => induction answer same
  | told kind lanes generation staged rest _ =>
    refine .told kind (lanes.trans same.lanes) (generation.trans same.generation) ?_ rest
    rw [staged, same.staged]

theorem Steps.bind {next : Writer → Task Writer} (steps : Steps ends writer task)
    (rest : ∀ after, Steps ends after (next after)) : Steps ends writer (task >>= next) := by
  induction steps with
  | done same => exact (rest _).since same
  | call mute _ induction => exact .call mute induction
  | told kind lanes generation staged _ induction =>
    rw [Program.bind_bind]
    exact .told kind lanes generation staged induction

theorem steps_mute {α : Type} {post : α → Prop} {task : Task α} {next : α → Task Writer}
    (within : task.Within Call.Mute post)
    (rest : ∀ result, post result → Steps ends writer (next result)) :
    Steps ends writer (task >>= next) := by
  induction within with
  | done holds => exact rest _ holds
  | call mute _ induction => exact .call mute induction

theorem steps_tell (kind : Telling ends drops telling) (lanes : after.lanes = writer.lanes)
    (generation : after.generation = writer.generation)
    (staged : after.staged = if drops then [] else writer.staged) :
    Steps ends writer (after.tell telling) := by
  rw [← Program.bind_pure (after.tell telling)]
  exact .told kind lanes generation staged fun _ => .done ⟨rfl, rfl, rfl⟩

theorem mute_mark (writer : Writer) : writer.mark.Within Call.Mute fun outcome =>
    Same writer outcome.2 := by
  refine .after (Call.write writer.fileName [.syncMark]) trivial fun ok => ?_
  cases ok <;> exact .pure ⟨rfl, rfl, rfl⟩

theorem steps_fail : Steps ends writer writer.fail := by
  have tells : Steps ends writer (tell { writer with
      segment := { writer.segment with syncFailed := true, dirty := false }
      staged := []
      inFlight := none } (failLane (!writer.segment.syncFailed))) :=
    steps_tell (.fault _) rfl rfl rfl
  unfold Writer.fail
  cases writer.inFlight with
  | none => exact tells
  | some round => exact .call trivial fun _ => tells

theorem steps_reportDurable (covered : List (Option Nat)) :
    Steps ends writer (writer.reportDurable covered) := by
  refine steps_tell (.durable fun executor => ?_) rfl rfl rfl
  cases covered[executor]? with
  | some through => exact Or.inl ⟨_, _, rfl⟩
  | none => exact Or.inr rfl

theorem steps_settle (covered : List (Option Nat)) (ok : Bool) :
    Steps ends writer (writer.settle covered ok) := by
  cases ok with
  | true => exact steps_reportDurable covered
  | false => exact steps_fail

theorem steps_nudgeIfDue : Steps ends writer writer.nudgeIfDue :=
  steps_tell (.nudge writer) rfl rfl rfl

theorem steps_begin : Steps ends writer (do
    let writer ← writer.nudgeIfDue
    pure { writer with phase := .idle }) :=
  steps_nudgeIfDue.bind fun _ => .done ⟨rfl, rfl, rfl⟩

theorem steps_maybeIssue (now : Nat) : Steps ends writer (writer.maybeIssue now) := by
  have still : Steps ends writer (pure writer) := .done ⟨rfl, rfl, rfl⟩
  unfold Writer.maybeIssue
  split
  · exact still
  · dsimp only
    generalize (if writer.segment.dirty then writer.policy.minInterval else none) = cadence
    split
    · exact still
    · split
      · exact still
      · refine steps_mute (mute_mark _) ?_
        rintro ⟨ok, marked⟩ same
        have kept : Same writer marked := { same with }
        cases ok with
        | true =>
          exact .call trivial fun _ => .done { kept with }
        | false => exact steps_fail.since kept

theorem steps_writeOut : Steps ends writer writer.writeOut := by
  refine .call trivial fun ok => ?_
  cases ok with
  | true => exact steps_tell .written rfl rfl rfl
  | false => exact steps_fail

theorem steps_openNext {next : Bool × Writer → Task Writer}
    (rest : ∀ ok after, Steps ends after (next (ok, after))) :
    Steps ends writer (writer.openNext >>= next) := by
  have creates : ∀ (writer : Writer) (rotation : Nat),
      ((writer.createSegment rotation).andThen Task.syncDir).Within Call.Mute
        fun _ => True := fun writer rotation =>
    Task.within_andThen (Task.within_andThen (.called (Call.create _) trivial)
      (Task.within_andThen (.called (Call.write _ _) trivial)
        (.called (Call.syncData _) trivial))) (.called Call.syncDir trivial)
  unfold Writer.openNext
  dsimp only
  rw [Program.bind_bind]
  refine steps_mute (creates _ _) fun created _ => ?_
  split
  · rw [Program.bind_bind]
    exact (steps_nudgeIfDue.bind fun after => rest true after).since ⟨rfl, rfl, rfl⟩
  · rw [Program.bind_bind]
    exact (steps_fail.bind fun after => rest false after).since ⟨rfl, rfl, rfl⟩

end

section

variable {writer : Writer}

theorem steps_sayStopped : Steps True writer writer.sayStopped :=
  .told (.stopped trivial) rfl rfl rfl fun _ => .done ⟨rfl, rfl, rfl⟩

theorem steps_lastSyncOf : Steps True writer writer.lastSyncOf := by
  unfold Writer.lastSyncOf
  split
  · refine steps_mute (mute_mark writer) ?_
    rintro ⟨ok, marked⟩ kept
    cases ok with
    | true => exact .call trivial fun _ => .done { kept with }
    | false => exact (steps_fail.bind fun _ => steps_sayStopped).since kept
  · exact steps_sayStopped

theorem steps_lastRound : Steps True writer writer.lastRound := by
  unfold Writer.lastRound
  cases writer.inFlight with
  | none => exact steps_lastSyncOf
  | some round => exact .done ⟨rfl, rfl, rfl⟩

theorem steps_afterWrite (now : Nat) : Steps True writer (writer.afterWrite now) := by
  have issues : Steps True writer (Writer.maybeIssue { writer with phase := .idle } now) :=
    (steps_maybeIssue now).since ⟨rfl, rfl, rfl⟩
  refine issues.bind fun issued => ?_
  split
  · exact steps_lastRound
  · exact .done ⟨rfl, rfl, rfl⟩

theorem steps_rotateAndWrite (now : Nat) : Steps True writer (writer.rotateAndWrite now) := by
  refine steps_openNext fun ok opened => ?_
  cases ok with
  | true => exact steps_writeOut.bind fun _ => steps_afterWrite now
  | false => exact steps_afterWrite now

theorem steps_flush (now : Nat) : Steps True writer (writer.flush now) := by
  unfold Writer.flush
  split
  · exact steps_afterWrite now
  · split
    · exact steps_writeOut.bind fun _ => steps_afterWrite now
    · split
      · refine steps_mute (mute_mark writer) ?_
        rintro ⟨ok, marked⟩ kept
        cases ok with
        | true => exact .call trivial fun _ => .done { kept with }
        | false => exact (steps_fail.bind fun _ => steps_afterWrite now).since kept
      · exact steps_rotateAndWrite now

theorem steps_completed (ok : Bool) (now : Nat) : Steps True writer (writer.completed ok now) := by
  have still : Steps True writer (pure writer) := .done ⟨rfl, rfl, rfl⟩
  unfold Writer.completed
  split
  · split
    · exact still
    · next covered flight _ =>
        have settles : Steps True writer (settle { writer with inFlight := none } covered ok) :=
          (steps_settle covered ok).since ⟨rfl, rfl, rfl⟩
        exact settles.bind fun _ => steps_maybeIssue now
  · cases ok with
    | true => exact (steps_rotateAndWrite now).since ⟨rfl, rfl, rfl⟩
    | false => exact steps_fail.bind fun _ => steps_afterWrite now
  · exact (steps_settle _ ok).bind fun _ => steps_lastSyncOf
  · next covered flight _ =>
      cases ok with
      | true =>
        have reports : Steps True writer (writer.clean.reportDurable covered) :=
          (steps_reportDurable covered).since ⟨rfl, rfl, rfl⟩
        exact reports.bind fun _ => steps_sayStopped
      | false => exact steps_fail.bind fun _ => steps_sayStopped
  all_goals exact still

end

variable {writer : Writer}

theorem Steps.steady {task : Task Writer} (steps : Steps True writer task) (world : World) :
    Steady writer (task.run World.handle world).1 :=
  (steps.run world).steady

theorem steady_fail (writer : Writer) (world : World) :
    Steady writer (writer.fail.run World.handle world).1 :=
  steps_fail.steady world

theorem steady_reportDurable (writer : Writer) (covered : List (Option Nat)) (world : World) :
    Steady writer ((writer.reportDurable covered).run World.handle world).1 :=
  (steps_reportDurable covered).steady world

theorem Steady.quiet (steady : Steady writer after) (quiet : writer.staged = []) :
    after.staged = [] := by
  rcases steady.staged with same | gone
  · exact same.trans quiet
  · exact gone

end Writer

/-- The loop says `stopped` to no one. -/
theorem World.Unsaid.run {writer : Writer} {world : World} {task : Task Writer}
    (unsaid : world.Unsaid) (steps : Writer.Steps False writer task) :
    (task.run World.handle world).2.Unsaid :=
  (steps.run world).unsaid id unsaid

namespace Writer

variable {writer : Writer}

/-- What a message makes of its executor's lane. -/
def laneTook (executor : Nat) (lane : Lane) : ToWriter → Lane
  | .submit sender batch records =>
    if sender = executor then
      { lane with
        received := some batch
        pendingBytes := lane.pendingBytes + encodedLen records
        taken := batch + 1 }
    else
      lane
  | .covered sender _ throughBatch snapshotBytes =>
    if sender = executor then
      { lane with
        covered := pointMax lane.covered throughBatch
        snapshotBytes := some snapshotBytes
        nudged := false
        refusing := false }
    else
      lane
  | .syncNow => lane
  | .stop sender => if sender = executor then { lane with stopped := true } else lane

/-- What taking a message makes of the writer. -/
structure Took (message : ToWriter) (before after : Writer) : Prop where
  lanes : ∀ executor, after.lanes[executor]? =
    before.lanes[executor]?.map fun lane => laneTook executor lane message
  generation : after.generation = before.generation
  segment : after.segment = before.segment
  staged : after.staged = before.staged ++ message.records

theorem Took.relabel {message : ToWriter} {before after final : Writer}
    (took : Took message before after) (lanes : final.lanes = after.lanes)
    (generation : final.generation = after.generation)
    (segment : final.segment = after.segment) (staged : final.staged = after.staged) :
    Took message before final :=
  ⟨fun executor => by rw [lanes]; exact took.lanes executor,
    generation.trans took.generation, segment.trans took.segment, staged.trans took.staged⟩

theorem aside_take (writer : Writer) (message : ToWriter) :
    (writer.take message).Within Call.Aside (Took message writer) := by
  cases message with
  | submit sender batch records =>
    refine .pure ⟨fun executor => ?_, rfl, rfl, rfl⟩
    rw [List.getElem?_modify]
    rfl
  | covered sender cycle throughBatch snapshotBytes =>
    apply (within_compact _ sender cycle).weaken
    intro after same
    rw [same]
    refine ⟨fun executor => ?_, rfl, rfl, (List.append_nil _).symm⟩
    rw [List.getElem?_modify]
    rfl
  | syncNow =>
    refine .pure ⟨fun executor => ?_, rfl, rfl, (List.append_nil _).symm⟩
    exact (Option.map_id' ..).symm
  | stop sender =>
    refine .pure ⟨fun executor => ?_, rfl, rfl, (List.append_nil _).symm⟩
    rw [List.getElem?_modify]
    rfl

theorem aside_draining (writer : Writer) (message : ToWriter) :
    (writer.draining message).Within Call.Aside (Took message writer) :=
  (writer.aside_take message).bind fun _ took => .pure (took.relabel rfl rfl rfl rfl)

theorem Took.same {message : ToWriter} {before after : Writer} (took : Took message before after)
    (other : ∀ executor batch records, message ≠ .submit executor batch records) :
    SameTaken before after := by
  apply List.ext_getElem?
  intro executor
  rw [List.getElem?_map, List.getElem?_map, took.lanes, Option.map_map]
  congr 1
  funext lane
  cases message with
  | submit sender batch records => exact absurd rfl (other sender batch records)
  | covered | stop =>
    simp only [Function.comp_apply, laneTook]
    split <;> rfl
  | syncNow => rfl

end Writer

end Seedstone
