import Seedstone.Node.Stopping

/-!
# Back-pressure

An executor waits while more than `WRITER_BUDGET` of what it handed over is not
acknowledged.  The writer acknowledges by cumulative counts, in grains, and a fault
acknowledges everything at once.  `Metered` relates the two counts of one executor,
the writer's and its own, through the messages that are still on their way.
-/

namespace Seedstone

variable {queue : List Progress} {message : Progress}

/-- The count a message acknowledges. -/
def Progress.bytes : Progress → Nat
  | .written bytes | .durable _ bytes _ => bytes
  | .fault | .nudge | .stopped => 0

/-- The executor has acknowledged `level`, or a message on its way will. -/
def Reaches (acked : Nat) (queue : List Progress) (level : Nat) : Prop :=
  level ≤ acked ∨ ∃ message ∈ queue, level ≤ message.bytes

theorem Reaches.say {acked level : Nat} (reaches : Reaches acked queue level)
    (more : List Progress) : Reaches acked (queue ++ more) level := by
  rcases reaches with already | ⟨message, member, enough⟩
  · exact Or.inl already
  · exact Or.inr ⟨message, List.mem_append_left more member, enough⟩

theorem Reaches.grow {acked larger level : Nat} (reaches : Reaches acked queue level)
    (grown : acked ≤ larger) : Reaches larger queue level :=
  reaches.imp_left fun already => already.trans grown

/-- The counts of one lane and of its executor.  What the lane counts as written is a
grain at most above what it last reported, or what it had come to at the last fault. -/
structure Metered (submissions : List (List Record)) (acked : Nat) (queue : List Progress)
    (lane : Lane) : Prop where
  total : lane.writtenBytes + lane.pendingBytes = bytesOf (submissions.take lane.taken)
  reports : ∀ message ∈ queue, message.bytes ≤ lane.writtenBytes
  reported : lane.reportedBytes ≤ lane.writtenBytes
  level : ∃ floor ≤ lane.writtenBytes,
    lane.writtenBytes < max lane.reportedBytes floor + writtenGrain ∧
    Reaches acked queue lane.reportedBytes ∧ (Reaches acked queue floor ∨ .fault ∈ queue)

namespace Metered

variable {submissions : List (List Record)} {acked : Nat} {queue : List Progress} {lane : Lane}

section

variable (metered : Metered submissions acked queue lane)

include metered

theorem say (below : message.bytes ≤ lane.writtenBytes) :
    Metered submissions acked (queue ++ [message]) lane := by
  obtain ⟨floor, low, grain, reported, reached⟩ := metered.level
  refine ⟨metered.total, ?_, metered.reported, floor, low, grain, reported.say _,
    reached.imp (fun reaches => reaches.say _) (List.mem_append_left _)⟩
  intro other member
  rcases List.mem_append.mp member with old | new
  · exact metered.reports other old
  · rw [List.mem_singleton.mp new]
    exact below

theorem relabel {after : Lane} (pending : after.pendingBytes = lane.pendingBytes)
    (written : after.writtenBytes = lane.writtenBytes)
    (reported : after.reportedBytes = lane.reportedBytes) (taken : after.taken = lane.taken) :
    Metered submissions acked queue after := by
  obtain ⟨total, reports, below, level⟩ := metered
  constructor
  · rw [written, pending, taken]
    exact total
  · rw [written]
    exact reports
  · rw [written, reported]
    exact below
  · rw [written, reported]
    exact level

/-- The lane's batches are written, and reported once they make a grain. -/
theorem written (executor : Nat) :
    Metered submissions acked (queue ++ (Writer.writtenLane executor lane).1.toList)
      (Writer.writtenLane executor lane).2 := by
  obtain ⟨floor, low, grain, reported, reached⟩ := metered.level
  have total := metered.total
  have below := metered.reported
  have reports : ∀ message ∈ queue,
      message.bytes ≤ lane.writtenBytes + lane.pendingBytes := fun message member =>
    (metered.reports message member).trans (Nat.le_add_right _ _)
  unfold Writer.writtenLane
  dsimp only
  split
  · refine ⟨total, ?_, Nat.le_refl _, 0, Nat.zero_le _, ?_, ?_, Or.inl (Or.inl (Nat.zero_le _))⟩
    · intro message member
      rcases List.mem_append.mp member with old | new
      · exact reports message old
      · rw [List.mem_singleton.mp new]
        exact Nat.le_refl _
    · have positive : 0 < writtenGrain := by decide
      dsimp only
      omega
    · exact Or.inr ⟨.written (lane.writtenBytes + lane.pendingBytes),
        List.mem_append_right _ (List.mem_singleton_self _), Nat.le_refl _⟩
  · next small =>
      refine ⟨total, ?_, ?_, 0, Nat.zero_le _, ?_, ?_, Or.inl (Or.inl (Nat.zero_le _))⟩
      · simpa using reports
      · dsimp only
        omega
      · dsimp only
        omega
      · simpa using reported

/-- What is dropped counts as written, and a fault says so. -/
theorem failed (fresh : Bool) (executor : Nat) :
    Metered submissions acked (queue ++ (Writer.failLane fresh executor lane).1.toList)
      (Writer.failLane fresh executor lane).2 := by
  have total := metered.total
  have below := metered.reported
  by_cases told : (fresh || decide (0 < lane.pendingBytes)) = true
  · have positive : 0 < writtenGrain := by decide
    obtain ⟨_, _, _, reported, _⟩ := metered.level
    simp only [Writer.failLane, told, if_true]
    refine ⟨total, ?_, ?_, lane.writtenBytes + lane.pendingBytes, Nat.le_refl _, ?_,
      reported.say _, Or.inr (List.mem_append_right _ (List.mem_singleton_self _))⟩
    · intro message member
      rcases List.mem_append.mp member with old | new
      · exact (metered.reports message old).trans (Nat.le_add_right _ _)
      · rw [List.mem_singleton.mp new]
        exact Nat.zero_le _
    · dsimp only
      omega
    · dsimp only
      omega
  · have nothing : lane.pendingBytes = 0 := by
      simp only [Bool.or_eq_true, decide_eq_true_eq, not_or] at told
      omega
    simp only [Writer.failLane, told, Bool.false_eq_true, if_false, Option.toList_none,
      List.append_nil]
    exact metered.relabel nothing.symm (by rw [nothing, Nat.add_zero]) rfl rfl

/-- A sync covers more of the lane, and the message carries its count. -/
theorem durable (round : Nat) (through : Option Nat) :
    Metered submissions acked (queue ++ (Writer.durableLane round through lane).1.toList)
      (Writer.durableLane round through lane).2 := by
  unfold Writer.durableLane
  split
  · have positive : 0 < writtenGrain := by decide
    have below : (Progress.durable through lane.writtenBytes round).bytes ≤
        lane.writtenBytes := Nat.le_refl _
    obtain ⟨total, reports, _⟩ := metered.say below
    refine ⟨total, reports, Nat.le_refl _, 0, Nat.zero_le _, ?_, ?_,
      Or.inl (Or.inl (Nat.zero_le _))⟩
    · dsimp only
      omega
    · exact Or.inr ⟨.durable through lane.writtenBytes round,
        List.mem_append_right _ (List.mem_singleton_self _), Nat.le_refl _⟩
  · simpa using metered

theorem take {records : List Record} (next : submissions[lane.taken]? = some records)
    (received : Option Nat) :
    Metered submissions acked queue { lane with
      received := received
      pendingBytes := lane.pendingBytes + encodedLen records
      taken := lane.taken + 1 } := by
  refine ⟨?_, metered.reports, metered.reported, metered.level⟩
  have total := metered.total
  have more : bytesOf (submissions.take (lane.taken + 1)) =
      bytesOf (submissions.take lane.taken) + encodedLen records := by
    rw [List.take_add_one, next, bytesOf_append]
    simp [bytesOf]
  dsimp only
  omega

end

theorem hear (metered : Metered submissions acked (message :: queue) lane) {after : Nat}
    (grown : acked ≤ after) (heard : message.bytes ≤ after)
    (fault : message = .fault → lane.writtenBytes ≤ after) :
    Metered submissions after queue lane := by
  obtain ⟨floor, low, grain, reported, reached⟩ := metered.level
  have reaches : ∀ level, Reaches acked (message :: queue) level → Reaches after queue level := by
    rintro level (already | ⟨other, member, enough⟩)
    · exact Or.inl (already.trans grown)
    · rcases List.mem_cons.mp member with rfl | later
      · exact Or.inl (enough.trans heard)
      · exact Or.inr ⟨other, later, enough⟩
  refine ⟨metered.total, fun other member => metered.reports other (List.mem_cons_of_mem _ member),
    metered.reported, floor, low, grain, reaches _ reported, ?_⟩
  rcases reached with reached | faulted
  · exact Or.inl (reaches floor reached)
  · rcases List.mem_cons.mp faulted with now | later
    · exact Or.inl (Or.inl (low.trans (fault now.symm)))
    · exact Or.inr later

theorem acknowledge (metered : Metered submissions acked queue lane) {after : Nat}
    (grown : acked ≤ after) : Metered submissions after queue lane := by
  obtain ⟨floor, low, grain, reported, reached⟩ := metered.level
  exact ⟨metered.total, metered.reports, metered.reported, floor, low, grain,
    reported.grow grown, reached.imp_left fun reaches => reaches.grow grown⟩

/-- Nothing is on its way and nothing pends: all but a grain is acknowledged. -/
theorem settled (metered : Metered submissions acked [] lane) (pending : lane.pendingBytes = 0) :
    bytesOf (submissions.take lane.taken) < acked + writtenGrain := by
  obtain ⟨floor, low, grain, reported, reached⟩ := metered.level
  have total := metered.total
  have known : ∀ level, Reaches acked [] level → level ≤ acked := by
    rintro level (already | ⟨message, member, _⟩)
    · exact already
    · exact absurd member List.not_mem_nil
  have first := known _ reported
  have second := known floor (reached.resolve_right List.not_mem_nil)
  omega

end Metered

/-- Every lane is metered, and nothing pends in one while nothing is staged. -/
structure Metering (submissions : Nat → List (List Record)) (acked : Nat → Nat)
    (writer : Writer) (world : World) : Prop where
  lanes : ∀ executor lane, writer.lanes[executor]? = some lane →
    Metered (submissions executor) (acked executor) (world.progress executor) lane
  quiet : writer.staged = [] → ∀ lane ∈ writer.lanes, lane.pendingBytes = 0

namespace Metering

variable {submissions : Nat → List (List Record)} {acked : Nat → Nat} {writer : Writer}
  {ends : Prop}

theorem alike {after : Writer} {world later : World}
    (metering : Metering submissions acked writer world) (lanes : after.lanes = writer.lanes)
    (staged : after.staged = writer.staged) (progress : later.progress = world.progress) :
    Metering submissions acked after later := by
  obtain ⟨each, quiet⟩ := metering
  refine ⟨?_, ?_⟩
  · rw [lanes, progress]
    exact each
  · rw [lanes, staged]
    exact quiet

theorem told_lane {drops : Bool} {telling : Nat → Lane → Option Progress × Lane}
    (kind : Writer.Telling ends drops telling) {executor : Nat}
    {handed : List (List Record)} {level : Nat} {lane : Lane}
    (metered : Metered handed level queue lane) :
    Metered handed level (queue ++ (telling executor lane).1.toList) (telling executor lane).2 := by
  cases kind with
  | nudge writer =>
    unfold Writer.nudgeLane
    dsimp only
    split
    · exact (metered.say (Nat.zero_le _)).relabel rfl rfl rfl rfl
    · simpa using metered
  | durable each =>
    rcases each executor with ⟨round, through, same⟩ | same
    · rw [same]
      exact metered.durable round through
    · rw [same]
      simpa using metered
  | fault fresh => exact metered.failed fresh executor
  | written => exact metered.written executor
  | stopped last => exact metered.say (Nat.zero_le _)

theorem told_pending {drops : Bool} {telling : Nat → Lane → Option Progress × Lane}
    (kind : Writer.Telling ends drops telling) {executor : Nat} {lane : Lane}
    (before : drops = false → lane.pendingBytes = 0) :
    (telling executor lane).2.pendingBytes = 0 := by
  cases kind with
  | nudge writer =>
    unfold Writer.nudgeLane
    dsimp only
    split <;> exact before rfl
  | durable each =>
    rcases each executor with ⟨round, through, same⟩ | same
    · rw [same, Writer.durableLane]
      split <;> exact before rfl
    · rw [same]
      exact before rfl
  | fault => rfl
  | written =>
    unfold Writer.writtenLane
    dsimp only
    split <;> rfl
  | stopped last => exact before rfl

theorem moves {origin : Writer} {start world : World}
    (metering : Metering submissions acked origin start)
    (moves : Writer.Moves ends origin start writer world) :
    Metering submissions acked writer world := by
  induction moves with
  | start => exact metering
  | aside _ same mute induction => exact induction.alike same.lanes same.staged mute.progress
  | @told writer after world drops telling _ kind lanes _ staged induction =>
    rw [Writer.run_tell, lanes]
    refine ⟨?_, ?_⟩
    · intro executor lane located
      rw [List.getElem?_mapIdx] at located
      obtain ⟨original, found, rfl⟩ := Option.map_eq_some_iff.mp located
      dsimp only
      rw [Writer.toldFrom_zero found]
      exact told_lane kind (induction.lanes executor original found)
    · intro none lane member
      obtain ⟨executor, inside, rfl⟩ := List.mem_mapIdx.mp member
      refine told_pending kind fun kept => ?_
      have nothing : writer.staged = [] := by
        rw [← none, staged, kept]
        rfl
      exact induction.quiet nothing _ (List.getElem_mem inside)

end Metering

namespace Executor

variable {this : Executor}

/-- What a message of the writer acknowledges. -/
structure Heard (message : Progress) (before after : SyncState) : Prop where
  link : after.link = before.link
  submissions : after.submissions = before.submissions
  sentBytes : after.sentBytes = before.sentBytes
  acked : after.ackedBytes =
    if message = .fault then before.sentBytes else max before.ackedBytes message.bytes

theorem heard_hear (message : Progress) (world : World) :
    Heard message this.sync ((this.hear message).run World.handle world).1.sync := by
  unfold Executor.hear
  split
  · next last =>
      rw [run_ending, last.2]
      exact ⟨rfl, rfl, rfl, (Nat.max_zero _).symm⟩
  · cases message with
    | written bytes => exact ⟨rfl, rfl, rfl, rfl⟩
    | durable throughBatch bytes round =>
      cases throughBatch with
      | none => exact ⟨rfl, rfl, rfl, rfl⟩
      | some through =>
        unfold Executor.progress Executor.releaseThrough
        dsimp only
        rw [Program.run_bind]
        exact ⟨rfl, rfl, rfl, rfl⟩
    | fault =>
      unfold Executor.progress
      rw [run_refuse]
      exact ⟨rfl, rfl, rfl, rfl⟩
    | nudge | stopped => exact ⟨rfl, rfl, rfl, (Nat.max_zero _).symm⟩

/-- An executor without a writer acknowledges by itself. -/
theorem hearNothing_acked (this : Executor) (world : World) :
    (this.hearNothing.run World.handle world).1.sync.submissions = this.sync.submissions ∧
      (this.hearNothing.run World.handle world).1.sync.sentBytes = this.sync.sentBytes ∧
      (this.hearNothing.run World.handle world).1.sync.ackedBytes = this.sync.sentBytes := by
  unfold Executor.hearNothing Executor.lost
  rw [Program.run_bind, run_refuse]
  split
  · rw [run_ending]
    exact ⟨rfl, rfl, rfl⟩
  · exact ⟨rfl, rfl, rfl⟩

end Executor

namespace Node

variable {executor : Nat} {this : Executor} {later : World}

/-- The counts of an executor. -/
structure Counted (sync : SyncState) : Prop where
  sent : sync.sentBytes = bytesOf sync.submissions
  acked : sync.ackedBytes ≤ sync.sentBytes
  unlinked : sync.link = false → sync.ackedBytes = sync.sentBytes

theorem Counted.spent {before after : SyncState} (counted : Counted before)
    (spent : before.Spent after) : Counted after := by
  obtain ⟨fresh, submissions, sentBytes, _⟩ := spent.sent
  have unlinked : before.link = false → after.ackedBytes = after.sentBytes := fun cut =>
    spent.unlinked cut (counted.unlinked cut)
  refine ⟨?_, ?_, fun cut => unlinked (spent.link.symm.trans cut)⟩
  · rw [sentBytes, submissions, bytesOf_append, counted.sent]
  · cases link : before.link with
    | true =>
      rw [spent.linked link, sentBytes]
      exact counted.acked.trans (Nat.le_add_right _ _)
    | false => exact (unlinked link).le

/-- What an executor handed over, and what it has acknowledged. -/
def handedOver (node : Node) (executor : Nat) : List (List Record) :=
  (node.clients executor).submissions

def acknowledged (node : Node) (executor : Nat) : Nat :=
  (node.executors[executor]?.map fun this => this.sync.ackedBytes).getD 0

structure Pressed (node : Node) : Prop where
  counted : ∀ this ∈ node.executors, Counted this.sync
  metering : Metering node.handedOver node.acknowledged node.writer node.world

variable [SipHasher] {node : Node}

section

variable (pressed : node.Pressed) {after : Executor}

include pressed

omit [SipHasher] in
theorem Pressed.lane {lane : Lane} (located : node.executors[executor]? = some this)
    (laneAt : node.writer.lanes[executor]? = some lane) :
    Metered this.sync.submissions this.sync.ackedBytes (node.world.progress executor) lane ∧
      lane.writtenBytes ≤ this.sync.sentBytes := by
  have metered : Metered this.sync.submissions this.sync.ackedBytes
      (node.world.progress executor) lane := by
    simpa only [handedOver, clients_of located, acknowledged, located, Option.map_some,
      Option.getD_some] using pressed.metering.lanes executor lane laneAt
  refine ⟨metered, ?_⟩
  have split := congrArg bytesOf (List.take_append_drop lane.taken this.sync.submissions)
  rw [bytesOf_append] at split
  have total := metered.total
  have sent := (pressed.counted this (List.mem_of_getElem? located)).sent
  omega

variable (sound : node.Sound)

include sound

section

variable (located : node.executors[executor]? = some this)

include located

theorem Pressed.ran (counted : Counted after.sync)
    (grown : ∃ fresh, after.sync.submissions = this.sync.submissions ++ fresh)
    (others : ∀ other, other ≠ executor → later.progress other = node.world.progress other)
    (lane : ∀ lane, Metered this.sync.submissions this.sync.ackedBytes
      (node.world.progress executor) lane → lane.writtenBytes ≤ this.sync.sentBytes →
      Metered this.sync.submissions after.sync.ackedBytes (later.progress executor) lane) :
    Pressed { node with executors := node.executors.set executor after, world := later } := by
  have inside := (List.getElem?_eq_some_iff.mp located).1
  refine ⟨?_, ?_, pressed.metering.quiet⟩
  · intro that member
    rcases List.mem_or_eq_of_mem_set member with old | rfl
    · exact pressed.counted that old
    · exact counted
  · intro other entry laneAt
    by_cases same : other = executor
    · subst same
      have taken := (sound.stands.custody.lanes other entry laneAt).books.taken
      rw [clients_of located] at taken
      obtain ⟨metered, whole⟩ := pressed.lane located laneAt
      obtain ⟨total, reports, reported, level⟩ := lane entry metered whole
      obtain ⟨fresh, submissions⟩ := grown
      simp only [handedOver, clients, acknowledged, List.getElem?_set_self inside,
        Option.map_some, Option.getD_some]
      refine ⟨?_, reports, reported, level⟩
      rw [total, submissions, List.take_append_of_le_length taken]
    · rw [others other same]
      simpa only [handedOver, clients, acknowledged, List.getElem?_set_ne (Ne.symm same)]
        using pressed.metering.lanes other entry laneAt

theorem Pressed.spent (spent : this.sync.Spent after.sync)
    (progress : later.progress = node.world.progress) :
    Pressed { node with executors := node.executors.set executor after, world := later } := by
  have counted := pressed.counted this (List.mem_of_getElem? located)
  obtain ⟨fresh, submissions, sentBytes, _⟩ := spent.sent
  refine pressed.ran sound located (counted.spent spent) ⟨fresh, submissions⟩
    (fun _ _ => by rw [progress]) fun lane metered _ => ?_
  rw [progress]
  refine metered.acknowledge ?_
  cases link : this.sync.link with
  | true => exact (spent.linked link).ge
  | false =>
    rw [spent.unlinked link (counted.unlinked link), sentBytes]
    exact counted.acked.trans (Nat.le_add_right _ _)

theorem Pressed.heard {rest : List Progress}
    (queue : node.world.progress executor = message :: rest)
    (linked : this.sync.link = true) (heard : Executor.Heard message this.sync after.sync)
    (progress : later.progress = Function.update node.world.progress executor rest) :
    Pressed { node with executors := node.executors.set executor after, world := later } := by
  have counted := pressed.counted this (List.mem_of_getElem? located)
  -- the lane of the executor bounds what the message acknowledges
  have bounded : message.bytes ≤ this.sync.sentBytes := by
    have inside := (List.getElem?_eq_some_iff.mp located).1
    rw [← sound.lanes] at inside
    obtain ⟨metered, whole⟩ := pressed.lane located (List.getElem?_eq_getElem inside)
    rw [queue] at metered
    exact (metered.reports message List.mem_cons_self).trans whole
  have acked : this.sync.ackedBytes ≤ after.sync.ackedBytes ∧
      message.bytes ≤ after.sync.ackedBytes ∧ after.sync.ackedBytes ≤ this.sync.sentBytes ∧
      (message = .fault → after.sync.ackedBytes = this.sync.sentBytes) := by
    have below := counted.acked
    rw [heard.acked]
    split
    · next fault => exact ⟨below, bounded, Nat.le_refl _, fun _ => rfl⟩
    · next other =>
        exact ⟨Nat.le_max_left _ _, Nat.le_max_right _ _, Nat.max_le.mpr ⟨below, bounded⟩,
          fun fault => absurd fault other⟩
  refine pressed.ran sound located ⟨?_, ?_, ?_⟩ ⟨[], ?_⟩ ?_ ?_
  · rw [heard.sentBytes, heard.submissions, counted.sent]
  · rw [heard.sentBytes]
    exact acked.2.2.1
  · intro cut
    rw [heard.link, linked] at cut
    cases cut
  · rw [heard.submissions, List.append_nil]
  · intro other different
    rw [progress, Function.update_of_ne different]
  · intro lane metered whole
    rw [queue] at metered
    rw [progress, Function.update_self]
    exact metered.hear acked.1 acked.2.1 fun fault => whole.trans (acked.2.2.2 fault).ge

theorem Pressed.stepExecutor (event : Event) :
    (node.stepExecutor executor this event).Pressed := by
  have counted := pressed.counted this (List.mem_of_getElem? located)
  rcases node.stepExecutor_cases executor this event with same | ⟨task, world, handles, same⟩
  · rw [same]
    exact pressed
  rw [same]
  cases handles with
  | serve now envelope ready =>
    obtain ⟨works, worked⟩ := this.works_serve now envelope node.world
    exact pressed.spent sound located works.spent worked.progress
  | tick now serves =>
    obtain ⟨kept, worked⟩ := World.Worked.run
      (Executor.kept_housekeeping now (Or.inl trivial)) node.world
    exact pressed.spent sound located kept.spent worked.progress
  | stop queued serves =>
    obtain ⟨_, _, _, spent, progress, _⟩ := this.stop_drains queued node.world
    exact pressed.spent sound located spent progress
  | hearNothing ready =>
    obtain ⟨submissions, sentBytes, ackedBytes⟩ := Executor.hearNothing_acked this node.world
    obtain ⟨_, _, _, _, progress⟩ := Executor.listens_hearNothing this node.world
    refine pressed.ran sound located ⟨?_, ?_, ?_⟩ ⟨[], ?_⟩ ?_ ?_
    · rw [submissions, sentBytes, counted.sent]
    · rw [ackedBytes, sentBytes]
    · exact fun _ => ackedBytes.trans sentBytes.symm
    · rw [submissions, List.append_nil]
    · exact fun other _ => by rw [progress]
    · intro lane metered _
      rw [progress, ackedBytes]
      exact metered.acknowledge counted.acked
  | @hear message rest queue ready =>
    have heard : Executor.Heard message this.sync ((this.hear message).run
        World.handle { node.world with
          progress := Function.update node.world.progress executor rest }).1.sync :=
      Executor.heard_hear message _
    obtain ⟨_, _, _, progress⟩ := Executor.listens_hear this message
      { node.world with
        progress := Function.update node.world.progress executor rest }
    exact pressed.heard sound located queue ready.2 heard progress

end

theorem Pressed.took (serving : node.writer.phase.gone = false) {message : ToWriter}
    {rest : List ToWriter} (inbox : node.world.inbox = message :: rest) :
    (runWriter { node with world := { node.world with inbox := rest } }
      (node.writer.draining message)).Pressed := by
  obtain ⟨took, aside⟩ := World.Aside.run (node.writer.aside_draining message)
    { node.world with inbox := rest }
  refine ⟨pressed.counted, ?_⟩
  unfold runWriter
  dsimp only
  generalize Program.run World.handle (node.writer.draining message)
      { node.world with inbox := rest } = outcome at took aside
  obtain ⟨after, later⟩ := outcome
  dsimp only at took aside
  refine ⟨?_, ?_⟩
  · intro executor lane laneAt
    rw [took.lanes] at laneAt
    obtain ⟨former, found, rfl⟩ := Option.map_eq_some_iff.mp laneAt
    have metered := pressed.metering.lanes executor former found
    rw [aside.progress]
    change Metered (node.handedOver executor) (node.acknowledged executor)
      (node.world.progress executor) _
    cases message with
    | submit sender batch records =>
      unfold Writer.laneTook
      dsimp only
      split
      · next same =>
          subst same
          obtain ⟨this, located⟩ : ∃ this, node.executors[sender]? = some this := by
            have inside := (List.getElem?_eq_some_iff.mp found).1
            rw [sound.lanes] at inside
            exact ⟨_, List.getElem?_eq_getElem inside⟩
          obtain ⟨taken, next, _⟩ := sound.next serving inbox found located
          subst taken
          refine metered.take ?_ _
          rw [handedOver, clients_of located]
          exact next
      · exact metered
    | covered | stop =>
      unfold Writer.laneTook
      dsimp only
      split
      · exact metered.relabel rfl rfl rfl rfl
      · exact metered
    | syncNow => exact metered
  · intro staged lane member
    rw [took.staged] at staged
    obtain ⟨before, nothing⟩ := List.append_eq_nil_iff.mp staged
    obtain ⟨executor, laneAt⟩ := List.mem_iff_getElem?.mp member
    rw [took.lanes] at laneAt
    obtain ⟨former, found, rfl⟩ := Option.map_eq_some_iff.mp laneAt
    have pending := pressed.metering.quiet before former (List.mem_of_getElem? found)
    cases message with
    | submit sender batch records =>
      have empty : records = [] := nothing
      unfold Writer.laneTook
      dsimp only
      split
      · rw [empty]
        simpa [encodedLen] using pending
      · exact pending
    | covered | stop =>
      unfold Writer.laneTook
      dsimp only
      split <;> exact pending
    | syncNow => exact pending

theorem Pressed.stepWriter (event : Event) : (node.stepWriter event).Pressed := by
  rcases node.stepWriter_cases event with
    same | ⟨message, rest, inbox, serving, same⟩ | ⟨task, disk, steps, _, same⟩
  · rw [same]
    exact pressed
  · rw [same]
    exact pressed.took sound serving inbox
  · rw [same]
    have settled : Metering node.handedOver node.acknowledged node.writer
        { node.world with disk := disk } := pressed.metering.alike rfl rfl rfl
    exact ⟨pressed.counted, settled.moves (steps.run { node.world with disk := disk })⟩

theorem Pressed.step (event : Event) : (node.step event).Pressed := by
  unfold Node.step
  split
  · split
    · next this located => exact pressed.stepExecutor sound located event
    · exact pressed
  · exact pressed.stepWriter sound event

theorem Pressed.run (events : List Event) : (node.run events).Pressed := by
  induction events generalizing node with
  | nil => exact pressed
  | cons event events induction => exact induction (pressed.step sound event) (sound.step event)

end

theorem Opened.pressed {policy : SyncPolicy} (opened : node.Opened policy) : node.Pressed := by
  have fresh : ∀ (executor : Nat) this, node.executors[executor]? = some this →
      this.sync = SyncState.new policy := by
    intro executor this located
    obtain ⟨firstShard, states, limit, generation, config, rfl, _⟩ :=
      opened.executors executor this located
    rfl
  refine ⟨?_, ?_, ?_⟩
  · intro this member
    obtain ⟨executor, located⟩ := List.mem_iff_getElem?.mp member
    rw [fresh executor this located]
    exact ⟨rfl, Nat.le_refl _, fun _ => rfl⟩
  · intro executor entry laneAt
    rw [opened.lane (List.mem_of_getElem? laneAt), opened.progress]
    refine ⟨?_, by simp, Nat.le_refl _, 0, Nat.le_refl _, by decide, Or.inl (Nat.zero_le _),
      Or.inl (Or.inl (Nat.zero_le _))⟩
    simp [Lane.new, bytesOf]
  · intro _ entry member
    rw [opened.lane member]
    rfl

/-- In every state of a run an executor has acknowledged no more than it handed over;
and once the writer has taken all its batches, holds nothing staged, and every message
to the executor is handled, less than a grain is not acknowledged, so that the executor
takes envelopes. -/
theorem backpressure_never_wedges {policy : SyncPolicy} (opened : node.Opened policy)
    (events : List Event) {executor : Nat} {this : Executor}
    (located : (node.run events).executors[executor]? = some this) :
    this.sync.ackedBytes ≤ this.sync.sentBytes ∧
      (submitsOf executor (node.run events).world.inbox = [] →
        (node.run events).writer.staged = [] →
        (node.run events).world.progress executor = [] →
        this.sync.sentBytes - this.sync.ackedBytes < writtenGrain ∧
          this.sync.overBudget = false ∧
          (this.phase = .serving → ∀ now envelope,
            (node.run events).step (.serve executor now envelope) =
              (node.run events).runExecutor executor (this.serve now envelope))) := by
  have sound := opened.sound.run events
  have pressed := opened.pressed.run opened.sound events
  generalize node.run events = last at *
  have counted := pressed.counted this (List.mem_of_getElem? located)
  refine ⟨counted.acked, fun taken staged heard => ?_⟩
  have inside := (List.getElem?_eq_some_iff.mp located).1
  rw [← sound.lanes] at inside
  have laneAt := List.getElem?_eq_getElem inside
  generalize last.writer.lanes[executor] = lane at laneAt
  have small : this.sync.sentBytes - this.sync.ackedBytes < writtenGrain := by
    have positive : 0 < writtenGrain := by decide
    cases link : this.sync.link with
    | false =>
      rw [counted.unlinked link]
      omega
    | true =>
      -- nothing of what was handed over is on its way to the writer
      have carried := sound.carried executor this lane located laneAt link
      rw [taken] at carried
      have all : this.sync.submissions.take lane.taken = this.sync.submissions := by
        refine List.take_of_length_le (List.drop_eq_nil_iff.mp ?_)
        exact List.zipIdx_eq_nil_iff.mp carried.symm
      obtain ⟨metered, _⟩ := pressed.lane located laneAt
      rw [heard] at metered
      have settled := metered.settled
        (pressed.metering.quiet staged lane (List.mem_of_getElem? laneAt))
      rw [all, ← counted.sent] at settled
      omega
  have within : this.sync.overBudget = false := by
    have grain : writtenGrain ≤ writerBudget := by decide
    simp only [SyncState.overBudget, decide_eq_false_iff_not]
    omega
  refine ⟨small, within, fun serving now envelope => ?_⟩
  simp [Node.step, Event.executor?, located, Node.stepExecutor, serving, within]

omit [SipHasher] in
/-- A `SET` that the writer wrote without a word, a grain being much larger. -/
theorem backpressure_never_wedges_one_set :
    let _ : SipHasher := ⟨fun _ _ _ => 3⟩
    let node := smallest .never
    let events : List Event := [.writerBegin,
      .serve 0 ⟨5, 5, by decide⟩ ⟨[(0, .set [1] [2] none none false false)], 7⟩,
      .writerTake, .writerFlush 5]
    ∃ this, (node.run events).executors[0]? = some this ∧
      0 < this.sync.sentBytes - this.sync.ackedBytes ∧
      this.sync.sentBytes - this.sync.ackedBytes < writtenGrain ∧
      this.sync.overBudget = false := by
  intro hasher node events
  have opened : node.Opened .never := opened_smallest .never
  obtain ⟨this, located, some⟩ := (Option.any_eq_true _ _).mp (by decide +kernel :
    ((node.run events).executors[0]?.any fun this =>
      decide (0 < this.sync.sentBytes - this.sync.ackedBytes)) = true)
  rw [decide_eq_true_eq] at some
  obtain ⟨small, within, _⟩ := (backpressure_never_wedges opened events located).2
    (by decide +kernel) (by decide +kernel) (by decide +kernel)
  exact ⟨this, located, some, small, within⟩

end Node

end Seedstone
