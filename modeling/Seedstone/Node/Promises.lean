import Seedstone.Node.Safety

/-!
# What a node promises

Under a policy that holds acknowledgements, a reply that is no error to a
command that wrote is backed by a sync of the segment that took its records.
An executor that refuses writes appends nothing until an image opened after the
last fault is durable with every shard's sequence number for a base; and while it
serves, with nothing from the writer left to hear, every record above its newest
image is on its way to the writer or in a segment that never failed.
-/

namespace Seedstone

namespace Node

variable {executor : Nat} {this : Executor}

/-- A node of one executor with one empty shard, on a disk that never fails. -/
def smallest (policy : SyncPolicy) : Node where
  executors := [Executor.new 0 0 [.recovered (Dict.withSeed ⟨0, 0⟩) 0 .new]
    ⟨none, .noEviction⟩ policy 1 ⟨1000, 1, 1000⟩]
  writer := Writer.new 1 [] policy 1000 ⟨1000, 1, 1000⟩ 1 0 0
  world := {
    disk := {
      files := fun _ => .empty
      directory := [.segment 1 0]
      unsettled := []
      answers := fun _ => true
      calls := 0 }
    inbox := []
    progress := fun _ => []
    answered := []
    gauge := 0 }

variable [SipHasher]

theorem opened_smallest (policy : SyncPolicy) : (smallest policy).Opened policy where
  executors executor this located := by
    have first : executor = 0 ∧ this = Executor.new 0 0
        [.recovered (Dict.withSeed ⟨0, 0⟩) 0 .new] ⟨none, .noEviction⟩ policy 1
          ⟨1000, 1, 1000⟩ := by
      cases executor with
      | zero => exact ⟨rfl, (Option.some.inj located).symm⟩
      | succ => simp [smallest] at located
    obtain ⟨rfl, rfl⟩ := first
    refine ⟨_, _, _, _, _, rfl, ?_⟩
    intro state member
    rw [List.mem_singleton.mp member]
    exact ⟨rfl, Dict.sound_withSeed _, rfl, rfl⟩
  writer := ⟨_, _, _, _, _, _, 0, rfl⟩
  inbox := rfl
  progress _ := rfl
  answered := rfl
  segment := rfl
  later _ _ := rfl

variable {node : Node}

theorem Sound.lane (sound : node.Sound) (located : node.executors[executor]? = some this) :
    ∃ lane, node.writer.lanes[executor]? = some lane ∧
      LaneCustody ⟨this.sync.submissions, this.sync.floor⟩ (node.world.progress executor)
        node.world.disk (node.writer.desk node.writer.phase.waits) executor lane := by
  have inside := (List.getElem?_eq_some_iff.mp located).1
  rw [← sound.lanes] at inside
  have laneAt := List.getElem?_eq_getElem inside
  have custody := sound.stands.custody.lanes executor _ laneAt
  rw [clients_of located] at custody
  exact ⟨_, laneAt, custody⟩

theorem Sound.proven_of_heard (sound : node.Sound)
    (located : node.executors[executor]? = some this) {through bytes round : Nat}
    {rest : List Progress}
    (queue : node.world.progress executor = .durable (some through) bytes round :: rest)
    {batch : Nat} {records : List Record} {more : List (List Record)}
    (unheard : this.sync.floor ≤ batch) (covered : batch ≤ through)
    (sent : (this.sync.submissions ++ more)[batch]? = some records) :
    node.world.disk.Proven node.writer.generation records := by
  obtain ⟨lane, _, custody⟩ := sound.lane located
  obtain ⟨below, promised⟩ := custody.truthful [] through bytes round rest queue
  rw [List.getElem?_append_left (Nat.lt_of_le_of_lt covered below)] at sent
  rcases promised batch covered with gone | fault | ⟨found, handed, proven⟩
  · exact absurd unheard (Nat.not_le_of_lt gone)
  · exact absurd fault List.not_mem_nil
  · have same : records = found := Option.some.inj (sent.symm.trans handed)
    rw [same]
    exact proven

/-- A step under a policy that holds acknowledgements: what it answers with no
error was proven before the step. -/
theorem Sound.acknowledged (sound : node.Sound) {policy : SyncPolicy}
    (under : node.Under policy) (holds : policy.holdAcks = true) (event : Event) :
    ∃ fresh, (node.step event).world.answered = node.world.answered ++ fresh ∧
      ∀ answer ∈ fresh, ∀ reply served, (reply, served) ∈ answer.replies.zip answer.served →
        (∀ error, reply ≠ .error error) → served.command.writesTheLog = true →
        ∀ record ∈ served.appended, ∃ records, record ∈ records ∧
          node.world.disk.Proven node.writer.generation records := by
  rcases sound.step_cases event with
    same | ⟨executor, this, low, bound, start, world, after, later, located, same, stepped⟩ | same
  · exact ⟨[], by rw [same, List.append_nil], by simp⟩
  · obtain ⟨fresh, told, backed⟩ := stepped.conduct.answers
    obtain ⟨more, grown, _⟩ := stepped.conduct.batches
    rw [stepped.submissions] at grown
    refine ⟨fresh, by rw [same, ← stepped.answered]; exact told, ?_⟩
    have held : start.sync.policy.holdAcks = true := by
      rw [stepped.policy, under this (List.mem_of_getElem? located)]
      exact holds
    intro answer member reply served pair accepted writes record appended
    obtain ⟨batch, records, above, below, sent, inside⟩ :=
      backed held answer member reply served pair accepted writes record appended
    rw [grown] at sent
    refine ⟨records, inside, ?_⟩
    rcases stepped.released with none | ⟨message, queue, floor, bounded⟩
    · omega
    · subst floor bounded
      cases message with
      | durable throughBatch bytes round =>
        cases throughBatch with
        | none => exact absurd below (Nat.not_lt_zero _)
        | some through =>
          exact sound.proven_of_heard located queue above (Nat.le_of_lt_succ below) sent
      | written | fault | nudge | stopped => exact absurd below (Nat.not_lt_zero _)
  · exact ⟨[], by rw [same, (node.stepWriter_answered event).2, List.append_nil], by simp⟩

/-- Under `always`, in any run: whatever a step tells a client with no error, of a
command that wrote, had each of its records in a batch that one write put whole
into a segment, and a sync of that segment issued after the write had returned
`Ok` before the step. -/
theorem acknowledged_means_synced (opened : node.Opened .always) (events : List Event)
    (event : Event) :
    ∃ fresh, ((node.run events).step event).world.answered =
        (node.run events).world.answered ++ fresh ∧
      ∀ answer ∈ fresh, ∀ reply served, (reply, served) ∈ answer.replies.zip answer.served →
        (∀ error, reply ≠ .error error) → served.command.writesTheLog = true →
        ∀ record ∈ served.appended, ∃ records, record ∈ records ∧
          (node.run events).world.disk.Proven (node.run events).writer.generation records :=
  (opened.sound.run events).acknowledged (opened.under.run opened.sound events) rfl event

omit [SipHasher] in
/-- A `SET` that is written, synced and then answered. -/
theorem acknowledged_means_synced_one_set :
    let _ : SipHasher := ⟨fun _ _ _ => 3⟩
    let node := smallest .always
    let now : Now := ⟨5, 5, by decide⟩
    let events : List Event := [.writerBegin,
      .serve 0 now ⟨[(0, .set [1] [2] none none false false)], 7⟩,
      .writerTake, .writerFlush 5, .writerCompleted true 6]
    (node.run events).world.answered = [] ∧
      ((node.run events).step (.hear 0)).world.answered.map Answer.replies = [[.ok]] ∧
      ∃ fresh, ((node.run events).step (.hear 0)).world.answered =
          (node.run events).world.answered ++ fresh ∧
        ∀ answer ∈ fresh, ∀ reply served,
          (reply, served) ∈ answer.replies.zip answer.served →
          (∀ error, reply ≠ .error error) → served.command.writesTheLog = true →
          ∀ record ∈ served.appended, ∃ records, record ∈ records ∧
            (node.run events).world.disk.Proven (node.run events).writer.generation
              records := by
  intro hasher node now events
  have opened : node.Opened .always := opened_smallest .always
  exact ⟨by decide +kernel, by decide +kernel, acknowledged_means_synced opened events _⟩

/-- What one event does to an executor that refuses writes. -/
theorem Sound.refusal (sound : node.Sound) (event : Event) {after : Executor}
    (located : node.executors[executor]? = some this)
    (found : (node.step event).executors[executor]? = some after)
    (refuses : this.sync.isRefusing = true) :
    Executor.logged after.states = Executor.logged this.states ∧
      (after.sync.isRefusing = false → ∃ image, after.image = some image ∧
        image.bases = after.states.map ShardState.seq ∧
        image.openedAfter = after.checkpoint.forces) := by
  have unmoved : this = after → Executor.logged after.states = Executor.logged this.states ∧
      (after.sync.isRefusing = false → ∃ image, after.image = some image ∧
        image.bases = after.states.map ShardState.seq ∧
        image.openedAfter = after.checkpoint.forces) := by
    rintro rfl
    refine ⟨rfl, fun serves => ?_⟩
    rw [refuses] at serves
    cases serves
  rcases sound.step_cases event with
    same | ⟨other, that, low, bound, start, world, moved, later, thatAt, same, stepped⟩ | same
  · rw [same, located, Option.some.injEq] at found
    exact unmoved found
  · rw [same] at found
    by_cases mine : other = executor
    · subst mine
      rw [thatAt, Option.some.injEq] at located
      subst located
      rw [List.getElem?_set_self (List.getElem?_eq_some_iff.mp thatAt).1,
        Option.some.injEq] at found
      subst found
      have refusing : start.sync.isRefusing = true := by
        unfold SyncState.isRefusing
        rw [stepped.mode]
        exact refuses
      exact ⟨stepped.states ▸ stepped.obeys.quiet refusing, stepped.obeys.resumed refusing⟩
    · rw [List.getElem?_set_ne mine, located, Option.some.injEq] at found
      exact unmoved found
  · rw [same, (node.stepWriter_answered event).1, located, Option.some.injEq] at found
    exact unmoved found

/-- Where a record of an executor that serves is, once the executor has heard all
the writer said. -/
theorem Sound.whereabouts (sound : node.Sound) (located : node.executors[executor]? = some this)
    (serves : this.sync.isRefusing = false) (heard : node.world.progress executor = [])
    {offset : Nat} {state : ShardState FileLog}
    (stateAt : this.states[offset]? = some state) {record : Record}
    (accepted : record ∈ state.log.accepted)
    (above : ∀ image base, this.image = some image → image.bases[offset]? = some base →
      base ≤ record.seq) :
    record ∈ state.log.pending ∨ record ∈ this.sync.staging ∨
      (∃ batch records, .submit executor batch records ∈ node.world.inbox ∧ record ∈ records) ∨
      record ∈ node.writer.staged ∨ ∃ records, record ∈ records ∧
        node.world.disk.Kept node.writer.generation records := by
  have ordered := sound.ordered this (List.mem_of_getElem? located)
  obtain ⟨shard, pending | handed⟩ := (ordered.buffered offset state stateAt).accepted
    record accepted
  · exact Or.inl pending
  rcases List.mem_append.mp handed with staging | sent
  · exact Or.inr (Or.inl staging)
  obtain ⟨records, member, inside⟩ := List.mem_flatten.mp sent
  obtain ⟨batch, batchAt⟩ := List.mem_iff_getElem?.mp member
  obtain ⟨lane, laneAt, custody⟩ := sound.lane located
  by_cases settled : batch < lane.settled
  · -- written: kept, unless the executor let go of it, and then an image covers it
    rcases custody.kept batch settled with gone | fault | ⟨found, foundAt, kept⟩
    · have floor : 0 < this.sync.floor := Nat.lt_of_le_of_lt (Nat.zero_le _) gone
      obtain ⟨image, imageAt, covers⟩ := ordered.image serves floor
      have bound := (List.getElem?_eq_some_iff.mp stateAt).1
      rw [← covers.length] at bound
      have baseAt := List.getElem?_eq_getElem bound
      have below := covers.above batch records gone batchAt record inside offset _ shard baseAt
      exact absurd (above image _ imageAt baseAt) (Nat.not_le_of_lt below)
    · rw [heard] at fault
      exact absurd fault List.not_mem_nil
    · have same : records = found := Option.some.inj (batchAt.symm.trans foundAt)
      exact Or.inr (Or.inr (Or.inr (Or.inr ⟨found, same ▸ inside, kept⟩)))
  · by_cases taken : batch < lane.taken
    · exact Or.inr (Or.inr (Or.inr (Or.inl (custody.books.staged batch records
        (Nat.le_of_not_lt settled) taken batchAt record inside))))
    · -- not yet taken, so in the inbox
      have linked : this.sync.link = true := by
        by_contra unlinked
        have lost := (ordered.linked (by simpa using unlinked)).1
        rw [serves] at lost
        cases lost
      have carried := sound.carried executor this lane located laneAt linked
      have waiting : (records, batch) ∈ submitsOf executor node.world.inbox := by
        rw [carried, List.mk_mem_zipIdx_iff_le_and_getElem?_sub]
        refine ⟨Nat.le_of_not_lt taken, ?_⟩
        rw [List.getElem?_drop, Nat.add_sub_cancel' (Nat.le_of_not_lt taken)]
        exact batchAt
      obtain ⟨message, queued, picked⟩ := List.mem_filterMap.mp waiting
      refine Or.inr (Or.inr (Or.inl ⟨batch, records, ?_, inside⟩))
      cases message with
      | submit other number bytes =>
        dsimp only at picked
        split at picked
        · next mine =>
            cases picked
            rw [← mine]
            exact queued
        · cases picked
      | covered | syncNow | stop => cases picked

theorem forces_of_fault {rest : List Progress} (located : node.executors[executor]? = some this)
    (queue : node.world.progress executor = .fault :: rest)
    (ready : this.phase ≠ .ended ∧ this.sync.link = true) :
    ∃ after, (node.step (.hear executor)).executors[executor]? = some after ∧
      after.checkpoint.forces = this.checkpoint.forces + 1 := by
  have inside := (List.getElem?_eq_some_iff.mp located).1
  refine ⟨_, ?_, this.hear_fault_forces { node.world with
    progress := Function.update node.world.progress executor rest }⟩
  unfold Node.step
  simp only [Event.executor?, located, Node.stepExecutor, queue, if_pos ready]
  exact List.getElem?_set_self inside

/-- In any run.  While an executor refuses, an event adds no record to a shard of it
and moves no sequence number, and it resumes only with a durable image that has
every shard's sequence number for its base and was opened after the last fault:
each fault heard counts one more in `forces`, and the image's count is the
latest.  While it serves and has heard all the writer said, each record from the
newest image's base on is on its way to the writer, or written whole to a segment
that never failed. -/
theorem no_write_on_a_hole {policy : SyncPolicy} (opened : node.Opened policy)
    (events : List Event) :
    (∀ event (executor : Nat) this after,
      (node.run events).executors[executor]? = some this →
      ((node.run events).step event).executors[executor]? = some after →
      this.sync.isRefusing = true →
      Executor.logged after.states = Executor.logged this.states ∧
        (after.sync.isRefusing = false → ∃ image, after.image = some image ∧
          image.bases = after.states.map ShardState.seq ∧
          image.openedAfter = after.checkpoint.forces)) ∧
    (∀ (executor : Nat) this rest, (node.run events).executors[executor]? = some this →
      (node.run events).world.progress executor = .fault :: rest →
      this.phase ≠ .ended ∧ this.sync.link = true →
      ∃ after, ((node.run events).step (.hear executor)).executors[executor]? = some after ∧
        after.checkpoint.forces = this.checkpoint.forces + 1) ∧
    ∀ (executor : Nat) this, (node.run events).executors[executor]? = some this →
      this.sync.isRefusing = false → (node.run events).world.progress executor = [] →
      ∀ (offset : Nat) state, this.states[offset]? = some state →
      ∀ record ∈ state.log.accepted,
        (∀ image base, this.image = some image → image.bases[offset]? = some base →
          base ≤ record.seq) →
        record ∈ state.log.pending ∨ record ∈ this.sync.staging ∨
          (∃ batch records, .submit executor batch records ∈ (node.run events).world.inbox ∧
            record ∈ records) ∨
          record ∈ (node.run events).writer.staged ∨
          ∃ records, record ∈ records ∧
            (node.run events).world.disk.Kept (node.run events).writer.generation records := by
  have sound := opened.sound.run events
  refine ⟨?_, ?_, ?_⟩
  · intro event executor this after located found refuses
    exact sound.refusal event located found refuses
  · intro executor this rest located queue ready
    exact forces_of_fault located queue ready
  · intro executor this located serves heard offset state stateAt record accepted above
    exact sound.whereabouts located serves heard stateAt accepted above

omit [SipHasher] in
/-- The sync of a `SET` fails.  Its executor hears of the fault and refuses another, and the
tick that completes an image opened since lets it serve again. -/
theorem no_write_on_a_hole_resumed :
    let _ : SipHasher := ⟨fun _ _ _ => 3⟩
    let now : Now := ⟨5, 5, by decide⟩
    let put : Event := .serve 0 now ⟨[(0, .set [1] [2] none none false false)], 7⟩
    let node := (smallest .always).run [.writerBegin, put, .writerTake, .writerFlush 5,
      .writerCompleted false 6, .hear 0, put]
    ∃ this after image, node.executors[0]? = some this ∧ this.sync.isRefusing = true ∧
      (node.step (.tick 0 now)).executors[0]? = some after ∧ after.sync.isRefusing = false ∧
      Executor.logged after.states = Executor.logged this.states ∧ after.image = some image ∧
      image.bases = after.states.map ShardState.seq ∧
      image.openedAfter = after.checkpoint.forces := by
  intro hasher now put node
  obtain ⟨this, located, refuses⟩ := (Option.any_eq_true _ _).mp (by decide +kernel :
    node.executors[0]?.any (·.sync.isRefusing) = true)
  obtain ⟨after, found, resumes⟩ := (Option.any_eq_true _ _).mp (by decide +kernel :
    (node.step (.tick 0 now)).executors[0]?.any (!·.sync.isRefusing) = true)
  rw [Bool.not_eq_true'] at resumes
  obtain ⟨same, covered⟩ := (no_write_on_a_hole (opened_smallest .always) _).1 (.tick 0 now) 0
    this after located found refuses
  obtain ⟨image, imaged, bases, latest⟩ := covered resumes
  exact ⟨this, after, image, located, refuses, found, resumes, same, imaged, bases, latest⟩

/-- The writer takes an executor's batches in order and each once.  What it took is
staged until it is settled, and kept from then on; what a `Durable` names is synced,
unless a fault was sent first or the executor let the batch go; and no rotation meets a
file that was written before. -/
structure Delivers (node : Node) (executor : Nat) (this : Executor) (lane : Lane) : Prop where
  order : this.sync.link = true → submitsOf executor node.world.inbox =
    (this.sync.submissions.drop lane.taken).zipIdx lane.taken
  lost : this.sync.link = false →
    this.sync.isRefusing = true ∧ node.writer.phase.gone = true
  custody : LaneCustody ⟨this.sync.submissions, this.sync.floor⟩ (node.world.progress executor)
    node.world.disk (node.writer.desk node.writer.phase.waits) executor lane
  fresh : ∀ rotation, node.writer.segment.attempted < rotation →
    node.world.disk.files (.segment node.writer.generation rotation) = .empty

/-- In any run, under any policy and whatever fails. -/
theorem batches_delivered_in_order {policy : SyncPolicy} (opened : node.Opened policy)
    (events : List Event) (located : (node.run events).executors[executor]? = some this) :
    ∃ lane, (node.run events).writer.lanes[executor]? = some lane ∧
      (node.run events).Delivers executor this lane := by
  have sound := opened.sound.run events
  have member := List.mem_of_getElem? located
  obtain ⟨lane, laneAt, custody⟩ := sound.lane located
  refine ⟨lane, laneAt, ?_, ?_, custody, sound.stands.custody.ground.untouched⟩
  · exact sound.carried executor this lane located laneAt
  · intro lost
    exact ⟨((sound.ordered this member).linked lost).1, sound.linked this member lost⟩

omit [SipHasher] in
/-- A `SET` the writer has not taken yet. -/
theorem batches_delivered_in_order_one_set :
    let _ : SipHasher := ⟨fun _ _ _ => 3⟩
    let last := (smallest .never).run [.writerBegin,
      .serve 0 ⟨5, 5, by decide⟩ ⟨[(0, .set [1] [2] none none false false)], 7⟩]
    ∃ this lane, last.executors[0]? = some this ∧ this.sync.submissions.length = 1 ∧
      last.Delivers 0 this lane := by
  intro hasher last
  obtain ⟨this, located, one⟩ := (Option.any_eq_true _ _).mp (by decide +kernel :
    (last.executors[0]?.any fun this => this.sync.submissions.length = 1) = true)
  obtain ⟨lane, _, delivers⟩ := batches_delivered_in_order (opened_smallest .never) _ located
  exact ⟨this, lane, located, of_decide_eq_true one, delivers⟩

end Node

end Seedstone
