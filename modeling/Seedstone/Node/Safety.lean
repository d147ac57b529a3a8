import Seedstone.Node.Service
import Seedstone.Node.System
import Seedstone.Node.WriterLoop

/-!
# A node in any run

`Sound` ties the executors to the writer: every batch an executor handed over is
in the writer's inbox, in order, or has been taken, and the writer answers for
what it took.  It holds when a node opens and after every event, so in every run.
What an executor tells its clients, and what it appends, follows.
-/

namespace Seedstone

namespace Node

variable {executor : Nat} {this : Executor} {world later : World} {policy : SyncPolicy}

/-- The executors as the writer's invariant sees them. -/
def clients (node : Node) (executor : Nat) : Client :=
  match node.executors[executor]? with
  | some this => ⟨this.sync.submissions, this.sync.floor⟩
  | none => ⟨[], 0⟩

theorem clients_of {node : Node} (located : node.executors[executor]? = some this) :
    node.clients executor = ⟨this.sync.submissions, this.sync.floor⟩ := by
  simp [clients, located]

variable [SipHasher]

structure Sound (node : Node) : Prop where
  lanes : node.writer.lanes.length = node.executors.length
  index : ∀ (executor : Nat) this, node.executors[executor]? = some this →
    this.index = executor
  ordered : ∀ this ∈ node.executors, this.Ordered
  linked : ∀ this ∈ node.executors, this.sync.link = false →
    node.writer.phase.gone = true
  carried : ∀ (executor : Nat) this lane, node.executors[executor]? = some this →
    node.writer.lanes[executor]? = some lane → this.sync.link = true →
    submitsOf executor node.world.inbox =
      (this.sync.submissions.drop lane.taken).zipIdx lane.taken
  strangers : ∀ executor, node.executors.length ≤ executor →
    submitsOf executor node.world.inbox = []
  stands : node.writer.Stands node.clients node.world

variable {node : Node}

/-- An executor's handler has run, on a world that may have one message of its
queue less. -/
structure Ran (node : Node) (executor : Nat) (this : Executor) (low bound : Nat)
    (start : Executor) (world : World) (after : Executor) (later : World) : Prop where
  ordered : after.Ordered
  conduct : Conduct low bound start world after later
  index : start.index = this.index
  submissions : start.sync.submissions = this.sync.submissions
  floor : start.sync.floor = this.sync.floor
  link : start.sync.link = this.sync.link ∨ node.writer.phase.gone = true
  down : start.sync.link = true → this.sync.link = true
  inbox : world.inbox = node.world.inbox
  disk : world.disk = node.world.disk
  others : ∀ other, other ≠ executor →
    world.progress other = node.world.progress other
  heard : world.progress executor = node.world.progress executor ∨
    ∃ message, node.world.progress executor = message :: world.progress executor ∧
      (message = .fault → this.sync.submissions.length ≤ after.sync.floor)

section

variable (sound : node.Sound)

include sound

theorem Sound.ran {start after : Executor} {low bound : Nat}
    (located : node.executors[executor]? = some this)
    (ran : Ran node executor this low bound start world after later) :
    Sound { node with executors := node.executors.set executor after, world := later } := by
  obtain ⟨ordered, conduct, index, submissions, floor, link, down, inbox, disk, others,
    heard⟩ := ran
  have inside := (List.getElem?_eq_some_iff.mp located).1
  have startIndex : start.index = executor := index.trans (sound.index executor this located)
  obtain ⟨fresh, grown, sent⟩ := conduct.batches
  rw [submissions] at grown sent
  rw [startIndex, inbox] at sent
  have taken : ∀ lane, node.writer.lanes[executor]? = some lane →
      lane.taken ≤ this.sync.submissions.length := by
    intro lane found
    have books := (sound.stands.custody.lanes executor lane found).books.taken
    rwa [clients_of located] at books
  refine ⟨by simpa using sound.lanes, ?_, ?_, ?_, ?_, ?_, ?_⟩
  · intro other that found
    by_cases same : executor = other
    · subst same
      rw [List.getElem?_set_self inside, Option.some.injEq] at found
      rw [← found, conduct.index, startIndex]
    · rw [List.getElem?_set_ne same] at found
      exact sound.index other that found
  · intro that member
    rcases List.mem_or_eq_of_mem_set member with old | rfl
    · exact sound.ordered that old
    · exact ordered
  · intro that member gone
    rcases List.mem_or_eq_of_mem_set member with old | rfl
    · exact sound.linked that old gone
    · rcases link with same | ended
      · rw [conduct.link, same] at gone
        exact sound.linked this (List.mem_of_getElem? located) gone
      · exact ended
  · intro other that lane found laneAt linked
    by_cases same : executor = other
    · subst same
      rw [List.getElem?_set_self inside, Option.some.injEq] at found
      subst found
      have started := conduct.link.symm.trans linked
      rw [sent linked, grown, sound.carried executor this lane located laneAt (down started),
        List.drop_append_of_le_length (taken lane laneAt), List.zipIdx_append,
        List.length_drop, Nat.add_sub_cancel' (taken lane laneAt)]
    · rw [List.getElem?_set_ne same] at found
      have unsent := conduct.others other (by rw [startIndex]; exact Ne.symm same)
      rw [unsent, inbox]
      exact sound.carried other that lane found laneAt linked
  · intro other beyond
    have above : node.executors.length ≤ other := by simpa using beyond
    have unsent := conduct.others other (by rw [startIndex]; omega)
    rw [unsent, inbox]
    exact sound.strangers other above
  · apply sound.stands.elsewhere
    · intro generation rotation
      rw [conduct.segments, disk]
    · intro other lane held
      rw [conduct.progress]
      by_cases same : executor = other
      · subst same
        have client : clients { node with
            executors := node.executors.set executor after, world := later } executor =
            ⟨after.sync.submissions, after.sync.floor⟩ :=
          clients_of (List.getElem?_set_self inside)
        have advances : Client.Advances ⟨this.sync.submissions, this.sync.floor⟩
            ⟨after.sync.submissions, after.sync.floor⟩ := ⟨⟨fresh, grown⟩, floor ▸ conduct.raised⟩
        rw [clients_of located] at held
        rw [client]
        rcases heard with unheard | ⟨message, queue, faulted⟩
        · rw [unheard]
          exact held.advance advances
        · rw [queue] at held
          exact held.hear advances faulted
      · have client : clients { node with
            executors := node.executors.set executor after, world := later } other =
            node.clients other := by
          unfold clients
          rw [List.getElem?_set_ne same]
        rw [client, others other (Ne.symm same)]
        exact held
    · intro other
      rw [conduct.progress]
      by_cases same : other = executor
      · subst same
        rcases heard with unheard | ⟨message, queue, _⟩
        · rw [unheard]
        · rw [queue]
          exact List.suffix_cons ..
      · rw [others other same]

theorem Sound.wrote {writer : Writer} (lanes : writer.lanes.length = node.writer.lanes.length)
    (serving : node.writer.phase.gone = false)
    (carried : ∀ (executor : Nat) this lane, node.executors[executor]? = some this →
      writer.lanes[executor]? = some lane → this.sync.link = true →
      submitsOf executor later.inbox = (this.sync.submissions.drop lane.taken).zipIdx lane.taken)
    (strangers : ∀ executor, node.executors.length ≤ executor →
      submitsOf executor later.inbox = []) (stands : writer.Stands node.clients later) :
    Sound { node with writer := writer, world := later } where
  lanes := lanes.trans sound.lanes
  __ := sound
  linked this member gone := by
    rw [sound.linked this member gone] at serving
    cases serving
  carried := carried
  strangers := strangers
  stands := stands

theorem Sound.handled (serving : node.writer.phase.gone = false) {task : Task Writer}
    (same : Writer.SameTaken node.writer (task.run World.handle world).1)
    (unsent : World.Unsent world (task.run World.handle world).2)
    (inbox : ∀ executor, submitsOf executor world.inbox = submitsOf executor node.world.inbox)
    (stands : (task.run World.handle world).1.Stands node.clients (task.run World.handle world).2) :
    Sound (runWriter { node with world := world } task) := by
  refine sound.wrote ?_ serving ?_ ?_ stands
  · simpa using congrArg List.length same
  · intro executor this lane located laneAt linked
    have position := congrArg (fun takens => takens[executor]?) same
    simp only [List.getElem?_map, laneAt, Option.map_some] at position
    obtain ⟨former, found, taken⟩ := Option.map_eq_some_iff.mp position.symm
    rw [unsent.inbox, inbox, ← taken]
    exact sound.carried executor this former located found linked
  · intro executor beyond
    rw [unsent.inbox, inbox]
    exact sound.strangers executor beyond

theorem Sound.moved (serving : node.writer.phase.gone = false) {task : Task Writer}
    (steps : Writer.Steps True node.writer task)
    (inbox : ∀ executor, submitsOf executor world.inbox = submitsOf executor node.world.inbox)
    (stands : (task.run World.handle world).1.Stands node.clients (task.run World.handle world).2) :
    Sound (runWriter { node with world := world } task) :=
  sound.handled serving (steps.run world).steady.taken (steps.run world).unsent inbox stands

/-- The next batch of an executor in the inbox is the one its lane waits for. -/
theorem Sound.next (serving : node.writer.phase.gone = false) {batch : Nat}
    {records : List Record} {rest : List ToWriter}
    (inbox : node.world.inbox = .submit executor batch records :: rest) {lane : Lane}
    (laneAt : node.writer.lanes[executor]? = some lane)
    (located : node.executors[executor]? = some this) :
    lane.taken = batch ∧ this.sync.submissions[batch]? = some records ∧ records ≠ [] ∧
      submitsOf executor rest = (this.sync.submissions.drop (batch + 1)).zipIdx (batch + 1) := by
  have member := List.mem_of_getElem? located
  have linked : this.sync.link = true := by
    by_contra unlinked
    rw [sound.linked this member (by simpa using unlinked)] at serving
    cases serving
  have carried := sound.carried executor this lane located laneAt linked
  rw [inbox] at carried
  have head : submitsOf executor (.submit executor batch records :: rest) =
      (records, batch) :: submitsOf executor rest := by
    simp [submitsOf]
  rw [head] at carried
  cases left : this.sync.submissions.drop lane.taken with
  | nil => simp [left] at carried
  | cons first others =>
    rw [left, List.zipIdx_cons, List.cons.injEq, Prod.mk.injEq] at carried
    obtain ⟨⟨rfl, rfl⟩, later⟩ := carried
    have found : this.sync.submissions[lane.taken]? = some records := by
      have first := congrArg List.head? left
      rwa [List.head?_drop, List.head?_cons] at first
    refine ⟨rfl, found, (sound.ordered this member).nonempty records
      (List.mem_of_getElem? found), ?_⟩
    rw [later]
    have tail := congrArg List.tail left
    rw [List.tail_drop, List.tail_cons] at tail
    rw [tail]

theorem Sound.took {message : ToWriter} {rest : List ToWriter}
    (inbox : node.world.inbox = message :: rest)
    (phase : node.writer.phase = .idle ∨ node.writer.phase = .draining) :
    Sound (runWriter { node with world := { node.world with inbox := rest } }
      (node.writer.draining message)) := by
  have serving : node.writer.phase.gone = false := by
    rcases phase with phase | phase <;> rw [phase] <;> rfl
  have custody : Writer.Custody node.clients [] node.writer { node.world with inbox := rest } := by
    have standing := sound.stands.custody
    rcases phase with phase | phase <;> rw [phase] at standing <;>
      exact ⟨standing.lanes, standing.ground⟩
  have taking : (node.writer.take message).Leads { node.world with inbox := rest }
      (Writer.Custody node.clients []) := by
    apply custody.take
    rintro executor batch records rfl lane laneAt
    obtain ⟨this, located⟩ : ∃ this, node.executors[executor]? = some this := by
      have inside := (List.getElem?_eq_some_iff.mp laneAt).1
      rw [sound.lanes] at inside
      exact ⟨_, List.getElem?_eq_getElem inside⟩
    obtain ⟨taken, found, nonempty, _⟩ := sound.next serving inbox laneAt located
    rw [clients_of located]
    exact ⟨taken, found, nonempty⟩
  have stands : (node.writer.draining message).Leads { node.world with inbox := rest }
      (Writer.Stands node.clients) := by
    rw [Writer.draining, Task.leads_bind]
    refine Writer.Custody.stands ?_ ?_ (Or.inr rfl)
    · exact taking.alike rfl rfl rfl
    · have unsaid : World.Unsaid { node.world with inbox := rest } :=
        sound.stands.unsaid (by rcases phase with phase | phase <;> rw [phase] <;> simp)
      have heard := (World.Aside.run (node.writer.aside_take message)
        { node.world with inbox := rest }).2.progress
      intro executor
      rw [Program.run_pure, heard]
      exact unsaid executor
  have notBatch : (∀ executor batch records, message ≠ .submit executor batch records) →
      Sound (runWriter { node with world := { node.world with inbox := rest } }
        (node.writer.draining message)) := by
    intro other
    obtain ⟨took, aside⟩ := World.Aside.run (node.writer.aside_draining message)
      { node.world with inbox := rest }
    refine sound.handled serving (took.same other) ⟨aside.inbox, aside.answered⟩ ?_ stands
    intro executor
    rw [inbox]
    cases message with
    | submit => exact absurd rfl (other _ _ _)
    | covered | syncNow | stop => rfl
  cases message with
  | submit executor batch records =>
    refine sound.wrote (by simp) serving ?_ ?_ stands
    · intro other this lane located laneAt linked
      obtain ⟨former, found, changed⟩ := Writer.modify_some laneAt
      by_cases same : executor = other
      · subst same
        obtain ⟨rfl, _, _, later⟩ := sound.next serving inbox found located
        rw [changed, if_pos rfl]
        exact later
      · rw [changed, if_neg same, ← sound.carried other this former located found linked, inbox]
        simp [submitsOf, same]
    · intro other beyond
      have none := sound.strangers other beyond
      rw [inbox, submitsOf, List.filterMap_cons] at none
      split at none
      · exact none
      · cases none
  | covered | syncNow | stop => exact notBatch (by simp)

theorem Sound.stepWriter (event : Event) : (node.stepWriter event).Sound := by
  have custody := sound.stands.custody
  cases event with
  | writerBegin =>
    unfold Node.stepWriter
    dsimp only
    split
    · next phase =>
        rw [phase] at custody
        refine sound.moved (by rw [phase]; rfl) Writer.steps_begin (fun _ => rfl) ?_
        rw [Program.run_bind]
        refine Writer.Custody.stands ?_ ?_ (Or.inl rfl)
        · exact custody.nudgeIfDue.alike rfl rfl rfl
        · exact (sound.stands.unsaid (by rw [phase]; simp)).run Writer.steps_nudgeIfDue
    · exact sound
  | writerTake =>
    unfold Node.stepWriter
    dsimp only
    cases inbox : node.world.inbox with
    | nil => exact sound
    | cons message rest =>
      dsimp only
      split
      · next phase => exact sound.took inbox phase
      · exact sound
  | writerFlush now =>
    unfold Node.stepWriter
    dsimp only
    split
    · next phase =>
        rw [phase] at custody
        exact sound.moved (by rw [phase]; rfl) (Writer.steps_flush now) (fun _ => rfl)
          (custody.flush (sound.stands.unsaid (by rw [phase]; simp)) now)
    · exact sound
  | writerCompleted ok now =>
    unfold Node.stepWriter
    dsimp only
    cases awaited : node.writer.awaited with
    | none => exact sound
    | some flight =>
      refine sound.moved ?_ (Writer.steps_completed ok now) (fun _ => rfl)
        (sound.stands.completed ok now awaited)
      unfold Writer.awaited at awaited
      cases phase : node.writer.phase with
      | ended | lost => simp [phase] at awaited
      | opened | idle | draining | rotating | lastFlight | lastSync => rfl
  | writerTick now =>
    unfold Node.stepWriter
    dsimp only
    split
    · next phase =>
        rw [phase] at custody
        refine sound.moved (by rw [phase]; rfl) (Writer.steps_maybeIssue now)
          (fun _ => rfl) ((custody.maybeIssue now).stands
            ((sound.stands.unsaid (by rw [phase]; simp)).run (Writer.steps_maybeIssue now))
            (Or.inl ?_))
        rw [Writer.maybeIssue_phase]
        exact phase
    · exact sound
  | writerLost =>
    unfold Node.stepWriter
    dsimp only
    split
    · exact sound
    · next there =>
        have unended : node.writer.phase ≠ .ended :=
          fun ended => there (by rw [ended]; rfl)
        exact ⟨sound.lanes, sound.index, sound.ordered, fun _ _ _ => rfl, sound.carried,
          sound.strangers, ⟨custody.lanes, custody.ground⟩, trivial,
          fun _ => sound.stands.unsaid unended, sound.stands.last⟩
  | serve | hear | hearNothing | tick | stop => exact sound

end

/-- What an event of an executor came to, if its handler could run. -/
structure Stepped (node : Node) (executor : Nat) (this : Executor) (low bound : Nat)
    (start : Executor) (world : World) (after : Executor) (later : World) : Prop extends
    Ran node executor this low bound start world after later where
  obeys : Executor.Obeys low bound start world after later
  states : start.states = this.states
  mode : start.sync.mode = this.sync.mode
  policy : start.sync.policy = this.sync.policy
  answered : world.answered = node.world.answered
  released : bound = 0 ∨ ∃ message,
    node.world.progress executor = message :: world.progress executor ∧
      low = this.sync.floor ∧ bound = message.bound

theorem stepped_of_obeys {after : Executor}
    (obeys : Executor.Obeys 0 0 this node.world after later) :
    Stepped node executor this 0 0 this node.world after later :=
  ⟨⟨obeys.ordered, obeys.conduct, rfl, rfl, rfl, Or.inl rfl, id, rfl, rfl, fun _ _ => rfl,
    Or.inl rfl⟩, obeys, rfl, rfl, rfl, rfl, Or.inl rfl⟩

theorem Sound.stepExecutor (sound : node.Sound)
    (located : node.executors[executor]? = some this) (event : Event) :
    node.stepExecutor executor this event = node ∨ ∃ low bound start world after later,
        node.stepExecutor executor this event = { node with
          executors := node.executors.set executor after, world := later } ∧
        Stepped node executor this low bound start world after later := by
  have ordered := sound.ordered this (List.mem_of_getElem? located)
  rcases node.stepExecutor_cases executor this event with same | ⟨task, world, handles, same⟩
  · exact Or.inl same
  refine Or.inr ?_
  cases handles with
  | serve now envelope ready =>
    exact ⟨_, _, _, _, _, _, same,
      stepped_of_obeys (ordered.serve now envelope 0 0 node.world).obeys⟩
  | tick now serves =>
    exact ⟨_, _, _, _, _, _, same, stepped_of_obeys (ordered.housekeeping now 0 0 node.world)⟩
  | stop queued serves =>
    exact ⟨_, _, _, _, _, _, same, stepped_of_obeys (ordered.stop queued 0 0 node.world).obeys⟩
  | hearNothing ready =>
    have handled := ordered.hearNothing 0 0 node.world
    exact ⟨_, _, _, _, _, _, same,
      ⟨handled.ordered, handled.conduct, rfl, rfl, rfl, Or.inr ready.1,
        fun up => (by cases up), rfl, rfl, fun _ _ => rfl, Or.inl rfl⟩,
      handled.obeys, rfl, rfl, rfl, rfl, Or.inl rfl⟩
  | @hear message rest queue ready =>
    have handled := ordered.hear message { node.world with
      progress := Function.update node.world.progress executor rest }
    refine ⟨_, _, _, _, _, _, same,
      ⟨handled.ordered, handled.conduct, rfl, rfl, rfl, Or.inl rfl, id, rfl, rfl,
        fun _ different => Function.update_of_ne different .., Or.inr ⟨message, ?_, ?_⟩⟩,
      handled.obeys, rfl, rfl, rfl, rfl, Or.inr ⟨message, ?_, rfl, rfl⟩⟩
    · simp only [Function.update_self, queue]
    · rintro rfl
      rw [Executor.hear_fault_floor]
    · simp only [Function.update_self, queue]

omit [SipHasher] in
/-- An event of the writer does nothing, takes a message, or runs a handler, after a
sync it waited for may have returned. -/
theorem stepWriter_cases (node : Node) (event : Event) :
    node.stepWriter event = node ∨
      (∃ message rest, node.world.inbox = message :: rest ∧ node.writer.phase.gone = false ∧
        node.stepWriter event =
          runWriter { node with world := { node.world with inbox := rest } }
            (node.writer.draining message)) ∨
      ∃ task disk, Writer.Steps True node.writer task ∧ node.world.disk.Extends disk ∧
        node.stepWriter event =
          runWriter { node with world := { node.world with disk := disk } } task := by
  cases event with
  | writerBegin =>
    unfold Node.stepWriter
    dsimp only
    split
    · exact Or.inr (Or.inr ⟨_, _, Writer.steps_begin, .refl _, rfl⟩)
    · exact Or.inl rfl
  | writerTake =>
    unfold Node.stepWriter
    dsimp only
    split
    · next message rest inbox =>
        split
        · next phase =>
            refine Or.inr (Or.inl ⟨message, rest, inbox, ?_, rfl⟩)
            rcases phase with phase | phase <;> rw [phase] <;> rfl
        · exact Or.inl rfl
    · exact Or.inl rfl
  | writerFlush now =>
    unfold Node.stepWriter
    dsimp only
    split
    · exact Or.inr (Or.inr ⟨_, _, Writer.steps_flush now, .refl _, rfl⟩)
    · exact Or.inl rfl
  | writerCompleted ok now =>
    unfold Node.stepWriter
    dsimp only
    split
    · next flight _ =>
        exact Or.inr (Or.inr ⟨_, _, Writer.steps_completed ok now,
          Disk.extends_settle flight ok, rfl⟩)
    · exact Or.inl rfl
  | writerTick now =>
    unfold Node.stepWriter
    dsimp only
    split
    · exact Or.inr (Or.inr ⟨_, _, Writer.steps_maybeIssue now, .refl _, rfl⟩)
    · exact Or.inl rfl
  | writerLost =>
    unfold Node.stepWriter
    dsimp only
    split
    · exact Or.inl rfl
    · exact Or.inr (Or.inr ⟨pure { node.writer with
        phase := .lost node.writer.phase.waits }, _, .done ⟨rfl, rfl, rfl⟩,
        .refl _, rfl⟩)
  | serve | hear | hearNothing | tick | stop => exact Or.inl rfl

omit [SipHasher] in
theorem stepWriter_answered (node : Node) (event : Event) :
    (node.stepWriter event).executors = node.executors ∧
      (node.stepWriter event).world.answered = node.world.answered := by
  rcases node.stepWriter_cases event with
    same | ⟨message, rest, _, _, same⟩ | ⟨task, disk, steps, _, same⟩
  · rw [same]
    exact ⟨rfl, rfl⟩
  · rw [same]
    exact ⟨rfl, (World.Aside.run (node.writer.aside_draining message) _).2.answered⟩
  · rw [same]
    exact ⟨rfl, (steps.run _).unsent.answered⟩

/-- What one event can do: nothing, one handler of one executor, or one of the
writer's. -/
theorem Sound.step_cases (sound : node.Sound) (event : Event) :
    node.step event = node ∨
      (∃ executor this low bound start world after later, node.executors[executor]? = some this ∧
        node.step event = { node with
          executors := node.executors.set executor after, world := later } ∧
        Stepped node executor this low bound start world after later) ∨
      node.step event = node.stepWriter event := by
  unfold Node.step
  split
  · next executor _ =>
      cases located : node.executors[executor]? with
      | none => exact Or.inl rfl
      | some this =>
        rcases sound.stepExecutor located event with
          same | ⟨low, bound, start, world, after, later, same, stepped⟩
        · exact Or.inl same
        · exact Or.inr (Or.inl
            ⟨executor, this, low, bound, start, world, after, later, located, same, stepped⟩)
  · exact Or.inr (Or.inr rfl)

theorem Sound.step (sound : node.Sound) (event : Event) : (node.step event).Sound := by
  rcases sound.step_cases event with
    same | ⟨executor, this, low, bound, start, world, after, later, located, same, stepped⟩ | same
  · rw [same]
    exact sound
  · rw [same]
    exact sound.ran located stepped.toRan
  · rw [same]
    exact sound.stepWriter event

theorem Sound.run (sound : node.Sound) (events : List Event) : (node.run events).Sound := by
  induction events generalizing node with
  | nil => exact sound
  | cons event events induction => exact induction (sound.step event)

/-- A node as it opens: executors with nothing appended yet, a writer whose first segment
holds what `write_rebases` synced, and channels with nothing in them. -/
structure Opened (policy : SyncPolicy) (node : Node) : Prop where
  executors : ∀ (executor : Nat) this, node.executors[executor]? = some this →
    ∃ firstShard states limit generation config,
      this = Executor.new executor firstShard states limit policy generation config ∧
      ∀ state ∈ states, state.refusing = false ∧ state.dict.Sound ∧
        state.log.pending = [] ∧ state.log.accepted = []
  writer : ∃ generation cuts segmentBytes config now olderBytes rebased,
    node.writer = { Writer.new generation cuts policy segmentBytes config
      node.executors.length now olderBytes with segment := ⟨0, 0, rebased, false, false⟩ }
  inbox : node.world.inbox = []
  progress : ∀ executor, node.world.progress executor = []
  answered : node.world.answered = []
  segment : (node.world.disk.files (.segment node.writer.generation 0)).failed = false
  later : ∀ rotation, 0 < rotation →
    node.world.disk.files (.segment node.writer.generation rotation) = FileState.empty

theorem ordered_new {index firstShard generation : Nat}
    {states : List (ShardState FileLog)} {limit : MemoryLimit} {config : CheckpointConfig}
    (clean : ∀ state ∈ states, state.refusing = false ∧ state.dict.Sound ∧
      state.log.pending = [] ∧ state.log.accepted = []) :
    (Executor.new index firstShard states limit policy generation config).Ordered where
  batches := rfl
  nonempty := nofun
  floor := Nat.le_refl _
  held := nofun
  linked unlinked := by cases unlinked
  unheld _ := rfl
  shards state member := ⟨(clean state member).1, (clean state member).2.1⟩
  buffered offset state located := by
    obtain ⟨_, _, pending, accepted⟩ := clean state (List.mem_of_getElem? located)
    constructor
    · rw [accepted]
      exact nofun
    · rw [pending]
      exact nofun
  below := nofun
  cycle _ opened := by cases opened
  image _ raised := absurd raised (Nat.lt_irrefl 0)

theorem Opened.lane (opened : node.Opened policy) {lane : Lane}
    (member : lane ∈ node.writer.lanes) : lane = Lane.new := by
  obtain ⟨_, _, _, _, _, _, _, written⟩ := opened.writer
  rw [written] at member
  exact List.eq_of_mem_replicate member

theorem Opened.sound (opened : node.Opened policy) : node.Sound := by
  obtain ⟨generation, cuts, segmentBytes, config, now, olderBytes, rebased, written⟩ :=
    opened.writer
  have fresh : ∀ (executor : Nat) this, node.executors[executor]? = some this →
      this.Ordered ∧ this.index = executor ∧ this.sync.submissions = [] ∧
        this.sync.link = true := by
    intro executor this located
    obtain ⟨firstShard, states, limit, generation, config, rfl, clean⟩ :=
      opened.executors executor this located
    exact ⟨ordered_new clean, rfl, rfl, rfl⟩
  have client : ∀ executor, (node.clients executor).submissions = [] := by
    intro executor
    unfold clients
    split
    · next this located => exact (fresh executor this located).2.2.1
    · rfl
  have unsaid : node.world.Unsaid := by
    intro executor
    rw [opened.progress]
    exact List.not_mem_nil
  refine ⟨by simp [written, Writer.new], fun executor this located =>
    (fresh executor this located).2.1, ?_, ?_, ?_, ?_, ⟨?_, ?_, fun _ => unsaid, unsaid.last⟩⟩
  · intro this member
    obtain ⟨executor, located⟩ := List.mem_iff_getElem?.mp member
    exact (fresh executor this located).1
  · intro this member unlinked
    obtain ⟨executor, located⟩ := List.mem_iff_getElem?.mp member
    rw [(fresh executor this located).2.2.2] at unlinked
    cases unlinked
  · intro executor this lane located _ _
    rw [opened.inbox, (fresh executor this located).2.2.1]
    simp [submitsOf]
  · intro executor _
    rw [opened.inbox]
    rfl
  · refine ⟨?_, ?_⟩
    · intro executor found located
      rw [opened.lane (List.mem_of_getElem? located), opened.progress executor]
      refine ⟨⟨Nat.le_refl _, Nat.zero_le _, ?_, ?_, ?_, ?_⟩, ?_, ?_, ?_, ?_⟩
      · rintro _ ⟨⟩
      · rintro _ ⟨⟩
      · exact fun below => absurd below (Nat.lt_irrefl 0)
      · exact fun _ _ _ below => absurd below (Nat.not_lt_zero _)
      · intro before through bytes round after split
        simp at split
      · exact fun _ below => absurd below (Nat.not_lt_zero _)
      · exact fun _ below => absurd below (Nat.not_lt_zero _)
      · intro round member
        simp [written, Writer.desk, Writer.new, WriterPhase.waits] at member
    · have later := opened.later
      have segment := opened.segment
      rw [written] at later segment ⊢
      refine ⟨(fun failed => by cases failed), Nat.le_refl _, later, ?_, fun _ => segment⟩
      intro round member
      simp [Writer.desk, Writer.new, WriterPhase.waits] at member
  · rw [written]
    trivial

/-- The policy every executor was opened with. -/
def Under (policy : SyncPolicy) (node : Node) : Prop :=
  ∀ this ∈ node.executors, this.sync.policy = policy

theorem Opened.under (opened : node.Opened policy) : node.Under policy := by
  intro this member
  obtain ⟨executor, located⟩ := List.mem_iff_getElem?.mp member
  obtain ⟨firstShard, states, limit, generation, config, rfl, _⟩ :=
    opened.executors executor this located
  rfl

theorem Under.step (under : node.Under policy) (sound : node.Sound) (event : Event) :
    (node.step event).Under policy := by
  rcases sound.step_cases event with
    same | ⟨executor, this, low, bound, start, world, after, later, located, same, stepped⟩ | same
  · rw [same]
    exact under
  · rw [same]
    intro that member
    rcases List.mem_or_eq_of_mem_set member with old | rfl
    · exact under that old
    · rw [stepped.conduct.policy, stepped.policy]
      exact under this (List.mem_of_getElem? located)
  · intro that member
    rw [same, (node.stepWriter_answered event).1] at member
    exact under that member

theorem Under.run (under : node.Under policy) (sound : node.Sound) (events : List Event) :
    (node.run events).Under policy := by
  induction events generalizing node with
  | nil => exact under
  | cons event events induction =>
    exact induction (under.step sound event) (sound.step event)

end Node

end Seedstone
