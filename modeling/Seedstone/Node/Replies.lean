import Mathlib.Data.List.TakeWhile
import Seedstone.Node.Stopping

/-!
# One answer for each envelope

An executor answers an envelope at once, when a sync covers it, when a fault lets it
go, or at the stop.  Its queue of held envelopes is the one place where an envelope
waits: what is pushed there, in the order of the batches, is what is answered from
there, in the same order.  Nothing here rests on what the writer says or on when it
says it.
-/

namespace Seedstone

variable {taken : List Envelope}

/-- What an envelope and its answer have in common. -/
structure Receipt where
  client : Nat
  commands : List Command
  replies : Nat
deriving DecidableEq

def Envelope.receipt (envelope : Envelope) : Receipt :=
  ⟨envelope.client, envelope.cmds.map Prod.snd, envelope.cmds.length⟩

def Held.receipt (held : Held) : Receipt :=
  ⟨held.client, held.served.map Served.command, held.replies.length⟩

def Answer.receipt (answer : Answer) : Receipt :=
  ⟨answer.client, answer.served.map Served.command, answer.replies.length⟩

theorem SyncState.length_refuseWrites (replies : List Reply) (wrote : List Bool) :
    (SyncState.refuseWrites replies wrote).length = replies.length := by
  fun_induction SyncState.refuseWrites replies wrote with
  | case1 _ _ _ _ induction | case2 _ _ _ _ _ induction => simp [induction]
  | case3 replies wrote => rfl

namespace Executor

variable {this : Executor} {told : List Answer}

/-- The envelopes taken are answered or held, and the held ones moved on from the front.
-/
structure Posted (taken : List Envelope) (before : Executor) (told : List Answer)
    (after : Executor) : Prop where
  balance : (told.map Answer.receipt ++ after.sync.held.map Held.receipt).Perm
    (before.sync.held.map Held.receipt ++ taken.map Envelope.receipt)
  queue : ∃ pushed popped,
    before.sync.held ++ pushed = popped ++ after.sync.held ∧
    (popped.map Held.receipt).Sublist (told.map Answer.receipt) ∧
    pushed.Pairwise (fun one other => one.batch < other.batch) ∧
    ∀ held ∈ pushed, before.sync.batch ≤ held.batch ∧ held.batch < after.sync.batch
  batch : before.sync.batch ≤ after.sync.batch
  saves : before.saves = [] ∧ before.savesAfter = [] →
    after.saves = [] ∧ after.savesAfter = []

namespace Posted

variable {before middle after : Executor}

theorem of_kept (kept : Kept before after) : Posted [] before [] after where
  balance := by simp [kept.held]
  queue := ⟨[], [], by simp [kept.held], by simp, by simp, by simp⟩
  batch := kept.spent.batch_le
  saves := kept.saves

theorem trans {early late : List Envelope} {first second : List Answer}
    (one : Posted early before first middle) (two : Posted late middle second after) :
    Posted (early ++ late) before (first ++ second) after := by
  obtain ⟨pushed, popped, firstQueue, firstTold, firstOrder, firstRange⟩ := one.queue
  obtain ⟨more, further, secondQueue, secondTold, secondOrder, secondRange⟩ := two.queue
  refine ⟨?_, ⟨pushed ++ more, popped ++ further, ?_, ?_, ?_, ?_⟩,
    one.batch.trans two.batch, fun none => two.saves (one.saves none)⟩
  · rw [List.map_append, List.map_append, List.append_assoc, ← List.append_assoc _ _ (late.map _)]
    refine (two.balance.append_left _).trans ?_
    rw [← List.append_assoc]
    exact one.balance.append_right _
  · rw [← List.append_assoc, firstQueue, List.append_assoc, secondQueue, List.append_assoc]
  · rw [List.map_append, List.map_append]
    exact firstTold.append secondTold
  · refine List.pairwise_append.mpr ⟨firstOrder, secondOrder, ?_⟩
    intro held member other later
    exact Nat.lt_of_lt_of_le (firstRange held member).2 (secondRange other later).1
  · intro held member
    rcases List.mem_append.mp member with inside | inside
    · exact ⟨(firstRange held inside).1, (firstRange held inside).2.trans_le two.batch⟩
    · exact ⟨one.batch.trans (secondRange held inside).1, (secondRange held inside).2⟩

theorem of_popped {popped : List Held} (queue : before.sync.held = popped ++ after.sync.held)
    (receipts : told.map Answer.receipt = popped.map Held.receipt)
    (batch : after.sync.batch = before.sync.batch)
    (saves : before.saves = [] ∧ before.savesAfter = [] →
      after.saves = [] ∧ after.savesAfter = []) : Posted [] before told after where
  balance := by rw [receipts, queue]; simp
  queue := ⟨[], popped, by simp [queue], by rw [receipts], by simp, by simp⟩
  batch := batch.ge
  saves := saves

end Posted

/-- The held envelopes stand in the order of their batches, below the next number. -/
structure InOrder (this : Executor) : Prop where
  batches : this.sync.held.Pairwise fun one other => one.batch < other.batch
  below : ∀ held ∈ this.sync.held, held.batch < this.sync.batch

theorem Posted.ordered {before after : Executor} (posted : Posted taken before told after)
    (inOrder : before.InOrder) {pushed : List Held}
    (order : pushed.Pairwise fun one other => one.batch < other.batch)
    (range : ∀ held ∈ pushed, before.sync.batch ≤ held.batch ∧ held.batch < after.sync.batch) :
    (before.sync.held ++ pushed).Pairwise (fun one other => one.batch < other.batch) ∧
      ∀ held ∈ before.sync.held ++ pushed, held.batch < after.sync.batch := by
  constructor
  · refine List.pairwise_append.mpr ⟨inOrder.batches, order, ?_⟩
    intro held member other later
    exact (inOrder.below held member).trans_le (range other later).1
  · intro held member
    rcases List.mem_append.mp member with old | new
    · exact (inOrder.below held old).trans_le posted.batch
    · exact (range held new).2

theorem Posted.inOrder {before after : Executor} (posted : Posted taken before told after)
    (inOrder : before.InOrder) : after.InOrder := by
  obtain ⟨pushed, popped, queue, _, order, range⟩ := posted.queue
  obtain ⟨batches, below⟩ := posted.ordered inOrder order range
  rw [queue] at batches below
  exact ⟨(List.pairwise_append.mp batches).2.1,
    fun held member => below held (List.mem_append_right _ member)⟩

/-- A handler run in `world`: what it told the clients. -/
def Posts (taken : List Envelope) (this : Executor) (world : World)
    (outcome : Executor × World) : Prop :=
  ∃ told, outcome.2.answered = world.answered ++ told ∧ Posted taken this told outcome.1

theorem Posts.trans {early late : List Envelope} {world : World}
    {between outcome : Executor × World} (one : Posts early this world between)
    (two : Posts late between.1 between.2 outcome) : Posts (early ++ late) this world outcome := by
  obtain ⟨first, firstTold, firstPosted⟩ := one
  obtain ⟨second, secondTold, secondPosted⟩ := two
  exact ⟨first ++ second, by rw [secondTold, firstTold, List.append_assoc],
    firstPosted.trans secondPosted⟩

theorem Posts.of_kept {world : World} {outcome : Executor × World}
    (kept : Kept this outcome.1) (answered : outcome.2.answered = world.answered) :
    Posts [] this world outcome :=
  ⟨[], by rw [answered, List.append_nil], .of_kept kept⟩

theorem posts_failAll (this : Executor) (world : World) :
    Posts [] this world
      ({ this with sync := { this.sync with held := [] } }, this.toldOff world) := by
  refine ⟨_, rfl, Posted.of_popped (List.append_nil _).symm ?_ rfl id⟩
  rw [List.map_map]
  apply List.map_congr_left
  intro held _
  simp [Answer.receipt, Held.receipt, SyncState.length_refuseWrites]

theorem posts_refuse (this : Executor) (world : World) :
    Posts [] this world (this.refuse.run World.handle world) := by
  rw [run_refuse]
  have forces := (World.Aside.run this.checkpoint.within_force (this.toldOff world)).2
  obtain ⟨told, answered, posted⟩ := posts_failAll this world
  refine ⟨told, forces.answered.trans answered, posted.balance, posted.queue, posted.batch, ?_⟩
  rintro ⟨saves, savesAfter⟩
  exact ⟨by simp [ceased, saves, savesAfter], rfl⟩

theorem posts_releaseThrough (through : Nat) (world : World) :
    Posts [] this world ((this.releaseThrough through).run World.handle world) := by
  rw [Executor.releaseThrough, Program.run_bind, run_sendAll, Program.run_pure]
  refine ⟨_, rfl, Posted.of_popped (List.takeWhile_append_dropWhile).symm ?_ rfl id⟩
  rw [List.map_map]
  rfl

theorem posts_progress (message : Progress) (world : World) :
    Posts [] this world ((this.progress message).run World.handle world) := by
  have unmoved : ∀ after : Executor, after.sync.held = this.sync.held →
      after.sync.batch = this.sync.batch → after.saves = this.saves →
      after.savesAfter = this.savesAfter → Posts [] this world (after, world) := by
    intro after held batch saves savesAfter
    have queue : this.sync.held = [] ++ after.sync.held := held.symm
    refine ⟨[], (List.append_nil _).symm, Posted.of_popped queue rfl batch ?_⟩
    rw [saves, savesAfter]
    exact id
  cases message with
  | written | nudge | stopped => exact unmoved _ rfl rfl rfl rfl
  | durable throughBatch bytes round =>
    cases throughBatch with
    | none => exact unmoved _ rfl rfl rfl rfl
    | some through =>
      unfold Executor.progress
      dsimp only
      generalize raised : ({ this with
        sync := _
        states := _ } : Executor) = start
      obtain ⟨told, answered, posted⟩ : Posts [] start world
        ((start.releaseThrough through).run World.handle world) :=
          posts_releaseThrough through world
      subst raised
      exact ⟨told, answered, { posted with }⟩
  | fault => exact posts_refuse this world

theorem posts_ending (this : Executor) (world : World) :
    Posts [] this world (this.ending.run World.handle world) := by
  rw [run_ending]
  obtain ⟨told, answered, posted⟩ := posts_failAll this world
  exact ⟨told, answered, { posted with }⟩

theorem posts_hear (message : Progress) (world : World) :
    Posts [] this world ((this.hear message).run World.handle world) := by
  unfold Executor.hear
  split
  · exact posts_ending this world
  · exact posts_progress message world

theorem hear_ended (going : this.phase ≠ .ended) (message : Progress) (world : World)
    (ended : ((this.hear message).run World.handle world).1.phase = .ended) :
    ((this.hear message).run World.handle world).1.sync.held = [] := by
  unfold Executor.hear at ended ⊢
  split at ended
  · next last =>
      rw [if_pos last, run_ending]
  · have phase : ((this.progress message).run World.handle world).1.phase = this.phase :=
      (listens_progress message world).2.1
    exact absurd (phase.symm.trans ended) going

theorem hearNothing_ended (going : this.phase ≠ .ended) (world : World)
    (ended : (this.hearNothing.run World.handle world).1.phase = .ended) :
    (this.hearNothing.run World.handle world).1.sync.held = [] := by
  unfold Executor.hearNothing at ended ⊢
  rw [Program.run_bind] at ended ⊢
  split at ended
  · next last =>
      rw [if_pos last, run_ending]
  · obtain ⟨_, phase, _⟩ := listens_refuse (this.cut false true) world
    exact absurd (phase.symm.trans ended) going

theorem posts_hearNothing (this : Executor) (world : World) :
    Posts [] this world (this.hearNothing.run World.handle world) := by
  unfold Executor.hearNothing
  rw [Program.run_bind]
  have loses : Posts [] this world (this.lost.run World.handle world) := by
    obtain ⟨told, answered, posted⟩ := posts_refuse
      { this with sync := { this.sync with link := false, writerLost := true } } world
    exact ⟨told, answered, { posted with }⟩
  split
  · exact loses.trans (posts_ending _ _)
  · exact loses

section Loop

variable [SipHasher]

/-- `serve`, of commands: at once or later, the envelope gets its answer. -/
theorem posts_serve (now : Now) {envelope : Envelope} (plain : envelope.Plain) (world : World) :
    Posts [envelope] this world ((this.serve now envelope).run World.handle world) := by
  obtain ⟨answered, after, later, commands, beside, talked, settles⟩ :=
    this.run_serve now plain world
  have silent := talked.silent
  have kept := beside.kept
  have count : answered.length = envelope.cmds.length := by
    simpa using congrArg List.length commands
  have receipt : Envelope.receipt envelope =
      ⟨envelope.client, (answered.map Answered.served).map Served.command,
        (answered.map Answered.reply).length⟩ := by
    simp [Envelope.receipt, ← commands, count, Function.comp_def]
  generalize (this.serve now envelope).run World.handle world = outcome at settles ⊢
  cases settles with
  | told =>
    refine ⟨[⟨this.index, envelope.client, answered.map Answered.reply,
      answered.map Answered.served⟩], by simp only [silent], ?_, ⟨[], [], ?_, ?_, ?_, ?_⟩,
      kept.spent.batch_le, kept.saves⟩
    · simp only [kept.held, receipt, Answer.receipt, List.map_cons, List.map_nil]
      exact List.perm_append_comm
    · simp [kept.held]
    · simp
    · simp
    · simp
  | held batch wrote low high =>
    refine ⟨[], by simp [silent], ?_, ⟨[⟨batch, envelope.client,
      answered.map Answered.reply, wrote, answered.map Answered.served⟩], [], ?_, ?_, ?_, ?_⟩,
      kept.spent.batch_le, kept.saves⟩
    · simp [kept.held, receipt, Held.receipt]
    · simp [kept.held]
    · simp
    · simp
    · simp only [List.mem_singleton, forall_eq]
      exact ⟨low, high⟩

theorem posts_serveAll (queued : List (Now × Envelope))
    (plain : ∀ one ∈ queued, one.2.Plain) (world : World) :
    Posts (queued.map Prod.snd) this world ((this.serveAll queued).run World.handle world) := by
  induction queued generalizing this world with
  | nil => exact .of_kept (Beside.refl this).kept rfl
  | cons first rest induction =>
    unfold Executor.serveAll
    rw [Program.run_bind]
    have one : Posts [first.2] this world ((this.serve first.1 first.2).run World.handle world) :=
      posts_serve first.1 (plain first List.mem_cons_self) world
    exact one.trans (induction (fun other member =>
      plain other (List.mem_cons_of_mem _ member)) _)

/-- `stop`, up to the wait: what was queued is served like any envelope; with no
writer nothing is left held. -/
theorem posts_stop (queued : List (Now × Envelope)) (plain : ∀ one ∈ queued, one.2.Plain)
    (inOrder : this.InOrder) (world : World) :
    Posts (queued.map Prod.snd) this world ((this.stop queued).run World.handle world) ∧
      (((this.stop queued).run World.handle world).1.phase = .ended →
        ((this.stop queued).run World.handle world).1.sync.held = []) := by
  have serves : Posts (queued.map Prod.snd) this world
      ((this.serveAll queued).run World.handle world) := posts_serveAll queued plain world
  unfold Executor.stop
  rw [Program.run_bind]
  generalize (this.serveAll queued).run World.handle world = outcome at serves ⊢
  obtain ⟨after, later⟩ := outcome
  dsimp only
  rw [Program.run_bind]
  have submitting : (after.stageAll.2.submit after.stageAll.1).Within
      (Call.Talk (ToWriter.Of after.index) fun _ => False) fun outcome =>
        Beside after outcome.2 := talk_submitAll rfl
  obtain ⟨submitted, worked⟩ :=
    World.Worked.run (submitting.allow fun _ => Call.Talk.working) later
  have silent := worked.answered id
  generalize (after.stageAll.2.submit after.stageAll.1).run World.handle later = outcome
    at submitted silent ⊢
  obtain ⟨⟨_, last⟩, final⟩ := outcome
  dsimp only at submitted silent ⊢
  have submits : Posts (queued.map Prod.snd) this world (last, final) := by
    have none : Posts [] after later (last, final) := .of_kept submitted.kept silent
    simpa only [List.append_nil] using serves.trans none
  split
  · obtain ⟨told, answered, posted⟩ := submits
    refine ⟨⟨told, answered, { posted with }⟩, ?_⟩
    nofun
  · rw [Program.run_bind]
    have releases : Posts [] last final ((last.releaseThrough last.sync.batch).run
      World.handle final) := posts_releaseThrough last.sync.batch final
    have everything := submits.trans releases
    rw [List.append_nil] at everything
    obtain ⟨told, answered, posted⟩ := everything
    refine ⟨⟨told, answered, { posted with }⟩, ?_⟩
    intro _
    obtain ⟨_, _, submittedPosted⟩ := submits
    have below := (submittedPosted.inOrder inOrder).below
    have released : last.sync.held.dropWhile (SyncState.releases last.sync.batch) = [] := by
      refine List.dropWhile_eq_nil_iff.mpr fun held member => ?_
      exact decide_eq_true (below held member).le
    rw [Executor.releaseThrough, Program.run_bind, run_sendAll, Program.run_pure]
    exact released

end Loop

end Executor

/-- What can happen to an executor; a message of the writer may be any. -/
inductive Occurrence where
  | serve (now : Now) (envelope : Envelope)
  | hear (message : Progress)
  | hearNothing
  | tick (now : Now)
  | stop (queued : List (Now × Envelope))

/-- No `SAVE` and no `BGSAVE` among the envelopes. -/
def Occurrence.Plain : Occurrence → Prop
  | .serve _ envelope => envelope.Plain
  | .stop queued => ∀ one ∈ queued, one.2.Plain
  | .hear _ | .hearNothing | .tick _ => True

/-- One executor and its world.  `taken` is ghost: the envelopes it took. -/
structure Solo where
  executor : Executor
  world : World
  taken : List Envelope

namespace Solo

/-- An executor as `new` builds it, on a node with a log or without one. -/
def new (index firstShard : Nat) (states : List (ShardState FileLog)) (limit : MemoryLimit)
    (policy : SyncPolicy) (generation : Nat) (config : CheckpointConfig) (linked : Bool)
    (world : World) : Solo where
  executor := { Executor.new index firstShard states limit policy generation config with
    sync := { SyncState.new policy with link := linked } }
  world := world
  taken := []

def ran (solo : Solo) (taken : List Envelope) (task : Task Executor) : Solo :=
  let (executor, world) := task.run World.handle solo.world
  ⟨executor, world, solo.taken ++ taken⟩

variable [SipHasher]

/-- The arms of the loop and of the wait in `stop`, with their guards. -/
def step (solo : Solo) : Occurrence → Solo
  | .serve now envelope =>
    if solo.executor.phase = .serving ∧ !solo.executor.sync.overBudget then
      solo.ran [envelope] (solo.executor.serve now envelope)
    else
      solo
  | .hear message =>
    if solo.executor.phase ≠ .ended ∧ solo.executor.sync.link then
      solo.ran [] (solo.executor.hear message)
    else
      solo
  | .hearNothing =>
    if solo.executor.phase ≠ .ended ∧ solo.executor.sync.link then
      solo.ran [] solo.executor.hearNothing
    else
      solo
  | .tick now =>
    if solo.executor.phase = .serving then
      solo.ran [] (solo.executor.housekeeping now)
    else
      solo
  | .stop queued =>
    if solo.executor.phase = .serving then
      solo.ran (queued.map Prod.snd) (solo.executor.stop queued)
    else
      solo

def run (solo : Solo) (occurrences : List Occurrence) : Solo :=
  occurrences.foldl step solo

/-- An executor that answers: nothing waits for a snapshot, the queue is in order, and
nothing waits in it at the end. -/
structure Serves (solo : Solo) : Prop where
  saves : solo.executor.saves = [] ∧ solo.executor.savesAfter = []
  inOrder : solo.executor.InOrder
  ended : solo.executor.phase = .ended → solo.executor.sync.held = []

/-- Between two states of a run. -/
def Since (before after : Solo) : Prop :=
  ∃ taken, after.taken = before.taken ++ taken ∧
    before.executor.Posts taken before.world (after.executor, after.world)

omit [SipHasher] in
theorem Since.refl (solo : Solo) : Since solo solo :=
  ⟨[], (List.append_nil _).symm, [], (List.append_nil _).symm,
    .of_kept (Executor.Beside.refl _).kept⟩

omit [SipHasher] in
theorem Since.trans {first second third : Solo} (one : Since first second)
    (two : Since second third) : Since first third := by
  obtain ⟨early, firstTaken, firstPosts⟩ := one
  obtain ⟨late, secondTaken, secondPosts⟩ := two
  exact ⟨early ++ late, by rw [secondTaken, firstTaken, List.append_assoc],
    firstPosts.trans secondPosts⟩

variable {solo : Solo}

omit [SipHasher] in
theorem Serves.ran (serves : solo.Serves) {task : Task Executor}
    (posts : solo.executor.Posts taken solo.world (task.run World.handle solo.world))
    (ended : (task.run World.handle solo.world).1.phase = .ended →
      (task.run World.handle solo.world).1.sync.held = []) :
    (solo.ran taken task).Serves ∧ Since solo (solo.ran taken task) := by
  have since : Since solo (solo.ran taken task) := ⟨taken, rfl, posts⟩
  obtain ⟨told, _, posted⟩ := posts
  exact ⟨⟨posted.saves serves.saves, posted.inOrder serves.inOrder, ended⟩, since⟩

theorem Serves.step (serves : solo.Serves) {occurrence : Occurrence} (plain : occurrence.Plain) :
    (solo.step occurrence).Serves ∧ Since solo (solo.step occurrence) := by
  have still : solo.Serves ∧ Since solo solo := ⟨serves, .refl solo⟩
  cases occurrence with
  | serve now envelope =>
    unfold Solo.step
    dsimp only
    split
    · next may =>
        refine serves.ran (Executor.posts_serve now plain solo.world) fun ended => ?_
        rw [(solo.executor.works_serve now envelope solo.world).1.phase, may.1] at ended
        cases ended
    · exact still
  | hear message =>
    unfold Solo.step
    dsimp only
    split
    · next may =>
        exact serves.ran (Executor.posts_hear message solo.world)
          (Executor.hear_ended may.1 message solo.world)
    · exact still
  | hearNothing =>
    unfold Solo.step
    dsimp only
    split
    · next may =>
        exact serves.ran (Executor.posts_hearNothing solo.executor solo.world)
          (Executor.hearNothing_ended may.1 solo.world)
    · exact still
  | tick now =>
    unfold Solo.step
    dsimp only
    split
    · next may =>
        have silent : (solo.executor.housekeeping now).Within
            (Call.Working solo.executor.index False) (Executor.Kept solo.executor) :=
          Executor.kept_housekeeping now (Or.inr serves.saves)
        obtain ⟨kept, worked⟩ := World.Worked.run silent solo.world
        refine serves.ran (.of_kept kept (worked.answered id)) fun ended => ?_
        rw [kept.phase, may] at ended
        cases ended
    · exact still
  | stop queued =>
    unfold Solo.step
    dsimp only
    split
    · obtain ⟨posts, ended⟩ := Executor.posts_stop queued plain serves.inOrder solo.world
      exact serves.ran posts ended
    · exact still

theorem Serves.run (serves : solo.Serves) {occurrences : List Occurrence}
    (plain : ∀ occurrence ∈ occurrences, occurrence.Plain) :
    (solo.run occurrences).Serves ∧ Since solo (solo.run occurrences) := by
  induction occurrences generalizing solo with
  | nil => exact ⟨serves, .refl solo⟩
  | cons occurrence rest induction =>
    obtain ⟨next, stepped⟩ := serves.step (plain occurrence List.mem_cons_self)
    obtain ⟨last, ran⟩ := induction next fun other member =>
      plain other (List.mem_cons_of_mem _ member)
    exact ⟨last, stepped.trans ran⟩

omit [SipHasher] in
theorem serves_new (index firstShard : Nat) (states : List (ShardState FileLog))
    (limit : MemoryLimit) (policy : SyncPolicy) (generation : Nat) (config : CheckpointConfig)
    (linked : Bool) (world : World) :
    (new index firstShard states limit policy generation config linked world).Serves where
  saves := ⟨rfl, rfl⟩
  inOrder := ⟨List.Pairwise.nil, nofun⟩
  ended := fun _ => rfl

/-- Every envelope an executor took is answered exactly once by the time it has
stopped, with one reply for each command; and from any state of a run on, those held
there and those held later, in the order of their batches, are those answered since, in
the order of the answers, and those held at the end. -/
theorem one_answer_per_envelope (index firstShard : Nat) (states : List (ShardState FileLog))
    (limit : MemoryLimit) (policy : SyncPolicy) (generation : Nat) (config : CheckpointConfig)
    (linked : Bool) (world : World) (occurrences : List Occurrence)
    (plain : ∀ occurrence ∈ occurrences, occurrence.Plain) :
    let start := new index firstShard states limit policy generation config linked world
    let last := start.run occurrences
    (last.executor.phase = .ended →
      ∃ told, last.world.answered = world.answered ++ told ∧
        (told.map Answer.receipt).Perm (last.taken.map Envelope.receipt)) ∧
    ∀ first second, occurrences = first ++ second →
      let middle := start.run first
      ∃ pushed popped told,
        last.world.answered = middle.world.answered ++ told ∧
        middle.executor.sync.held ++ pushed = popped ++ last.executor.sync.held ∧
        (middle.executor.sync.held ++ pushed).Pairwise
          (fun one other => one.batch < other.batch) ∧
        (popped.map Held.receipt).Sublist (told.map Answer.receipt) := by
  intro start last
  have serves : start.Serves := serves_new ..
  constructor
  · intro ended
    obtain ⟨final, taken, tookAll, told, answered, posted⟩ := serves.run plain
    refine ⟨told, answered, ?_⟩
    have balance := posted.balance
    rw [final.ended ended] at balance
    rw [show last.taken = taken from tookAll]
    simpa [start, new, SyncState.new] using balance
  · rintro first second rfl
    intro middle
    obtain ⟨there, _⟩ := serves.run fun occurrence member =>
      plain occurrence (List.mem_append_left second member)
    obtain ⟨_, taken, _, told, answered, posted⟩ := there.run fun occurrence member =>
      plain occurrence (List.mem_append_right first member)
    have same : last = middle.run second := List.foldl_append
    obtain ⟨pushed, popped, queue, sublist, order, range⟩ := posted.queue
    rw [same]
    exact ⟨pushed, popped, told, answered, queue,
      (posted.ordered there.inOrder order range).1, sublist⟩

omit [SipHasher] in
/-- Two `SET`s under `always`, the first proven by a sync, the second still held when
the stop's wait ends. -/
theorem one_answer_per_envelope_two_sets :
    let _ : SipHasher := ⟨fun _ _ _ => 3⟩
    let now : Now := ⟨5, 5, by decide⟩
    let set : Nat → Envelope := fun client =>
      ⟨[(0, .set [1] [2] none none false false)], client⟩
    let occurrences : List Occurrence := [.serve now (set 7), .serve now (set 8), .tick now,
      .hear (.durable (some 0) 10 0), .stop [], .hear .stopped]
    let start := new 0 0 [.recovered (Dict.withSeed ⟨0, 0⟩) 0 .new] ⟨none, .noEviction⟩
      .always 1 ⟨1000, 1, 1000⟩ true (Node.smallest .always).world
    let last := start.run occurrences
    last.taken = [set 7, set 8] ∧
      ∃ told, last.world.answered = (Node.smallest .always).world.answered ++ told ∧
        (told.map Answer.receipt).Perm (last.taken.map Envelope.receipt) := by
  intro hasher now set occurrences
  have plain : ∀ occurrence ∈ occurrences, occurrence.Plain := by
    simp [occurrences, Occurrence.Plain, Envelope.Plain, set]
  constructor
  · decide +kernel
  · exact (one_answer_per_envelope 0 0 [.recovered (Dict.withSeed ⟨0, 0⟩) 0 .new]
      ⟨none, .noEviction⟩ .always 1 ⟨1000, 1, 1000⟩ true (Node.smallest .always).world
      occurrences plain).1 (by decide +kernel)

end Solo

end Seedstone
