import Seedstone.Node.Promises
import Seedstone.Node.Reach

/-!
# The stop

An executor that stops hands everything it holds to the writer and sends its stop
after it, so once every executor's stop has been taken the writer has every batch.
Its last round then leaves each batch proven, dropped with a fault said before, or
let go of by its executor.  What the executor returns rests on that.
-/

namespace Seedstone

variable {may : Prop} {call : Call}

/-- An executor at work: anything but its stop, and an answer only if it `may`. -/
def Call.Working (index : Nat) (may : Prop) : Call → Prop
  | .toWriter message => message.Of index
  | .answer _ => may
  | .toExecutor .. => False
  | _ => True

theorem Call.Talk.working {index : Nat}
    (talk : call.Talk (ToWriter.Of index) fun _ => may) : call.Working index may := by
  cases call with
  | toWriter | answer => exact talk
  | toExecutor => exact talk.elim
  | create | write | syncData | syncLater | letGo | syncDir | remove | list | len
  | gaugeUsed | gaugeApply => trivial

theorem Call.Aside.working {index : Nat} (aside : call.Aside) : call.Working index may := by
  cases call with
  | toWriter | toExecutor | answer => exact aside.elim
  | create | write | syncData | syncLater | letGo | syncDir | remove | list | len
  | gaugeUsed | gaugeApply => trivial

/-- What such calls add to the writer's inbox. -/
structure World.Worked (index : Nat) (may : Prop) (before after : World) : Prop where
  inbox : ∃ more, after.inbox = before.inbox ++ more ∧ ∀ message ∈ more, message.Of index
  progress : after.progress = before.progress
  answered : ¬may → after.answered = before.answered

namespace World.Worked

variable {index : Nat} {may : Prop}

theorem of_same {before after : World} (inbox : after.inbox = before.inbox)
    (progress : after.progress = before.progress)
    (answered : ¬may → after.answered = before.answered) : World.Worked index may before after :=
  ⟨⟨[], by rw [inbox, List.append_nil], by simp⟩, progress, answered⟩

theorem trans {first second third : World} (one : World.Worked index may first second)
    (two : World.Worked index may second third) : World.Worked index may first third := by
  obtain ⟨some, firstInbox, firstMay⟩ := one.inbox
  obtain ⟨more, secondInbox, secondMay⟩ := two.inbox
  refine ⟨⟨some ++ more, by rw [secondInbox, firstInbox, List.append_assoc], ?_⟩,
    two.progress.trans one.progress,
    fun silent => (two.answered silent).trans (one.answered silent)⟩
  intro message member
  exact (List.mem_append.mp member).elim (firstMay message) (secondMay message)

theorem handle (working : call.Working index may) (world : World) :
    World.Worked index may world (World.handle call world).2 := by
  cases call with
  | toWriter message =>
    refine ⟨⟨[message], rfl, ?_⟩, rfl, fun _ => rfl⟩
    intro other member
    rw [List.mem_singleton.mp member]
    exact working
  | answer => exact of_same rfl rfl fun silent => absurd working silent
  | toExecutor => exact working.elim
  | create | write | syncData | syncLater | letGo | syncDir | remove | list | len
  | gaugeUsed | gaugeApply => exact of_same rfl rfl fun _ => rfl

theorem run {α : Type} {post : α → Prop} {task : Task α}
    (within : task.Within (Call.Working index may) post) (world : World) :
    post (task.run World.handle world).1 ∧
      World.Worked index may world (task.run World.handle world).2 :=
  within.run_related (fun _ => of_same rfl rfl fun _ => rfl) trans (fun _ => handle) world

end World.Worked

namespace Executor

variable {this after : Executor}

/-- An executor in the same phase, under the same number, that may have handed over. -/
structure Works (before after : Executor) : Prop where
  index : after.index = before.index
  phase : after.phase = before.phase
  spent : before.sync.Spent after.sync

theorem Works.trans {first second third : Executor} (one : Works first second)
    (two : Works second third) : Works first third :=
  ⟨two.index.trans one.index, two.phase.trans one.phase, one.spent.trans two.spent⟩

theorem Beside.works (beside : Beside this after) : Works this after :=
  { beside with }

/-- An executor whose queue is as it was, and for which no `SAVE` came to wait. -/
structure Kept (before after : Executor) : Prop extends Works before after where
  held : after.sync.held = before.sync.held
  saves : before.saves = [] ∧ before.savesAfter = [] →
    after.saves = [] ∧ after.savesAfter = []

theorem Kept.trans {first second third : Executor} (one : Kept first second)
    (two : Kept second third) : Kept first third :=
  ⟨one.toWorks.trans two.toWorks, two.held.trans one.held,
    fun none => two.saves (one.saves none)⟩

theorem Kept.of_sync (index : after.index = this.index) (phase : after.phase = this.phase)
    (sync : after.sync = this.sync)
    (saves : this.saves = [] ∧ this.savesAfter = [] →
      after.saves = [] ∧ after.savesAfter = []) : Kept this after :=
  ⟨⟨index, phase, by rw [sync]; exact .refl _⟩, by rw [sync], saves⟩

theorem Beside.kept (beside : Beside this after) : Kept this after := by
  refine ⟨beside.works, beside.held, ?_⟩
  rw [beside.saves, beside.savesAfter]
  exact id

variable {index : Nat} {may : Prop}

theorem kept_imaged (completed : Option Completed) (mine : this.index = index) :
    (this.imaged completed).Within (Call.Working index may) (Kept this) := by
  cases completed with
  | none => exact .pure (.of_sync rfl rfl rfl id)
  | some done =>
    unfold Executor.imaged Executor.completed
    dsimp only
    split
    · refine .after (Call.toWriter _) mine fun _ => ?_
      split <;> exact .pure ⟨⟨rfl, rfl, .of_same rfl rfl rfl rfl rfl⟩, rfl, id⟩
    · split <;> exact .pure ⟨⟨rfl, rfl, .of_same rfl rfl rfl rfl rfl⟩, rfl, id⟩

theorem kept_answerSaves (completed faulted : Bool)
    (waiting : may ∨ this.saves = [] ∧ this.savesAfter = []) :
    (this.answerSaves completed faulted).Within (Call.Working index may) (Kept this) := by
  have sends : ∀ saves : List (Nat × List Reply), may ∨ saves = [] →
      (this.sendSaves saves).Within (Call.Working index may) fun _ => True := by
    rintro saves (allowed | rfl)
    · have tells : (this.sendSaves saves).Within
          (Call.Talk (ToWriter.Of index) fun _ => may) fun _ => True :=
        talk_sendAll fun _ _ => allowed
      exact tells.allow fun _ => Call.Talk.working
    · exact .pure trivial
  unfold Executor.answerSaves
  split
  · refine (sends _ (waiting.imp_right And.left)).bind fun _ _ => ?_
    split
    · exact .pure (.of_sync rfl rfl rfl fun none => ⟨rfl, none.2⟩)
    · next later =>
        refine .pure (.of_sync ?_ ?_ (askForSnapshot_sync _) ?_)
        · unfold askForSnapshot
          split <;> rfl
        · unfold askForSnapshot
          split <;> rfl
        · exact fun none => absurd (List.isEmpty_iff.mpr none.2) later
  · split
    · refine (sends _ (waiting.imp_right fun none => ?_)).bind fun _ _ =>
        .pure (.of_sync rfl rfl rfl fun _ => ⟨rfl, rfl⟩)
      rw [none.1, none.2]
      rfl
    · exact .pure (.of_sync rfl rfl rfl id)

theorem kept_afterTick (tick : Tick) (mine : this.index = index)
    (waiting : may ∨ this.saves = [] ∧ this.savesAfter = []) :
    (this.afterTick tick).Within (Call.Working index may) (Kept this) := by
  refine (kept_imaged tick.completed mine).bind fun after imaged => ?_
  refine (kept_answerSaves _ _ (waiting.imp_right imaged.saves)).bind fun last answered => ?_
  have kept := imaged.trans answered
  split
  · exact .pure (kept.trans (.of_sync rfl rfl rfl id))
  · exact .pure kept

theorem kept_checkpointTick (now : Now) (mine : this.index = index)
    (waiting : may ∨ this.saves = [] ∧ this.savesAfter = []) :
    (this.checkpointTick now).Within (Call.Working index may) (Kept this) := by
  unfold Executor.checkpointTick
  dsimp only
  generalize startEq : (if this.checkpoint.isOpen = true then this
    else { this with changesAtOpen := none }) = start
  have started : Kept this start := by
    rw [← startEq]
    split <;> exact .of_sync rfl rfl rfl id
  have ticks := (start.checkpoint.within_tick start.firstShard start.states now
    start.position).allow fun _ => (Call.Aside.working : _ → Call.Working index may _)
  refine ticks.bind fun outcome _ => ?_
  obtain ⟨tick, checkpoint, states⟩ := outcome
  dsimp only
  have ticked : Kept this { start with
      checkpoint := checkpoint, states := states, snapshotAsked := false } :=
    started.trans (.of_sync rfl rfl rfl id)
  have rest : (afterTick { start with
      checkpoint := checkpoint, states := states, snapshotAsked := false } tick).Within
        (Call.Working index may) (Kept this) :=
    (kept_afterTick tick (ticked.index.trans mine) (waiting.imp_right ticked.saves)).weaken
      fun _ last => ticked.trans last
  split
  · exact .after (Call.toWriter .syncNow) trivial fun _ => rest
  · exact rest

theorem kept_countTick (this : Executor) : Kept this { this with sync := countTick this.sync } := by
  unfold countTick
  split
  · exact .of_sync rfl rfl rfl id
  · exact ⟨⟨rfl, rfl, .of_same rfl rfl rfl rfl rfl⟩, rfl, id⟩

/-- Nothing is left in a buffer. -/
structure Drained (this : Executor) : Prop where
  staging : this.sync.staging = []
  pending : ∀ state ∈ this.states, state.log.pending = []

theorem pending_stage (offsets : List Nat) : ∀ (touched : List (Nat × Nat) × Executor)
    (offset : Nat) (state : ShardState FileLog),
    (offsets.foldl stageShard touched).2.states[offset]? = some state →
    (offset ∈ offsets ∨ ∀ former, touched.2.states[offset]? = some former →
      former.log.pending = []) → state.log.pending = [] := by
  induction offsets with
  | nil =>
    rintro touched offset state located (member | clean)
    · exact absurd member List.not_mem_nil
    · exact clean state located
  | cons first rest induction =>
    intro touched offset state located either
    refine induction (stageShard touched first) offset state located ?_
    by_cases later : offset ∈ rest
    · exact Or.inl later
    · refine Or.inr fun former found => ?_
      obtain ⟨points, this⟩ := touched
      rw [stageShard_eq] at found
      cases firstAt : this.states[first]? with
      | none =>
        rw [firstAt] at found
        rcases either with member | clean
        · rcases List.mem_cons.mp member with rfl | inside
          · rw [firstAt] at found
            cases found
          · exact absurd inside later
        · exact clean former found
      | some flushed =>
        rw [firstAt] at found
        by_cases same : first = offset
        · subst same
          dsimp only at found
          rw [List.getElem?_set_self (List.getElem?_eq_some_iff.mp firstAt).1,
            Option.some.injEq] at found
          rw [← found]
          exact FileLog.flushInto_pending _
        · dsimp only at found
          rw [List.getElem?_set_ne same] at found
          rcases either with member | clean
          · exact absurd ((List.mem_cons.mp member).resolve_left fun eq => same eq.symm) later
          · exact clean former found

theorem drained_submitAll (this : Executor) (world : World) :
    Drained ((this.stageAll.2.submit this.stageAll.1).run World.handle world).1.2 := by
  have pending : ∀ state ∈ this.stageAll.2.states, state.log.pending = [] := by
    intro state member
    obtain ⟨offset, located⟩ := List.mem_iff_getElem?.mp member
    have inside := (List.getElem?_eq_some_iff.mp located).1
    rw [show this.stageAll.2.states.length = this.states.length from
      (beside_stage this _).shards] at inside
    exact pending_stage _ ([], this) offset state located (Or.inl (List.mem_range.mpr inside))
  unfold Executor.submit
  split
  · next empty => exact ⟨List.isEmpty_iff.mp empty, pending⟩
  · dsimp only
    split
    · rw [Program.run_bind]
      refine ⟨?_, pending⟩
      dsimp only [Program.run_pure]
      unfold SyncState.track
      split <;> rfl
    · exact ⟨rfl, pending⟩

/-- What hearing the writer leaves as it is. -/
structure Listens (before after : Executor) : Prop where
  staging : after.sync.staging = before.sync.staging
  submissions : after.sync.submissions = before.sync.submissions
  pending : after.states.map (fun state => state.log.pending) =
    before.states.map fun state => state.log.pending

theorem Listens.drained (listens : Listens this after) (drained : this.Drained) :
    after.Drained := by
  refine ⟨listens.staging.trans drained.staging, ?_⟩
  intro state member
  have inside : state.log.pending ∈ after.states.map fun state => state.log.pending :=
    List.mem_map_of_mem member
  rw [listens.pending] at inside
  obtain ⟨former, found, same⟩ := List.mem_map.mp inside
  rw [← same]
  exact drained.pending former found

/-- `refuse` says nothing to the writer and empties no buffer. -/
theorem listens_refuse (this : Executor) (world : World) :
    this.refuse.Leads world fun after later => Listens this after ∧
      after.phase = this.phase ∧ later.inbox = world.inbox ∧ later.progress = world.progress := by
  rw [Task.Leads, run_refuse]
  obtain ⟨_, aside⟩ := World.Aside.run this.checkpoint.within_force (this.toldOff world)
  refine ⟨⟨rfl, rfl, ?_⟩, rfl, aside.inbox, aside.progress⟩
  dsimp only [ceased]
  split
  · rfl
  · simp [setRefusing]

theorem listens_progress (message : Progress) (world : World) :
    (this.progress message).Leads world fun after later => Listens this after ∧
      after.phase = this.phase ∧ later.inbox = world.inbox ∧ later.progress = world.progress := by
  cases message with
  | written | nudge | stopped => exact ⟨⟨rfl, rfl, rfl⟩, rfl, rfl, rfl⟩
  | durable throughBatch bytes round =>
    cases throughBatch with
    | none => exact ⟨⟨rfl, rfl, rfl⟩, rfl, rfl, rfl⟩
    | some through =>
      simp only [Task.Leads, Executor.progress, Executor.releaseThrough, Program.run_bind,
        run_sendAll, Program.run_pure]
      exact ⟨⟨rfl, rfl, (sameShards_syncsCompleted _ _).map fun _ => rfl⟩, trivial,
        trivial, trivial⟩
  | fault => exact listens_refuse this world

theorem run_ending (this : Executor) (world : World) :
    this.ending.run World.handle world =
      ({ this with sync := { this.sync with held := [] }, phase := .ended },
        this.toldOff world) := by
  simp only [Executor.ending, Program.run_bind, run_failAll, Program.run_pure]

/-- Hearing a message, an executor ends only at `stopped`, with its mode as it was. -/
theorem listens_hear (this : Executor) (message : Progress) (world : World) :
    (this.hear message).Leads world fun after later => Listens this after ∧
      (after.phase = this.phase ∨ message = .stopped ∧ this.phase = .stopping ∧
        after.phase = .ended ∧ after.sync.floor = this.sync.floor) ∧
      later.inbox = world.inbox ∧ later.progress = world.progress := by
  unfold Executor.hear
  split
  · next last =>
      rw [Task.Leads, run_ending]
      exact ⟨⟨rfl, rfl, rfl⟩, Or.inr ⟨last.2, last.1, rfl, rfl⟩, rfl, rfl⟩
  · obtain ⟨listens, phase, inbox, progress⟩ := listens_progress message world
    exact ⟨listens, Or.inl phase, inbox, progress⟩

theorem listens_hearNothing (this : Executor) (world : World) :
    this.hearNothing.Leads world fun after later => Listens this after ∧
      after.sync.isRefusing = true ∧
      (after.phase = this.phase ∨ this.phase = .stopping ∧ after.phase = .ended) ∧
      later.inbox = world.inbox ∧ later.progress = world.progress := by
  obtain ⟨listens, phase, inbox, progress⟩ := listens_refuse (this.cut false true) world
  have refuses : ((this.cut false true).refuse.run World.handle
      world).1.sync.isRefusing = true := by
    rw [run_refuse]
    exact isRefusing_ceased _
  unfold Executor.hearNothing Executor.lost
  rw [Task.leads_bind]
  have same : Listens this ((this.cut false true).refuse.run World.handle world).1 :=
    { listens with }
  split
  · next stopping =>
      rw [Task.Leads, run_ending]
      exact ⟨{ same with }, refuses, Or.inr ⟨stopping, rfl⟩, inbox, progress⟩
  · exact ⟨same, refuses, Or.inl phase, inbox, progress⟩

variable [SipHasher]

theorem works_serve (this : Executor) (now : Now) (envelope : Envelope) (world : World) :
    (this.serve now envelope).Leads world fun after later =>
      Works this after ∧ World.Worked this.index True world later := by
  by_cases plain : envelope.Plain
  · obtain ⟨answered, after, later, _, beside, talked, settles⟩ := this.run_serve now plain world
    unfold Task.Leads
    generalize (this.serve now envelope).run World.handle world = outcome at settles ⊢
    cases settles with
    | told => exact ⟨beside.works, talked.inbox, talked.progress, by simp⟩
    | held batch wrote low high =>
      exact ⟨beside.works.trans ⟨rfl, rfl, .of_same rfl rfl rfl rfl rfl⟩, talked.inbox,
        talked.progress, by simp⟩
  · unfold Envelope.Plain at plain
    push Not at plain
    obtain ⟨shard, wait, rest, cmds⟩ := plain
    unfold Executor.serve
    rw [cmds]
    have asks : (this.snapshot wait (((shard, .snapshot wait) :: rest : List _).length)
        envelope.client).Within (Call.Talk (ToWriter.Of this.index) fun _ => True) _ :=
      talk_snapshot wait _ _
    obtain ⟨⟨phase, index, sync⟩, worked⟩ :=
      World.Worked.run (asks.allow fun _ => Call.Talk.working) world
    exact ⟨⟨index, phase, by rw [sync]; exact .refl _⟩, worked⟩

theorem works_serveAll (queued : List (Now × Envelope)) (this : Executor) (world : World) :
    (this.serveAll queued).Leads world fun after later =>
      Works this after ∧ World.Worked this.index True world later := by
  induction queued generalizing this world with
  | nil => exact ⟨⟨rfl, rfl, .refl _⟩, .of_same rfl rfl fun _ => rfl⟩
  | cons first rest induction =>
    unfold Executor.serveAll
    rw [Task.leads_bind]
    obtain ⟨one, worked⟩ := this.works_serve first.1 first.2 world
    generalize (this.serve first.1 first.2).run World.handle world = outcome at one worked ⊢
    obtain ⟨others, further⟩ := induction outcome.1 outcome.2
    rw [one.index] at further
    exact ⟨one.trans others, worked.trans further⟩

theorem kept_housekeeping (now : Now) (waiting : may ∨ this.saves = [] ∧ this.savesAfter = []) :
    (this.housekeeping now).Within (Call.Working this.index may) (Kept this) := by
  have ticks : (tickShards this.sync.isRefusing now.instant this.firstShard
      this.states).Within (Call.Talk (ToWriter.Of this.index) fun _ => may) fun after =>
        after.length = this.states.length := talk_tickShards _ _ _ _
  refine (ticks.allow fun _ => Call.Talk.working).bind fun states _ => ?_
  have submits : ((stageAll { this with states := states }).2.submit
      (stageAll { this with states := states }).1).Within
        (Call.Talk (ToWriter.Of this.index) fun _ => may) fun outcome =>
          Beside { this with states := states } outcome.2 := talk_submitAll rfl
  refine (submits.allow fun _ => Call.Talk.working).bind fun outcome submitted => ?_
  have ticked : Kept this { this with states := states } := .of_sync rfl rfl rfl id
  have kept : Kept this { outcome.2 with sync := countTick outcome.2.sync } :=
    ticked.trans (submitted.kept.trans (kept_countTick outcome.2))
  exact (kept_checkpointTick now kept.index (waiting.imp_right kept.saves)).weaken
    fun _ last => kept.trans last

/-- `stop`, up to the wait: nothing is left behind, and the stop goes last. -/
theorem stop_drains (queued : List (Now × Envelope)) (world : World) :
    (this.stop queued).Leads world fun after later =>
      after.Drained ∧ after.phase ≠ .serving ∧
        (after.phase = .ended → after.sync.link = false) ∧ this.sync.Spent after.sync ∧
        later.progress = world.progress ∧ ∃ more, (∀ message ∈ more, message.Of this.index) ∧
          (later.inbox = world.inbox ++ more ∨
            later.inbox = world.inbox ++ more ++ [.stop this.index]) := by
  obtain ⟨works, served⟩ := works_serveAll queued this world
  unfold Executor.stop
  rw [Task.leads_bind]
  generalize (this.serveAll queued).run World.handle world = outcome at works served ⊢
  obtain ⟨after, later⟩ := outcome
  dsimp only at works served ⊢
  have drained := drained_submitAll after later
  have submits : (after.stageAll.2.submit after.stageAll.1).Within
      (Call.Talk (ToWriter.Of this.index) fun _ => True) fun outcome =>
        Beside after outcome.2 := talk_submitAll works.index
  obtain ⟨beside, submitted⟩ :=
    World.Worked.run (submits.allow fun _ => Call.Talk.working) later
  rw [Task.leads_bind]
  generalize (after.stageAll.2.submit after.stageAll.1).run World.handle later = outcome
    at drained beside submitted ⊢
  obtain ⟨⟨_, last⟩, final⟩ := outcome
  dsimp only at drained beside submitted ⊢
  obtain ⟨⟨more, inbox, may⟩, progress, _⟩ := served.trans submitted
  have both := works.trans beside.works
  split
  · refine ⟨⟨drained.staging, drained.pending⟩, by simp, by simp, both.spent, progress, more,
      may, Or.inr ?_⟩
    simp [inbox, both.index]
  · next gone =>
      simp only [Task.Leads, Executor.releaseThrough, Program.run_bind, run_sendAll,
        Program.run_pure]
      exact ⟨⟨drained.staging, drained.pending⟩, by simp, fun _ => by simpa using gone,
        both.spent.trans (.of_same rfl rfl rfl rfl rfl), progress, more, may, Or.inl inbox⟩

end Executor

/-- Every call on the disk leaves what a segment holds, and what of it is synced. -/
theorem World.extends_handle (call : Call) (world : World) :
    world.disk.Extends (World.handle call world).2.disk := by
  cases call with
  | write name pieces => exact Disk.extends_write name pieces
  | syncData name =>
    have grown : world.disk.called.Extends (world.disk.called.settle
        (world.disk.syncLater name) world.disk.verdict) := Disk.extends_settle _ _
    exact grown
  | letGo flight => exact Disk.extends_settle flight false
  | create name =>
    intro other _
    have same : (world.disk.create name).2.files other = world.disk.files other := by
      unfold Disk.create
      dsimp only
      split
      · rfl
      · split <;> rfl
    exact same ▸ .refl _
  | remove name =>
    intro other _
    have same : (world.disk.remove name).2.files other = world.disk.files other := by
      unfold Disk.remove
      dsimp only
      split
      · rfl
      · split <;> rfl
    exact same ▸ .refl _
  | syncDir =>
    intro other _
    have same : world.disk.syncDir.2.files other = world.disk.files other := by
      unfold Disk.syncDir
      split <;> rfl
    exact same ▸ .refl _
  | list | len | syncLater | toWriter | toExecutor | answer | gaugeUsed | gaugeApply =>
    exact .refl _

theorem World.extends_run {α : Type} (task : Task α) (world : World) :
    world.disk.Extends (task.run World.handle world).2.disk := by
  induction task generalizing world with
  | done result => exact .refl _
  | call call next induction =>
    exact (World.extends_handle call world).trans (induction _ _)

/-- A stop is not followed by a batch of its executor. -/
def ToWriter.Orderly (earlier later : ToWriter) : Prop :=
  ∀ executor batch records, earlier = .stop executor →
    later ≠ .submit executor batch records

namespace Node

variable {node : Node} {executor : Nat} {this : Executor} {later : World} {after : Executor}

/-- What an event of an executor does to its buffers, its phase and the inbox. -/
structure Departs (node : Node) (executor : Nat) (this after : Executor) (later : World) :
    Prop where
  inbox : later.inbox = node.world.inbox ∨ this.phase = .serving ∧
    ∃ more, (∀ message ∈ more, message.Of executor) ∧
      (later.inbox = node.world.inbox ++ more ∨ after.phase ≠ .serving ∧
        later.inbox = node.world.inbox ++ more ++ [.stop executor])
  drained : after.phase ≠ .serving → (this.phase ≠ .serving → this.Drained) →
    after.Drained
  serving : after.phase = .serving → this.phase = .serving
  ended : after.phase = .ended → this.phase ≠ .ended ∧ (after.sync.isRefusing = true ∨
    after.sync.submissions = this.sync.submissions ∧ after.sync.floor = this.sync.floor ∧
      this.sync.link = true ∧ ∃ rest, node.world.progress executor = .stopped :: rest)

theorem departs_of_work (mine : this.index = executor) (serves : this.phase = .serving)
    (works : Executor.Works this after) (worked : World.Worked this.index True node.world later) :
    Departs node executor this after later := by
  obtain ⟨⟨more, inbox, may⟩, _⟩ := worked
  rw [mine] at may
  have serving := works.phase.trans serves
  refine ⟨Or.inr ⟨serves, more, may, Or.inl inbox⟩, ?_, fun _ => serves, ?_⟩
  · exact fun stopped => absurd serving stopped
  · intro ended
    rw [serving] at ended
    cases ended

/-- Where a node's executors and its writer stand on the way to the stop: an executor
that left its loop holds nothing back, its stop is the last of its messages, and
one that ended intact has every batch proven or let go of. -/
structure Leaves (node : Node) : Prop where
  drained : ∀ this ∈ node.executors, this.phase ≠ .serving → this.Drained
  stopped : ∀ (executor : Nat) this, node.executors[executor]? = some this →
    (.stop executor ∈ node.world.inbox ∨
      ∃ lane, node.writer.lanes[executor]? = some lane ∧ lane.stopped = true) →
    this.phase ≠ .serving
  after : node.world.inbox.Pairwise ToWriter.Orderly
  taken : ∀ (executor : Nat) lane, node.writer.lanes[executor]? = some lane →
    lane.stopped = true → submitsOf executor node.world.inbox = []
  ended : ∀ this ∈ node.executors, this.phase = .ended → this.sync.isRefusing = true ∨
    ∀ (batch : Nat) records, this.sync.submissions[batch]? = some records →
      batch < this.sync.floor ∨ node.world.disk.Proven node.writer.generation records

theorem submitsOf_eq_nil {inbox : List ToWriter}
    (none : ∀ batch records, .submit executor batch records ∉ inbox) :
    submitsOf executor inbox = [] := by
  apply List.filterMap_eq_nil_iff.mpr
  intro message member
  cases message with
  | submit sender batch records =>
    apply if_neg
    rintro rfl
    exact none batch records member
  | covered | syncNow | stop => rfl

theorem Departs.sent (departs : Departs node executor this after later) :
    ∃ more, later.inbox = node.world.inbox ++ more ∧ (this.phase ≠ .serving → more = []) ∧
      (∀ message ∈ more, message.Of executor ∨ message = .stop executor ∧ after.phase ≠ .serving) ∧
      more.Pairwise ToWriter.Orderly := by
  rcases departs.inbox with same | ⟨serves, more, may, sent⟩
  · exact ⟨[], by rw [same, List.append_nil], fun _ => rfl, by simp, .nil⟩
  · have orderly : more.Pairwise ToWriter.Orderly := by
      apply List.pairwise_of_forall_mem_list
      rintro earlier member later - other batch records rfl
      exact (may _ member).elim
    rcases sent with same | ⟨stopped, same⟩
    · exact ⟨more, same, fun idle => absurd serves idle,
        fun message member => Or.inl (may message member), orderly⟩
    · refine ⟨more ++ [.stop executor], by rw [same, List.append_assoc],
        fun idle => absurd serves idle, ?_, ?_⟩
      · intro message member
        rcases List.mem_append.mp member with old | last
        · exact Or.inl (may message old)
        · exact Or.inr ⟨List.mem_singleton.mp last, stopped⟩
      · apply List.pairwise_append.mpr ⟨orderly, List.pairwise_singleton .., ?_⟩
        intro earlier _ later last other batch records _
        rw [List.mem_singleton.mp last]
        simp

theorem Leaves.wrote (leaves : node.Leaves) {writer : Writer}
    (inbox : later.inbox <:+ node.world.inbox)
    (stopped : ∀ (executor : Nat) lane, writer.lanes[executor]? = some lane → lane.stopped = true →
      (∃ former, node.writer.lanes[executor]? = some former ∧ former.stopped = true) ∨
      node.world.inbox = .stop executor :: later.inbox)
    (generation : writer.generation = node.writer.generation)
    (grown : node.world.disk.Extends later.disk) :
    Leaves { node with writer := writer, world := later } := by
  refine ⟨leaves.drained, ?_, leaves.after.sublist inbox.sublist, ?_, ?_⟩
  · intro executor this located gone
    apply leaves.stopped executor this located
    rcases gone with queued | ⟨lane, laneAt, said⟩
    · exact Or.inl (inbox.subset queued)
    · rcases stopped executor lane laneAt said with former | head
      · exact Or.inr former
      · rw [head]
        exact Or.inl List.mem_cons_self
  · intro executor lane laneAt said
    apply submitsOf_eq_nil
    intro batch records queued
    rcases stopped executor lane laneAt said with ⟨former, found, before⟩ | head
    · have none := leaves.taken executor former found before
      have picked : (records, batch) ∈ submitsOf executor node.world.inbox :=
        List.mem_filterMap.mpr ⟨_, inbox.subset queued, if_pos rfl⟩
      rw [none] at picked
      cases picked
    · have orderly := leaves.after
      rw [head] at orderly
      exact List.rel_of_pairwise_cons orderly queued executor batch records rfl rfl
  · intro this member ended
    refine (leaves.ended this member ended).imp_right fun safe batch records sent => ?_
    dsimp only
    rw [generation]
    exact (safe batch records sent).imp_right grown.proven

theorem Leaves.stepWriter (leaves : node.Leaves) (event : Event) :
    (node.stepWriter event).Leaves := by
  rcases node.stepWriter_cases event with
    same | ⟨message, rest, inbox, _, same⟩ | ⟨task, disk, steps, grown, same⟩
  · rw [same]
    exact leaves
  · rw [same]
    obtain ⟨took, aside⟩ := World.Aside.run (node.writer.aside_draining message)
      { node.world with inbox := rest }
    refine leaves.wrote ?_ ?_ took.generation
      (World.extends_run _ { node.world with inbox := rest })
    · rw [aside.inbox, inbox]
      exact List.suffix_cons ..
    · intro executor lane laneAt said
      rw [took.lanes] at laneAt
      obtain ⟨former, found, changed⟩ := Option.map_eq_some_iff.mp laneAt
      rw [aside.inbox, inbox]
      by_cases stop : message = .stop executor
      · exact Or.inr (by rw [stop])
      · refine Or.inl ⟨former, found, ?_⟩
        rw [← changed] at said
        cases message with
        | submit | covered =>
          simp only [Writer.laneTook] at said
          split at said <;> exact said
        | syncNow => exact said
        | stop sender =>
          simp only [Writer.laneTook] at said
          rw [if_neg (fun mine => stop (by rw [mine]))] at said
          exact said
  · rw [same]
    have moves := steps.run { node.world with disk := disk }
    have steady := moves.steady
    refine leaves.wrote ?_ ?_ steady.generation (grown.trans
      (World.extends_run task { node.world with disk := disk }))
    · rw [moves.unsent.inbox]
    · intro executor lane laneAt said
      have standing := congrArg (fun lanes => lanes[executor]?) steady.standing
      simp only [List.getElem?_map, laneAt, Option.map_some] at standing
      obtain ⟨former, found, same⟩ := Option.map_eq_some_iff.mp standing.symm
      refine Or.inl ⟨former, found, ?_⟩
      rw [← said]
      exact congrArg (fun standing => standing.2.1) same

variable [SipHasher]

theorem Sound.departs (sound : node.Sound)
    (located : node.executors[executor]? = some this) (event : Event) :
    node.stepExecutor executor this event = node ∨
      ∃ after later, node.stepExecutor executor this event = { node with
          executors := node.executors.set executor after, world := later } ∧
        Departs node executor this after later := by
  have mine := sound.index executor this located
  have ordered := sound.ordered this (List.mem_of_getElem? located)
  rcases node.stepExecutor_cases executor this event with same | ⟨task, world, handles, same⟩
  · exact Or.inl same
  refine Or.inr ⟨_, _, same, ?_⟩
  cases handles with
  | serve now envelope ready =>
    obtain ⟨works, worked⟩ := this.works_serve now envelope node.world
    exact departs_of_work mine ready.1 works worked
  | tick now serves =>
    obtain ⟨kept, worked⟩ := World.Worked.run
      (Executor.kept_housekeeping now (Or.inl trivial)) node.world
    exact departs_of_work mine serves kept.toWorks worked
  | stop queued serves =>
    obtain ⟨drained, stopped, unlinked, _, _, more, may, inbox⟩ :=
      this.stop_drains queued node.world
    rw [mine] at may inbox
    refine ⟨Or.inr ⟨serves, more, may, ?_⟩, fun _ _ => drained,
      fun serving => absurd serving stopped, ?_⟩
    · exact inbox.imp id fun last => ⟨stopped, last⟩
    · intro ended
      refine ⟨by rw [serves]; simp, Or.inl ?_⟩
      exact ((ordered.stop queued 0 0 node.world).ordered.linked (unlinked ended)).1
  | @hear message rest queue ready =>
    obtain ⟨listens, phase, inbox, _⟩ := this.listens_hear message
      { node.world with
        progress := Function.update node.world.progress executor rest }
    refine ⟨Or.inl inbox, ?_, ?_, ?_⟩
    · intro stopped drained
      apply listens.drained
      apply drained
      rcases phase with same | ⟨_, stopping, _⟩
      · exact fun serves => stopped (same.trans serves)
      · rw [stopping]
        simp
    · intro serving
      rcases phase with same | ⟨_, _, ended, _⟩
      · exact same.symm.trans serving
      · rw [ended] at serving
        cases serving
    · intro ended
      refine ⟨ready.1, ?_⟩
      rcases phase with same | ⟨last, _, _, floor⟩
      · exact absurd (same.symm.trans ended) ready.1
      · exact Or.inr ⟨listens.submissions, floor, ready.2, rest, by rw [queue, last]⟩
  | hearNothing ready =>
    obtain ⟨listens, refuses, phase, inbox, _⟩ := this.listens_hearNothing node.world
    refine ⟨Or.inl inbox, ?_, ?_, fun _ => ⟨ready.2.2.1, Or.inl refuses⟩⟩
    · intro stopped drained
      apply listens.drained
      apply drained
      rcases phase with same | ⟨stopping, _⟩
      · exact fun serves => stopped (same.trans serves)
      · rw [stopping]
        simp
    · intro serving
      rcases phase with same | ⟨_, ended⟩
      · exact same.symm.trans serving
      · rw [ended] at serving
        cases serving

/-- An executor about to hear `stopped`: whatever it handed over is proven, or it let
go of it. -/
theorem Sound.farewell (sound : node.Sound) (leaves : node.Leaves)
    (located : node.executors[executor]? = some this) (linked : this.sync.link = true)
    {rest : List Progress} (queue : node.world.progress executor = .stopped :: rest)
    {batch : Nat} {records : List Record} (sent : this.sync.submissions[batch]? = some records) :
    batch < this.sync.floor ∨ node.world.disk.Proven node.writer.generation records := by
  have stands := sound.stands
  have overrun : node.writer.phase = .ended := by
    by_contra unended
    have silent := stands.unsaid unended executor
    rw [queue] at silent
    exact silent List.mem_cons_self
  have alone : rest = [] := stands.last executor [] rest queue
  obtain ⟨closing, clean⟩ : node.writer.Closing ∧
      (node.writer.segment.syncFailed = true ∨ node.writer.segment.dirty = false) := by
    have parked := stands.parked
    rwa [Writer.Parked, overrun] at parked
  obtain ⟨lane, laneAt, custody⟩ := sound.lane located
  have inside := (List.getElem?_eq_some_iff.mp sent).1
  have nonempty := (sound.ordered this (List.mem_of_getElem? located)).nonempty
  have taken : batch < lane.taken := by
    have stopped : lane.stopped = true :=
      List.all_eq_true.mp closing.stopped lane (List.mem_of_getElem? laneAt)
    have carried := sound.carried executor this lane located laneAt linked
    rw [leaves.taken executor lane laneAt stopped] at carried
    have length := congrArg List.length carried
    simp only [List.length_nil, List.length_zipIdx, List.length_drop] at length
    omega
  have settled : batch < lane.settled := by
    by_contra unsettled
    have staged := custody.books.staged batch records (Nat.le_of_not_lt unsettled) taken sent
    obtain ⟨record, member⟩ := List.exists_mem_of_ne_nil records
      (nonempty records (List.mem_of_getElem? sent))
    have held : record ∈ node.writer.staged := staged record member
    rw [closing.quiet] at held
    cases held
  rcases custody.safe batch settled with gone | fault | ⟨found, foundAt, safe⟩
  · exact Or.inl gone
  · rw [queue, alone] at fault
    simp at fault
  · have same : records = found := Option.some.inj (sent.symm.trans foundAt)
    subst same
    rcases safe with proven | ⟨round, member, _⟩ | ⟨fresh, dirty, _⟩
    · exact Or.inr proven
    · rw [overrun] at member
      simp [Writer.desk, closing.alone, WriterPhase.waits] at member
    · rcases clean with failed | synced
      · exact absurd (fresh.symm.trans failed) (by simp)
      · exact absurd (dirty.symm.trans synced) (by simp)

theorem Leaves.departs (leaves : node.Leaves) (sound : node.Sound)
    (located : node.executors[executor]? = some this)
    (departs : Departs node executor this after later)
    (grown : node.world.disk.Extends later.disk) :
    Leaves { node with executors := node.executors.set executor after, world := later } := by
  have inside := (List.getElem?_eq_some_iff.mp located).1
  have member := List.mem_of_getElem? located
  obtain ⟨more, inbox, idle, may, orderly⟩ := departs.sent
  refine ⟨?_, ?_, ?_, ?_, ?_⟩
  · intro that found stopped
    rcases List.mem_or_eq_of_mem_set found with old | rfl
    · exact leaves.drained that old stopped
    · exact departs.drained stopped (leaves.drained this member)
  · intro other that found stopped
    by_cases same : executor = other
    · subst same
      rw [List.getElem?_set_self inside, Option.some.injEq] at found
      subst found
      intro serving
      have before := departs.serving serving
      rcases stopped with queued | lane
      · rw [inbox] at queued
        rcases List.mem_append.mp queued with old | fresh
        · exact leaves.stopped executor this located (Or.inl old) before
        · rcases may _ fresh with none | ⟨_, gone⟩
          · exact none
          · exact gone serving
      · exact leaves.stopped executor this located (Or.inr lane) before
    · rw [List.getElem?_set_ne same] at found
      apply leaves.stopped other that found
      apply stopped.imp_left
      intro queued
      rw [inbox] at queued
      rcases List.mem_append.mp queued with old | fresh
      · exact old
      · rcases may _ fresh with none | ⟨mine, _⟩
        · exact none.elim
        · exact absurd (ToWriter.stop.inj mine).symm same
  · dsimp only
    rw [inbox]
    refine List.pairwise_append.mpr ⟨leaves.after, orderly, ?_⟩
    rintro earlier queued message fresh other batch records rfl rfl
    have mine : other = executor := by
      rcases may _ fresh with sent | ⟨stop, _⟩
      · exact sent
      · cases stop
    subst mine
    have stopped := leaves.stopped other this located (Or.inl queued)
    rw [idle stopped] at fresh
    cases fresh
  · intro other lane laneAt stopped
    have none := leaves.taken other lane laneAt stopped
    dsimp only
    rw [inbox, submitsOf_append, none, List.nil_append]
    by_cases same : executor = other
    · subst same
      rw [idle (leaves.stopped executor this located (Or.inr ⟨lane, laneAt, stopped⟩))]
      rfl
    · apply submitsOf_eq_nil
      intro batch records fresh
      rcases may _ fresh with sent | ⟨stop, _⟩
      · have mine : other = executor := sent
        exact same mine.symm
      · cases stop
  · intro that found ended
    rcases List.mem_or_eq_of_mem_set found with old | rfl
    · refine (leaves.ended that old ended).imp_right fun safe batch records sent => ?_
      exact (safe batch records sent).imp_right grown.proven
    · refine (departs.ended ended).2.imp_right ?_
      rintro ⟨submissions, floor, linked, rest, queue⟩ batch records sent
      rw [submissions] at sent
      rw [floor]
      exact (sound.farewell leaves located linked queue sent).imp_right grown.proven

theorem extends_stepExecutor (node : Node) (executor : Nat) (this : Executor) (event : Event) :
    node.world.disk.Extends (node.stepExecutor executor this event).world.disk := by
  rcases node.stepExecutor_cases executor this event with same | ⟨task, world, handles, same⟩
  · rw [same]
    exact .refl _
  · have disk : world.disk = node.world.disk := by cases handles <;> rfl
    rw [same, ← disk]
    exact World.extends_run task world

theorem Leaves.step (leaves : node.Leaves) (sound : node.Sound) (event : Event) :
    (node.step event).Leaves := by
  unfold Node.step
  split
  · next executor _ =>
      cases located : node.executors[executor]? with
      | none => exact leaves
      | some this =>
        rcases sound.departs located event with same | ⟨after, later, same, departs⟩
        · dsimp only
          rw [same]
          exact leaves
        · dsimp only
          rw [same]
          have grown := node.extends_stepExecutor executor this event
          rw [same] at grown
          exact leaves.departs sound located departs grown
  · exact leaves.stepWriter event

theorem Leaves.run (leaves : node.Leaves) (sound : node.Sound) (events : List Event) :
    (node.run events).Leaves := by
  induction events generalizing node with
  | nil => exact leaves
  | cons event events induction =>
    exact induction (leaves.step sound event) (sound.step event)

theorem Opened.leaves {policy : SyncPolicy} (opened : node.Opened policy) : node.Leaves := by
  have serving : ∀ this ∈ node.executors, this.phase = .serving := by
    intro this member
    obtain ⟨executor, located⟩ := List.mem_iff_getElem?.mp member
    obtain ⟨firstShard, states, limit, generation, config, rfl, _⟩ :=
      opened.executors executor this located
    rfl
  refine ⟨?_, ?_, ?_, ?_, ?_⟩
  · exact fun this member stopped => absurd (serving this member) stopped
  · rintro executor this located (queued | ⟨lane, laneAt, stopped⟩)
    · rw [opened.inbox] at queued
      cases queued
    · rw [opened.lane (List.mem_of_getElem? laneAt)] at stopped
      cases stopped
  · rw [opened.inbox]
    exact .nil
  · intro executor lane _ _
    rw [opened.inbox]
    rfl
  · intro this member ended
    rw [serving this member] at ended
    cases ended

/-- In any run, of any number of executors with their ticks, stops, failing disk and
possibly lost writer: once the stop of an executor returned `true`, each record
a shard of it ever appended is below the shard's base in its durable image, or in
a batch one write put whole into a segment of which a later sync returned
`Ok`. -/
theorem clean_stop_truthful {policy : SyncPolicy} (opened : node.Opened policy)
    (events : List Event) {executor : Nat} {this : Executor}
    (located : (node.run events).executors[executor]? = some this)
    (returned : this.stopReturned = some true) {offset : Nat} {state : ShardState FileLog}
    (stateAt : this.states[offset]? = some state) {record : Record}
    (appended : record ∈ state.log.accepted) :
    (∃ image base, this.image = some image ∧ image.bases[offset]? = some base ∧
      record.seq < base) ∨
    ∃ records, record ∈ records ∧
      (node.run events).world.disk.Proven (node.run events).writer.generation records := by
  have sound := opened.sound.run events
  have leaves := opened.leaves.run opened.sound events
  have member := List.mem_of_getElem? located
  have ordered := sound.ordered this member
  obtain ⟨ended, intact⟩ : this.phase = .ended ∧ this.sync.isRefusing = false := by
    unfold Executor.stopReturned at returned
    split at returned
    · next ended => exact ⟨ended, by simpa using returned⟩
    · cases returned
  have drained := leaves.drained this member (by rw [ended]; simp)
  obtain ⟨shard, pending | handed⟩ :=
    (ordered.buffered offset state stateAt).accepted record appended
  · rw [drained.pending state (List.mem_of_getElem? stateAt)] at pending
    cases pending
  have sent : record ∈ this.sync.submissions.flatten := by
    rcases List.mem_append.mp handed with staging | sent
    · rw [drained.staging] at staging
      cases staging
    · exact sent
  obtain ⟨records, batchMember, inside⟩ := List.mem_flatten.mp sent
  obtain ⟨batch, batchAt⟩ := List.mem_iff_getElem?.mp batchMember
  rcases leaves.ended this member ended with refusing | safe
  · rw [intact] at refusing
    cases refusing
  rcases safe batch records batchAt with gone | proven
  · -- let go of at a fault: the executor serves again, so an image covers it
    obtain ⟨image, imageAt, covers⟩ :=
      ordered.image intact (Nat.lt_of_le_of_lt (Nat.zero_le _) gone)
    have bound := (List.getElem?_eq_some_iff.mp stateAt).1
    rw [← covers.length] at bound
    have baseAt := List.getElem?_eq_getElem bound
    exact Or.inl ⟨image, _, imageAt, baseAt,
      covers.above batch records gone batchAt record inside offset _ shard baseAt⟩
  · exact Or.inr ⟨records, inside, proven⟩

omit [SipHasher] in
/-- A `SET` under a policy that never syncs, and the stop that syncs it. -/
theorem clean_stop_truthful_one_set :
    let _ : SipHasher := ⟨fun _ _ _ => 3⟩
    let node := smallest .never
    let now : Now := ⟨5, 5, by decide⟩
    let record : Record := ⟨0, 0, .put [1] [2] none⟩
    let events : List Event := [.writerBegin,
      .serve 0 now ⟨[(0, .set [1] [2] none none false false)], 7⟩, .stop 0 [],
      .writerTake, .writerTake, .writerFlush 5, .writerCompleted true 6,
      .hear 0, .hear 0, .hear 0]
    (node.run events).executors.map Executor.stopReturned = [some true] ∧
      ∃ records, record ∈ records ∧
        (node.run events).world.disk.Proven (node.run events).writer.generation records := by
  intro hasher node now record events
  have opened : node.Opened .never := opened_smallest .never
  obtain ⟨this, located, seen⟩ := (Option.any_eq_true _ _).mp (by decide +kernel :
    ((node.run events).executors[0]?.any fun this =>
      this.stopReturned = some true ∧ this.image = none ∧
        this.states[0]?.any fun state => state.log.accepted = [record]) = true)
  simp only [decide_eq_true_eq, Option.any_eq_true] at seen
  obtain ⟨returned, noImage, state, stateAt, log⟩ := seen
  refine ⟨by decide +kernel, ?_⟩
  rcases clean_stop_truthful opened events located returned stateAt
    (by rw [log]; exact List.mem_singleton_self record) with ⟨image, _, imageAt, _⟩ | proven
  · rw [noImage] at imageAt
    cases imageAt
  · exact proven

end Node

end Seedstone
