import Seedstone.Node.Conduct

/-!
# What an executor's handlers do

Every handler keeps `Ordered` and conducts itself as `Conduct` says: envelopes,
the tick, the stop and the writer's messages.  A tick alone can end a refusal,
and only with an image of the shards as they stand.
-/

namespace Seedstone

namespace Executor

variable [SipHasher] {this : Executor} {shard : Nat} {state : ShardState FileLog}
  {before : Executor} {done : Completed} {middle : Executor} {low : Nat}

/-- What a command that reached its handler did to its shard. -/
structure Executed (this : Executor) (shard : Nat) (cmd : Command)
    (before after : ShardState FileLog) : Prop where
  appends : ∃ fresh, ShardState.Appends shard before after fresh
  refusing : after.refusing = before.refusing
  sound : after.dict.Sound
  quiet : this.sync.isRefusing = true → before.refusing = true →
    cmd.writesTheLog = false → after.log = before.log ∧ after.seq = before.seq

theorem within_execute {cmd : Command} {now : Now} (sound : state.dict.Sound) :
    (this.execute shard state cmd now).Within Call.Aside fun outcome =>
      Executed this shard cmd state outcome.2 := by
  unfold execute
  generalize readEq : { state with reading := now.instant } = read
  have readSound : read.dict.Sound := readEq ▸ sound
  have moved : ShardState.Deeds (cmd = .flushDb) shard now read (read.apply shard cmd now).2 :=
    ShardState.deeds_apply readSound cmd
  have silent : read.refusing = true → cmd.writesTheLog = false →
      (read.apply shard cmd now).2.log = read.log ∧ (read.apply shard cmd now).2.seq = read.seq :=
    ShardState.apply_quiet
  generalize read.apply shard cmd now = applied at *
  subst readEq
  obtain ⟨reply, after⟩ := applied
  obtain ⟨fresh, appended⟩ := moved.moves.appends
  have first : ShardState.Appends shard state after fresh := { appended with }
  refine .after (Call.gaugeApply _ _) trivial fun _ => ?_
  split
  · next evicts =>
      refine .after Call.gaugeUsed trivial fun used => ?_
      have evicting : ShardState.Deeds False shard now after (ShardState.evictUntilFits
          this.limit.ceiling shard (spared cmd) (after.dict.len + 1) used after).2 :=
        ShardState.deeds_evictUntilFits _ _ _ _
      generalize ShardState.evictUntilFits this.limit.ceiling shard (spared cmd)
        (after.dict.len + 1) used after = evicted at *
      refine .after (Call.gaugeApply _ _) trivial fun _ => ?_
      obtain ⟨second, appendedMore⟩ := evicting.moves.appends
      refine .pure ⟨⟨_, first.trans appendedMore⟩, evicting.refusing.trans moved.refusing,
        evicting.moves.sound (moved.moves.sound readSound), ?_⟩
      intro refuses
      simp [refuses] at evicts
  · exact .pure ⟨⟨_, first⟩, moved.refusing, moved.moves.sound readSound, fun _ => silent⟩

/-- What answering one command or several makes of an executor: the shards move
on, nothing leaves a buffer, and while writes are refused nothing is appended. -/
structure Answering (before after : Executor) : Prop where
  ordered : after.Ordered
  rest : after = { before with
    states := after.states
    sync := { before.sync with mode := after.sync.mode } }
  refusing : after.sync.isRefusing = before.sync.isRefusing
  quiet : before.sync.isRefusing = true → logged after.states = logged before.states
  pending : ∀ (offset : Nat) (state : ShardState FileLog),
    before.states[offset]? = some state → ∃ later, after.states[offset]? = some later ∧
      ∀ record ∈ state.log.pending, record ∈ later.log.pending

namespace Answering

variable {after : Executor}

theorem refl (ordered : this.Ordered) : Answering this this :=
  ⟨ordered, rfl, rfl, fun _ => rfl, fun _ state located => ⟨state, located, fun _ => id⟩⟩

theorem trans (one : Answering before middle) (two : Answering middle after) :
    Answering before after where
  ordered := two.ordered
  rest := by rw [two.rest, one.rest]
  refusing := two.refusing.trans one.refusing
  quiet refuses := (two.quiet (one.refusing.trans refuses)).trans (one.quiet refuses)
  pending offset state located := by
    obtain ⟨middle, found, first⟩ := one.pending offset state located
    obtain ⟨later, foundLater, second⟩ := two.pending offset middle found
    exact ⟨later, foundLater, fun record member => second record (first record member)⟩

theorem firstShard (answering : Answering before after) : after.firstShard = before.firstShard := by
  rw [answering.rest]

theorem handled (answering : Answering before after) {world later : World}
    (aside : World.Aside world later) (low bound : Nat) :
    Handled low bound before world after later := by
  refine ⟨answering.ordered, .aside aside ?_ ?_ ?_ ?_ ?_,
    fun refuses => answering.refusing.trans refuses, answering.quiet⟩
  all_goals rw [answering.rest]

end Answering

/-- What a reply says of a command: what it appended is in its shard's buffer. -/
structure Fair (this after : Executor) (cmds : List (Nat × Command)) (one : Answered) :
    Prop where
  silent : one.appended = false → one.served.appended = []
  refused : this.sync.isRefusing = true → one.served.appended = []
  buffered : ∀ record ∈ one.served.appended, ∃ cmd ∈ cmds, ∃ state,
    after.states[cmd.1 - this.firstShard]? = some state ∧ record ∈ state.log.pending

omit [SipHasher] in
theorem fair_of_nothing {after : Executor} {cmds : List (Nat × Command)} {one : Answered}
    (nothing : one.served.appended = []) : Fair this after cmds one :=
  ⟨fun _ => nothing, fun _ => nothing, by simp [nothing]⟩

omit [SipHasher] in
theorem stateOf_some (located : this.stateOf shard = some state) :
    this.firstShard ≤ shard ∧ this.states[shard - this.firstShard]? = some state := by
  unfold stateOf at located
  split at located
  · cases located
  · next above => exact ⟨Nat.le_of_not_lt above, located⟩

theorem Ordered.answering (ordered : this.Ordered) {cmd : Command}
    {after : ShardState FileLog} {reply : Reply} (above : this.firstShard ≤ shard)
    (located : this.states[shard - this.firstShard]? = some state)
    (reads : this.sync.isRefusing = true → cmd.writesTheLog = false)
    (executed : Executed this shard cmd state after) :
    Answering this { this with states := this.states.set (shard - this.firstShard) after } ∧
      Fair this { this with states := this.states.set (shard - this.firstShard) after }
        [(shard, cmd)]
        ⟨reply, decide (after.seq ≠ state.seq),
          ⟨cmd, after.log.accepted.drop state.log.accepted.length⟩⟩ := by
  have inside := (List.getElem?_eq_some_iff.mp located).1
  obtain ⟨refusing, sound⟩ := ordered.shards state (List.mem_of_getElem? located)
  obtain ⟨fresh, appends⟩ := executed.appends
  have quiet : this.sync.isRefusing = true → after.log = state.log ∧ after.seq = state.seq :=
    fun refuses => executed.quiet refuses (refusing.trans refuses) (reads refuses)
  have dropped : after.log.accepted.drop state.log.accepted.length = fresh := by
    rw [appends.accepted, List.drop_left]
  have owned : ShardState.Appends (this.firstShard + (shard - this.firstShard)) state after
      fresh := by
    rw [Nat.add_sub_cancel' above]
    exact appends
  constructor
  · refine ⟨ordered.setShard located ⟨⟨fresh, owned⟩, executed.refusing,
      executed.sound, fun refuses => (quiet refuses).2⟩, rfl, rfl, ?_, ?_⟩
    · intro refuses
      obtain ⟨log, seq⟩ := quiet refuses
      exact logged_set located seq (congrArg FileLog.accepted log)
    · intro offset other found
      by_cases same : shard - this.firstShard = offset
      · subst same
        rw [located, Option.some.injEq] at found
        subst found
        refine ⟨after, List.getElem?_set_self inside, ?_⟩
        intro record member
        rw [appends.pending]
        exact List.mem_append_left _ member
      · exact ⟨other, (List.getElem?_set_ne same).trans found, fun _ => id⟩
  · refine ⟨?_, ?_, ?_⟩
    · intro unmoved
      have seq : after.seq = state.seq := by simpa using unmoved
      have counted := appends.seq
      have nothing : fresh = [] := List.eq_nil_of_length_eq_zero (by omega)
      exact dropped.trans nothing
    · intro refuses
      dsimp only
      rw [(quiet refuses).1, List.drop_length]
    · intro record member
      rw [dropped] at member
      refine ⟨(shard, cmd), List.mem_singleton_self _, after, List.getElem?_set_self inside, ?_⟩
      rw [appends.pending]
      exact List.mem_append_right _ member

theorem Ordered.within_answer (ordered : this.Ordered) (shard : Nat) (cmd : Command) (now : Now) :
    (this.answer shard cmd now).Within Call.Aside fun outcome =>
      Answering this outcome.2 ∧ Fair this outcome.2 [(shard, cmd)] outcome.1 := by
  unfold Executor.answer
  cases located : this.stateOf shard with
  | none => exact .pure ⟨.refl ordered, fair_of_nothing rfl⟩
  | some state =>
    dsimp only
    split
    · exact .pure ⟨.refl ordered, fair_of_nothing rfl⟩
    · split
      · next refused ticks mode writes =>
          refine .pure ⟨⟨?_, rfl, ?_, fun _ => rfl, ?_⟩, fair_of_nothing rfl⟩
          · exact ordered.alike { Alike.refl this with
              refusing := by simp [refusedWith, SyncState.isRefusing, mode] }
          · simp [refusedWith, SyncState.isRefusing, mode]
          · exact fun _ state located => ⟨state, located, fun _ => id⟩
      · next allowed =>
          have reads : this.sync.isRefusing = true → cmd.writesTheLog = false := by
            intro refuses
            cases mode : this.sync.mode with
            | serving => simp [SyncState.isRefusing, mode] at refuses
            | refusing refused ticks =>
              exact Bool.eq_false_iff.mpr (allowed refused ticks mode)
          obtain ⟨above, found⟩ := stateOf_some located
          obtain ⟨refusing, sound⟩ := ordered.shards state (List.mem_of_getElem? found)
          refine .after Call.gaugeUsed trivial fun used => ?_
          split
          · exact .pure ⟨.refl ordered, fair_of_nothing rfl⟩
          · apply (within_execute sound).bind
            rintro ⟨reply, after⟩ executed
            exact .pure (ordered.answering above found reads executed)

theorem Fair.later {after : Executor} {cmds more : List (Nat × Command)} {one : Answered}
    (fair : Fair before middle cmds one) (going : Answering middle after)
    (subset : ∀ cmd ∈ cmds, cmd ∈ more) : Fair before after more one where
  __ := fair
  buffered record member := by
    obtain ⟨cmd, inside, state, located, pending⟩ := fair.buffered record member
    obtain ⟨later, found, kept⟩ := going.pending _ state located
    exact ⟨cmd, subset cmd inside, later, found, kept record pending⟩

theorem Ordered.within_answerAll (now : Now) (cmds : List (Nat × Command)) :
    ∀ this : Executor, this.Ordered →
    (this.answerAll now cmds).Within Call.Aside fun outcome =>
      Answering this outcome.2 ∧ ∀ one ∈ outcome.1, Fair this outcome.2 cmds one := by
  induction cmds with
  | nil => exact fun this ordered => .pure ⟨.refl ordered, by simp⟩
  | cons cmd rest induction =>
    intro this ordered
    apply (ordered.within_answer cmd.1 cmd.2 now).bind
    rintro ⟨first, middle⟩ ⟨answering, fair⟩
    apply (induction middle answering.ordered).bind
    rintro ⟨others, after⟩ ⟨going, fairRest⟩
    have firstShard : middle.firstShard = this.firstShard := answering.firstShard
    refine .pure ⟨answering.trans going, ?_⟩
    intro one member
    rcases List.mem_cons.mp member with rfl | later
    · exact fair.later going fun other inside =>
        List.mem_cons.mpr (Or.inl (List.mem_singleton.mp inside))
    · have fairLater := fairRest one later
      refine ⟨fairLater.silent,
        fun refuses => fairLater.refused (answering.refusing.trans refuses), ?_⟩
      intro record appended
      obtain ⟨other, inside, state, located, pending⟩ := fairLater.buffered record appended
      exact ⟨other, List.mem_cons_of_mem _ inside, state, firstShard ▸ located, pending⟩

theorem Ordered.hold (ordered : this.Ordered) {held : Held}
    (serves : this.sync.isRefusing = false) (above : this.sync.floor ≤ held.batch)
    (whole : HeldWhole this.sync.submissions held) :
    Ordered { this with sync := { this.sync with held := this.sync.held ++ [held] } } := by
  refine ordered.reheld ?_ fun refuses => by simp [serves] at refuses
  intro one member
  rcases List.mem_append.mp member with old | new
  · exact ordered.held one old
  · rw [List.mem_singleton.mp new]
    exact ⟨above, whole⟩

/-- The staging of `handOver`: every record the batch appended is staged. -/
theorem Ordered.stageBatch (ordered : this.Ordered) (low bound changes : Nat)
    (offsets : List Nat) (answered : List Answered) (world : World)
    {staged : List (Nat × Nat) × Executor}
    (staging : (if answered.any Answered.appended then
      Executor.stage { this with changes := changes } offsets else ([], this)) = staged) :
    Handled low bound this world staged.2 world ∧ staged.2.sync.floor = this.sync.floor ∧
      staged.2.sync.isRefusing = this.sync.isRefusing ∧
      (answered.any Answered.appended = true → ∀ offset ∈ offsets, ∀ state,
        this.states[offset]? = some state →
        ∀ record ∈ state.log.pending, record ∈ staged.2.sync.staging) := by
  split at staging
  · have counted : Handled low bound this world { this with changes := changes } world :=
      .alike ordered (by constructor <;> rfl) (.refl world)
    obtain ⟨flushed, handled⟩ := counted.ordered.stage low bound offsets world
    rw [staging] at flushed handled
    refine ⟨counted.trans handled, ?_, ?_, fun _ => flushed.flushed⟩
    · rw [flushed.rest]
    · rw [flushed.rest]
      rfl
  · next quiet =>
      subst staging
      exact ⟨.refl ordered world, rfl, rfl, fun appended => absurd appended quiet⟩

/-- The end of `serve`, for replies that are fair to what the shards hold. -/
theorem Ordered.handOver {envelope : Envelope} {answered : List Answered} {holds : Bool}
    (ordered : this.Ordered) (firstShard : this.firstShard = before.firstShard)
    (refusing : this.sync.isRefusing = before.sync.isRefusing)
    (holding : holds = (this.sync.holds && !before.sync.isRefusing))
    (fair : ∀ one ∈ answered, Fair before this envelope.cmds one) (low bound : Nat)
    (world : World) :
    (this.handOver envelope answered holds).Leads world (Handled low bound this world) := by
  unfold Executor.handOver
  dsimp only
  generalize wroteEq : (if holds then answered.map fun one =>
    one.appended && one.served.command.writesTheLog else []) = wroteEach
  generalize staging : (if answered.any Answered.appended then
    Executor.stage { this with
      changes := this.changes + answered.countP Answered.appended }
      (envelope.cmds.map fun cmd => cmd.1 - this.firstShard) else ([], this)) = staged
  obtain ⟨stagedHandled, floor, kept, flushed⟩ :=
    ordered.stageBatch low bound _ _ answered world staging
  have held : ∀ one ∈ answered, one.appended = true →
      ∀ record ∈ one.served.appended, record ∈ staged.2.sync.staging := by
    intro one member appended record inside
    obtain ⟨cmd, found, state, located, pending⟩ := (fair one member).buffered record inside
    refine flushed (List.any_eq_true.mpr ⟨one, member, appended⟩) _
      (List.mem_map_of_mem found) state ?_ record pending
    rw [firstShard]
    exact located
  obtain ⟨points, staged⟩ := staged
  dsimp only at stagedHandled floor kept flushed held ⊢
  obtain ⟨submitted, submitting⟩ := stagedHandled.ordered.submit low bound points world
  rw [Task.leads_bind]
  generalize (staged.submit points).run World.handle world = outcome at submitted submitting ⊢
  obtain ⟨⟨sent, after⟩, later⟩ := outcome
  dsimp only at submitted submitting ⊢
  have soFar := stagedHandled.trans submitting
  have stillServes : before.sync.isRefusing = false → after.sync.isRefusing = false := by
    intro serves
    rw [SyncState.isRefusing, submitted.mode]
    exact (kept.trans refusing).trans serves
  split
  · next holdsBack =>
      obtain ⟨wasSent, wrote⟩ := Bool.and_eq_true_iff.mp holdsBack
      have holdsAcks : holds = true := by
        by_contra lets
        rw [← wroteEq, if_neg lets] at wrote
        cases wrote
      have serves : before.sync.isRefusing = false := by
        rw [holdsAcks] at holding
        simpa using (Bool.and_eq_true_iff.mp holding.symm).2
      subst wasSent
      have located : after.sync.submissions[staged.sync.batch]? = some staged.sync.staging := by
        rw [submitted.submissions, if_pos rfl, ← stagedHandled.ordered.batches,
          List.getElem?_concat_length]
      have above : after.sync.floor ≤ staged.sync.batch := by
        rw [submitted.floor, ← stagedHandled.ordered.batches]
        exact stagedHandled.ordered.floor
      refine soFar.trans ⟨submitting.ordered.hold (stillServes serves) above
        ⟨answered, staged.sync.staging, rfl, by rw [← wroteEq, if_pos holdsAcks], rfl, located, ?_⟩,
        .aside (.refl later) rfl rfl rfl (Nat.le_refl _) rfl, id, fun _ => rfl⟩
      intro one member
      refine ⟨(fair one member).silent, ?_⟩
      intro record appended
      refine held one member ?_ record appended
      by_contra quiet
      rw [(fair one member).silent (by simpa using quiet)] at appended
      cases appended
  · next lets =>
      simp only [Task.Leads, Program.run_bind, Task.run_answer, Program.run_pure]
      refine soFar.trans ⟨submitting.ordered, ⟨rfl, rfl, rfl, Nat.le_refl _,
        ⟨[], by simp, by simp⟩, fun _ _ => rfl, fun _ _ => rfl, rfl,
        ⟨[_], rfl, ?_⟩⟩, id, fun _ => rfl⟩
      intro holdAcks answer member reply served paired _ writes record inside
      rw [List.mem_singleton.mp member, List.zip_map'] at paired
      obtain ⟨one, oneIn, same⟩ := List.mem_map.mp paired
      cases same
      exfalso
      have appended : one.appended = true := by
        by_contra quiet
        rw [(fair one oneIn).silent (by simpa using quiet)] at inside
        cases inside
      have serves : before.sync.isRefusing = false := by
        by_contra refuses
        rw [(fair one oneIn).refused (by simpa using refuses)] at inside
        cases inside
      have linked : this.sync.link = true := by
        by_contra gone
        have refuses := (ordered.linked (by simpa using gone)).1
        rw [refusing, serves] at refuses
        cases refuses
      have policy : this.sync.policy.holdAcks = true := by
        rw [← soFar.conduct.policy]
        exact holdAcks
      have holdsAcks : holds = true := by
        rw [holding, SyncState.holds, policy, linked, serves]
        rfl
      apply lets
      rw [Bool.and_eq_true]
      constructor
      · by_contra unsent
        have empty := submitted.nothing (by simpa using unsent)
        have stagedRecord := held one oneIn appended record inside
        rw [empty] at stagedRecord
        cases stagedRecord
      · rw [← wroteEq, if_pos holdsAcks]
        refine List.any_eq_true.mpr ⟨_, List.mem_map_of_mem oneIn, ?_⟩
        rw [id, appended, writes]
        rfl

variable {low bound : Nat} {world : World}

/-- Replies that promise nothing, and a change of nothing `Ordered` speaks of. -/
theorem Ordered.tell (ordered : this.Ordered) {after : Executor} {answers : List Answer}
    (alike : Alike this after) (unserved : ∀ answer ∈ answers, answer.served = []) :
    Handled low bound this world after { world with answered := world.answered ++ answers } where
  ordered := ordered.alike alike
  conduct := ⟨alike.index, alike.policy, alike.link,
    Nat.le_of_eq alike.floor.symm, ⟨[], by simp [alike.submissions], by simp⟩,
    fun _ _ => rfl, fun _ _ => rfl, rfl,
    ⟨answers, rfl, fun _ answer member => Answer.backed_of_unserved (unserved answer member)⟩⟩
  refusing refuses := alike.refusing.trans refuses
  quiet _ := congrArg logged alike.states

section

omit [SipHasher]

theorem alike_askForSnapshot (this : Executor) : Alike this this.askForSnapshot := by
  unfold askForSnapshot
  split <;> constructor <;> rfl

@[simp]
theorem askForSnapshot_sync (this : Executor) : this.askForSnapshot.sync = this.sync := by
  unfold askForSnapshot
  split <;> rfl

theorem Alike.trans {after : Executor} (one : Alike before middle)
    (two : Alike middle after) : Alike before after :=
  ⟨two.index.trans one.index, two.policy.trans one.policy,
    two.firstShard.trans one.firstShard, two.states.trans one.states,
    two.opened.trans one.opened, two.forces.trans one.forces, two.image.trans one.image,
    two.staging.trans one.staging, two.submissions.trans one.submissions,
    two.batch.trans one.batch, two.floor.trans one.floor, two.held.trans one.held,
    two.link.trans one.link, two.refusing.trans one.refusing, two.lost.trans one.lost⟩

end

theorem Ordered.snapshot (ordered : this.Ordered) (wait : Bool) (copies client : Nat) :
    (this.snapshot wait copies client).Leads world (Handled low bound this world) := by
  unfold Executor.snapshot
  split
  · split
    · exact ordered.tell (.refl this) (by simp)
    · exact ordered.tell (alike_askForSnapshot this) (by simp)
  · split
    · exact .alike ordered (by constructor <;> rfl) (.refl world)
    · exact .alike ordered ((alike_askForSnapshot this).trans (by constructor <;> rfl)) (.refl _)

theorem Ordered.answerSaves (ordered : this.Ordered) (completed faulted : Bool) :
    (this.answerSaves completed faulted).Leads world (Handled low bound this world) ∧
      Alike this ((this.answerSaves completed faulted).run World.handle world).1 := by
  have cleared : ∀ saves savesAfter : List (Nat × List Reply),
      Alike this { this with saves := saves, savesAfter := savesAfter } :=
    fun _ _ => by constructor <;> rfl
  have unserved : ∀ saves : List (Nat × List Reply), ∀ answer ∈
      saves.map (fun save => Answer.mk this.index save.1 save.2 []), answer.served = [] := by
    intro saves answer member
    obtain ⟨save, _, rfl⟩ := List.mem_map.mp member
    rfl
  unfold Executor.answerSaves
  split
  · simp only [Task.Leads, Executor.sendSaves, Program.run_bind, run_sendAll]
    split
    · exact ⟨ordered.tell (cleared [] this.savesAfter) (unserved _),
        cleared [] this.savesAfter⟩
    · have asked := (cleared this.savesAfter []).trans (alike_askForSnapshot _)
      exact ⟨ordered.tell asked (unserved _), asked⟩
  · split
    · simp only [Task.Leads, Executor.sendSaves, Program.run_bind, run_sendAll]
      exact ⟨ordered.tell (cleared [] []) (unserved _), cleared [] []⟩
    · exact ⟨.refl ordered world, .refl this⟩

theorem Ordered.serve (ordered : this.Ordered) (now : Now) (envelope : Envelope)
    (low bound : Nat) (world : World) :
    (this.serve now envelope).Leads world (Handled low bound this world) := by
  unfold Executor.serve
  split
  · exact ordered.snapshot _ _ _
  · obtain ⟨⟨answering, fair⟩, aside⟩ :=
      World.Aside.run (Ordered.within_answerAll now envelope.cmds this ordered) world
    rw [Task.leads_bind]
    refine (answering.handled aside low bound).trans
      (answering.ordered.handOver answering.firstShard answering.refusing ?_ fair low bound _)
    rw [answering.rest]
    rfl

theorem Ordered.serveAll (queued : List (Now × Envelope)) (low bound : Nat) :
    ∀ (this : Executor), this.Ordered → ∀ world : World,
    (this.serveAll queued).Leads world (Handled low bound this world) := by
  induction queued with
  | nil => exact fun this ordered world => .refl ordered world
  | cons head rest induction =>
    intro this ordered world
    have first := ordered.serve head.1 head.2 low bound world
    rw [Executor.serveAll, Task.leads_bind]
    exact first.trans (induction _ first.ordered _)

theorem moved_tickShard (refuses : Bool) (now shard : Nat) (sound : state.dict.Sound) :
    Moved refuses shard state (tickShard refuses now shard state) := by
  unfold tickShard
  dsimp only
  generalize steppedEq : { state with
    reading := now, dict := state.dict.rehashStep rehashBucketsPerTick } = stepped
  have steppedSound : stepped.dict.Sound := steppedEq ▸ sound.rehashStep _
  have swept : ShardState.Deeds False shard ⟨now, 0, Nat.zero_le _⟩ stepped
      (stepped.sweepExpired shard now) := ShardState.deeds_sweepExpired now
  have stepping : ShardState.Appends shard state stepped [] := steppedEq ▸ .of_same rfl rfl
  have steppedKept : stepped.refusing = state.refusing := by rw [← steppedEq]
  have steppedSeq : stepped.seq = state.seq := by rw [← steppedEq]
  split
  · exact ⟨⟨[], stepping⟩, steppedKept, steppedSound, fun _ => steppedSeq⟩
  · next serves =>
      obtain ⟨fresh, sweeping⟩ := swept.moves.appends
      exact ⟨⟨fresh, stepping.trans sweeping⟩, swept.refusing.trans steppedKept,
        swept.moves.sound steppedSound, fun refusing => absurd refusing serves⟩

theorem within_tickShards (refuses : Bool) (now : Nat) (states : List (ShardState FileLog)) :
    ∀ shard, (∀ state ∈ states, state.dict.Sound) →
    (tickShards refuses now shard states).Within Call.Aside fun later =>
      later.length = states.length ∧
        ∀ (offset : Nat) (state after : ShardState FileLog), states[offset]? = some state →
          later[offset]? = some after → Moved refuses (shard + offset) state after := by
  induction states with
  | nil => exact fun _ _ => .pure ⟨rfl, by simp⟩
  | cons state states induction =>
    intro shard sound
    refine .after (Call.gaugeApply _ _) trivial fun _ => ?_
    apply (induction (shard + 1)
      fun other member => sound other (List.mem_cons_of_mem _ member)).bind
    rintro later ⟨length, moved⟩
    refine .pure ⟨by simp [length], ?_⟩
    intro offset former latter found foundLater
    cases offset with
    | zero =>
      cases found
      cases foundLater
      exact moved_tickShard refuses now shard (sound state List.mem_cons_self)
    | succ offset =>
      have last := moved offset former latter found foundLater
      rwa [Nat.add_right_comm, Nat.add_assoc] at last

theorem Moved.logged {before after : ShardState FileLog} (moved : Moved true shard before after) :
    after.log.accepted = before.log.accepted := by
  obtain ⟨fresh, appends⟩ := moved.appends
  have counted := appends.seq
  rw [moved.quiet rfl] at counted
  have nothing : fresh = [] := List.eq_nil_of_length_eq_zero (by omega)
  rw [appends.accepted, nothing, List.append_nil]

theorem logged_moved {before after : List (ShardState FileLog)} {first : Nat}
    (length : after.length = before.length)
    (moved : ∀ (offset : Nat) (state later : ShardState FileLog),
      before[offset]? = some state → after[offset]? = some later →
      Moved true (first + offset) state later) : logged after = logged before := by
  unfold logged
  apply List.ext_getElem
  · simp [length]
  · intro offset inside outside
    rw [List.length_map] at inside outside
    have one := moved offset _ _ (List.getElem?_eq_getElem outside)
      (List.getElem?_eq_getElem inside)
    rw [List.getElem_map, List.getElem_map, one.quiet rfl, one.logged]

theorem Ordered.tickLogs (ordered : this.Ordered) (now low bound : Nat) (world : World)
    {ticked : List (ShardState FileLog)} {later : World}
    (ticking : (tickShards this.sync.isRefusing now this.firstShard this.states).run
      World.handle world = (ticked, later)) :
    Handled low bound this world { this with states := ticked } later := by
  obtain ⟨⟨length, moved⟩, aside⟩ := World.Aside.run
    (within_tickShards this.sync.isRefusing now this.states this.firstShard
      fun state member => (ordered.shards state member).2) world
  rw [ticking] at length moved aside
  have reordered := ordered.moveShards length moved
  refine ⟨reordered, .aside aside rfl rfl rfl (Nat.le_refl _) rfl, id, ?_⟩
  intro refuses
  rw [refuses] at moved
  exact logged_moved length moved

/-- `bases` and the faults before them suit an image of this executor: it would
let it serve again. -/
structure Suits (this : Executor) (bases : List Nat) (openedAfter : Nat) : Prop where
  covers : this.Covers bases
  openedAfter : openedAfter = this.checkpoint.forces
  bases : this.sync.isRefusing = true → bases = this.states.map ShardState.seq

theorem Ordered.suits_open (ordered : this.Ordered) {cycle : Cycle}
    (opened : this.checkpoint.open = some cycle) : Suits this cycle.bases cycle.openedAfter := by
  obtain ⟨after, covers, bases⟩ := ordered.cycle cycle opened
  exact ⟨covers, after, bases⟩

theorem Ordered.suits_now (ordered : this.Ordered) :
    Suits this (this.states.map ShardState.seq) this.checkpoint.forces := by
  refine ⟨⟨by simp, ?_⟩, rfl, fun _ => rfl⟩
  intro batch records _ located record member offset base shard found
  rw [List.getElem?_map] at found
  obtain ⟨state, stateAt, rfl⟩ := Option.map_eq_some_iff.mp found
  refine ordered.below record (List.mem_append_right _ ?_) offset state stateAt shard
  exact List.mem_flatten.mpr ⟨records, List.mem_of_getElem? located, member⟩

theorem Ordered.ticked (ordered : this.Ordered) {bases : List Nat} {openedAfter : Nat}
    {outcome : Tick × SegmentCheckpoint × List (ShardState FileLog)} {after : Executor}
    (suits : Suits this bases openedAfter)
    (ticked : SegmentCheckpoint.Ticked this.checkpoint this.states bases openedAfter outcome)
    (alike : Alike { this with checkpoint := outcome.2.1, states := outcome.2.2 } after) :
    after.Ordered ∧ Suits after bases openedAfter := by
  have moved := ordered.sameShards ticked.shards
  have covers : Covers { this with
      checkpoint := outcome.2.1, states := outcome.2.2 } bases :=
    ⟨suits.covers.length.trans ticked.shards.length.symm, suits.covers.above⟩
  have opened : openedAfter = outcome.2.1.forces := suits.openedAfter.trans ticked.forces.symm
  have same : this.sync.isRefusing = true → bases = outcome.2.2.map ShardState.seq :=
    fun refuses => (suits.bases refuses).trans ticked.shards.seq.symm
  have placed : Ordered { this with
      checkpoint := outcome.2.1, states := outcome.2.2 } := by
    refine { moved with
      buffered := fun offset state located => { moved.buffered offset state located with }
      cycle := ?_
      image := ?_ }
    · intro cycle found
      obtain ⟨sameBases, sameOpened⟩ := ticked.going cycle found
      rw [sameBases, sameOpened]
      exact ⟨opened, covers, same⟩
    · intro serves raised
      obtain ⟨image, found, covered⟩ := moved.image serves raised
      exact ⟨image, found, ⟨covered.length, covered.above⟩⟩
  refine ⟨placed.alike alike, covers.alike alike, opened.trans alike.forces.symm, ?_⟩
  rw [alike.refusing, alike.states]
  exact same

/-- What every handler does: it appends nothing while writes are refused, and
serves again only on an image of the shards as they stand, opened after the last
fault. -/
structure Obeys (low bound : Nat) (before : Executor) (world : World)
    (after : Executor) (later : World) : Prop where
  ordered : after.Ordered
  conduct : Conduct low bound before world after later
  quiet : before.sync.isRefusing = true → logged after.states = logged before.states
  resumed : before.sync.isRefusing = true → after.sync.isRefusing = false →
    ∃ image, after.image = some image ∧
      image.bases = after.states.map ShardState.seq ∧
      image.openedAfter = after.checkpoint.forces

theorem Handled.obeys {bound : Nat} {after : Executor} {world later : World}
    (handled : Handled low bound before world after later) :
    Obeys low bound before world after later where
  __ := handled
  resumed refuses serves := by
    rw [handled.refusing refuses] at serves
    cases serves

theorem Obeys.after {bound : Nat} {after : Executor} {world between later : World}
    (handled : Handled low bound before world middle between)
    (obeys : Obeys low bound middle between after later) :
    Obeys low bound before world after later where
  ordered := obeys.ordered
  conduct := handled.conduct.trans obeys.conduct
  quiet refuses := (obeys.quiet (handled.refusing refuses)).trans (handled.quiet refuses)
  resumed refuses := obeys.resumed (handled.refusing refuses)

theorem Obeys.then {bound : Nat} {after : Executor} {world between later : World}
    (obeys : Obeys low bound before world middle between)
    (handled : Handled low bound middle between after later) (alike : Alike middle after) :
    Obeys low bound before world after later where
  ordered := handled.ordered
  conduct := obeys.conduct.trans handled.conduct
  quiet refuses := by
    rw [alike.states]
    exact obeys.quiet refuses
  resumed refuses := by
    rw [alike.refusing, alike.image, alike.states, alike.forces]
    exact obeys.resumed refuses

theorem Ordered.notify (ordered : this.Ordered) (message : ToWriter) {after : Executor}
    (alike : Alike this after) (other : ∀ executor, submitsOf executor [message] = []) :
    Handled low bound this world after { world with inbox := world.inbox ++ [message] } where
  ordered := ordered.alike alike
  conduct := ⟨alike.index, alike.policy, alike.link, Nat.le_of_eq alike.floor.symm,
    ⟨[], by simp [alike.submissions], by simp [submitsOf_append, other]⟩,
    fun _ _ => by simp [submitsOf_append, other], fun _ _ => rfl, rfl, ⟨[], by simp, by simp⟩⟩
  refusing refuses := alike.refusing.trans refuses
  quiet _ := congrArg logged alike.states

theorem Ordered.imaged (ordered : this.Ordered) (covers : this.Covers done.bases) :
    Ordered { this with image := some done } where
  __ := ordered
  buffered offset state located := { ordered.buffered offset state located with }
  cycle cycle opened := by
    obtain ⟨after, covers, bases⟩ := ordered.cycle cycle opened
    exact ⟨after, ⟨covers.length, covers.above⟩, bases⟩
  image _ _ := ⟨done, rfl, ⟨covers.length, covers.above⟩⟩

theorem Ordered.served (ordered : this.Ordered) (imaged : this.image = some done)
    (covers : this.Covers done.bases) (kept : this.sync.writerLost = false) : Ordered { this with
      sync := { this.sync with mode := .serving }
      states := setRefusing this.states false } := by
  have covering : ∀ {bases : List Nat}, this.Covers bases → Covers { this with
      sync := { this.sync with mode := .serving }
      states := setRefusing this.states false } bases :=
    fun covers => ⟨by simpa [setRefusing] using covers.length, covers.above⟩
  refine ⟨ordered.batches, ordered.nonempty, ordered.floor, ordered.held, ?_,
    (fun refusing => by cases refusing), ?_, ?_, ?_, ?_,
    fun _ _ => ⟨done, imaged, covering covers⟩⟩
  · intro gone
    have lost := (ordered.linked gone).2
    rw [kept] at lost
    cases lost
  · intro state member
    obtain ⟨original, inside, rfl⟩ := List.mem_map.mp member
    exact ⟨rfl, (ordered.shards original inside).2⟩
  · intro offset state located
    obtain ⟨original, found, rfl⟩ := setRefusing_getElem? located
    have old := ordered.buffered offset original found
    exact ⟨old.accepted, old.pending⟩
  · intro record member offset state located shard
    obtain ⟨original, found, rfl⟩ := setRefusing_getElem? located
    exact ordered.below record member offset original found shard
  · intro cycle opened
    obtain ⟨after, covers, _⟩ := ordered.cycle cycle opened
    exact ⟨after, covering covers, fun refusing => by cases refusing⟩

omit [SipHasher] in
theorem run_ite_pure {α : Type} {condition : Prop} [Decidable condition] (yes no : α)
    (world : World) :
    (if condition then pure yes else pure no : Task α).run World.handle world =
      (if condition then yes else no, world) := by
  split <;> rfl

section

variable (ordered : this.Ordered)

include ordered

theorem Ordered.resume (imaged : this.image = some done)
    (suits : Suits this done.bases done.openedAfter) :
    Obeys low bound this world
      (if this.sync.isRefusing && !this.sync.writerLost then { this with
        sync := { this.sync with mode := .serving }
        states := setRefusing this.states false } else this) world := by
  split
  · next ends =>
      obtain ⟨refuses, kept⟩ := Bool.and_eq_true_iff.mp ends
      have same := logged_setRefusing this.states false
      refine ⟨ordered.served imaged suits.covers (by simpa using kept),
        .aside (.refl world) rfl rfl rfl (Nat.le_refl _) rfl, fun _ => same, fun _ _ => ?_⟩
      refine ⟨done, imaged, ?_, suits.openedAfter⟩
      rw [suits.bases refuses]
      exact (seqs_of_logged same).symm
  · exact (Handled.refl ordered world).obeys

theorem Ordered.completed (suits : Suits this done.bases done.openedAfter) :
    (this.completed done).Leads world (Obeys low bound this world) := by
  have imaged : Handled low bound this world { this with
      changes := this.changes - this.changesAtOpen.getD this.changes
      changesAtOpen := none
      image := some done } world :=
    ⟨(ordered.imaged suits.covers).alike (by constructor <;> rfl),
      .aside (.refl world) rfl rfl rfl (Nat.le_refl _) rfl, id, fun _ => rfl⟩
  have still : Suits { this with
      changes := this.changes - this.changesAtOpen.getD this.changes
      changesAtOpen := none
      image := some done } done.bases done.openedAfter :=
    ⟨⟨suits.covers.length, suits.covers.above⟩, suits.openedAfter, suits.bases⟩
  unfold Executor.completed
  dsimp only
  split
  · simp only [Task.Leads, Program.run_bind, Task.run_toWriter, run_ite_pure]
    exact .after (imaged.trans (imaged.ordered.notify
      (.covered this.index done.cycle done.throughBatch done.bytes) (.refl _)
      fun _ => rfl)) (imaged.ordered.resume rfl still)
  · rw [Task.Leads, run_ite_pure]
    exact .after imaged (imaged.ordered.resume rfl still)

theorem Ordered.afterTick {tick : Tick}
    (suits : ∀ done, tick.completed = some done → Suits this done.bases done.openedAfter) :
    (this.afterTick tick).Leads world (Obeys low bound this world) := by
  unfold Executor.afterTick
  have imaged : (this.imaged tick.completed).Leads world (Obeys low bound this world) := by
    cases completed : tick.completed with
    | none => exact (Handled.refl ordered world).obeys
    | some done => exact ordered.completed (suits done completed)
  unfold Task.Leads at imaged ⊢
  rw [Program.run_bind]
  generalize (this.imaged tick.completed).run World.handle world = outcome at imaged ⊢
  obtain ⟨after, later⟩ := outcome
  obtain ⟨answered, alike⟩ := imaged.ordered.answerSaves tick.completed.isSome tick.faulted
  rw [Program.run_bind, run_ite_pure]
  have saved := imaged.then answered alike
  split
  · have counted : ∀ executor : Executor, Alike executor
        { executor with changesAtOpen := some executor.changes } :=
      fun _ => by constructor <;> rfl
    exact saved.then (.alike saved.ordered (counted _) (.refl _)) (counted _)
  · exact saved

theorem Ordered.checkpointTick (now : Now) :
    (this.checkpointTick now).Leads world (Obeys low bound this world) := by
  unfold Executor.checkpointTick
  dsimp only
  generalize startEq : (if this.checkpoint.isOpen = true then this
    else { this with changesAtOpen := none }) = start
  have alike : Alike this start := by
    rw [← startEq]
    split
    · exact .refl this
    · constructor <;> rfl
  have started : Handled low bound this world start world := .alike ordered alike (.refl world)
  obtain ⟨ticked, aside⟩ := World.Aside.run (start.checkpoint.within_tick start.firstShard
    start.states now start.position) world
  rw [Task.Leads, Program.run_bind]
  generalize (start.checkpoint.tick start.firstShard start.states now start.position).run
    World.handle world = outcome at ticked aside ⊢
  obtain ⟨⟨tick, checkpoint, states⟩, later⟩ := outcome
  dsimp only at ticked aside ⊢
  obtain ⟨bases, openedAfter, suits, moved⟩ : ∃ bases openedAfter,
      Suits start bases openedAfter ∧ SegmentCheckpoint.Ticked start.checkpoint start.states
        bases openedAfter (tick, checkpoint, states) := by
    rcases ticked with ⟨cycle, opened, ticked⟩ | ticked
    · exact ⟨_, _, started.ordered.suits_open opened, ticked⟩
    · exact ⟨_, _, started.ordered.suits_now, ticked⟩
  let after : Executor :=
    { start with checkpoint := checkpoint, states := states, snapshotAsked := false }
  obtain ⟨placed, placedSuits⟩ : after.Ordered ∧ Suits after bases openedAfter :=
    started.ordered.ticked suits moved (by constructor <;> rfl)
  have soFar : Handled low bound this world after later :=
    started.trans ⟨placed, .aside aside rfl rfl rfl (Nat.le_refl _) rfl, id,
      fun _ => logged_sameShards moved.shards⟩
  have done : ∀ done, tick.completed = some done →
      Suits after done.bases done.openedAfter := by
    intro done found
    obtain ⟨sameBases, sameOpened⟩ := moved.done done found
    rw [sameBases, sameOpened]
    exact placedSuits
  split
  · rw [Program.run_bind]
    have asked := soFar.trans (placed.notify .syncNow (.refl _) fun _ => rfl)
    exact .after asked (placed.afterTick done)
  · exact .after soFar (placed.afterTick done)

theorem Ordered.countTick :
    Handled low bound this world { this with sync := Executor.countTick this.sync } world := by
  unfold Executor.countTick
  cases mode : this.sync.mode with
  | serving => exact .refl ordered world
  | refusing refused ticks =>
    exact .alike ordered { Alike.refl this with
      refusing := by simp [SyncState.isRefusing, mode] } (.refl world)

theorem Ordered.submitAll :
    Handled low bound this world
      ((this.stageAll.2.submit this.stageAll.1).run World.handle world).1.2
      ((this.stageAll.2.submit this.stageAll.1).run World.handle world).2 := by
  obtain ⟨_, staged⟩ := ordered.stage low bound (List.range this.states.length) world
  obtain ⟨_, submitted⟩ := staged.ordered.submit low bound this.stageAll.1 world
  exact staged.trans submitted

theorem Ordered.housekeeping (now : Now) (low bound : Nat) (world : World) :
    (this.housekeeping now).Leads world (Obeys low bound this world) := by
  unfold Executor.housekeeping
  rw [Task.Leads, Program.run_bind]
  generalize ticking : (tickShards this.sync.isRefusing now.instant this.firstShard
    this.states).run World.handle world = ticked
  obtain ⟨states, later⟩ := ticked
  have logs := ordered.tickLogs now.instant low bound world ticking
  have sent := logs.trans logs.ordered.submitAll
  have counted := sent.trans sent.ordered.countTick
  dsimp only
  rw [Program.run_bind]
  exact .after counted (counted.ordered.checkpointTick now)

theorem Ordered.release_unlinked (gone : this.sync.link = false) (through : Nat) :
    (this.releaseThrough through).Leads world (Handled low bound this world) := by
  have unheld := ordered.unheld (ordered.linked gone).1
  simp only [Task.Leads, Executor.releaseThrough, Program.run_bind, run_sendAll, Program.run_pure]
  apply ordered.send fun one member => (List.dropWhile_sublist _).subset member
  rw [unheld]
  simp

/-- `stop`, up to the wait for the writer's last sync. -/
theorem Ordered.stop (queued : List (Now × Envelope)) (low bound : Nat) (world : World) :
    (this.stop queued).Leads world (Handled low bound this world) := by
  unfold Executor.stop
  have served := Ordered.serveAll queued low bound this ordered world
  unfold Task.Leads at served ⊢
  rw [Program.run_bind]
  generalize (this.serveAll queued).run World.handle world = outcome at served ⊢
  obtain ⟨after, later⟩ := outcome
  have sent := served.trans served.ordered.submitAll
  dsimp only
  rw [Program.run_bind]
  generalize (after.stageAll.2.submit after.stageAll.1).run World.handle later = outcome
    at sent ⊢
  obtain ⟨⟨_, last⟩, final⟩ := outcome
  dsimp only at sent ⊢
  have ends : ∀ (executor : Executor) (phase : ExecutorPhase),
      Alike executor { executor with phase := phase } :=
    fun _ _ => by constructor <;> rfl
  split
  · exact sent.trans
      (sent.ordered.notify (.stop last.index) (ends last .stopping) fun _ => rfl)
  · next gone =>
      have released := sent.trans
        (sent.ordered.release_unlinked (by simpa using gone) last.sync.batch)
      rw [Program.run_bind]
      exact released.trans (.alike released.ordered (ends _ .ended) (.refl _))

theorem Ordered.ending :
    this.ending.Leads world (Handled low bound this world) := by
  have failed := ordered.failAll low bound world
  unfold Executor.ending
  rw [Task.leads_bind]
  exact failed.trans (.alike failed.ordered (by constructor <;> rfl) (.refl _))

theorem Ordered.hear (message : Progress) (world : World) :
    (this.hear message).Leads world (Handled this.sync.floor message.bound this world) := by
  unfold Executor.hear
  split
  · exact ordered.ending
  · exact ordered.progress message world

theorem Ordered.hearNothing (low bound : Nat) (world : World) :
    this.hearNothing.Leads world (Handled low bound (this.cut false true) world) := by
  have lost := ordered.lost low bound world
  unfold Executor.hearNothing
  rw [Task.leads_bind]
  split
  · exact lost.trans lost.ordered.ending
  · exact lost

end

omit [SipHasher] in
theorem hear_fault_floor (world : World) :
    ((this.hear .fault).run World.handle world).1.sync.floor = this.sync.submissions.length := by
  have message : ¬(this.phase = .stopping ∧ Progress.fault = .stopped) := by simp
  rw [Executor.hear, if_neg message, Executor.progress, run_refuse]
  rfl

omit [SipHasher] in
theorem hear_fault_forces (world : World) :
    ((this.hear .fault).run World.handle world).1.checkpoint.forces =
      this.checkpoint.forces + 1 := by
  have message : ¬(this.phase = .stopping ∧ Progress.fault = .stopped) := by simp
  rw [Executor.hear, if_neg message, Executor.progress, run_refuse]
  exact (World.Aside.run this.checkpoint.within_force (this.toldOff world)).1.2

end Executor

end Seedstone
