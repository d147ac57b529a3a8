import Seedstone.Node.Pool
import Seedstone.Node.Reach
import Seedstone.Shard.Expiry

/-!
# What an executor does for the shards it hosts

With no memory ceiling and while it serves, an executor answers an envelope as its
shards answer the commands one after the other, and neither handing over nor
hearing the writer changes a shard but for its buffers.  The replies go out, at
once or when they are released, as they were computed.
-/

namespace Seedstone

section

variable [SipHasher]

/-- One command on a shard; a shard that is not there does not answer. -/
def onShard (now : Now) (shard : Nat) (cmd : Command) :
    Option (ShardState Journal) → Reply × Option (ShardState Journal)
  | none => (.error .shardUnavailable, none)
  | some state =>
    let (reply, after) := { state with reading := now.instant }.apply shard cmd now
    (reply, some after)

end

namespace Executor

/-- A shard as its executor has it, without the buffers of its log. -/
def shardAt (this : Executor) (shard : Nat) : Option (ShardState Journal) :=
  (this.stateOf shard).map ShardState.plain

/-- What of an executor serving leaves alone. -/
structure SameHost (before after : Executor) : Prop where
  index : after.index = before.index
  limit : after.limit = before.limit
  phase : after.phase = before.phase

namespace SameHost

theorem refl (this : Executor) : SameHost this this :=
  ⟨rfl, rfl, rfl⟩

theorem trans {first second third : Executor} (one : SameHost first second)
    (two : SameHost second third) : SameHost first third :=
  ⟨two.index.trans one.index, two.limit.trans one.limit, two.phase.trans one.phase⟩

end SameHost

variable {this : Executor}

theorem shardAt_of_states {after : Executor} (first : after.firstShard = this.firstShard)
    (states : after.states.map ShardState.plain = this.states.map ShardState.plain) :
    after.shardAt = this.shardAt := by
  funext shard
  unfold shardAt stateOf
  rw [first]
  split
  · rfl
  · rw [← List.getElem?_map, ← List.getElem?_map, states]

theorem plain_stageShard (touched : List (Nat × Nat) × Executor) (offset : Nat) :
    (stageShard touched offset).2.states.map ShardState.plain =
      touched.2.states.map ShardState.plain := by
  have flushed : ∀ state, touched.2.states[offset]? = some state →
      (touched.2.states.set offset { state with log := state.log.flushInto.2 }).map
          ShardState.plain = touched.2.states.map ShardState.plain := by
    intro state located
    have same : ShardState.plain { state with log := state.log.flushInto.2 } = state.plain := by
      unfold ShardState.plain ShardState.mapLog FileLog.journal
      rw [FileLog.flushInto_accepted]
    obtain ⟨inside, found⟩ := List.getElem?_eq_some_iff.mp located
    rw [List.map_set, same, ← found, ← List.getElem_map ShardState.plain]
    · exact List.set_getElem_self _
    · simpa using inside
  unfold stageShard
  dsimp only
  split
  · rfl
  · next state located =>
      split <;> exact flushed state located

theorem plain_stage (this : Executor) (offsets : List Nat) :
    (this.stage offsets).2.states.map ShardState.plain = this.states.map ShardState.plain := by
  have each : ∀ (offsets : List Nat) (touched : List (Nat × Nat) × Executor),
      (offsets.foldl stageShard touched).2.states.map ShardState.plain =
        touched.2.states.map ShardState.plain := by
    intro offsets
    induction offsets with
    | nil => exact fun touched => rfl
    | cons offset offsets induction =>
      intro touched
      exact (induction (stageShard touched offset)).trans (plain_stageShard touched offset)
  exact each offsets ([], this)

variable [SipHasher]

theorem plain_execute (unlimited : this.limit.ceiling = none) (shard : Nat)
    (state : ShardState FileLog) (cmd : Command) (now : Now) :
    (this.execute shard state cmd now).Within (Call.Talk (fun _ => False) fun _ => False)
      fun outcome => outcome = { state with reading := now.instant }.apply shard cmd now := by
  refine .after (Call.gaugeApply _ _) trivial fun _ => ?_
  split
  · refine .after Call.gaugeUsed trivial fun used => ?_
    rw [unlimited]
    exact .after (Call.gaugeApply _ _) trivial fun _ => .pure rfl
  · exact .pure rfl

theorem plain_answer (serves : this.sync.isRefusing = false)
    (unlimited : this.limit.ceiling = none) (shard : Nat) {cmd : Command}
    (keyed : cmd ≠ .stats) (now : Now) :
    (this.answer shard cmd now).Within (Call.Talk (fun _ => False) fun _ => False)
      fun outcome => SameHost this outcome.2 ∧ outcome.2.sync = this.sync ∧
        outcome.1.reply = (onShard now shard cmd (this.shardAt shard)).1 ∧
        outcome.2.shardAt = Function.update this.shardAt shard
          (onShard now shard cmd (this.shardAt shard)).2 := by
  have serving : this.sync.mode = .serving := by
    unfold SyncState.isRefusing at serves
    split at serves
    · next mode => exact mode
    · cases serves
  unfold Executor.answer
  cases owned : this.stateOf shard with
  | none =>
    have missing : this.shardAt shard = none := by rw [shardAt, owned]; rfl
    refine .pure ⟨.refl this, rfl, ?_, ?_⟩
    · rw [missing]
      rfl
    · rw [missing]
      exact (Function.update_eq_self_iff.mpr missing.symm).symm
  | some state =>
    have here : this.shardAt shard = some state.plain := by rw [shardAt, owned]; rfl
    have applied : ∀ reply after,
        { state with reading := now.instant }.apply shard cmd now = (reply, after) →
        onShard now shard cmd (some state.plain) = (reply, some after.plain) := by
      intro reply after outcome
      have plain := ShardState.apply_mapLog ShardState.readsAs_journal
        { state with reading := now.instant } shard cmd now
      rw [outcome] at plain
      have same : { state.plain with reading := now.instant }.apply shard cmd now =
          (reply, after.plain) := plain
      unfold onShard
      dsimp only
      rw [same]
    dsimp only
    rw [if_neg keyed, serving]
    dsimp only
    refine .after Call.gaugeUsed trivial fun used => ?_
    rw [if_neg (by simp [MemoryLimit.exceeded, unlimited])]
    refine (plain_execute unlimited shard state cmd now).bind fun outcome same => .pure ?_
    obtain ⟨reply, after⟩ := outcome
    rw [here, applied reply after same.symm]
    refine ⟨⟨rfl, rfl, rfl⟩, rfl, rfl, funext fun other => ?_⟩
    unfold stateOf at owned
    split at owned
    · cases owned
    · next above =>
        have inside := (List.getElem?_eq_some_iff.mp owned).1
        by_cases mine : other = shard
        · subst mine
          rw [Function.update_self, shardAt, stateOf, if_neg above]
          simp [List.getElem?_set_self inside]
        · rw [Function.update_of_ne mine, shardAt, shardAt, stateOf, stateOf]
          dsimp only
          split
          · rfl
          · next beyond =>
              rw [List.getElem?_set_ne (by omega)]

theorem plain_answerAll (now : Now) (cmds : List (Nat × Command))
    (keyed : ∀ cmd ∈ cmds, cmd.2 ≠ .stats) : ∀ {this : Executor},
    this.sync.isRefusing = false → this.limit.ceiling = none →
    (this.answerAll now cmds).Within (Call.Talk (fun _ => False) fun _ => False)
      fun outcome => SameHost this outcome.2 ∧ outcome.2.sync = this.sync ∧
        outcome.1.map Answered.reply = (serveInOrder (onShard now) this.shardAt cmds).1 ∧
        outcome.2.shardAt = (serveInOrder (onShard now) this.shardAt cmds).2 := by
  induction cmds with
  | nil => exact fun _ _ => .pure ⟨.refl _, rfl, rfl, rfl⟩
  | cons first rest induction =>
    intro this serves unlimited
    refine (plain_answer serves unlimited first.1 (keyed first List.mem_cons_self) now).bind
      fun one done => ?_
    obtain ⟨same, sync, reply, shards⟩ := done
    refine (induction (fun cmd member => keyed cmd (List.mem_cons_of_mem _ member))
      (by rw [sync]; exact serves) (by rw [same.limit]; exact unlimited)).bind
      fun others after => .pure ?_
    obtain ⟨kept, later, replies, final⟩ := after
    rw [shards] at replies final
    refine ⟨same.trans kept, later.trans sync, ?_, ?_⟩
    · simp only [List.map_cons, serveInOrder]
      rw [reply, replies]
    · simp only [serveInOrder]
      exact final

/-- Replies that were computed: they are with the client, or held for it. -/
inductive Replied (client : Nat) (replies : List Reply) (this after : Executor)
    (world later : World) : Prop where
  | told (served : List Served) (held : after.sync.held = this.sync.held)
      (answered : later.answered =
        world.answered ++ [⟨this.index, client, replies, served⟩]) :
      Replied client replies this after world later
  | kept (held : Held) (client' : held.client = client) (replies' : held.replies = replies)
      (held' : after.sync.held = this.sync.held ++ [held])
      (answered : later.answered = world.answered) :
      Replied client replies this after world later

/-- An executor that answered `served.1` and left its shards as `served.2`. -/
structure ServedAs (client : Nat)
    (served : List Reply × (Nat → Option (ShardState Journal))) (this : Executor)
    (world : World) (outcome : Executor × World) : Prop where
  host : SameHost this outcome.1
  shards : outcome.1.shardAt = served.2
  replied : Replied client served.1 this outcome.1 world outcome.2

omit [SipHasher] in
theorem plain_handOver (this : Executor) (envelope : Envelope) (answered : List Answered)
    (holding : Bool) (world : World) :
    ServedAs envelope.client (answered.map Answered.reply, this.shardAt) this world
      ((this.handOver envelope answered holding).run World.handle world) := by
  obtain ⟨after, later, beside, talked, ⟨changes, offsets, states⟩, settles⟩ :=
    this.run_handOver envelope answered holding world
  have host : SameHost this after := { beside with }
  have shards : after.shardAt = this.shardAt := by
    refine shardAt_of_states beside.firstShard ?_
    rw [states]
    exact plain_stage { this with changes := changes } offsets
  have told := talked.silent
  generalize (this.handOver envelope answered holding).run World.handle world = outcome
    at settles ⊢
  cases settles with
  | told =>
    refine ⟨host, shards, .told (answered.map Answered.served) beside.held ?_⟩
    rw [told]
  | held batch wrote low high =>
    refine ⟨host.trans ⟨rfl, rfl, rfl⟩, shards, .kept ⟨batch, envelope.client,
      answered.map Answered.reply, wrote, answered.map Answered.served⟩ rfl rfl ?_ told⟩
    exact congrArg (· ++ _) beside.held

theorem plain_serve (serves : this.sync.isRefusing = false)
    (unlimited : this.limit.ceiling = none) (now : Now) {envelope : Envelope}
    (keyed : ∀ cmd ∈ envelope.cmds, ∃ key, cmd.2.route = .key key) (world : World) :
    ServedAs envelope.client (serveInOrder (onShard now) this.shardAt envelope.cmds) this
      world ((this.serve now envelope).run World.handle world) := by
  have noStats : ∀ cmd ∈ envelope.cmds, cmd.2 ≠ .stats := by
    intro cmd member stats
    obtain ⟨key, route⟩ := keyed cmd member
    rw [stats] at route
    cases route
  have plain : envelope.Plain := by
    intro shard wait rest cmds
    obtain ⟨key, route⟩ := keyed (shard, .snapshot wait) (by rw [cmds]; exact List.mem_cons_self)
    cases route
  obtain ⟨⟨same, sync, replies, shards⟩, talked⟩ := World.Talked.run
    (plain_answerAll now envelope.cmds noStats serves unlimited) world
  have told := talked.silent
  rw [this.serve_of_plain now plain, Program.run_bind]
  generalize (this.answerAll now envelope.cmds).run World.handle world = outcome
    at same sync replies shards told
  obtain ⟨⟨answered, after⟩, later⟩ := outcome
  dsimp only at same sync replies shards told ⊢
  obtain ⟨host, kept, replied⟩ := after.plain_handOver envelope answered
    (this.sync.holds && !this.sync.isRefusing) later
  rw [replies] at replied
  refine ⟨same.trans host, kept.trans shards, ?_⟩
  cases replied with
  | told served held answers =>
    rw [sync] at held
    rw [told, same.index] at answers
    exact .told served held answers
  | kept held client replies more answers =>
    rw [sync] at more
    exact .kept held client replies more (answers.trans told)

section

omit [SipHasher]

/-- Replies that were held and are now with their clients, as they were. -/
structure Released (this : Executor) (world : World) (outcome : Executor × World) : Prop where
  host : SameHost this outcome.1
  shards : outcome.1.shardAt = this.shardAt
  released : ∃ released, this.sync.held = released ++ outcome.1.sync.held ∧
    outcome.2.answered = world.answered ++ released.map fun held =>
      ⟨this.index, held.client, held.replies, held.served⟩

/-- A message of the writer makes the executor refuse, or release replies. -/
theorem plain_hear (serving : this.phase = .serving) (message : Progress) (world : World) :
    ((this.hear message).run World.handle world).1.sync.isRefusing = true ∨
      Released this world ((this.hear message).run World.handle world) := by
  have quiet : Released this world (this, world) := ⟨.refl this, rfl, [], by simp, by simp⟩
  unfold Executor.hear
  rw [if_neg (by simp [serving])]
  cases message with
  | written | nudge => exact Or.inr ⟨⟨rfl, rfl, rfl⟩, rfl, [], rfl, (List.append_nil _).symm⟩
  | durable throughBatch bytes round =>
    right
    unfold Executor.progress
    cases throughBatch with
    | none => exact ⟨⟨rfl, rfl, rfl⟩, rfl, [], rfl, (List.append_nil _).symm⟩
    | some through =>
      dsimp only
      unfold releaseThrough
      rw [Program.run_bind, run_sendAll]
      refine ⟨⟨rfl, rfl, rfl⟩,
        shardAt_of_states rfl ((sameShards_syncsCompleted _ _).map fun _ => rfl),
        this.sync.held.takeWhile (SyncState.releases through), ?_, ?_⟩
      · exact (List.takeWhile_append_dropWhile).symm
      · rfl
  | fault =>
    left
    unfold Executor.progress
    rw [run_refuse]
    exact isRefusing_ceased this
  | stopped => exact Or.inr quiet

end

end Executor

end Seedstone
