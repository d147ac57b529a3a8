import Seedstone.Node.Conduct

/-!
# How far an executor's handlers reach

Serving an envelope and hearing the writer call on nothing but the channels, the
clients and the gauge: only the checkpoint calls on the disk.  `Talk` are those
calls, `Beside` says what of the executor stays as it is.  The one handler that
tells the writer of a stop is the stop itself.
-/

namespace Seedstone

/-- Calls off the disk; `sent` says what the writer may be sent, `told` what the
clients may be told. -/
def Call.Talk (sent : ToWriter → Prop) (told : Answer → Prop) : Call → Prop
  | .toWriter message => sent message
  | .answer reply => told reply
  | .gaugeUsed | .gaugeApply .. => True
  | _ => False

/-- What the executor numbered `index` sends before it stops. -/
def ToWriter.Of (index : Nat) : ToWriter → Prop
  | .submit executor .. | .covered executor .. => executor = index
  | .syncNow => True
  | .stop _ => False

/-- What such calls leave alone, and what they add to the writer's inbox. -/
structure World.Talked (sent : ToWriter → Prop) (told : Answer → Prop) (before after : World) :
    Prop where
  disk : after.disk = before.disk
  progress : after.progress = before.progress
  inbox : ∃ more, after.inbox = before.inbox ++ more ∧
    ∀ message ∈ more, sent message
  answered : ∃ fresh, after.answered = before.answered ++ fresh ∧
    ∀ answer ∈ fresh, told answer

namespace World.Talked

variable {sent : ToWriter → Prop} {told : Answer → Prop}

theorem refl (world : World) : World.Talked sent told world world :=
  ⟨rfl, rfl, ⟨[], by simp, by simp⟩, ⟨[], by simp, by simp⟩⟩

theorem trans {first second third : World} (one : World.Talked sent told first second)
    (two : World.Talked sent told second third) : World.Talked sent told first third := by
  obtain ⟨some, firstInbox, firstMay⟩ := one.inbox
  obtain ⟨more, secondInbox, secondMay⟩ := two.inbox
  obtain ⟨early, firstTold, earlyMay⟩ := one.answered
  obtain ⟨late, secondTold, lateMay⟩ := two.answered
  refine ⟨two.disk.trans one.disk, two.progress.trans one.progress,
    ⟨some ++ more, by rw [secondInbox, firstInbox, List.append_assoc], ?_⟩,
    ⟨early ++ late, by rw [secondTold, firstTold, List.append_assoc], ?_⟩⟩
  · intro message member
    exact (List.mem_append.mp member).elim (firstMay message) (secondMay message)
  · intro answer member
    exact (List.mem_append.mp member).elim (earlyMay answer) (lateMay answer)

theorem silent {before after : World} (talked : World.Talked sent (fun _ => False) before after) :
    after.answered = before.answered := by
  obtain ⟨fresh, told, none⟩ := talked.answered
  rw [told, List.eq_nil_iff_forall_not_mem.mpr none, List.append_nil]

theorem handle {call : Call} (may : call.Talk sent told) (world : World) :
    World.Talked sent told world (World.handle call world).2 := by
  cases call with
  | toWriter message =>
    refine ⟨rfl, rfl, ⟨[message], rfl, ?_⟩, ⟨[], by simp [World.handle], by simp⟩⟩
    intro other member
    rw [List.mem_singleton.mp member]
    exact may
  | answer answer =>
    refine ⟨rfl, rfl, ⟨[], by simp [World.handle], by simp⟩, ⟨[answer], rfl, ?_⟩⟩
    intro other member
    rw [List.mem_singleton.mp member]
    exact may
  | gaugeUsed => exact refl world
  | gaugeApply before after =>
    exact ⟨rfl, rfl, ⟨[], by simp [World.handle], by simp⟩, ⟨[], by simp [World.handle], by simp⟩⟩
  | create | write | syncData | syncLater | letGo | syncDir | remove | list | len
  | toExecutor => exact may.elim

theorem run {α : Type} {post : α → Prop} {task : Task α}
    (within : task.Within (Call.Talk sent told) post) (world : World) :
    post (task.run World.handle world).1 ∧
      World.Talked sent told world (task.run World.handle world).2 :=
  within.run_related refl trans (fun _ => handle) world

end World.Talked

/-- The bytes of some batches. -/
def bytesOf (batches : List (List Record)) : Nat :=
  (batches.map encodedLen).sum

theorem bytesOf_append (first second : List (List Record)) :
    bytesOf (first ++ second) = bytesOf first + bytesOf second := by
  simp [bytesOf]

/-- One side of a link after some batches were handed over, with nothing heard. -/
structure SyncState.Spent (before after : SyncState) : Prop where
  link : after.link = before.link
  sent : ∃ fresh, after.submissions = before.submissions ++ fresh ∧
    after.sentBytes = before.sentBytes + bytesOf fresh ∧
    after.batch = before.batch + fresh.length
  linked : before.link = true → after.ackedBytes = before.ackedBytes
  unlinked : before.link = false → before.ackedBytes = before.sentBytes →
    after.ackedBytes = after.sentBytes

namespace SyncState.Spent

variable {before middle after : SyncState}

theorem of_same (link : after.link = before.link)
    (submissions : after.submissions = before.submissions)
    (sentBytes : after.sentBytes = before.sentBytes)
    (batch : after.batch = before.batch) (ackedBytes : after.ackedBytes = before.ackedBytes) :
    Spent before after where
  link := link
  sent := ⟨[], by rw [submissions, List.append_nil], sentBytes, batch⟩
  linked _ := ackedBytes
  unlinked _ even := by rw [ackedBytes, sentBytes, even]

theorem refl (sync : SyncState) : Spent sync sync :=
  of_same rfl rfl rfl rfl rfl

theorem trans (one : Spent before middle) (two : Spent middle after) : Spent before after := by
  obtain ⟨early, firstSubmissions, firstBytes, firstBatch⟩ := one.sent
  obtain ⟨late, secondSubmissions, secondBytes, secondBatch⟩ := two.sent
  refine ⟨two.link.trans one.link, ⟨early ++ late, ?_, ?_, ?_⟩, ?_, ?_⟩
  · rw [secondSubmissions, firstSubmissions, List.append_assoc]
  · rw [secondBytes, firstBytes, bytesOf_append, Nat.add_assoc]
  · rw [secondBatch, firstBatch, List.length_append, Nat.add_assoc]
  · intro linked
    exact (two.linked (one.link.trans linked)).trans (one.linked linked)
  · intro unlinked even
    exact two.unlinked (one.link.trans unlinked) (one.unlinked unlinked even)

theorem batch_le (spent : Spent before after) : before.batch ≤ after.batch := by
  obtain ⟨fresh, _, _, batch⟩ := spent.sent
  omega

end SyncState.Spent

/-- An envelope other than a `SAVE` or a `BGSAVE`. -/
def Envelope.Plain (envelope : Envelope) : Prop :=
  ∀ shard wait rest, envelope.cmds ≠ (shard, .snapshot wait) :: rest

namespace Executor

/-- An executor but for its shards and its counts; what it hands over is counted. -/
structure Beside (before after : Executor) : Prop where
  index : after.index = before.index
  firstShard : after.firstShard = before.firstShard
  shards : after.states.length = before.states.length
  limit : after.limit = before.limit
  saves : after.saves = before.saves
  savesAfter : after.savesAfter = before.savesAfter
  phase : after.phase = before.phase
  held : after.sync.held = before.sync.held
  spent : before.sync.Spent after.sync

namespace Beside

theorem refl (this : Executor) : Beside this this :=
  ⟨rfl, rfl, rfl, rfl, rfl, rfl, rfl, rfl, .refl _⟩

theorem trans {first second third : Executor} (one : Beside first second)
    (two : Beside second third) : Beside first third :=
  ⟨two.index.trans one.index, two.firstShard.trans one.firstShard,
    two.shards.trans one.shards, two.limit.trans one.limit, two.saves.trans one.saves,
    two.savesAfter.trans one.savesAfter, two.phase.trans one.phase,
    two.held.trans one.held, one.spent.trans two.spent⟩

end Beside

variable {this : Executor} {sent : ToWriter → Prop} {told : Answer → Prop}

theorem beside_stageShard (touched : List (Nat × Nat) × Executor) (offset : Nat) :
    Beside touched.2 (stageShard touched offset).2 := by
  unfold stageShard
  dsimp only
  split
  · exact .refl _
  · split <;> exact ⟨rfl, rfl, by simp, rfl, rfl, rfl, rfl, rfl, .of_same rfl rfl rfl rfl rfl⟩

theorem beside_stage (this : Executor) (offsets : List Nat) :
    Beside this (this.stage offsets).2 := by
  have each : ∀ (offsets : List Nat) (touched : List (Nat × Nat) × Executor),
      Beside touched.2 (offsets.foldl stageShard touched).2 := by
    intro offsets
    induction offsets with
    | nil => exact fun touched => .refl _
    | cons offset offsets induction =>
      intro touched
      exact (beside_stageShard touched offset).trans (induction (stageShard touched offset))
  exact each offsets ([], this)

/-- `submit`: a batch that was handed over took the next number. -/
theorem talk_submit (shards : List (Nat × Nat)) :
    (this.submit shards).Within (Call.Talk (ToWriter.Of this.index) told) fun outcome =>
      Beside this outcome.2 ∧ outcome.2.states = this.states ∧
        (outcome.1 = true → outcome.2.sync.batch = this.sync.batch + 1) := by
  unfold Executor.submit
  split
  · exact .pure ⟨.refl this, rfl, nofun⟩
  · dsimp only
    have bytes : bytesOf [this.sync.staging] = encodedLen this.sync.staging := by
      simp [bytesOf]
    split
    · next linked =>
        refine .after (Call.toWriter _) (by rfl) fun _ => .pure ?_
        unfold SyncState.track
        split <;>
          exact ⟨⟨rfl, rfl, rfl, rfl, rfl, rfl, rfl, rfl, rfl,
            ⟨[this.sync.staging], rfl, by rw [bytes], rfl⟩, fun _ => rfl,
            fun unlinked => by simp [linked] at unlinked⟩, rfl, fun _ => rfl⟩
    · next unlinked =>
        exact .pure ⟨⟨rfl, rfl, rfl, rfl, rfl, rfl, rfl, rfl, rfl,
          ⟨[this.sync.staging], rfl, by rw [bytes], rfl⟩,
          fun linked => absurd linked unlinked, fun _ _ => rfl⟩, rfl, fun _ => rfl⟩

theorem talk_submitAll {index : Nat} (mine : this.index = index) :
    (this.stageAll.2.submit this.stageAll.1).Within (Call.Talk (ToWriter.Of index) told)
      fun outcome => Beside this outcome.2 := by
  have staged := this.beside_stage (List.range this.states.length)
  have submits : (this.stageAll.2.submit this.stageAll.1).Within
      (Call.Talk (ToWriter.Of this.stageAll.2.index) told) fun outcome =>
        Beside this.stageAll.2 outcome.2 ∧ _ := talk_submit this.stageAll.1
  rw [show this.stageAll.2.index = index from staged.index.trans mine] at submits
  exact submits.weaken fun _ done => staged.trans done.1

/-- The replies of an envelope are with the client, or held under a batch handed over.
-/
inductive Settles (envelope : Envelope) (answered : List Answered) (this after : Executor)
    (later : World) : Executor × World → Prop where
  | told : Settles envelope answered this after later
      (after, { later with answered := later.answered ++ [⟨this.index, envelope.client,
        answered.map Answered.reply, answered.map Answered.served⟩] })
  | held (batch : Nat) (wrote : List Bool) (low : this.sync.batch ≤ batch)
      (high : batch < after.sync.batch) : Settles envelope answered this after later
      ({ after with sync := { after.sync with held := after.sync.held ++ [⟨batch,
        envelope.client, answered.map Answered.reply, wrote,
        answered.map Answered.served⟩] } }, later)

theorem run_handOver (this : Executor) (envelope : Envelope) (answered : List Answered)
    (holds : Bool) (world : World) :
    ∃ after later, Beside this after ∧
      World.Talked (ToWriter.Of this.index) (fun _ => False) world later ∧
      (∃ changes offsets, after.states =
        (Executor.stage { this with changes := changes } offsets).2.states) ∧
      Settles envelope answered this after later
        ((this.handOver envelope answered holds).run World.handle world) := by
  unfold Executor.handOver
  dsimp only
  generalize (if holds then
    answered.map fun one => one.appended && one.served.command.writesTheLog else []) = wrote
  generalize staging : (if answered.any Answered.appended then
    Executor.stage { this with changes := this.changes + answered.countP Answered.appended }
      (envelope.cmds.map fun cmd => cmd.1 - this.firstShard) else ([], this)) = staged
  obtain ⟨beside, states⟩ : Beside this staged.2 ∧ ∃ changes offsets, staged.2.states =
      (Executor.stage { this with changes := changes } offsets).2.states := by
    rw [← staging]
    split
    · have counted : Beside this
          { this with changes := this.changes + answered.countP Answered.appended } :=
        ⟨rfl, rfl, rfl, rfl, rfl, rfl, rfl, rfl, .refl _⟩
      exact ⟨counted.trans (beside_stage _ _), _, _, rfl⟩
    · exact ⟨.refl this, this.changes, [], rfl⟩
  have submits : (staged.2.submit staged.1).Within
      (Call.Talk (ToWriter.Of staged.2.index) fun _ => False) fun outcome =>
        Beside staged.2 outcome.2 ∧ outcome.2.states = staged.2.states ∧
        (outcome.1 = true → outcome.2.sync.batch = staged.2.sync.batch + 1) :=
    talk_submit staged.1
  rw [beside.index] at submits
  obtain ⟨⟨submitted, same, numbered⟩, talked⟩ := World.Talked.run submits world
  rw [Program.run_bind]
  generalize (staged.2.submit staged.1).run World.handle world = outcome
    at submitted same numbered talked ⊢
  obtain ⟨⟨sent, after⟩, later⟩ := outcome
  dsimp only at submitted same numbered talked ⊢
  refine ⟨after, later, beside.trans submitted, talked, ?_, ?_⟩
  · rw [same]
    exact states
  · split
    · next waits =>
        -- the batch took the number `submit` found
        have next := numbered (Bool.and_eq_true_iff.mp waits).1
        exact .held _ _ beside.spent.batch_le (by omega)
    · rw [Program.run_bind, Task.run_answer, (beside.trans submitted).index]
      exact .told

theorem talk_sendAll {answers : List Answer} (may : ∀ answer ∈ answers, told answer) :
    (sendAll answers).Within (Call.Talk sent told) fun _ => True := by
  induction answers with
  | nil => exact .pure trivial
  | cons answer rest induction =>
    refine .after (Call.answer answer) (may answer List.mem_cons_self) fun _ => ?_
    exact induction fun other member => may other (List.mem_cons_of_mem _ member)

variable [SipHasher]

theorem talk_execute (shard : Nat) (state : ShardState FileLog) (cmd : Command) (now : Now) :
    (this.execute shard state cmd now).Within (Call.Talk sent told) fun _ => True := by
  refine .after (Call.gaugeApply _ _) trivial fun _ => ?_
  split
  · refine .after Call.gaugeUsed trivial fun used => ?_
    exact .after (Call.gaugeApply _ _) trivial fun _ => .pure trivial
  · exact .pure trivial

theorem talk_answer (shard : Nat) (cmd : Command) (now : Now) :
    (this.answer shard cmd now).Within (Call.Talk sent told) fun outcome =>
      outcome.1.served.command = cmd ∧ Beside this outcome.2 := by
  unfold Executor.answer
  split
  · exact .pure ⟨rfl, .refl this⟩
  · split
    · exact .pure ⟨rfl, .refl this⟩
    · split
      · exact .pure ⟨rfl, rfl, rfl, rfl, rfl, rfl, rfl, rfl, rfl, .of_same rfl rfl rfl rfl rfl⟩
      · refine .after Call.gaugeUsed trivial fun used => ?_
        split
        · exact .pure ⟨rfl, .refl this⟩
        · refine (talk_execute shard _ cmd now).bind fun outcome _ => .pure ?_
          exact ⟨rfl, rfl, rfl, by simp, rfl, rfl, rfl, rfl, rfl, .refl _⟩

/-- `answer_all`: one reply for each command, in order. -/
theorem talk_answerAll (now : Now) (cmds : List (Nat × Command)) :
    (this.answerAll now cmds).Within (Call.Talk sent told) fun outcome =>
      outcome.1.map (fun one => one.served.command) = cmds.map Prod.snd ∧
        Beside this outcome.2 := by
  induction cmds generalizing this with
  | nil => exact .pure ⟨rfl, .refl this⟩
  | cons first rest induction =>
    refine (talk_answer first.1 first.2 now).bind fun one answered => ?_
    refine induction.bind fun others after => .pure ⟨?_, answered.2.trans after.2⟩
    rw [List.map_cons, List.map_cons, answered.1, after.1]

theorem serve_of_plain (this : Executor) (now : Now) {envelope : Envelope}
    (plain : envelope.Plain) :
    this.serve now envelope = this.answerAll now envelope.cmds >>= fun outcome =>
      outcome.2.handOver envelope outcome.1 (this.sync.holds && !this.sync.isRefusing) := by
  unfold Executor.serve
  split
  · next shard wait rest same => exact absurd same (plain shard wait rest)
  · rfl

theorem run_serve (this : Executor) (now : Now) {envelope : Envelope}
    (plain : envelope.Plain) (world : World) :
    ∃ answered after later,
      answered.map (fun one => one.served.command) = envelope.cmds.map Prod.snd ∧
      Beside this after ∧
      World.Talked (ToWriter.Of this.index) (fun _ => False) world later ∧
      Settles envelope answered this after later
        ((this.serve now envelope).run World.handle world) := by
  have answers : (this.answerAll now envelope.cmds).Within
      (Call.Talk (ToWriter.Of this.index) fun _ => False) fun outcome =>
        outcome.1.map (fun one => one.served.command) = envelope.cmds.map Prod.snd ∧
          Beside this outcome.2 := talk_answerAll now envelope.cmds
  obtain ⟨⟨commanded, beside⟩, talked⟩ := World.Talked.run answers world
  rw [this.serve_of_plain now plain, Program.run_bind]
  generalize (this.answerAll now envelope.cmds).run World.handle world = outcome
    at commanded beside talked ⊢
  obtain ⟨⟨answered, between⟩, middle⟩ := outcome
  dsimp only at commanded beside talked ⊢
  obtain ⟨after, later, further, handed, _, settles⟩ := between.run_handOver envelope answered
    (this.sync.holds && !this.sync.isRefusing) middle
  rw [beside.index] at handed
  refine ⟨answered, after, later, commanded, beside.trans further, talked.trans handed, ?_⟩
  generalize (between.handOver envelope answered
    (this.sync.holds && !this.sync.isRefusing)).run World.handle middle = outcome at settles ⊢
  cases settles with
  | told =>
    rw [beside.index]
    exact .told
  | held batch wrote low high => exact .held batch wrote (beside.spent.batch_le.trans low) high

omit [SipHasher] in
theorem talk_snapshot (wait : Bool) (copies client : Nat) :
    (this.snapshot wait copies client).Within (Call.Talk sent fun _ => True)
      fun after => after.phase = this.phase ∧ after.index = this.index ∧
        after.sync = this.sync := by
  have asked : this.askForSnapshot.phase = this.phase ∧
      this.askForSnapshot.index = this.index ∧ this.askForSnapshot.sync = this.sync := by
    unfold askForSnapshot
    split <;> exact ⟨rfl, rfl, rfl⟩
  unfold Executor.snapshot
  split
  · split
    · exact .after (Call.answer _) trivial fun _ => .pure ⟨rfl, rfl, rfl⟩
    · exact .after (Call.answer _) trivial fun _ => .pure asked
  · split
    · exact .pure ⟨rfl, rfl, rfl⟩
    · exact .pure asked

theorem talk_tickShards (refusing : Bool) (now : Nat) (states : List (ShardState FileLog))
    (shard : Nat) :
    (tickShards refusing now shard states).Within (Call.Talk sent told) fun after =>
      after.length = states.length := by
  induction states generalizing shard with
  | nil => exact .pure rfl
  | cons state rest induction =>
    refine .after (Call.gaugeApply _ _) trivial fun _ => ?_
    refine (induction (shard + 1)).bind fun others length => .pure ?_
    rw [List.length_cons, List.length_cons, length]

end Executor

end Seedstone
