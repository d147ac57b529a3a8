import Seedstone.Node.Hosting
import Seedstone.Node.Stopping

/-!
# The shares of a batch

An executor that a batch reaches has not taken its share yet, or holds the replies, or
has put them into its slot of the cell.  `Progresses` says this of every executor
and that the cell counts the shares that are out; every event of a schedule keeps
it, so once the count is zero each slot holds what its executor computed, unless
that executor dropped its share.
-/

namespace Seedstone

/-- A shard as the pool reaches it. -/
def Node.shardAt (node : Node) (pool : ShardPool) (shard : Nat) :
    Option (ShardState Journal) :=
  node.executors[pool.executorFor shard]?.bind fun this => this.shardAt shard

/-- The replies an executor holds for a client. -/
def Executor.heldFor (this : Executor) (client : Nat) : List Held :=
  this.sync.held.filter fun held => held.client = client

namespace Chunk

variable [SipHasher] {now : Now} {client executor : Nat} {chunk : Chunk} {start : Node}
  {before : Executor} {envelopes inboxes : List (Nat × Envelope)} {this : Executor}

/-- Where an executor stands with its share: it has none or has not taken it, it
holds the replies, or the replies are in its slot. -/
inductive Stage (now : Now) (client executor : Nat) (before this : Executor)
    (envelopes inboxes : List (Nat × Envelope)) : Option (List Reply) → Prop where
  | idle (shards : this.shardAt = before.shardAt) (held : this.heldFor client = [])
      (waits : ∀ envelope, (executor, envelope) ∈ envelopes →
        (executor, envelope) ∈ inboxes) :
      Stage now client executor before this envelopes inboxes none
  | holding (envelope : Envelope) (given : (executor, envelope) ∈ envelopes)
      (taken : ∀ other, (executor, other) ∉ inboxes)
      (shards : this.shardAt =
        (serveInOrder (onShard now) before.shardAt envelope.cmds).2)
      (held : Held) (only : this.heldFor client = [held])
      (replies : held.replies =
        (serveInOrder (onShard now) before.shardAt envelope.cmds).1) :
      Stage now client executor before this envelopes inboxes none
  | answered (envelope : Envelope) (given : (executor, envelope) ∈ envelopes)
      (taken : ∀ other, (executor, other) ∉ inboxes)
      (shards : this.shardAt =
        (serveInOrder (onShard now) before.shardAt envelope.cmds).2)
      (held : this.heldFor client = []) :
      Stage now client executor before this envelopes inboxes
        (some (serveInOrder (onShard now) before.shardAt envelope.cmds).1)

/-- The shares that are out. -/
def outstanding (chunk : Chunk) : List Nat :=
  chunk.sent.filter fun executor =>
    decide (chunk.cell.answers[executor]? = some none ∧ executor ∉ chunk.dead)

/-- A batch on its way, from the node it was sent on. -/
structure Progresses (now : Now) (client : Nat) (start : Node)
    (envelopes : List (Nat × Envelope)) (chunk : Chunk) : Prop where
  sent : chunk.sent = envelopes.map Prod.fst
  inboxes : chunk.inboxes ⊆ envelopes
  size : chunk.node.executors.length = start.executors.length
  stages : ∀ (executor : Nat) before, start.executors[executor]? = some before →
    ∃ this slot, chunk.node.executors[executor]? = some this ∧
      chunk.cell.answers[executor]? = some slot ∧ before.SameHost this ∧
      Stage now client executor before this envelopes chunk.inboxes slot
  dead : ∀ executor ∈ chunk.dead, executor ∈ chunk.sent ∧
    chunk.cell.answers[executor]? = some none
  counted : chunk.cell.remaining = chunk.outstanding.length

omit [SipHasher] in
theorem observe_cell (chunk : Chunk) {node : Node} {fresh : List Answer}
    (answered : node.world.answered = chunk.node.world.answered ++ fresh) :
    (chunk.observe client node).cell =
      (fresh.filter fun answer => answer.client = client).foldl
        (fun cell answer => cell.deliver answer.executor answer.replies) chunk.cell := by
  unfold observe
  dsimp only
  rw [answered, List.drop_left]
  generalize chunk.cell = cell
  clear answered
  induction fresh generalizing cell with
  | nil => rfl
  | cons answer rest induction =>
    rw [List.foldl_cons, List.filter_cons]
    by_cases mine : answer.client = client
    · simp [mine, induction]
    · simp [mine, induction]

omit [SipHasher] in
theorem length_outstanding {after : Chunk} (distinct : chunk.sent.Nodup)
    (out : executor ∈ chunk.outstanding) (sent : after.sent = chunk.sent)
    (others : ∀ other, other ≠ executor →
      (after.cell.answers[other]? = some none ∧ other ∉ after.dead ↔
      chunk.cell.answers[other]? = some none ∧ other ∉ chunk.dead))
    (mine : ¬(after.cell.answers[executor]? = some none ∧ executor ∉ after.dead)) :
    after.outstanding.length = chunk.outstanding.length - 1 := by
  have same : after.outstanding = chunk.outstanding.erase executor := by
    rw [outstanding, outstanding, sent,
      List.Nodup.erase_eq_filter (distinct.filter _), List.filter_filter]
    apply List.filter_congr
    intro other _
    by_cases equal : other = executor
    · simp [equal, mine]
    · simp [equal, others other equal]
  rw [same, List.length_erase_of_mem out]

/-- What a handler makes of a batch; `told` is what it answered to the batch's client.
-/
structure Handles (client executor : Nat) (chunk : Chunk) (inboxes : List (Nat × Envelope))
    (later : World) (told : List Answer) : Prop where
  inside : executor < chunk.node.executors.length
  fewer : inboxes ⊆ chunk.inboxes
  others : ∀ other envelope, other ≠ executor → (other, envelope) ∈ chunk.inboxes →
    (other, envelope) ∈ inboxes
  answered : ∃ fresh, later.answered = chunk.node.world.answered ++ fresh ∧
    fresh.filter (fun answer => answer.client = client) = told

theorem Stage.elsewhere {fewer : List (Nat × Envelope)} {slot : Option (List Reply)}
    (stage : Stage now client executor before this envelopes inboxes slot) (less : fewer ⊆ inboxes)
    (same : ∀ envelope, (executor, envelope) ∈ inboxes → (executor, envelope) ∈ fewer) :
    Stage now client executor before this envelopes fewer slot := by
  cases stage with
  | idle shards held waits =>
    exact .idle shards held fun envelope given => same envelope (waits envelope given)
  | holding envelope given taken shards held only replies =>
    exact .holding envelope given (fun other queued => taken other (less queued)) shards
      held only replies
  | answered envelope given taken shards held =>
    exact .answered envelope given (fun other queued => taken other (less queued)) shards held

theorem Stage.released {after : Executor} {slot : Option (List Reply)}
    (stage : Stage now client executor before this envelopes inboxes slot)
    (shards : after.shardAt = this.shardAt) {mine : List Held}
    (split : this.heldFor client = mine ++ after.heldFor client) :
    mine = [] ∧ Stage now client executor before after envelopes inboxes slot ∨
      ∃ held, mine = [held] ∧ slot = none ∧ (∃ envelope, (executor, envelope) ∈ envelopes) ∧
        Stage now client executor before after envelopes inboxes (some held.replies) := by
  cases stage with
  | idle same none waits =>
    rw [none] at split
    obtain ⟨unheld, rest⟩ := List.append_eq_nil_iff.mp split.symm
    exact Or.inl ⟨unheld, .idle (shards.trans same) rest waits⟩
  | answered envelope given taken same none =>
    rw [none] at split
    obtain ⟨unheld, rest⟩ := List.append_eq_nil_iff.mp split.symm
    exact Or.inl ⟨unheld, .answered envelope given taken (shards.trans same) rest⟩
  | holding envelope given taken same held only replies =>
    rw [only] at split
    rcases List.append_eq_singleton_iff.mp split.symm with ⟨unheld, rest⟩ | ⟨one, rest⟩
    · exact Or.inl ⟨unheld, .holding envelope given taken (shards.trans same) held rest replies⟩
    · refine Or.inr ⟨held, one, rfl, ⟨envelope, given⟩, ?_⟩
      rw [replies]
      exact .answered envelope given taken (shards.trans same) rest

/-- What a batch may be sent to: executors in their loop, each at its own place, with
no ceiling. -/
def Running (start : Node) : Prop :=
  ∀ (executor : Nat) before, start.executors[executor]? = some before →
    before.index = executor ∧ before.phase = .serving ∧ before.limit.ceiling = none

/-- Envelopes of keyed commands for one client, each executor's its own. -/
structure Sendable (client : Nat) (start : Node) (envelopes : List (Nat × Envelope)) :
    Prop where
  distinct : (envelopes.map Prod.fst).Nodup
  inside : ∀ envelope ∈ envelopes, envelope.1 < start.executors.length
  client : ∀ envelope ∈ envelopes, envelope.2.client = client
  keyed : ∀ envelope ∈ envelopes, ∀ cmd ∈ envelope.2.cmds, ∃ key, cmd.2.route = .key key

section

variable (progresses : Progresses now client start envelopes chunk)

include progresses

theorem Progresses.handled
    (distinct : (envelopes.map Prod.fst).Nodup) {after : Executor} {later : World}
    {told : List Answer} (located : start.executors[executor]? = some before)
    (handles : Handles client executor chunk inboxes later told)
    (host : before.SameHost after) (alive : executor ∉ chunk.dead)
    (staged : told = [] ∧ (∃ slot, chunk.cell.answers[executor]? = some slot ∧
      Stage now client executor before after envelopes inboxes slot) ∨
      ∃ answer, told = [answer] ∧ answer.executor = executor ∧
      chunk.cell.answers[executor]? = some none ∧ executor ∈ chunk.sent ∧
      Stage now client executor before after envelopes inboxes (some answer.replies)) :
    Progresses now client start envelopes
      (observe client { chunk with inboxes := inboxes } { chunk.node with
        executors := chunk.node.executors.set executor after, world := later }) := by
  obtain ⟨fresh, grown, filtered⟩ := handles.answered
  have cell : (observe client { chunk with inboxes := inboxes } { chunk.node with
      executors := chunk.node.executors.set executor after, world := later }).cell =
      told.foldl (fun cell answer => cell.deliver answer.executor answer.replies) chunk.cell := by
    rw [← filtered]
    exact observe_cell { chunk with inboxes := inboxes } grown
  generalize following : observe client { chunk with inboxes := inboxes } { chunk.node with
      executors := chunk.node.executors.set executor after, world := later } = next at cell
  have sent : next.sent = chunk.sent := by rw [← following]; rfl
  have dead : next.dead = chunk.dead := by rw [← following]; rfl
  have queued : next.inboxes = inboxes := by rw [← following]; rfl
  have executors : next.node.executors = chunk.node.executors.set executor after := by
    rw [← following]
    rfl
  have settled : (∃ slot, next.cell.answers[executor]? = some slot ∧
        Stage now client executor before after envelopes inboxes slot) ∧
      (∀ other, other ≠ executor → next.cell.answers[other]? = chunk.cell.answers[other]?) ∧
      next.cell.remaining = next.outstanding.length := by
    rcases staged with ⟨silent, slot, slotAt, stage⟩ | ⟨answer, one, mine, empty, member, stage⟩
    · rw [silent, List.foldl_nil] at cell
      refine ⟨⟨slot, by rw [cell]; exact slotAt, stage⟩, fun _ _ => by rw [cell], ?_⟩
      rw [cell, progresses.counted, outstanding, outstanding, sent, dead, cell]
    · rw [one, List.foldl_cons, List.foldl_nil, mine] at cell
      have bound : executor < chunk.cell.answers.length := (List.getElem?_eq_some_iff.mp empty).1
      have here : next.cell.answers[executor]? = some (some answer.replies) := by
        rw [cell]
        exact List.getElem?_set_self bound
      have there : ∀ other, other ≠ executor →
          next.cell.answers[other]? = chunk.cell.answers[other]? := by
        intro other different
        rw [cell]
        exact List.getElem?_set_ne (Ne.symm different)
      refine ⟨⟨_, here, stage⟩, there, ?_⟩
      have out : executor ∈ chunk.outstanding := by
        simp [outstanding, member, empty, alive]
      rw [length_outstanding (progresses.sent ▸ distinct) out sent
        (fun other different => by rw [there other different, dead]) (by simp [here]),
        ← progresses.counted, cell]
      rfl
  obtain ⟨⟨slot, slotAt, stage⟩, there, counted⟩ := settled
  refine ⟨sent.trans progresses.sent, ?_, ?_, ?_, ?_, counted⟩
  · rw [queued]
    exact fun _ member => progresses.inboxes (handles.fewer member)
  · rw [executors, List.length_set]
    exact progresses.size
  · intro other first firstAt
    by_cases same : other = executor
    · subst same
      rw [located, Option.some.injEq] at firstAt
      subst firstAt
      refine ⟨after, slot, ?_, slotAt, host, by rw [queued]; exact stage⟩
      rw [executors, List.getElem?_set_self handles.inside]
    · obtain ⟨this, old, thisAt, oldAt, kept, was⟩ := progresses.stages other first firstAt
      refine ⟨this, old, ?_, by rw [there other same]; exact oldAt, kept, ?_⟩
      · rw [executors, List.getElem?_set_ne (Ne.symm same)]
        exact thisAt
      · rw [queued]
        exact was.elsewhere handles.fewer fun envelope member =>
          handles.others other envelope same member
  · intro other member
    rw [dead] at member
    obtain ⟨among, empty⟩ := progresses.dead other member
    have different : other ≠ executor := by
      rintro rfl
      exact alive member
    rw [sent, there other different]
    exact ⟨among, empty⟩

theorem Progresses.unheard {node : Node} (executors : node.executors = chunk.node.executors)
    (answered : node.world.answered = chunk.node.world.answered) :
    Progresses now client start envelopes (chunk.observe client node) := by
  have silent : node.world.answered = chunk.node.world.answered ++ [] := by
    rw [answered, List.append_nil]
  have cell : (chunk.observe client node).cell = chunk.cell := observe_cell chunk silent
  have out : (chunk.observe client node).outstanding = chunk.outstanding := by
    unfold outstanding
    rw [cell]
    rfl
  refine ⟨progresses.sent, progresses.inboxes, ?_, ?_, ?_, ?_⟩
  · exact (congrArg List.length executors).trans progresses.size
  · intro executor before located
    obtain ⟨this, slot, thisAt, slotAt, host, stage⟩ := progresses.stages executor before located
    exact ⟨this, slot, executors ▸ thisAt, by rw [cell]; exact slotAt, host, stage⟩
  · intro executor member
    rw [cell]
    exact progresses.dead executor member
  · rw [cell, out]
    exact progresses.counted

theorem Progresses.stageOf (thisAt : chunk.node.executors[executor]? = some this) :
    ∃ before slot, start.executors[executor]? = some before ∧
      chunk.cell.answers[executor]? = some slot ∧ before.SameHost this ∧
      Stage now client executor before this envelopes chunk.inboxes slot := by
  have inside := (List.getElem?_eq_some_iff.mp thisAt).1
  rw [progresses.size] at inside
  obtain ⟨other, slot, otherAt, slotAt, host, stage⟩ :=
    progresses.stages executor _ (List.getElem?_eq_getElem inside)
  rw [thisAt, Option.some.injEq] at otherAt
  subst otherAt
  exact ⟨_, slot, List.getElem?_eq_getElem inside, slotAt, host, stage⟩

/-- The writer's channel closed: the executor would refuse from here. -/
theorem Progresses.hearNothing
    (serves : ∀ this ∈ (chunk.node.step (.hearNothing executor)).executors,
      this.sync.isRefusing = false) :
    Progresses now client start envelopes
      (chunk.observe client (chunk.node.step (.hearNothing executor))) := by
  have idle : chunk.node.step (.hearNothing executor) = chunk.node := by
    unfold Node.step at serves ⊢
    dsimp only [Event.executor?] at serves ⊢
    cases thisAt : chunk.node.executors[executor]? with
    | none => rfl
    | some this =>
      rw [thisAt] at serves
      dsimp only [Node.stepExecutor] at serves ⊢
      split
      · next ready =>
          rw [if_pos ready] at serves
          have inside := (List.getElem?_eq_some_iff.mp thisAt).1
          have refuses := (this.listens_hearNothing chunk.node.world).2.1
          have member : (this.hearNothing.run World.handle chunk.node.world).1 ∈
              (chunk.node.runExecutor executor this.hearNothing).executors :=
            List.mem_of_getElem? (List.getElem?_set_self inside)
          rw [serves _ member] at refuses
          cases refuses
      · rfl
  rw [idle]
  exact progresses.unheard rfl rfl

variable (running : Running start) (sendable : Sendable client start envelopes)

include running sendable

theorem Progresses.take (serves : ∀ this ∈ chunk.node.executors, this.sync.isRefusing = false)
    (executor : Nat) :
    Progresses now client start envelopes (chunk.step now client (.take executor)) := by
  unfold step
  dsimp only
  split
  · next owner envelope this found thisAt =>
      have queued : (owner, envelope) ∈ chunk.inboxes := List.mem_of_find?_eq_some found
      have same : owner = executor := by simpa using List.find?_some found
      subst same
      split
      · next ready =>
          obtain ⟨alive, phase, budget⟩ := ready
          have inside := (List.getElem?_eq_some_iff.mp thisAt).1
          obtain ⟨before, slot, located, slotAt, host, stage⟩ := progresses.stageOf thisAt
          have given := progresses.inboxes queued
          obtain ⟨index, _, unlimited⟩ := running owner before located
          have served := Executor.plain_serve (serves this (List.mem_of_getElem? thisAt))
            (host.limit ▸ unlimited) now (sendable.keyed _ given) chunk.node.world
          rw [sendable.client _ given] at served
          have stepped : chunk.node.step (.serve owner now envelope) = { chunk.node with
              executors := chunk.node.executors.set owner
                ((this.serve now envelope).run World.handle chunk.node.world).1
              world := ((this.serve now envelope).run World.handle chunk.node.world).2 } := by
            unfold Node.step
            simp only [Event.executor?, thisAt, Node.stepExecutor]
            rw [if_pos ⟨phase, budget⟩]
            rfl
          rw [stepped]
          generalize (this.serve now envelope).run World.handle chunk.node.world = outcome
            at served
          obtain ⟨after, later⟩ := outcome
          obtain ⟨kept, shards, replied⟩ := served
          have untaken : ∀ other, (owner, other) ∉ chunk.inboxes.filter
              fun envelope => decide (envelope.1 ≠ owner) := by
            intro other member
            simpa using (List.mem_filter.mp member).2
          have others : ∀ other envelope, other ≠ owner → (other, envelope) ∈ chunk.inboxes →
              (other, envelope) ∈ chunk.inboxes.filter
                fun envelope => decide (envelope.1 ≠ owner) := by
            intro other envelope different member
            exact List.mem_filter.mpr ⟨member, by simpa using different⟩
          cases stage with
          | holding _ _ taken | answered _ _ taken => exact absurd queued (taken envelope)
          | idle unserved none waits =>
            dsimp only at shards
            rw [unserved] at shards replied
            cases replied with
            | told words held answered =>
              have handles : Handles client owner chunk _ later [⟨this.index, client,
                  (serveInOrder (onShard now) before.shardAt envelope.cmds).1, words⟩] :=
                ⟨inside, List.filter_sublist.subset, others, _, answered, by simp⟩
              refine progresses.handled sendable.distinct located handles
                (host.trans kept) alive (Or.inr ⟨_, rfl, ?_, slotAt, ?_, ?_⟩)
              · exact host.index.trans index
              · rw [progresses.sent]
                exact List.mem_map_of_mem given
              · refine .answered envelope given untaken shards ?_
                unfold Executor.heldFor at none ⊢
                rw [held]
                exact none
            | kept one mine replies held answered =>
              refine progresses.handled sendable.distinct located
                ⟨inside, List.filter_sublist.subset, others,
                  ⟨[], by rw [answered, List.append_nil], rfl⟩⟩
                (host.trans kept) alive (Or.inl ⟨rfl, _, slotAt, ?_⟩)
              refine .holding envelope given untaken shards one ?_ replies
              unfold Executor.heldFor at none ⊢
              rw [held, List.filter_append, none]
              simp [mine]
      · exact progresses
  · exact progresses

theorem Progresses.hear (alive : executor ∉ chunk.dead)
    (serves : ∀ this ∈ (chunk.node.step (.hear executor)).executors, this.sync.isRefusing = false) :
    Progresses now client start envelopes
      (chunk.observe client (chunk.node.step (.hear executor))) := by
  unfold Node.step at serves ⊢
  dsimp only [Event.executor?] at serves ⊢
  cases thisAt : chunk.node.executors[executor]? with
  | none => exact progresses.unheard rfl rfl
  | some this =>
    rw [thisAt] at serves
    dsimp only [Node.stepExecutor] at serves ⊢
    cases queue : chunk.node.world.progress executor with
    | nil => exact progresses.unheard rfl rfl
    | cons message rest =>
      rw [queue] at serves
      dsimp only [Node.runExecutor] at serves ⊢
      split
      · next ready =>
        rw [if_pos ready] at serves
        have inside := (List.getElem?_eq_some_iff.mp thisAt).1
        obtain ⟨before, slot, located, slotAt, host, stage⟩ := progresses.stageOf thisAt
        obtain ⟨index, phase, _⟩ := running executor before located
        have heard := Executor.plain_hear (host.phase.trans phase) message
          { chunk.node.world with
            progress := Function.update chunk.node.world.progress executor rest }
        generalize (this.hear message).run World.handle { chunk.node.world with
          progress := Function.update chunk.node.world.progress executor rest } = outcome
          at heard serves ⊢
        obtain ⟨after, later⟩ := outcome
        dsimp only at heard serves ⊢
        rcases heard with refuses | ⟨kept, shards, released, split, answered⟩
        · have member : after ∈ chunk.node.executors.set executor after :=
            List.mem_of_getElem? (List.getElem?_set_self inside)
          rw [serves after member] at refuses
          cases refuses
        · have mine : this.heldFor client =
              (released.filter fun held => held.client = client) ++ after.heldFor client := by
            unfold Executor.heldFor
            rw [split, List.filter_append]
          have words : (released.map fun held => (⟨this.index, held.client, held.replies,
              held.served⟩ : Answer)).filter (fun answer => answer.client = client) =
              (released.filter fun held => held.client = client).map fun held =>
                ⟨this.index, held.client, held.replies, held.served⟩ := by
            rw [List.filter_map]
            rfl
          have handles : Handles client executor chunk chunk.inboxes later
              ((released.filter fun held => held.client = client).map fun held =>
                ⟨this.index, held.client, held.replies, held.served⟩) :=
            ⟨inside, fun _ member => member, fun _ _ _ member => member, _, answered, words⟩
          refine progresses.handled sendable.distinct located handles (host.trans kept) alive ?_
          rcases stage.released shards mine with
            ⟨unheld, still⟩ | ⟨held, one, empty, ⟨envelope, given⟩, done⟩
          · exact Or.inl ⟨by rw [unheld]; rfl, slot, slotAt, still⟩
          · refine Or.inr ⟨_, by rw [one]; rfl, ?_, empty ▸ slotAt, ?_, done⟩
            · exact host.index.trans index
            · rw [progresses.sent]
              exact List.mem_map_of_mem given
      · exact progresses.unheard rfl rfl

theorem Progresses.next (serves : ∀ this ∈ chunk.node.executors, this.sync.isRefusing = false)
    (event : ChunkEvent)
    (still : ∀ this ∈ (chunk.step now client event).node.executors, this.sync.isRefusing = false) :
    Progresses now client start envelopes (chunk.step now client event) := by
  cases event with
  | take executor => exact progresses.take running sendable serves executor
  | run event =>
    unfold step at still ⊢
    dsimp only at still ⊢
    split
    · next allowed =>
        rw [if_pos allowed] at still
        obtain ⟨quiet, alive⟩ := allowed
        cases event with
        | hear executor =>
          exact progresses.hear running sendable (by simpa [Event.executor?] using alive) still
        | hearNothing executor => exact progresses.hearNothing still
        | writerBegin | writerTake | writerFlush | writerCompleted | writerTick
        | writerLost =>
          obtain ⟨executors, answered⟩ := chunk.node.stepWriter_answered _
          exact progresses.unheard executors answered
        | serve | tick | stop => cases quiet
    · exact progresses
  | drop executor =>
    unfold step
    dsimp only
    split
    · next allowed =>
        obtain ⟨member, empty, alive⟩ := allowed
        have out : executor ∈ chunk.outstanding := by
          simp [outstanding, member, empty, alive]
        refine { progresses with dead := ?_, counted := ?_ }
        · intro other gone
          rcases List.mem_cons.mp gone with rfl | old
          · exact ⟨member, empty⟩
          · exact progresses.dead other old
        · have fewer : (outstanding { chunk with
              cell := chunk.cell.drop, dead := executor :: chunk.dead }).length =
              chunk.outstanding.length - 1 := by
            refine length_outstanding (progresses.sent ▸ sendable.distinct) out rfl ?_ ?_
            · intro other different
              simp [different, ChunkReply.drop]
            · simp
          rw [fewer, ← progresses.counted]
          rfl
    · exact progresses

end

theorem progresses_start (sendable : Sendable client start envelopes)
    (fresh : ∀ this ∈ start.executors, ∀ held ∈ this.sync.held, held.client ≠ client) :
    Progresses now client start envelopes (Chunk.start start envelopes) := by
  have shared : ∀ (envelopes : List (Nat × Envelope)) (cell : ChunkReply),
      envelopes.foldl (fun cell _ => cell.share) cell =
        ⟨cell.answers, cell.remaining + envelopes.length⟩ := by
    intro envelopes
    induction envelopes with
    | nil => exact fun _ => rfl
    | cons envelope rest induction =>
      intro cell
      rw [List.foldl_cons, induction]
      simp only [ChunkReply.share, List.length_cons]
      congr 1
      omega
  have cell : (Chunk.start start envelopes).cell =
      ⟨List.replicate start.executors.length none, envelopes.length⟩ := by
    unfold Chunk.start
    rw [shared]
    simp [ChunkReply.new]
  have empty : ∀ executor < start.executors.length,
      (Chunk.start start envelopes).cell.answers[executor]? = some none := by
    intro executor inside
    rw [cell]
    simp [inside]
  refine ⟨rfl, fun _ member => member, rfl, ?_, ?_, ?_⟩
  · intro executor before located
    refine ⟨before, none, located, empty executor (List.getElem?_eq_some_iff.mp located).1,
      .refl before, .idle rfl ?_ fun _ given => given⟩
    apply List.filter_eq_nil_iff.mpr
    intro held member
    simpa using fresh before (List.mem_of_getElem? located) held member
  · exact nofun
  · have all : (Chunk.start start envelopes).outstanding = envelopes.map Prod.fst := by
      apply List.filter_eq_self.mpr
      intro executor member
      obtain ⟨envelope, given, rfl⟩ := List.mem_map.mp member
      exact decide_eq_true ⟨empty _ (sendable.inside envelope given), List.not_mem_nil⟩
    rw [all, cell, List.length_map]

theorem progresses_run (running : Running start) (sendable : Sendable client start envelopes)
    (schedule : List ChunkEvent) (progresses : Progresses now client start envelopes chunk)
    (accepts : chunk.Accepts now client schedule) :
    Progresses now client start envelopes (chunk.run now client schedule) := by
  induction schedule generalizing chunk with
  | nil => exact progresses
  | cons event rest induction =>
    apply induction
    · exact progresses.next running sendable (accepts [] List.nil_prefix) event
        (accepts [event] (List.prefix_append [event] rest))
    · intro before short
      exact accepts (event :: before) (List.cons_prefix_cons.mpr ⟨rfl, short⟩)

/-- Every share was dropped, or taken and answered. -/
def Settled (client : Nat) (chunk : Chunk) : Prop :=
  ∀ executor ∈ chunk.sent, executor ∉ chunk.dead →
    (∀ envelope, (executor, envelope) ∉ chunk.inboxes) ∧
      ∀ this, chunk.node.executors[executor]? = some this → this.heldFor client = []

section

variable (progresses : Progresses now client start envelopes chunk)

include progresses

/-- The cell counts down to zero exactly as the shares settle. -/
theorem Progresses.settled_iff (sendable : Sendable client start envelopes) :
    chunk.cell.remaining = 0 ↔ chunk.Settled client := by
  have staged : ∀ executor ∈ chunk.sent, ∃ envelope before this slot,
      (executor, envelope) ∈ envelopes ∧ chunk.node.executors[executor]? = some this ∧
      chunk.cell.answers[executor]? = some slot ∧
      Stage now client executor before this envelopes chunk.inboxes slot := by
    intro executor member
    rw [progresses.sent] at member
    obtain ⟨⟨_, envelope⟩, given, rfl⟩ := List.mem_map.mp member
    obtain ⟨this, slot, thisAt, slotAt, _, stage⟩ := progresses.stages _ _
      (List.getElem?_eq_getElem (sendable.inside _ given))
    exact ⟨envelope, _, this, slot, given, thisAt, slotAt, stage⟩
  rw [progresses.counted, List.length_eq_zero_iff]
  constructor
  · intro none executor member alive
    obtain ⟨envelope, before, this, slot, given, thisAt, slotAt, stage⟩ := staged executor member
    have filled : slot ≠ Option.none := by
      rintro rfl
      have out : executor ∈ chunk.outstanding := by simp [outstanding, member, slotAt, alive]
      rw [none] at out
      cases out
    cases stage with
    | idle | holding => exact absurd rfl filled
    | answered _ _ taken _ held =>
      refine ⟨taken, fun other otherAt => ?_⟩
      rw [thisAt, Option.some.injEq] at otherAt
      rw [← otherAt, held]
  · intro settled
    rw [outstanding, List.filter_eq_nil_iff]
    intro executor member out
    obtain ⟨empty, alive⟩ := of_decide_eq_true out
    obtain ⟨envelope, before, this, slot, given, thisAt, slotAt, stage⟩ := staged executor member
    obtain ⟨taken, unheld⟩ := settled executor member alive
    rw [slotAt, Option.some.injEq] at empty
    subst empty
    cases stage with
    | idle _ _ waits => exact taken envelope (waits envelope given)
    | holding _ _ _ _ held only =>
      rw [unheld this thisAt] at only
      cases only

/-- When every share is in, the replies of each executor that kept its own are in its
slot. -/
theorem Progresses.complete (sendable : Sendable client start envelopes)
    (overrun : chunk.cell.remaining = 0) {envelope : Envelope}
    (given : (executor, envelope) ∈ envelopes) (alive : executor ∉ chunk.dead)
    (located : start.executors[executor]? = some before) :
    ∃ this, chunk.node.executors[executor]? = some this ∧
      chunk.cell.answers[executor]? =
        some (some (serveInOrder (onShard now) before.shardAt envelope.cmds).1) ∧
      this.shardAt = (serveInOrder (onShard now) before.shardAt envelope.cmds).2 := by
  obtain ⟨this, slot, thisAt, slotAt, _, stage⟩ := progresses.stages executor before located
  have filled : slot ≠ none := by
    rintro rfl
    have out : executor ∈ chunk.outstanding := by
      have member : executor ∈ chunk.sent := by
        rw [progresses.sent]
        exact List.mem_map_of_mem given
      simp [outstanding, member, slotAt, alive]
    rw [progresses.counted] at overrun
    rw [List.eq_nil_of_length_eq_zero overrun] at out
    cases out
  cases stage with
  | idle | holding => exact absurd rfl filled
  | answered other same _ shards _ =>
    have one : other = envelope := by
      have pairwise := sendable.distinct
      exact (List.inj_on_of_nodup_map pairwise same given rfl |> Prod.mk.inj).2
    subst one
    exact ⟨this, thisAt, slotAt, shards⟩

theorem Progresses.untouched (unsent : ∀ envelope, (executor, envelope) ∉ envelopes)
    (located : start.executors[executor]? = some before) :
    ∃ this, chunk.node.executors[executor]? = some this ∧ this.shardAt = before.shardAt := by
  obtain ⟨this, slot, thisAt, _, _, stage⟩ := progresses.stages executor before located
  cases stage with
  | idle shards => exact ⟨this, thisAt, shards⟩
  | holding envelope given | answered envelope given => exact absurd given (unsent envelope)

theorem Progresses.running (running : Running start) : Running chunk.node := by
  intro executor this thisAt
  obtain ⟨before, _, located, _, host, _⟩ := progresses.stageOf thisAt
  obtain ⟨index, phase, unlimited⟩ := running executor before located
  exact ⟨host.index.trans index, host.phase.trans phase, by rw [host.limit]; exact unlimited⟩

theorem Progresses.unreached {pool : ShardPool} {shard : Nat}
    (unsent : ∀ envelope, (pool.executorFor shard, envelope) ∉ envelopes) :
    chunk.node.shardAt pool shard = start.shardAt pool shard := by
  unfold Node.shardAt
  cases located : start.executors[pool.executorFor shard]? with
  | none =>
    have outside := List.getElem?_eq_none_iff.mp located
    rw [← progresses.size] at outside
    rw [List.getElem?_eq_none_iff.mpr outside]
  | some before =>
    obtain ⟨this, thisAt, shards⟩ := progresses.untouched unsent located
    rw [thisAt, Option.bind_some, Option.bind_some, shards]

end

theorem accepts_of_check {schedule : List ChunkEvent}
    (checked : (schedule.inits.all fun before =>
      (chunk.run now client before).node.executors.all fun this =>
        !this.sync.isRefusing) = true) :
    chunk.Accepts now client schedule := by
  intro before short this member
  have all := List.all_eq_true.mp checked before ((List.mem_inits before schedule).mpr short)
  simpa using List.all_eq_true.mp all this member

theorem dead_run {schedule : List ChunkEvent}
    (undropped : ∀ executor, .drop executor ∉ schedule) (chunk : Chunk) :
    (chunk.run now client schedule).dead = chunk.dead := by
  induction schedule generalizing chunk with
  | nil => rfl
  | cons event rest induction =>
    have stepped : (chunk.step now client event).dead = chunk.dead := by
      cases event with
      | take executor =>
        unfold step
        dsimp only
        split
        · split <;> rfl
        · rfl
      | run event =>
        unfold step
        dsimp only
        split <;> rfl
      | drop executor => exact absurd List.mem_cons_self (undropped executor)
    exact (induction (fun executor member => undropped executor
      (List.mem_cons_of_mem _ member)) _).trans stepped

end Chunk

end Seedstone
