import Seedstone.Node.Shares

/-!
# A batch over the shards

However the executors of a pool take, run and answer their shares of a batch, the
replies gathered are those of the commands dispatched one after the other, and
so are the shards afterwards.  An executor that drops its share leaves its
positions unavailable, and no other.
-/

namespace Seedstone

namespace ShardPool

variable (pool : ShardPool) {shard : Nat}

theorem shards_pos : 0 < pool.shards :=
  Nat.lt_of_lt_of_le pool.positive pool.enough

theorem shardFor_lt {cmd : Command} (owned : pool.shardFor cmd = some shard) :
    shard < pool.shards := by
  unfold shardFor at owned
  split at owned
  · rw [← Option.some.inj owned]
    exact Nat.mod_lt _ pool.shards_pos
  · cases owned
  · cases owned

theorem executorFor_lt (inside : shard < pool.shards) :
    pool.executorFor shard < pool.executors := by
  unfold executorFor executorOf
  rw [Nat.div_lt_iff_lt_mul pool.shards_pos, Nat.mul_comm pool.executors]
  exact Nat.mul_lt_mul_of_pos_right inside pool.positive

/-- The commands of a batch with their shards. -/
def addressed (cmds : List Command) : List (Nat × Command) :=
  cmds.filterMap fun cmd => (pool.shardFor cmd).map fun shard => (shard, cmd)

/-- Those of them an executor is sent. -/
def shareOf (cmds : List Command) (executor : Nat) : List (Nat × Command) :=
  (pool.addressed cmds).filter fun cmd => decide (pool.executorFor cmd.1 = executor)

variable {pool}

theorem addressed_cons {cmd : Command} {cmds : List Command}
    (owned : pool.shardFor cmd = some shard) :
    pool.addressed (cmd :: cmds) = (shard, cmd) :: pool.addressed cmds := by
  simp [addressed, owned]

theorem bucket_eq (cmds : List Command) (buckets : List (List (Nat × Command))) (executor : Nat) :
    (pool.scatterLoop cmds buckets).2[executor]? = buckets[executor]?.map fun bucket =>
      bucket ++ pool.shareOf cmds executor := by
  unfold shareOf
  induction cmds generalizing buckets with
  | nil => simp [scatterLoop, addressed]
  | cons cmd rest induction =>
    cases owned : pool.shardFor cmd with
    | none =>
      simp only [scatterLoop, owned]
      rw [induction]
      simp [addressed, owned]
    | some shard =>
      simp only [scatterLoop, owned]
      rw [induction, addressed_cons owned, List.getElem?_modify, Option.map_eq_map, Option.map_map]
      congr 1
      funext bucket
      by_cases mine : pool.executorFor shard = executor
      · simp [mine]
      · simp [mine]

/-- The gather puts each reply back at its command, and stands in for those of an
executor that answered nothing. -/
theorem gather_scatter (answered : Nat → Bool) {cmds : List Command} {replies : List Reply}
    (owned : ∀ cmd ∈ cmds, (pool.shardFor cmd).isSome) (length : replies.length = cmds.length)
    {buckets : List (List (Nat × Command))} {table : List (List (Option Reply))}
    (size : buckets.length = pool.executors)
    (slots : ∀ executor < pool.executors, table[executor]? = some (
      if answered executor then
        List.replicate (buckets.getD executor []).length none ++
          (((pool.addressed cmds).zip replies).filter fun pair =>
            decide (pool.executorFor pair.1.1 = executor)).map fun pair => some pair.2
      else [])) :
    ChunkReply.gatherLoop table (pool.scatterLoop cmds buckets).1 =
      ((pool.addressed cmds).zip replies).map fun pair =>
        if answered (pool.executorFor pair.1.1) then pair.2
        else .error .shardUnavailable := by
  induction cmds generalizing buckets table replies with
  | nil => simp [scatterLoop, ChunkReply.gatherLoop, addressed]
  | cons cmd rest induction =>
    obtain ⟨shard, shardAt⟩ := Option.isSome_iff_exists.mp (owned cmd List.mem_cons_self)
    have inside := pool.executorFor_lt (pool.shardFor_lt shardAt)
    cases replies with
    | nil => cases length
    | cons reply replies =>
      have here := slots _ inside
      simp only [addressed_cons shardAt, List.zip_cons_cons, decide_true,
        List.filter_cons_of_pos, List.map_cons] at here
      simp only [scatterLoop, shardAt, addressed_cons shardAt, List.zip_cons_cons,
        List.map_cons, ChunkReply.gatherLoop]
      congr 1
      · cases told : answered (pool.executorFor shard) with
        | true | false => simp [here, told]
      · apply induction (fun other member => owned other (List.mem_cons_of_mem _ member))
          (by simpa using length) (by simpa using size)
        intro executor bound
        rw [List.getElem?_modify]
        by_cases mine : pool.executorFor shard = executor
        · subst mine
          have longer : ((buckets.modify (pool.executorFor shard)
              (· ++ [(shard, cmd)])).getD (pool.executorFor shard) []).length =
              (buckets.getD (pool.executorFor shard) []).length + 1 := by
            simp [List.getD_eq_getElem?_getD, List.getElem?_eq_getElem (size ▸ inside)]
          rw [longer, here]
          cases answered (pool.executorFor shard) with
          | true => simp [List.replicate_succ']
          | false => simp
        · have other := slots executor bound
          have same : (buckets.modify (pool.executorFor shard)
              (· ++ [(shard, cmd)])).getD executor [] = buckets.getD executor [] := by
            simp [List.getD_eq_getElem?_getD, mine]
          rw [addressed_cons shardAt, List.zip_cons_cons,
            List.filter_cons_of_neg (by simpa using mine)] at other
          rw [same]
          simpa [mine] using other

end ShardPool

namespace ShardPool

variable {pool : ShardPool} {node : Node} {cmds : List Command} {client executor shard : Nat}
  {cmd : Command} {now : Now} {schedule : List ChunkEvent}

theorem mem_envelopes {envelope : Envelope} :
    (executor, envelope) ∈ pool.envelopes cmds client ↔
      executor < pool.executors ∧ envelope.client = client ∧ envelope.cmds ≠ [] ∧
        envelope.cmds = pool.shareOf cmds executor := by
  have buckets : ∀ bucket, (pool.scatter cmds).2[executor]? = some bucket ↔
      executor < pool.executors ∧ bucket = pool.shareOf cmds executor := by
    intro bucket
    rw [scatter, bucket_eq, List.getElem?_replicate]
    split
    · next inside => simp [inside, eq_comm]
    · next outside => simp [outside]
  unfold envelopes
  simp only [List.mem_map, List.mem_filter, Prod.exists, Prod.mk.injEq]
  constructor
  · rintro ⟨bucket, index, ⟨member, filled⟩, rfl, rfl⟩
    obtain ⟨inside, same⟩ := (buckets bucket).mp (List.mk_mem_zipIdx_iff_getElem?.mp member)
    exact ⟨inside, rfl, by simpa using filled, same⟩
  · rintro ⟨inside, rfl, filled, same⟩
    refine ⟨envelope.cmds, executor, ⟨?_, by simpa using filled⟩, rfl, rfl⟩
    exact List.mk_mem_zipIdx_iff_getElem?.mpr ((buckets _).mpr ⟨inside, same⟩)

theorem keyed_of_addressed (keyed : ∀ cmd ∈ cmds, ∃ key, cmd.route = .key key)
    {cmd : Nat × Command} (member : cmd ∈ pool.addressed cmds) : ∃ key, cmd.2.route = .key key := by
  obtain ⟨original, inside, found⟩ := List.mem_filterMap.mp member
  obtain ⟨shard, _, rfl⟩ := Option.map_eq_some_iff.mp found
  exact keyed original inside

theorem sendable_envelopes (size : node.executors.length = pool.executors)
    (keyed : ∀ cmd ∈ cmds, ∃ key, cmd.route = .key key) :
    Chunk.Sendable client node (pool.envelopes cmds client) where
  distinct := by
    unfold envelopes
    rw [List.map_map]
    have indices : (pool.scatter cmds).2.zipIdx.map Prod.snd =
        List.range (pool.scatter cmds).2.length := by
      rw [List.zipIdx_map_snd, List.range_eq_range']
    have nodup : ((pool.scatter cmds).2.zipIdx.map Prod.snd).Nodup := by
      rw [indices]
      exact List.nodup_range
    exact nodup.sublist (List.filter_sublist.map _)
  inside envelope given := by
    rw [size]
    exact (mem_envelopes.mp given).1
  client envelope given := (mem_envelopes.mp given).2.1
  keyed envelope given cmd member := by
    rw [(mem_envelopes.mp given).2.2.2] at member
    exact keyed_of_addressed keyed (List.mem_of_mem_filter member)

theorem sendable_single (size : node.executors.length = pool.executors)
    (owned : pool.shardFor cmd = some shard) :
    Chunk.Sendable client node [(pool.executorFor shard, ⟨[(shard, cmd)], client⟩)] where
  distinct := List.nodup_singleton _
  inside envelope given := by
    rw [List.mem_singleton.mp given, size]
    exact pool.executorFor_lt (pool.shardFor_lt owned)
  client envelope given := by rw [List.mem_singleton.mp given]
  keyed envelope given other member := by
    rw [List.mem_singleton.mp given] at member
    rw [List.mem_singleton.mp member]
    unfold shardFor at owned
    split at owned
    · next key route => exact ⟨key, route⟩
    · cases owned
    · cases owned

variable [SipHasher]

/-- What one dispatch does: the reply is the shard's, and no other shard moves. -/
theorem single_spec (size : node.executors.length = pool.executors)
    (running : Chunk.Running node) (owned : pool.shardFor cmd = some shard)
    (fresh : ∀ this ∈ node.executors, ∀ held ∈ this.sync.held, held.client ≠ client)
    (accepts : Chunk.Accepts now client (Chunk.start node
      [(pool.executorFor shard, ⟨[(shard, cmd)], client⟩)]) schedule)
    (undropped : ∀ executor, .drop executor ∉ schedule)
    (answered : (pool.single node now client shard cmd schedule).cell.remaining = 0) :
    (pool.single node now client shard cmd schedule).node.executors.length = pool.executors ∧
      Chunk.Running (pool.single node now client shard cmd schedule).node ∧
      oneReply ((pool.single node now client shard cmd schedule).cell.answers[
        pool.executorFor shard]?.join) = (onShard now shard cmd (node.shardAt pool shard)).1 ∧
      (pool.single node now client shard cmd schedule).node.shardAt pool =
        Function.update (node.shardAt pool) shard
          (onShard now shard cmd (node.shardAt pool shard)).2 := by
  have sendable : Chunk.Sendable client node
      [(pool.executorFor shard, ⟨[(shard, cmd)], client⟩)] := sendable_single size owned
  have progresses : Chunk.Progresses now client node
      [(pool.executorFor shard, ⟨[(shard, cmd)], client⟩)]
      (pool.single node now client shard cmd schedule) :=
    Chunk.progresses_run running sendable schedule (Chunk.progresses_start sendable fresh) accepts
  have alive : (pool.single node now client shard cmd schedule).dead = [] :=
    Chunk.dead_run undropped _
  generalize pool.single node now client shard cmd schedule = chunk
    at answered progresses alive ⊢
  have inside := pool.executorFor_lt (pool.shardFor_lt owned)
  rw [← size] at inside
  have located := List.getElem?_eq_getElem inside
  generalize node.executors[pool.executorFor shard] = before at located
  have here : node.shardAt pool shard = before.shardAt shard := by
    rw [Node.shardAt, located]
    rfl
  obtain ⟨this, thisAt, slot, shards⟩ := progresses.complete sendable answered
    (List.mem_singleton_self _) (by rw [alive]; exact List.not_mem_nil) located
  refine ⟨progresses.size.trans size, progresses.running running, ?_, funext fun other => ?_⟩
  · rw [slot, here]
    rfl
  · by_cases mine : pool.executorFor other = pool.executorFor shard
    · have moved : chunk.node.shardAt pool other = this.shardAt other := by
        rw [Node.shardAt, mine, thisAt]
        rfl
      have stood : node.shardAt pool other = before.shardAt other := by
        rw [Node.shardAt, mine, located]
        rfl
      rw [moved, shards, here]
      simp only [serveInOrder]
      by_cases same : other = shard
      · rw [same, Function.update_self, Function.update_self]
      · rw [Function.update_of_ne same, Function.update_of_ne same, stood]
    · have different : other ≠ shard := fun same => mine (by rw [same])
      rw [Function.update_of_ne different]
      exact progresses.unreached fun envelope given =>
        mine (congrArg Prod.fst (List.mem_singleton.mp given))

theorem dispatchedEach_spec {replies : List Reply} {final : Node}
    (each : pool.DispatchedEach now node cmds replies final)
    (size : node.executors.length = pool.executors) (running : Chunk.Running node) :
    replies = (serveInOrder (onShard now) (node.shardAt pool) (pool.addressed cmds)).1 ∧
      final.shardAt pool =
        (serveInOrder (onShard now) (node.shardAt pool) (pool.addressed cmds)).2 := by
  induction each with
  | done => exact ⟨rfl, rfl⟩
  | next client schedule owned fresh accepts undropped answered rest induction =>
    obtain ⟨sizes, runs, reply, shards⟩ :=
      single_spec size running owned fresh accepts undropped answered
    obtain ⟨replies, final⟩ := induction sizes runs
    rw [shards] at replies final
    rw [addressed_cons owned]
    simp only [serveInOrder]
    exact ⟨by rw [reply, replies], final⟩

/-- An executor's share, served apart from the others. -/
theorem share_spec {before : Executor} (located : node.executors[executor]? = some before)
    (now : Now) (cmds : List Command) :
    (serveInOrder (onShard now) before.shardAt (pool.shareOf cmds executor)).1 =
      (((pool.addressed cmds).zip
        (serveInOrder (onShard now) (node.shardAt pool) (pool.addressed cmds)).1).filter
          fun pair => decide (pool.executorFor pair.1.1 = executor)).map Prod.snd ∧
      ∀ shard, pool.executorFor shard = executor →
        (serveInOrder (onShard now) before.shardAt (pool.shareOf cmds executor)).2 shard =
        (serveInOrder (onShard now) (node.shardAt pool) (pool.addressed cmds)).2 shard := by
  have agree : ∀ shard, decide (pool.executorFor shard = executor) = true →
      before.shardAt shard = node.shardAt pool shard := by
    intro shard mine
    rw [Node.shardAt, of_decide_eq_true mine, located]
    rfl
  obtain ⟨replies, shards⟩ := serveInOrder_filter (onShard now)
    (fun shard => decide (pool.executorFor shard = executor)) agree (pool.addressed cmds)
  exact ⟨replies, fun shard mine => shards shard (decide_eq_true mine)⟩

section

omit [SipHasher]

theorem isSome_shardFor (pool : ShardPool) (keyed : ∀ cmd ∈ cmds, ∃ key, cmd.route = .key key) :
    ∀ cmd ∈ cmds, (pool.shardFor cmd).isSome := by
  intro cmd member
  obtain ⟨key, route⟩ := keyed cmd member
  simp [shardFor, route]

theorem length_addressed (owned : ∀ cmd ∈ cmds, (pool.shardFor cmd).isSome) :
    (pool.addressed cmds).length = cmds.length := by
  induction cmds with
  | nil => rfl
  | cons cmd rest induction =>
    obtain ⟨shard, shardAt⟩ := Option.isSome_iff_exists.mp (owned cmd List.mem_cons_self)
    rw [addressed_cons shardAt, List.length_cons, List.length_cons,
      induction fun other member => owned other (List.mem_cons_of_mem _ member)]

theorem getElem?_addressed (owned : ∀ cmd ∈ cmds, (pool.shardFor cmd).isSome) {i : Nat}
    (cmdAt : cmds[i]? = some cmd) (shardAt : pool.shardFor cmd = some shard) :
    (pool.addressed cmds)[i]? = some (shard, cmd) := by
  induction cmds generalizing i with
  | nil => simp at cmdAt
  | cons first rest induction =>
    obtain ⟨other, otherAt⟩ := Option.isSome_iff_exists.mp (owned first List.mem_cons_self)
    rw [addressed_cons otherAt]
    cases i with
    | zero =>
      cases cmdAt
      rw [shardAt] at otherAt
      cases otherAt
      rfl
    | succ i =>
      exact induction (fun other member => owned other (List.mem_cons_of_mem _ member)) cmdAt

end

/-- What an executor that kept its share put into its slot and made of its shards. -/
theorem batch_share {chunk : Chunk}
    (progresses : Chunk.Progresses now client node (pool.envelopes cmds client) chunk)
    (sendable : Chunk.Sendable client node (pool.envelopes cmds client))
    (overrun : chunk.cell.remaining = 0) (alive : executor ∉ chunk.dead)
    (inside : executor < pool.executors) {before : Executor}
    (located : node.executors[executor]? = some before) :
    ∃ this slot, chunk.node.executors[executor]? = some this ∧
      chunk.cell.answers[executor]? = some slot ∧
      slot.getD [] = (serveInOrder (onShard now) before.shardAt
        (pool.shareOf cmds executor)).1 ∧
      this.shardAt = (serveInOrder (onShard now) before.shardAt
        (pool.shareOf cmds executor)).2 := by
  by_cases reached : pool.shareOf cmds executor = []
  · have unsent : ∀ envelope, (executor, envelope) ∉ pool.envelopes cmds client := by
      intro envelope given
      obtain ⟨_, _, filled, same⟩ := mem_envelopes.mp given
      exact filled (same.trans reached)
    obtain ⟨this, slot, thisAt, slotAt, _, stage⟩ := progresses.stages executor before located
    rw [reached]
    cases stage with
    | idle shards => exact ⟨this, none, thisAt, slotAt, rfl, shards⟩
    | holding envelope given | answered envelope given => exact absurd given (unsent envelope)
  · have given : (executor, ⟨pool.shareOf cmds executor, client⟩) ∈ pool.envelopes cmds client :=
      mem_envelopes.mpr ⟨inside, rfl, reached, rfl⟩
    obtain ⟨this, thisAt, slotAt, shards⟩ :=
      progresses.complete sendable overrun given alive located
    exact ⟨this, _, thisAt, slotAt, rfl, shards⟩

section

variable (size : node.executors.length = pool.executors) (running : Chunk.Running node)
  (keyed : ∀ cmd ∈ cmds, ∃ key, cmd.route = .key key)
  (fresh : ∀ this ∈ node.executors, ∀ held ∈ this.sync.held, held.client ≠ client)
  (accepts : (Chunk.start node (pool.envelopes cmds client)).Accepts now client schedule)

include size running keyed fresh accepts

theorem progresses_batch :
    Chunk.Progresses now client node (pool.envelopes cmds client)
      (pool.batch node now client cmds schedule) :=
  Chunk.progresses_run running (sendable_envelopes size keyed) schedule
    (Chunk.progresses_start (sendable_envelopes size keyed) fresh) accepts

theorem batch_spec {vector : List Reply}
    (returned : pool.dispatchMany node now client cmds schedule = some vector) :
    vector = ((pool.addressed cmds).zip
        (serveInOrder (onShard now) (node.shardAt pool) (pool.addressed cmds)).1).map
          (fun pair =>
            if pool.executorFor pair.1.1 ∈ (pool.batch node now client cmds schedule).dead then
              .error .shardUnavailable
            else pair.2) ∧
      ∀ shard < pool.shards,
        pool.executorFor shard ∉ (pool.batch node now client cmds schedule).dead →
        (pool.batch node now client cmds schedule).node.shardAt pool shard =
          (serveInOrder (onShard now) (node.shardAt pool) (pool.addressed cmds)).2 shard := by
  have sendable : Chunk.Sendable client node (pool.envelopes cmds client) :=
    sendable_envelopes size keyed
  have progresses := progresses_batch size running keyed fresh accepts
  unfold dispatchMany at returned
  generalize pool.batch node now client cmds schedule = chunk at returned progresses ⊢
  unfold ChunkReply.gather at returned
  split at returned
  · cases returned
  · next overrun =>
      rw [Option.some.injEq] at returned
      have none : chunk.cell.remaining = 0 := by simpa using overrun
      have owned := pool.isSome_shardFor keyed
      have locate : ∀ executor < pool.executors, ∃ before,
          node.executors[executor]? = some before := by
        intro executor inside
        rw [← size] at inside
        exact ⟨_, List.getElem?_eq_getElem inside⟩
      constructor
      · rw [← returned, scatter, gather_scatter (fun executor => decide (executor ∉ chunk.dead))
          owned ?_ List.length_replicate ?_]
        · apply List.map_congr_left
          intro pair _
          by_cases gone : pool.executorFor pair.1.1 ∈ chunk.dead <;> simp [gone]
        · rw [length_serveInOrder, length_addressed owned]
        · intro executor inside
          obtain ⟨before, located⟩ := locate executor inside
          have empty : ((List.replicate pool.executors
              ([] : List (Nat × Command))).getD executor []).length = 0 := by
            simp [List.getD_eq_getElem?_getD, inside]
          rw [List.getElem?_map, empty]
          by_cases gone : executor ∈ chunk.dead
          · rw [(progresses.dead executor gone).2]
            simp [gone]
          · obtain ⟨_, slot, _, slotAt, replies, _⟩ :=
              batch_share progresses sendable none gone inside located
            rw [slotAt, Option.map_some, replies, (share_spec located now cmds).1]
            simp [gone, List.map_map]
      · intro shard inside alive
        have host := pool.executorFor_lt inside
        obtain ⟨before, located⟩ := locate _ host
        obtain ⟨this, _, thisAt, _, _, shards⟩ :=
          batch_share progresses sendable none alive host located
        rw [Node.shardAt, thisAt, Option.bind_some, shards]
        exact (share_spec located now cmds).2 shard rfl

theorem dispatchMany_isSome :
    (pool.dispatchMany node now client cmds schedule).isSome ↔
      (pool.batch node now client cmds schedule).Settled client := by
  have sendable : Chunk.Sendable client node (pool.envelopes cmds client) :=
    sendable_envelopes size keyed
  have progresses := progresses_batch size running keyed fresh accepts
  rw [← progresses.settled_iff sendable, dispatchMany, ChunkReply.gather]
  split
  · next out => simpa using out
  · next overrun => simpa using overrun

end

/-- The pool as `spawn` lays it out, each executor with its shards in order. -/
structure Spawned (pool : ShardPool) (node : Node) : Prop where
  size : node.executors.length = pool.executors
  running : Chunk.Running node
  hosted : ∀ (executor : Nat) this, node.executors[executor]? = some this →
    List.range' this.firstShard this.states.length =
      (List.range pool.shards).filter fun shard =>
        decide (pool.executorFor shard = executor)

omit [SipHasher] in
theorem Spawned.shardAt_isSome (spawned : pool.Spawned node)
    (inside : shard < pool.shards) : (node.shardAt pool shard).isSome := by
  have host := pool.executorFor_lt inside
  rw [← spawned.size] at host
  have located := List.getElem?_eq_getElem host
  have member : shard ∈ (List.range pool.shards).filter fun other =>
      decide (pool.executorFor other = pool.executorFor shard) := by
    simp [inside]
  rw [← spawned.hosted _ _ located, List.mem_range'_1] at member
  rw [Node.shardAt, located, Option.bind_some, Executor.shardAt, Option.isSome_map,
    Executor.stateOf, if_neg (by omega), List.getElem?_eq_getElem (by omega)]
  rfl

theorem available_serveInOrder (now : Now) (cmds : List (Nat × Command)) :
    ∀ {shards : Nat → Option (ShardState Journal)}, (∀ cmd ∈ cmds, (shards cmd.1).isSome) →
      ∀ reply ∈ (serveInOrder (onShard now) shards cmds).1, reply ≠ .error .shardUnavailable := by
  induction cmds with
  | nil => simp [serveInOrder]
  | cons first rest induction =>
    intro shards there reply member
    obtain ⟨shard, cmd⟩ := first
    obtain ⟨state, stateAt⟩ := Option.isSome_iff_exists.mp (there _ List.mem_cons_self)
    simp only [serveInOrder] at member
    rcases List.mem_cons.mp member with rfl | later
    · dsimp only at stateAt
      rw [stateAt]
      exact ShardState.apply_available cmd
    · refine induction ?_ reply later
      intro other inside
      by_cases same : other.1 = shard
      · rw [same, Function.update_self]
        dsimp only at stateAt
        rw [stateAt]
        rfl
      · rw [Function.update_of_ne same]
        exact there other (List.mem_cons_of_mem _ inside)

/-- A batch of keyed commands on a pool as it was spawned, with no ceiling and a log that
takes what is appended, against the same commands dispatched one after the other
from the same state.  Whatever the schedule, the batch has its replies once every
share is answered or dropped, and not before; the `i`-th is then the one command
`i` got on its own, or stands in for it if the executor of its shard dropped its
share; no command got that stand-in on its own; and every shard of an executor
that did not is left the same, dict and log. -/
theorem batch_eq_one_by_one {pool : ShardPool} {node final : Node}
    (spawned : pool.Spawned node) {cmds : List Command}
    (keyed : ∀ cmd ∈ cmds, ∃ key, cmd.route = .key key) {now : Now} {client : Nat}
    (fresh : ∀ this ∈ node.executors, ∀ held ∈ this.sync.held, held.client ≠ client)
    {schedule : List ChunkEvent}
    (accepts : (Chunk.start node (pool.envelopes cmds client)).Accepts now client schedule)
    {replies : List Reply} (each : pool.DispatchedEach now node cmds replies final) :
    ((pool.dispatchMany node now client cmds schedule).isSome ↔
        (pool.batch node now client cmds schedule).Settled client) ∧
      ∀ vector, pool.dispatchMany node now client cmds schedule = some vector →
        vector.length = cmds.length ∧ replies.length = cmds.length ∧
        (∀ (i : Nat) cmd shard reply, cmds[i]? = some cmd → pool.shardFor cmd = some shard →
          replies[i]? = some reply →
          reply ≠ .error .shardUnavailable ∧
          vector[i]? = some (
            if pool.executorFor shard ∈ (pool.batch node now client cmds schedule).dead then
              .error .shardUnavailable
            else reply)) ∧
        ∀ shard < pool.shards,
          pool.executorFor shard ∉ (pool.batch node now client cmds schedule).dead →
          (pool.batch node now client cmds schedule).node.shardAt pool shard =
            final.shardAt pool shard := by
  refine ⟨dispatchMany_isSome spawned.size spawned.running keyed fresh accepts, ?_⟩
  intro vector returned
  obtain ⟨gathered, shards⟩ := batch_spec spawned.size spawned.running keyed fresh accepts
    returned
  obtain ⟨served, final⟩ := dispatchedEach_spec each spawned.size spawned.running
  have owned := pool.isSome_shardFor keyed
  have there : ∀ cmd ∈ pool.addressed cmds, (node.shardAt pool cmd.1).isSome := by
    intro cmd member
    obtain ⟨original, _, found⟩ := List.mem_filterMap.mp member
    obtain ⟨shard, shardAt, rfl⟩ := Option.map_eq_some_iff.mp found
    exact spawned.shardAt_isSome (pool.shardFor_lt shardAt)
  have length : replies.length = cmds.length := by
    rw [served, length_serveInOrder, length_addressed owned]
  rw [← served] at gathered
  refine ⟨?_, length, ?_, ?_⟩
  · rw [gathered, List.length_map, List.length_zip, length_addressed owned, length, Nat.min_self]
  · intro i cmd shard reply cmdAt shardAt replyAt
    have addressed : (pool.addressed cmds)[i]? = some (shard, cmd) :=
      getElem?_addressed owned cmdAt shardAt
    constructor
    · apply available_serveInOrder now (pool.addressed cmds) there
      rw [← served]
      exact List.mem_of_getElem? replyAt
    · have paired : ((pool.addressed cmds).zip replies)[i]? = some ((shard, cmd), reply) :=
        List.getElem?_zip_eq_some.mpr ⟨addressed, replyAt⟩
      rw [gathered, List.getElem?_map, paired]
      rfl
  · intro shard inside alive
    rw [shards shard inside alive, final]

/-- A node of two executors with one empty shard each, under a policy that holds
nothing. -/
def pair : Node where
  executors := [0, 1].map fun index =>
    Executor.new index index [.recovered (Dict.withSeed ⟨0, 0⟩) 0 .new]
      ⟨none, .noEviction⟩ .never 1 ⟨1000, 1, 1000⟩
  writer := Writer.new 1 [] .never 1000 ⟨1000, 1, 1000⟩ 2 0 0
  world := (Node.smallest .never).world

omit [SipHasher] in
/-- Two increments and a read over two shards, once with the second executor first and
the first one dropping its share, once one after the other. -/
theorem batch_eq_one_by_one_three :
    let _ : SipHasher := ⟨fun _ _ _ => 3⟩
    let pool : ShardPool := ⟨2, 2, by decide, by decide⟩
    let now : Now := ⟨5, 5, by decide⟩
    let cmds : List Command := [.incrBy [97] 3, .incrBy [98] 4, .get [97]]
    ∃ replies final, pool.DispatchedEach now pair cmds replies final ∧
      pool.dispatchMany pair now 7 cmds [.take 1, .drop 0] =
        some [.integer 3, .error .shardUnavailable, .bulk (some [51])] ∧
      replies[2]? = some (.bulk (some [51])) ∧
      (pool.batch pair now 7 cmds [.take 1, .drop 0]).node.shardAt pool 1 =
        final.shardAt pool 1 := by
  intro hasher pool now cmds
  have spawned : pool.Spawned pair := by
    refine ⟨rfl, ?_, ?_⟩
    · intro executor this located
      match executor, located with
      | 0, located | 1, located =>
        obtain rfl := Option.some.inj located
        exact ⟨rfl, rfl, rfl⟩
    · intro executor this located
      match executor, located with
      | 0, located | 1, located =>
        obtain rfl := Option.some.inj located
        decide +kernel
  have keyed : ∀ cmd ∈ cmds, ∃ key, cmd.route = .key key := by
    simp [cmds, Command.route]
  have fresh : ∀ this ∈ pair.executors, ∀ held ∈ this.sync.held, held.client ≠ 7 := by
    decide +kernel
  have accepts : (Chunk.start pair (pool.envelopes cmds 7)).Accepts now 7
      [.take 1, .drop 0] := Chunk.accepts_of_check (by decide +kernel)
  have first : pool.shardFor (.incrBy [97] 3) = some 1 := by decide +kernel
  have second : pool.shardFor (.incrBy [98] 4) = some 0 := by decide +kernel
  have third : pool.shardFor (.get [97]) = some 1 := by decide +kernel
  have each : pool.DispatchedEach now pair cmds _ _ :=
    .next 8 [.take 1] first (by decide +kernel) (Chunk.accepts_of_check (by decide +kernel))
      (by simp) (by decide +kernel)
      (.next 8 [.take 0] second (by decide +kernel)
        (Chunk.accepts_of_check (by decide +kernel)) (by simp) (by decide +kernel)
        (.next 8 [.take 1] third (by decide +kernel)
          (Chunk.accepts_of_check (by decide +kernel)) (by simp) (by decide +kernel) .done))
  have returned : pool.dispatchMany pair now 7 cmds [.take 1, .drop 0] =
      some [.integer 3, .error .shardUnavailable, .bulk (some [51])] := by decide +kernel
  obtain ⟨_, correct⟩ := batch_eq_one_by_one spawned keyed fresh accepts each
  obtain ⟨_, length, replied, shards⟩ := correct _ returned
  have dead : (pool.batch pair now 7 cmds [.take 1, .drop 0]).dead = [0] := by decide +kernel
  refine ⟨_, _, each, returned, ?_, ?_⟩
  · obtain ⟨_, same⟩ := replied 2 _ 1 _ rfl third rfl
    rw [dead, if_neg (by decide)] at same
    exact same.symm
  · exact shards 1 (by decide) (by rw [dead]; decide)

end ShardPool

end Seedstone
