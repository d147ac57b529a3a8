import Seedstone.Node.Executor
import Seedstone.Node.Ticking
import Seedstone.Shard.Buffer

/-!
# How an executor conducts itself

`Ordered` is what holds of an executor whatever it is doing: every record its
shards ever appended is in a buffer, being staged or in a batch it handed over;
batches are numbered without a gap; what it holds back names a batch it has not
let go of; and an open cycle's bases lie above everything let go of at the last
fault.  `Conduct` is what a handler does to the world: batches go to the writer
under their own numbers, no segment is touched, and, where acknowledgements are
held, every reply that promises a write is backed by a batch.
-/

namespace Seedstone

/-- The batches of one executor in the writer's inbox, with their numbers. -/
def submitsOf (executor : Nat) (inbox : List ToWriter) : List (List Record × Nat) :=
  inbox.filterMap fun message =>
    match message with
    | .submit other batch records =>
      if other = executor then some (records, batch) else none
    | _ => none

theorem submitsOf_append (executor : Nat) (first second : List ToWriter) :
    submitsOf executor (first ++ second) = submitsOf executor first ++ submitsOf executor second :=
  List.filterMap_append

/-- The batches a message of the writer may release end below this. -/
def Progress.bound : Progress → Nat
  | .durable (some through) .. => through + 1
  | _ => 0

/-- A reply that is no error to a command that wrote the log: each record is in
a batch numbered from `floor` on and below `bound`. -/
def Answer.Backed (submissions : List (List Record)) (floor bound : Nat)
    (answer : Answer) : Prop :=
  ∀ reply served, (reply, served) ∈ answer.replies.zip answer.served →
    (∀ error, reply ≠ .error error) → served.command.writesTheLog = true →
    ∀ record ∈ served.appended, ∃ batch records,
      floor ≤ batch ∧ batch < bound ∧ submissions[batch]? = some records ∧
        record ∈ records

theorem Answer.Backed.more {submissions : List (List Record)} {floor bound : Nat}
    {answer : Answer} (backed : answer.Backed submissions floor bound)
    (fresh : List (List Record)) : answer.Backed (submissions ++ fresh) floor bound := by
  intro reply served member accepted writes record appended
  obtain ⟨batch, records, above, below, located, inside⟩ :=
    backed reply served member accepted writes record appended
  refine ⟨batch, records, above, below, ?_, inside⟩
  rw [List.getElem?_append_left (List.getElem?_eq_some_iff.mp located).1]
  exact located

theorem Answer.backed_of_unserved {submissions : List (List Record)} {floor bound : Nat}
    {answer : Answer} (unserved : answer.served = []) : answer.Backed submissions floor bound := by
  intro reply served member
  rw [unserved, List.zip_nil_right] at member
  exact absurd member List.not_mem_nil

/-- What one or more calls of an executor's handler do.  Its replies are backed
by batches from `low` on and below `bound`. -/
structure Conduct (low bound : Nat) (before : Executor) (world : World)
    (after : Executor) (later : World) : Prop where
  index : after.index = before.index
  policy : after.sync.policy = before.sync.policy
  link : after.sync.link = before.sync.link
  raised : before.sync.floor ≤ after.sync.floor
  batches : ∃ fresh, after.sync.submissions = before.sync.submissions ++ fresh ∧
    (after.sync.link = true → submitsOf before.index later.inbox =
      submitsOf before.index world.inbox ++
        fresh.zipIdx before.sync.submissions.length)
  others : ∀ other, other ≠ before.index →
    submitsOf other later.inbox = submitsOf other world.inbox
  segments : ∀ generation rotation,
    later.disk.files (.segment generation rotation) =
      world.disk.files (.segment generation rotation)
  progress : later.progress = world.progress
  answers : ∃ fresh, later.answered = world.answered ++ fresh ∧
    (before.sync.policy.holdAcks = true →
      ∀ answer ∈ fresh, answer.Backed after.sync.submissions low bound)

namespace Conduct

variable {low bound : Nat} {before middle after : Executor}
  {world between later : World}

/-- Calls beside the segments and the channels that hand nothing over. -/
theorem aside (aside : World.Aside world later) (index : after.index = before.index)
    (policy : after.sync.policy = before.sync.policy) (link : after.sync.link = before.sync.link)
    (raised : before.sync.floor ≤ after.sync.floor)
    (submissions : after.sync.submissions = before.sync.submissions) :
    Conduct low bound before world after later where
  index := index
  policy := policy
  link := link
  raised := raised
  batches := ⟨[], by rw [submissions, List.append_nil], by simp [aside.inbox]⟩
  others := fun _ _ => by rw [aside.inbox]
  __ := aside
  answers := ⟨[], by rw [aside.answered, List.append_nil], by simp⟩

theorem refl (this : Executor) (world : World) : Conduct low bound this world this world :=
  aside (.refl world) rfl rfl rfl (Nat.le_refl _) rfl

theorem trans (one : Conduct low bound before world middle between)
    (two : Conduct low bound middle between after later) :
    Conduct low bound before world after later := by
  obtain ⟨first, firstSent, firstInbox⟩ := one.batches
  obtain ⟨second, secondSent, secondInbox⟩ := two.batches
  obtain ⟨early, earlyTold, earlyBacked⟩ := one.answers
  obtain ⟨late, lateTold, lateBacked⟩ := two.answers
  refine ⟨two.index.trans one.index, two.policy.trans one.policy, two.link.trans one.link,
    one.raised.trans two.raised, ⟨first ++ second, ?_, ?_⟩, ?_, ?_, ?_, ⟨early ++ late, ?_, ?_⟩⟩
  · rw [secondSent, firstSent, List.append_assoc]
  · intro linked
    have secondHeld := secondInbox linked
    rw [one.index] at secondHeld
    rw [secondHeld, firstInbox (two.link.symm.trans linked), firstSent, List.zipIdx_append,
      List.append_assoc, List.length_append]
  · intro other different
    rw [two.others other (one.index ▸ different), one.others other different]
  · intro generation rotation
    rw [two.segments, one.segments]
  · rw [two.progress, one.progress]
  · rw [lateTold, earlyTold, List.append_assoc]
  · intro holds answer member
    rcases List.mem_append.mp member with told | told
    · rw [secondSent]
      exact (earlyBacked holds answer told).more second
    · exact lateBacked (one.policy ▸ holds) answer told

end Conduct

namespace Executor

variable {after : Executor} {states : List (ShardState FileLog)} {offset : Nat}
  {submissions : List (List Record)} {held : Held}

/-- A held batch: its replies, which of its commands wrote, and what each
appended, all of it in the batch. -/
def HeldWhole (submissions : List (List Record)) (held : Held) : Prop :=
  ∃ (answered : List Answered) (records : List Record),
    held.replies = answered.map Answered.reply ∧
    held.wrote =
      answered.map (fun one => one.appended && one.served.command.writesTheLog) ∧
    held.served = answered.map Answered.served ∧
    submissions[held.batch]? = some records ∧
    ∀ one ∈ answered, (one.appended = false → one.served.appended = []) ∧
      ∀ record ∈ one.served.appended, record ∈ records

/-- What was handed over, or is about to be. -/
def handed (this : Executor) : List Record :=
  this.sync.staging ++ this.sync.submissions.flatten

/-- A shard's records are of that shard, and none is lost on the way. -/
structure Buffered (this : Executor) (offset : Nat) (state : ShardState FileLog) :
    Prop where
  accepted : ∀ record ∈ state.log.accepted, record.shard = this.firstShard + offset ∧
    (record ∈ state.log.pending ∨ record ∈ this.handed)
  pending : ∀ record ∈ state.log.pending, record.shard = this.firstShard + offset ∧
    record.seq < state.seq

/-- `bases` lie above every record let go of at the last fault. -/
structure Covers (this : Executor) (bases : List Nat) : Prop where
  length : bases.length = this.states.length
  above : ∀ batch records, batch < this.sync.floor →
    this.sync.submissions[batch]? = some records → ∀ record ∈ records,
    ∀ offset base, record.shard = this.firstShard + offset →
      bases[offset]? = some base → record.seq < base

variable [SipHasher]

structure Ordered (this : Executor) : Prop where
  batches : this.sync.submissions.length = this.sync.batch
  nonempty : ∀ records ∈ this.sync.submissions, records ≠ []
  floor : this.sync.floor ≤ this.sync.submissions.length
  held : ∀ held ∈ this.sync.held,
    this.sync.floor ≤ held.batch ∧ HeldWhole this.sync.submissions held
  linked : this.sync.link = false →
    this.sync.isRefusing = true ∧ this.sync.writerLost = true
  unheld : this.sync.isRefusing = true → this.sync.held = []
  shards : ∀ state ∈ this.states,
    state.refusing = this.sync.isRefusing ∧ state.dict.Sound
  buffered : ∀ offset state, this.states[offset]? = some state →
    this.Buffered offset state
  below : ∀ record ∈ this.handed, ∀ offset state, this.states[offset]? = some state →
    record.shard = this.firstShard + offset → record.seq < state.seq
  cycle : ∀ cycle, this.checkpoint.open = some cycle →
    cycle.openedAfter = this.checkpoint.forces ∧ this.Covers cycle.bases ∧
      (this.sync.isRefusing = true → cycle.bases = this.states.map ShardState.seq)
  image : this.sync.isRefusing = false → 0 < this.sync.floor →
    ∃ image, this.image = some image ∧ this.Covers image.bases

variable {this : Executor}

/-- Two executors that differ in nothing `Ordered` speaks of, nor in whose they are. -/
structure Alike (before after : Executor) : Prop where
  index : after.index = before.index
  policy : after.sync.policy = before.sync.policy
  firstShard : after.firstShard = before.firstShard
  states : after.states = before.states
  opened : after.checkpoint.open = before.checkpoint.open
  forces : after.checkpoint.forces = before.checkpoint.forces
  image : after.image = before.image
  staging : after.sync.staging = before.sync.staging
  submissions : after.sync.submissions = before.sync.submissions
  batch : after.sync.batch = before.sync.batch
  floor : after.sync.floor = before.sync.floor
  held : after.sync.held = before.sync.held
  link : after.sync.link = before.sync.link
  refusing : after.sync.isRefusing = before.sync.isRefusing
  lost : after.sync.writerLost = before.sync.writerLost

omit [SipHasher] in
theorem Alike.refl (this : Executor) : Alike this this := by
  constructor <;> rfl

omit [SipHasher] in
theorem Covers.alike {bases : List Nat} (covers : this.Covers bases)
    (alike : Alike this after) : after.Covers bases := by
  constructor
  · rw [alike.states]
    exact covers.length
  · rw [alike.floor, alike.submissions, alike.firstShard]
    exact covers.above

theorem Ordered.alike (ordered : this.Ordered) (alike : Alike this after) : after.Ordered := by
  have handed : after.handed = this.handed := by
    unfold handed
    rw [alike.staging, alike.submissions]
  constructor
  · rw [alike.submissions, alike.batch]
    exact ordered.batches
  · rw [alike.submissions]
    exact ordered.nonempty
  · rw [alike.submissions, alike.floor]
    exact ordered.floor
  · rw [alike.submissions, alike.floor, alike.held]
    exact ordered.held
  · rw [alike.link, alike.refusing, alike.lost]
    exact ordered.linked
  · rw [alike.refusing, alike.held]
    exact ordered.unheld
  · rw [alike.states, alike.refusing]
    exact ordered.shards
  · intro offset state located
    rw [alike.states] at located
    have old := ordered.buffered offset state located
    constructor
    · rw [handed, alike.firstShard]
      exact old.accepted
    · rw [alike.firstShard]
      exact old.pending
  · rw [handed, alike.states, alike.firstShard]
    exact ordered.below
  · intro cycle opened
    rw [alike.opened] at opened
    obtain ⟨later, covers, bases⟩ := ordered.cycle cycle opened
    refine ⟨later.trans alike.forces.symm, covers.alike alike, ?_⟩
    rw [alike.refusing, alike.states]
    exact bases
  · intro serves raised
    rw [alike.refusing] at serves
    rw [alike.floor] at raised
    obtain ⟨image, found, covers⟩ := ordered.image serves raised
    exact ⟨image, alike.image.trans found, covers.alike alike⟩

/-- A shard that has moved on; while writes are refused it appended nothing. -/
structure Moved (refuses : Bool) (shard : Nat) (before after : ShardState FileLog) :
    Prop where
  appends : ∃ fresh, ShardState.Appends shard before after fresh
  refusing : after.refusing = before.refusing
  sound : after.dict.Sound
  quiet : refuses = true → after.seq = before.seq

theorem Ordered.moveShards (ordered : this.Ordered) (length : states.length = this.states.length)
    (moved : ∀ (offset : Nat) (state after : ShardState FileLog),
      this.states[offset]? = some state → states[offset]? = some after →
      Moved this.sync.isRefusing (this.firstShard + offset) state after) :
    Ordered { this with states := states } := by
  have former : ∀ (offset : Nat) (after : ShardState FileLog),
      states[offset]? = some after → ∃ state, this.states[offset]? = some state ∧
        Moved this.sync.isRefusing (this.firstShard + offset) state after := by
    intro offset after found
    have inside := (List.getElem?_eq_some_iff.mp found).1
    rw [length] at inside
    exact ⟨_, List.getElem?_eq_getElem inside,
      moved offset _ after (List.getElem?_eq_getElem inside) found⟩
  have grown : ∀ {shard : Nat} {state after : ShardState FileLog} {refuses : Bool},
      Moved refuses shard state after → state.seq ≤ after.seq := by
    intro shard state after refuses moved
    obtain ⟨fresh, appends⟩ := moved.appends
    have counted := appends.seq
    omega
  have covers : ∀ {bases : List Nat}, this.Covers bases →
      Covers { this with states := states } bases :=
    fun covers => ⟨covers.length.trans length.symm, covers.above⟩
  refine { ordered with shards := ?_, buffered := ?_, below := ?_, cycle := ?_, image := ?_ }
  · intro after member
    obtain ⟨offset, found⟩ := List.mem_iff_getElem?.mp member
    obtain ⟨state, located, moved⟩ := former offset after found
    exact ⟨moved.refusing.trans (ordered.shards state (List.mem_of_getElem? located)).1,
      moved.sound⟩
  · intro offset after found
    obtain ⟨state, located, moved⟩ := former offset after found
    obtain ⟨fresh, appends⟩ := moved.appends
    have old := ordered.buffered offset state located
    constructor
    · intro record member
      rw [appends.accepted] at member
      rcases List.mem_append.mp member with early | late
      · obtain ⟨shard, pending | gone⟩ := old.accepted record early
        · exact ⟨shard, Or.inl (appends.pending ▸ List.mem_append_left _ pending)⟩
        · exact ⟨shard, Or.inr gone⟩
      · exact ⟨(appends.owned record late).1,
          Or.inl (appends.pending ▸ List.mem_append_right _ late)⟩
    · intro record member
      rw [appends.pending] at member
      rcases List.mem_append.mp member with early | late
      · obtain ⟨shard, below⟩ := old.pending record early
        exact ⟨shard, Nat.lt_of_lt_of_le below (grown moved)⟩
      · exact appends.owned record late
  · intro record member offset after found shard
    obtain ⟨state, located, moved⟩ := former offset after found
    exact Nat.lt_of_lt_of_le (ordered.below record member offset state located shard) (grown moved)
  · intro cycle opened
    obtain ⟨after, covered, bases⟩ := ordered.cycle cycle opened
    refine ⟨after, covers covered, ?_⟩
    intro refuses
    rw [bases refuses]
    apply List.ext_getElem
    · simp [length]
    · intro offset inside outside
      rw [List.length_map] at inside outside
      rw [List.getElem_map, List.getElem_map]
      exact ((moved offset _ _ (List.getElem?_eq_getElem inside)
        (List.getElem?_eq_getElem outside)).quiet refuses).symm
  · intro serves raised
    obtain ⟨image, found, covered⟩ := ordered.image serves raised
    exact ⟨image, found, covers covered⟩

theorem Ordered.setShard (ordered : this.Ordered) {state after : ShardState FileLog}
    (located : this.states[offset]? = some state)
    (moved : Moved this.sync.isRefusing (this.firstShard + offset) state after) :
    Ordered { this with states := this.states.set offset after } := by
  apply ordered.moveShards List.length_set
  intro position former latter found foundLater
  by_cases same : offset = position
  · subst same
    rw [List.getElem?_set_self (List.getElem?_eq_some_iff.mp located).1,
      Option.some.injEq] at foundLater
    rw [located, Option.some.injEq] at found
    subst found foundLater
    exact moved
  · rw [List.getElem?_set_ne same, found, Option.some.injEq] at foundLater
    subst foundLater
    exact ⟨⟨[], .of_same rfl rfl⟩, rfl,
      (ordered.shards former (List.mem_of_getElem? found)).2, fun _ => rfl⟩

theorem Ordered.sameShards (ordered : this.Ordered) (same : SameShards this.states states) :
    Ordered { this with states := states } := by
  apply ordered.moveShards same.length
  intro offset state after located found
  obtain ⟨original, originally, shared⟩ := same.getElem? found
  rw [located, Option.some.injEq] at originally
  subst originally
  exact
    { appends := ⟨[], by rw [shared.accepted, List.append_nil],
        by rw [shared.pending, List.append_nil], nofun,
        shared.seq⟩
      refusing := shared.refusing
      sound := shared.dict ▸ (ordered.shards state (List.mem_of_getElem? located)).2
      quiet := fun _ => shared.seq }

/-- What the shards appended, and where they stand. -/
def logged (states : List (ShardState FileLog)) : List (Nat × List Record) :=
  states.map fun state => (state.seq, state.log.accepted)

omit [SipHasher] in
theorem seqs_of_logged {before after : List (ShardState FileLog)}
    (same : logged after = logged before) :
    after.map ShardState.seq = before.map ShardState.seq := by
  simpa [logged, Function.comp_def] using congrArg (List.map Prod.fst) same

omit [SipHasher] in
theorem logged_set {state after : ShardState FileLog}
    (located : states[offset]? = some state) (seq : after.seq = state.seq)
    (accepted : after.log.accepted = state.log.accepted) :
    logged (states.set offset after) = logged states := by
  unfold logged
  rw [List.map_set, seq, accepted]
  apply List.ext_getElem?
  intro position
  by_cases same : offset = position
  · subst same
    rw [List.getElem?_set_self (by simpa using (List.getElem?_eq_some_iff.mp located).1),
      List.getElem?_map, located]
    rfl
  · rw [List.getElem?_set_ne same]

/-- What a handler that ends no refusal does: the invariant stays, the world sees what
`Conduct` allows, and nothing is appended while writes are refused. -/
structure Handled (low bound : Nat) (before : Executor) (world : World)
    (after : Executor) (later : World) : Prop where
  ordered : after.Ordered
  conduct : Conduct low bound before world after later
  refusing : before.sync.isRefusing = true → after.sync.isRefusing = true
  quiet : before.sync.isRefusing = true → logged after.states = logged before.states

namespace Handled

variable {low bound : Nat} {before middle after : Executor}
  {world between later : World}

theorem refl (ordered : this.Ordered) (world : World) : Handled low bound this world this world :=
  ⟨ordered, .refl this world, id, fun _ => rfl⟩

theorem trans (one : Handled low bound before world middle between)
    (two : Handled low bound middle between after later) :
    Handled low bound before world after later where
  ordered := two.ordered
  conduct := one.conduct.trans two.conduct
  refusing refuses := two.refusing (one.refusing refuses)
  quiet refuses := (two.quiet (one.refusing refuses)).trans (one.quiet refuses)

theorem alike (ordered : this.Ordered) (alike : Alike this after)
    (aside : World.Aside world later) : Handled low bound this world after later where
  ordered := ordered.alike alike
  conduct := .aside aside alike.index alike.policy alike.link (Nat.le_of_eq alike.floor.symm)
    alike.submissions
  refusing refuses := alike.refusing.trans refuses
  quiet _ := congrArg logged alike.states

end Handled

/-- What staging changes: buffers empty into the staging buffer. -/
structure Staged (before after : Executor) (offsets : List Nat) : Prop where
  rest : after = { before with
    states := after.states
    sync := { before.sync with staging := after.sync.staging } }
  logs : logged after.states = logged before.states
  kept : ∀ record ∈ before.sync.staging, record ∈ after.sync.staging
  flushed : ∀ offset ∈ offsets, ∀ state, before.states[offset]? = some state →
    ∀ record ∈ state.log.pending, record ∈ after.sync.staging

omit [SipHasher] in
theorem stageShard_eq (points : List (Nat × Nat)) (offset : Nat) :
    (stageShard (points, this) offset).2 = match this.states[offset]? with
      | none => this
      | some state => { this with
          states := this.states.set offset { state with log := state.log.flushInto.2 }
          sync := { this.sync with staging := this.sync.staging ++ state.log.pending } } := by
  cases located : this.states[offset]? with
  | none => simp [stageShard, located]
  | some state =>
    simp only [stageShard, located, FileLog.flushInto_fst]
    split <;> rfl

omit [SipHasher] in
theorem staged_stageShard (points : List (Nat × Nat)) (offset : Nat) :
    Staged this (stageShard (points, this) offset).2 [offset] := by
  rw [stageShard_eq]
  cases located : this.states[offset]? with
  | none =>
    refine ⟨rfl, rfl, fun _ member => member, ?_⟩
    intro position member state found
    rw [List.mem_singleton.mp member, located] at found
    cases found
  | some state =>
    refine ⟨rfl, logged_set located rfl (FileLog.flushInto_accepted state.log),
      fun _ member => List.mem_append_left _ member, ?_⟩
    intro position member other found record pending
    rw [List.mem_singleton.mp member, located, Option.some.injEq] at found
    subst found
    exact List.mem_append_right _ pending

theorem Ordered.stageShard (ordered : this.Ordered) (points : List (Nat × Nat))
    (offset : Nat) : (Executor.stageShard (points, this) offset).2.Ordered := by
  rw [stageShard_eq]
  cases located : this.states[offset]? with
  | none => exact ordered
  | some state =>
    have inside := (List.getElem?_eq_some_iff.mp located).1
    have member : ∀ record ∈ this.handed, record ∈ handed { this with
        states := this.states.set offset { state with log := state.log.flushInto.2 }
        sync := { this.sync with staging := this.sync.staging ++ state.log.pending } } := by
      intro record found
      rcases List.mem_append.mp found with staged | sent
      · exact List.mem_append_left _ (List.mem_append_left _ staged)
      · exact List.mem_append_right _ sent
    have covers : ∀ {bases : List Nat}, this.Covers bases → Covers { this with
        states := this.states.set offset { state with log := state.log.flushInto.2 }
        sync := { this.sync with staging := this.sync.staging ++ state.log.pending } }
        bases :=
      fun covers => ⟨by simpa using covers.length, covers.above⟩
    have seqs : (this.states.set offset
        { state with log := state.log.flushInto.2 }).map ShardState.seq =
        this.states.map ShardState.seq := by
      have staged : Staged this (Executor.stageShard (points, this) offset).2 [offset] :=
        staged_stageShard points offset
      have seqs := seqs_of_logged staged.logs
      rw [stageShard_eq, located] at seqs
      exact seqs
    refine { ordered with shards := ?_, buffered := ?_, below := ?_, cycle := ?_, image := ?_ }
    · intro other found
      rcases List.mem_or_eq_of_mem_set found with old | rfl
      · exact ordered.shards other old
      · exact ordered.shards state (List.mem_of_getElem? located)
    · intro position other found
      by_cases same : offset = position
      · subst same
        rw [List.getElem?_set_self inside, Option.some.injEq] at found
        subst found
        have old := ordered.buffered offset state located
        constructor
        · intro record accepted
          rw [FileLog.flushInto_accepted] at accepted
          obtain ⟨shard, pending | gone⟩ := old.accepted record accepted
          · exact ⟨shard, Or.inr (List.mem_append_left _ (List.mem_append_right _ pending))⟩
          · exact ⟨shard, Or.inr (member record gone)⟩
        · intro record pending
          rw [FileLog.flushInto_pending] at pending
          cases pending
      · rw [List.getElem?_set_ne same] at found
        have old := ordered.buffered position other found
        refine ⟨?_, old.pending⟩
        intro record accepted
        obtain ⟨shard, pending | gone⟩ := old.accepted record accepted
        · exact ⟨shard, Or.inl pending⟩
        · exact ⟨shard, Or.inr (member record gone)⟩
    · intro record gone position other found owned
      have shard : record.shard = this.firstShard + position := owned
      have below : ∀ original, this.states[position]? = some original →
          record.seq < original.seq := by
        intro original held
        rcases List.mem_append.mp gone with staged | sent
        · rcases List.mem_append.mp staged with earlier | pending
          · exact ordered.below record (List.mem_append_left _ earlier) position original held shard
          · obtain ⟨owner, below⟩ := (ordered.buffered offset state located).pending record pending
            have same : offset = position := by omega
            subst same
            rw [located, Option.some.injEq] at held
            exact held ▸ below
        · exact ordered.below record (List.mem_append_right _ sent) position original held shard
      by_cases same : offset = position
      · subst same
        rw [List.getElem?_set_self inside, Option.some.injEq] at found
        subst found
        exact below state located
      · rw [List.getElem?_set_ne same] at found
        exact below other found
    · intro cycle opened
      obtain ⟨after, covered, bases⟩ := ordered.cycle cycle opened
      exact ⟨after, covers covered, fun refuses => (bases refuses).trans seqs.symm⟩
    · intro serves raised
      obtain ⟨image, found, covered⟩ := ordered.image serves raised
      exact ⟨image, found, covers covered⟩

omit [SipHasher] in
theorem Staged.refl (this : Executor) : Staged this this [] :=
  ⟨rfl, rfl, fun _ member => member, nofun⟩

/-- The rest of a staging, after its first shard. -/
theorem staged_foldl (offsets : List Nat) : ∀ (points : List (Nat × Nat)) (this : Executor),
    this.Ordered → (offsets.foldl Executor.stageShard (points, this)).2.Ordered ∧
      Staged this (offsets.foldl Executor.stageShard (points, this)).2 offsets := by
  induction offsets with
  | nil => exact fun _ this ordered => ⟨ordered, .refl this⟩
  | cons offset rest induction =>
    intro points this ordered
    have first : Staged this (Executor.stageShard (points, this) offset).2 [offset] :=
      staged_stageShard points offset
    have others : ∀ position, position ≠ offset →
        (Executor.stageShard (points, this) offset).2.states[position]? =
          this.states[position]? := by
      intro position different
      rw [stageShard_eq]
      cases this.states[offset]? with
      | none => rfl
      | some state => exact List.getElem?_set_ne different.symm
    have firstOrdered := ordered.stageShard points offset
    rw [List.foldl_cons]
    generalize Executor.stageShard (points, this) offset = middle at *
    obtain ⟨reordered, later⟩ := induction middle.1 middle.2 firstOrdered
    refine ⟨reordered, ?_, later.logs.trans first.logs,
      fun record member => later.kept record (first.kept record member), ?_⟩
    · rw [later.rest, first.rest]
    · intro position member state located record pending
      by_cases same : position = offset
      · subst same
        exact later.kept record
          (first.flushed position (List.mem_singleton_self _) state located record pending)
      · have within := (List.mem_cons.mp member).resolve_left same
        exact later.flushed position within state
          ((others position same).trans located) record pending

/-- What is staged becomes the next batch. -/
theorem Ordered.handedOver (ordered : this.Ordered) (staged : this.sync.staging ≠ []) :
    Ordered { this with sync := { this.sync with
      staging := []
      batch := this.sync.batch + 1
      submissions := this.sync.submissions ++ [this.sync.staging] } } := by
  have member : ∀ record ∈ this.handed, record ∈
      [] ++ (this.sync.submissions ++ [this.sync.staging]).flatten := by
    intro record found
    rcases List.mem_append.mp found with staged | sent
    · simp [staged]
    · simp [List.mem_flatten.mp sent]
  have covers : ∀ {bases : List Nat}, this.Covers bases → Covers { this with
      sync := { this.sync with
        staging := []
        batch := this.sync.batch + 1
        submissions := this.sync.submissions ++ [this.sync.staging] } } bases := by
    intro bases covers
    refine ⟨covers.length, ?_⟩
    intro batch records below located
    have inside : batch < this.sync.submissions.length := Nat.lt_of_lt_of_le below ordered.floor
    rw [List.getElem?_append_left inside] at located
    exact covers.above batch records below located
  refine ⟨?_, ?_, ?_, ?_, ordered.linked, ordered.unheld, ordered.shards, ?_, ?_, ?_, ?_⟩
  · rw [List.length_append, ordered.batches]
    rfl
  · intro records found
    rcases List.mem_append.mp found with old | new
    · exact ordered.nonempty records old
    · rw [List.mem_singleton.mp new]
      exact staged
  · rw [List.length_append]
    exact Nat.le_succ_of_le ordered.floor
  · intro held found
    obtain ⟨above, answered, records, replies, wrote, served, located, each⟩ :=
      ordered.held held found
    refine ⟨above, answered, records, replies, wrote, served, ?_, each⟩
    rw [List.getElem?_append_left (List.getElem?_eq_some_iff.mp located).1]
    exact located
  · intro offset state located
    have old := ordered.buffered offset state located
    refine ⟨?_, old.pending⟩
    intro record accepted
    obtain ⟨shard, pending | gone⟩ := old.accepted record accepted
    · exact ⟨shard, Or.inl pending⟩
    · exact ⟨shard, Or.inr (member record gone)⟩
  · intro record gone
    apply ordered.below record
    rcases List.mem_append.mp gone with staged | sent
    · cases staged
    · rw [List.flatten_append, List.flatten_singleton] at sent
      rcases List.mem_append.mp sent with old | new
      · exact List.mem_append_right _ old
      · exact List.mem_append_left _ new
  · intro cycle opened
    obtain ⟨after, covered, bases⟩ := ordered.cycle cycle opened
    exact ⟨after, covers covered, bases⟩
  · intro serves raised
    obtain ⟨image, found, covered⟩ := ordered.image serves raised
    exact ⟨image, found, covers covered⟩

/-- What a submission changes. -/
structure Submitted (before : Executor) (submitted : Bool) (after : Executor) : Prop where
  submissions : after.sync.submissions =
    before.sync.submissions ++ (if submitted then [before.sync.staging] else [])
  nothing : submitted = false → before.sync.staging = []
  mode : after.sync.mode = before.sync.mode
  floor : after.sync.floor = before.sync.floor

theorem Ordered.submit (ordered : this.Ordered) (low bound : Nat)
    (shards : List (Nat × Nat)) (world : World) :
    Submitted this ((this.submit shards).run World.handle world).1.1
        ((this.submit shards).run World.handle world).1.2 ∧
      Handled low bound this world ((this.submit shards).run World.handle world).1.2
        ((this.submit shards).run World.handle world).2 := by
  unfold Executor.submit
  by_cases empty : this.sync.staging = []
  · simp only [empty, List.isEmpty_nil, if_true, Program.run_pure]
    exact ⟨⟨by simp, fun _ => empty, rfl, rfl⟩, .refl ordered world⟩
  · have staged : this.sync.staging.isEmpty = false := by
      simpa [List.isEmpty_iff] using empty
    have handed := ordered.handedOver empty
    simp only [staged, Bool.false_eq_true, if_false]
    by_cases linked : this.sync.link = true
    · simp only [if_pos linked, Program.run_bind, Task.run_toWriter, Program.run_pure]
      generalize tracked : SyncState.track _ (Sent.mk this.sync.batch shards) = sync
      have same : ∃ sent, sync = { this.sync with
          staging := []
          sentBytes := this.sync.sentBytes + encodedLen this.sync.staging
          batch := this.sync.batch + 1
          submissions := this.sync.submissions ++ [this.sync.staging]
          sent := sent } := by
        rw [← tracked]
        unfold SyncState.track
        split
        · exact ⟨_, rfl⟩
        · exact ⟨_, rfl⟩
      obtain ⟨sent, rfl⟩ := same
      refine ⟨⟨rfl, by simp, rfl, rfl⟩, ?_⟩
      refine ⟨handed.alike (by constructor <;> rfl), ?_, id, fun _ => rfl⟩
      refine ⟨rfl, rfl, rfl, Nat.le_refl _, ⟨[this.sync.staging], rfl, ?_⟩, ?_,
        fun _ _ => rfl, rfl, ⟨[], by simp, by simp⟩⟩
      · intro _
        simp [submitsOf, ordered.batches]
      · intro other different
        simp [submitsOf, different.symm]
    · simp only [if_neg linked, Program.run_pure]
      refine ⟨⟨rfl, by simp, rfl, rfl⟩, ?_⟩
      refine ⟨handed.alike (by constructor <;> rfl), ?_, id, fun _ => rfl⟩
      exact ⟨rfl, rfl, rfl, Nat.le_refl _,
        ⟨[this.sync.staging], rfl, fun link => absurd link linked⟩, fun _ _ => rfl,
        fun _ _ => rfl, rfl, ⟨[], by simp, by simp⟩⟩

theorem Ordered.stage (ordered : this.Ordered) (low bound : Nat) (offsets : List Nat)
    (world : World) :
    Staged this (this.stage offsets).2 offsets ∧
      Handled low bound this world (this.stage offsets).2 world := by
  obtain ⟨reordered, staged⟩ := staged_foldl offsets [] this ordered
  refine ⟨staged, reordered, ?_, ?_, fun _ => staged.logs⟩
  · apply Conduct.aside (.refl world)
    all_goals rw [Executor.stage, staged.rest]
  · rw [Executor.stage, staged.rest]
    exact id

section

omit [SipHasher]

@[simp]
theorem run_sendAll (answers : List Answer) (world : World) :
    (sendAll answers).run World.handle world =
      ((), { world with answered := world.answered ++ answers }) := by
  induction answers generalizing world with
  | nil => simp [sendAll]
  | cons answer rest induction => simp [sendAll, induction]

theorem error_of_refuseWrites (replies : List Reply) (wrote : List Bool) (offset : Nat)
    {reply : Reply} (written : wrote[offset]? = some true)
    (located : (SyncState.refuseWrites replies wrote)[offset]? = some reply) :
    ∃ error, reply = .error error := by
  fun_induction SyncState.refuseWrites replies wrote generalizing offset with
  | case1 error replies first rest induction =>
    cases offset with
    | zero =>
      rw [List.getElem?_cons_zero, Option.some.injEq] at located
      exact ⟨error, located.symm⟩
    | succ offset => exact induction offset written located
  | case2 first replies wrote rest notError induction =>
    cases offset with
    | zero =>
      rw [List.getElem?_cons_zero, Option.some.injEq] at written located
      rw [written, if_pos rfl] at located
      exact ⟨_, located.symm⟩
    | succ offset => exact induction offset written located
  | case3 replies wrote _ short =>
    cases replies with
    | nil => simp at located
    | cons reply replies =>
      cases wrote with
      | nil => simp at written
      | cons wrote rest => exact absurd rfl (short reply replies wrote rest rfl)

theorem HeldWhole.located (whole : HeldWhole submissions held) {served : Served}
    (found : held.served[offset]? = some served)
    (writes : served.command.writesTheLog = true) {record : Record}
    (appended : record ∈ served.appended) :
    held.wrote[offset]? = some true ∧
      ∃ records, submissions[held.batch]? = some records ∧ record ∈ records := by
  obtain ⟨answered, records, _, wrote, servedEq, located, each⟩ := whole
  rw [servedEq, List.getElem?_map] at found
  obtain ⟨one, oneAt, rfl⟩ := Option.map_eq_some_iff.mp found
  obtain ⟨unwritten, inside⟩ := each one (List.mem_of_getElem? oneAt)
  have appends : one.appended = true := by
    by_contra quiet
    rw [unwritten (by simpa using quiet)] at appended
    cases appended
  refine ⟨?_, records, located, inside record appended⟩
  rw [wrote, List.getElem?_map, oneAt, Option.map_some, appends, writes]
  rfl

theorem HeldWhole.backed_refused (whole : HeldWhole submissions held) (low bound index : Nat) :
    Answer.Backed submissions low bound ⟨index, held.client,
      SyncState.refuseWrites held.replies held.wrote, held.served⟩ := by
  intro reply served member accepted writes record appended
  obtain ⟨offset, found⟩ := List.mem_iff_getElem?.mp member
  obtain ⟨replyAt, servedAt⟩ := List.getElem?_zip_eq_some.mp found
  obtain ⟨wrote, _⟩ := whole.located servedAt writes appended
  obtain ⟨error, failed⟩ := error_of_refuseWrites _ _ offset wrote replyAt
  exact absurd failed (accepted error)

theorem HeldWhole.backed (whole : HeldWhole submissions held) {low bound : Nat}
    (above : low ≤ held.batch) (below : held.batch < bound) (index : Nat) :
    Answer.Backed submissions low bound ⟨index, held.client, held.replies, held.served⟩ := by
  intro reply served member _ writes record appended
  obtain ⟨offset, found⟩ := List.mem_iff_getElem?.mp member
  obtain ⟨_, servedAt⟩ := List.getElem?_zip_eq_some.mp found
  obtain ⟨_, records, located, inside⟩ := whole.located servedAt writes appended
  exact ⟨held.batch, records, above, below, located, inside⟩

end

theorem Ordered.reheld (ordered : this.Ordered) {held : List Held}
    (whole : ∀ one ∈ held, this.sync.floor ≤ one.batch ∧ HeldWhole this.sync.submissions one)
    (unheld : this.sync.isRefusing = true → held = []) :
    Ordered { this with sync := { this.sync with held := held } } where
  __ := ordered
  held := whole
  unheld := unheld
  buffered offset state located := { ordered.buffered offset state located with }
  cycle cycle opened := by
    obtain ⟨after, covers, bases⟩ := ordered.cycle cycle opened
    exact ⟨after, ⟨covers.length, covers.above⟩, bases⟩
  image serves raised := by
    obtain ⟨image, found, covers⟩ := ordered.image serves raised
    exact ⟨image, found, ⟨covers.length, covers.above⟩⟩

theorem Ordered.send (ordered : this.Ordered) {low bound : Nat} {held : List Held}
    {answers : List Answer} (subset : ∀ one ∈ held, one ∈ this.sync.held)
    (backed : ∀ answer ∈ answers, answer.Backed this.sync.submissions low bound) (world : World) :
    Handled low bound this world { this with sync := { this.sync with held := held } }
      { world with answered := world.answered ++ answers } where
  ordered := ordered.reheld (fun one member => ordered.held one (subset one member))
    fun refuses => List.eq_nil_iff_forall_not_mem.mpr fun one member =>
      List.not_mem_nil (ordered.unheld refuses ▸ subset one member)
  conduct := ⟨rfl, rfl, rfl, Nat.le_refl _, ⟨[], by simp, by simp⟩, fun _ _ => rfl,
    fun _ _ => rfl, rfl, ⟨answers, rfl, fun _ => backed⟩⟩
  refusing := id
  quiet _ := rfl

theorem Ordered.failAll (ordered : this.Ordered) (low bound : Nat) (world : World) :
    this.failAll.Leads world (Handled low bound this world) := by
  simp only [Task.Leads, Executor.failAll, Program.run_bind, run_sendAll, Program.run_pure]
  apply ordered.send (fun one member => absurd member List.not_mem_nil)
  intro answer member
  obtain ⟨held, inside, rfl⟩ := List.mem_map.mp member
  exact (ordered.held held inside).2.backed_refused low bound this.index

/-- `release_through`: what goes out is in a batch up to and including
`through`. -/
theorem Ordered.releaseThrough (ordered : this.Ordered) (through : Nat) (world : World) :
    (this.releaseThrough through).Leads world
      (Handled this.sync.floor (through + 1) this world) := by
  simp only [Task.Leads, Executor.releaseThrough, Program.run_bind, run_sendAll, Program.run_pure]
  apply ordered.send fun one member => (List.dropWhile_sublist _).subset member
  intro answer member
  obtain ⟨held, inside, rfl⟩ := List.mem_map.mp member
  obtain ⟨above, whole⟩ := ordered.held held ((List.takeWhile_sublist _).subset inside)
  have released : held.batch ≤ through := by
    simpa [SyncState.releases] using List.all_eq_true.mp List.all_takeWhile held inside
  exact whole.backed above (Nat.lt_succ_of_le released) this.index

section

omit [SipHasher]

theorem setRefusing_getElem? {refusing : Bool} {state : ShardState FileLog}
    (located : (setRefusing states refusing)[offset]? = some state) :
    ∃ original, states[offset]? = some original ∧
      state = { original with refusing := refusing } := by
  rw [setRefusing, List.getElem?_map] at located
  obtain ⟨original, found, same⟩ := Option.map_eq_some_iff.mp located
  exact ⟨original, found, same.symm⟩

theorem logged_setRefusing (states : List (ShardState FileLog)) (refusing : Bool) :
    logged (setRefusing states refusing) = logged states := by
  simp [logged, setRefusing, Function.comp_def]

theorem setRefusing_self {refusing : Bool} (already : ∀ state ∈ states, state.refusing = refusing) :
    setRefusing states refusing = states := by
  unfold setRefusing
  conv_rhs => rw [← List.map_id states]
  apply List.map_congr_left
  intro state member
  rw [← already state member]
  rfl

/-- The world once every held batch was answered with the refusal. -/
def toldOff (this : Executor) (world : World) : World :=
  { world with answered := world.answered ++ this.sync.held.map fun held =>
    ⟨this.index, held.client, SyncState.refuseWrites held.replies held.wrote, held.served⟩ }

theorem run_failAll (this : Executor) (world : World) :
    this.failAll.run World.handle world =
      ({ this with sync := { this.sync with held := [] } }, this.toldOff world) := by
  simp [Executor.failAll, toldOff]

/-- What `refuse` makes of an executor, its checkpoint apart. -/
def ceased (this : Executor) : Executor :=
  { this with
    sync := { this.sync with
      held := []
      sent := []
      ackedBytes := this.sync.sentBytes
      floor := this.sync.submissions.length
      mode := if this.sync.isRefusing then this.sync.mode else .refusing 0 0 }
    states := if this.sync.isRefusing then this.states else setRefusing this.states true
    saves := this.saves ++ this.savesAfter
    savesAfter := [] }

theorem run_refuse (this : Executor) (world : World) :
    this.refuse.run World.handle world =
      ({ this.ceased with
          checkpoint := (this.checkpoint.force.run World.handle (this.toldOff world)).1 },
        (this.checkpoint.force.run World.handle (this.toldOff world)).2) := by
  simp only [Executor.refuse, Program.run_bind, run_failAll, Program.run_pure, ceased]
  have same : SyncState.isRefusing { this.sync with
      held := [], sent := [], ackedBytes := this.sync.sentBytes,
      floor := this.sync.submissions.length } = this.sync.isRefusing := rfl
  rw [same]
  cases this.sync.isRefusing <;> rfl

theorem isRefusing_ceased (this : Executor) : this.ceased.sync.isRefusing = true := by
  cases mode : this.sync.mode with
  | serving | refusing => simp [Executor.ceased, SyncState.isRefusing, mode]

theorem logged_ceased (this : Executor) : logged this.ceased.states = logged this.states := by
  dsimp only [Executor.ceased]
  split
  · rfl
  · exact logged_setRefusing _ _

end

/-- An executor that may just have lost its writer. -/
def cut (this : Executor) (link lost : Bool) : Executor :=
  { this with sync := { this.sync with link := link, writerLost := lost } }

/-- The executor once it refuses writes, no cycle being open. -/
theorem Ordered.ceased (ordered : this.Ordered) {link lost : Bool}
    (gone : link = false → lost = true) {checkpoint : SegmentCheckpoint}
    (closed : checkpoint.open = none) :
    Ordered { (this.cut link lost).ceased with checkpoint := checkpoint } := by
  have refuses := isRefusing_ceased (this.cut link lost)
  have states : (this.cut link lost).ceased.states = setRefusing this.states true := by
    dsimp only [Executor.ceased]
    split
    · next already =>
        exact (setRefusing_self fun state member =>
          (ordered.shards state member).1.trans already).symm
    · rfl
  refine ⟨ordered.batches, ordered.nonempty, Nat.le_refl _,
    nofun, fun linked => ⟨refuses, gone linked⟩,
    fun _ => rfl, ?_, ?_, ?_, ?_, ?_⟩
  · intro state member
    rw [states] at member
    obtain ⟨original, inside, rfl⟩ := List.mem_map.mp member
    exact ⟨refuses.symm, (ordered.shards original inside).2⟩
  · intro offset state located
    rw [states] at located
    obtain ⟨original, found, rfl⟩ := setRefusing_getElem? located
    have old := ordered.buffered offset original found
    exact ⟨old.accepted, old.pending⟩
  · intro record member offset state located shard
    rw [states] at located
    obtain ⟨original, found, rfl⟩ := setRefusing_getElem? located
    exact ordered.below record member offset original found shard
  · intro cycle opened
    rw [closed] at opened
    cases opened
  · intro serves
    exact absurd (serves.symm.trans refuses) (by simp)

/-- `refuse`, of an executor that may just have lost its writer. -/
theorem Ordered.refuse (ordered : this.Ordered) (low bound : Nat) {link lost : Bool}
    (gone : link = false → lost = true) (world : World) :
    (this.cut link lost).refuse.Leads world (Handled low bound (this.cut link lost) world) := by
  obtain ⟨⟨closed, _⟩, aside⟩ := World.Aside.run (this.cut link lost).checkpoint.within_force
    ((this.cut link lost).toldOff world)
  rw [Task.Leads, run_refuse]
  refine ⟨ordered.ceased gone closed, ?_, fun _ => isRefusing_ceased _,
    fun _ => logged_ceased _⟩
  refine ⟨rfl, rfl, rfl, ordered.floor, ⟨[], (List.append_nil _).symm, fun _ => ?_⟩,
    fun other _ => congrArg (submitsOf other) aside.inbox, aside.segments, aside.progress,
    ⟨_, aside.answered, fun _ answer member => ?_⟩⟩
  · exact (congrArg (submitsOf _) aside.inbox).trans (List.append_nil _).symm
  · obtain ⟨held, inside, rfl⟩ := List.mem_map.mp member
    exact (ordered.held held inside).2.backed_refused low bound this.index

section

omit [SipHasher]

theorem sameShards_syncCompleted (states : List (ShardState FileLog)) (sent : Sent) :
    SameShards states (syncCompleted states sent) := by
  unfold syncCompleted
  induction sent.shards generalizing states with
  | nil => exact .refl states
  | cons point rest induction =>
    rw [List.foldl_cons]
    refine .trans ?_ (induction _)
    apply List.ext_getElem?
    intro offset
    simp only [List.getElem?_map, List.getElem?_modify, Option.map_eq_map, Option.map_map]
    congr 1
    funext state
    simp only [Function.comp_apply]
    split <;> rfl

theorem sameShards_syncsCompleted (sent : List Sent) (states : List (ShardState FileLog)) :
    SameShards states (sent.foldl syncCompleted states) := by
  induction sent generalizing states with
  | nil => exact .refl states
  | cons first rest induction =>
    exact (sameShards_syncCompleted states first).trans (induction _)

theorem logged_sameShards {before after : List (ShardState FileLog)}
    (same : SameShards before after) : logged after = logged before :=
  same.map fun _ => rfl

end

theorem Ordered.progress (ordered : this.Ordered) (message : Progress) (world : World) :
    (this.progress message).Leads world (Handled this.sync.floor message.bound this world) := by
  cases message with
  | written | nudge =>
    exact .alike ordered (by constructor <;> rfl) (.refl world)
  | durable throughBatch bytes round =>
    cases throughBatch with
    | none =>
      exact .alike ordered (by constructor <;> rfl) (.refl world)
    | some through =>
      unfold Executor.progress
      dsimp only
      generalize this.sync.sent.takeWhile
        (fun sent => decide (sent.batch ≤ through)) = sent
      have same := sameShards_syncsCompleted sent this.states
      have dated := ordered.sameShards same
      have released : ∀ middle, Handled this.sync.floor (through + 1) this world middle
          world → middle.sync.floor = this.sync.floor → (middle.releaseThrough through).Leads world
            (Handled this.sync.floor (through + 1) this world) :=
        fun middle moved floor =>
          moved.trans (floor ▸ moved.ordered.releaseThrough through world)
      refine released _ ?_ ?_
      · exact ⟨dated.alike (by constructor <;> rfl),
          .aside (.refl world) rfl rfl rfl (Nat.le_refl _) rfl, id,
          fun _ => logged_sameShards same⟩
      · rfl
  | fault => exact ordered.refuse _ _ (fun gone => (ordered.linked gone).2) world
  | stopped => exact .refl ordered world

theorem Ordered.lost (ordered : this.Ordered) (low bound : Nat) (world : World) :
    this.lost.Leads world (Handled low bound (this.cut false true) world) :=
  ordered.refuse low bound (fun _ => rfl) world

end Executor

end Seedstone
