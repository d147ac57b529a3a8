import Seedstone.Library.Scatter
import Seedstone.Node.System
import Seedstone.Shard.Journal

/-!
# The pool

`ShardPool` of `pool.rs` over the executors of a node: which shard a key is in
and which executor hosts it (`slot.rs`), the scatter of a batch into one
envelope per executor, the cell the executors' shares land in, and the gather
that reads it.  A schedule says in which order the executors take their
envelopes, hear the writer, and drop a share they will not answer.
-/

namespace Seedstone

/-- One bit of the CRC-16/XMODEM. -/
def crc16Bit (crc : UInt16) : UInt16 :=
  if crc &&& 0x8000 ≠ 0 then (crc <<< 1) ^^^ 0x1021 else crc <<< 1

def crc16Xmodem (data : Bytes) : UInt16 :=
  data.foldl (fun crc byte => Nat.iterate crc16Bit 8 (crc ^^^ (byte.toUInt16 <<< (8 : UInt16)))) 0

def shardOf (key : Bytes) (shards : Nat) : Nat :=
  (crc16Xmodem key).toNat % shards

def executorOf (shard shards executors : Nat) : Nat :=
  shard * executors / shards

/-- What `spawn` asserts of its two counts. -/
structure ShardPool where
  shards : Nat
  executors : Nat
  positive : 1 ≤ executors
  enough : executors ≤ shards

namespace ShardPool

variable (pool : ShardPool)

def executorFor (shard : Nat) : Nat :=
  executorOf shard pool.shards pool.executors

/-- `shard_for`: the shard of a keyed command. -/
def shardFor (cmd : Command) : Option Nat :=
  match cmd.route with
  | .key key => some (shardOf key pool.shards)
  | .every | .unaddressed => none

/-- The loop of `dispatch_many`: where each reply will be found, and the buckets. -/
def scatterLoop : List Command → List (List (Nat × Command)) →
    List (Option (Nat × Nat)) × List (List (Nat × Command))
  | [], buckets => ([], buckets)
  | cmd :: rest, buckets =>
    match pool.shardFor cmd with
    | none =>
      let (positions, buckets) := scatterLoop rest buckets
      (none :: positions, buckets)
    | some shard =>
      let executor := pool.executorFor shard
      let position := (executor, (buckets.getD executor []).length)
      let (positions, buckets) :=
        scatterLoop rest (buckets.modify executor (· ++ [(shard, cmd)]))
      (some position :: positions, buckets)

def scatter (cmds : List Command) :
    List (Option (Nat × Nat)) × List (List (Nat × Command)) :=
  pool.scatterLoop cmds (List.replicate pool.executors [])

/-- The envelopes of a batch: one for each executor it reaches. -/
def envelopes (cmds : List Command) (client : Nat) : List (Nat × Envelope) :=
  ((pool.scatter cmds).2.zipIdx.filter fun bucket => !bucket.1.isEmpty).map
    fun bucket => (bucket.2, ⟨bucket.1, client⟩)

end ShardPool

/-- `ChunkReply`: a slot per executor, and the shares outstanding. -/
structure ChunkReply where
  answers : List (Option (List Reply))
  remaining : Nat
deriving DecidableEq, Repr

namespace ChunkReply

def new (executors : Nat) : ChunkReply :=
  ⟨List.replicate executors none, 0⟩

def share (cell : ChunkReply) : ChunkReply :=
  { cell with remaining := cell.remaining + 1 }

/-- A share that goes without an answer still counts itself out. -/
def drop (cell : ChunkReply) : ChunkReply :=
  { cell with remaining := cell.remaining - 1 }

def deliver (cell : ChunkReply) (executor : Nat) (replies : List Reply) : ChunkReply :=
  drop { cell with answers := cell.answers.set executor (some replies) }

/-- The loop of `gather`: each reply is taken out of its place once. -/
def gatherLoop : List (List (Option Reply)) → List (Option (Nat × Nat)) → List Reply
  | _, [] => []
  | table, none :: rest => .error .shardUnavailable :: gatherLoop table rest
  | table, some (executor, offset) :: rest =>
    let taken := (table[executor]?.bind fun replies => replies[offset]?).join
    taken.getD (.error .shardUnavailable) ::
      gatherLoop (table.modify executor fun replies => replies.set offset none) rest

/-- `gather`, or `none` while it waits for a share. -/
def gather (cell : ChunkReply) (positions : List (Option (Nat × Nat))) :
    Option (List Reply) :=
  if cell.remaining ≠ 0 then
    none
  else
    some (gatherLoop (cell.answers.map fun answer => (answer.getD []).map some) positions)

end ChunkReply

/-- `one_reply`, of what came through the channel of a one-command envelope. -/
def oneReply : Option (List Reply) → Reply
  | some [reply] => reply
  | _ => .error .shardUnavailable

/-- A node with one batch on its way: the envelopes not yet taken, the executors that
got one, the cell, and the executors that dropped their share. -/
structure Chunk where
  node : Node
  inboxes : List (Nat × Envelope)
  sent : List Nat
  cell : ChunkReply
  dead : List Nat

inductive ChunkEvent where
  | take (executor : Nat)
  | run (event : Event)
  | drop (executor : Nat)

/-- The events that serve no client: the executors hear the writer, and the writer
works. -/
def Event.isQuiet : Event → Bool
  | .hear _ | .hearNothing _ | .writerBegin | .writerTake | .writerFlush _
  | .writerCompleted .. | .writerTick _ | .writerLost => true
  | .serve .. | .tick .. | .stop .. => false

namespace Chunk

/-- A batch just sent. -/
def start (node : Node) (envelopes : List (Nat × Envelope)) : Chunk where
  node := node
  inboxes := envelopes
  sent := envelopes.map Prod.fst
  cell := envelopes.foldl (fun cell _ => cell.share) (.new node.executors.length)
  dead := []

/-- The node went on: what it answered to the batch is delivered. -/
def observe (client : Nat) (chunk : Chunk) (node : Node) : Chunk :=
  { chunk with
    node := node
    cell := (node.world.answered.drop chunk.node.world.answered.length).foldl
      (fun cell answer =>
        if answer.client = client then cell.deliver answer.executor answer.replies else cell)
      chunk.cell }

variable [SipHasher]

def step (now : Now) (client : Nat) (chunk : Chunk) : ChunkEvent → Chunk
  | .take executor =>
    match chunk.inboxes.find? (fun envelope => envelope.1 = executor),
        chunk.node.executors[executor]? with
    | some (_, envelope), some this =>
      if executor ∉ chunk.dead ∧ this.phase = .serving ∧ !this.sync.overBudget then
        observe client
          { chunk with
            inboxes := chunk.inboxes.filter fun envelope => envelope.1 ≠ executor }
          (chunk.node.step (.serve executor now envelope))
      else
        chunk
    | _, _ => chunk
  | .run event =>
    if event.isQuiet ∧ event.executor?.all (fun executor => executor ∉ chunk.dead) then
      chunk.observe client (chunk.node.step event)
    else
      chunk
  | .drop executor =>
    if executor ∈ chunk.sent ∧ chunk.cell.answers[executor]? = some none ∧
        executor ∉ chunk.dead then
      { chunk with cell := chunk.cell.drop, dead := executor :: chunk.dead }
    else
      chunk

def run (now : Now) (client : Nat) (chunk : Chunk) (schedule : List ChunkEvent) : Chunk :=
  schedule.foldl (step now client) chunk

/-- The log takes what is appended all along: no executor comes to refuse
writes. -/
def Accepts (now : Now) (client : Nat) (chunk : Chunk) (schedule : List ChunkEvent) : Prop :=
  ∀ before, before <+: schedule →
    ∀ this ∈ (chunk.run now client before).node.executors, this.sync.isRefusing = false

end Chunk

namespace ShardPool

variable [SipHasher] (pool : ShardPool)

/-- A batch on a schedule: the chunk it leaves. -/
def batch (node : Node) (now : Now) (client : Nat) (cmds : List Command)
    (schedule : List ChunkEvent) : Chunk :=
  (Chunk.start node (pool.envelopes cmds client)).run now client schedule

/-- `dispatch_many`: the replies once every share is in. -/
def dispatchMany (node : Node) (now : Now) (client : Nat) (cmds : List Command)
    (schedule : List ChunkEvent) : Option (List Reply) :=
  (pool.batch node now client cmds schedule).cell.gather (pool.scatter cmds).1

/-- One command on a schedule, sent to its shard alone. -/
def single (node : Node) (now : Now) (client shard : Nat) (cmd : Command)
    (schedule : List ChunkEvent) : Chunk :=
  (Chunk.start node [(pool.executorFor shard, ⟨[(shard, cmd)], client⟩)]).run now client
    schedule

/-- Commands dispatched one after the other, each reply awaited, by a client no other
reply is held for, on schedules without a drop and with a log that takes what is
appended. -/
inductive DispatchedEach (now : Now) :
    Node → List Command → List Reply → Node → Prop where
  | done {node : Node} : DispatchedEach now node [] [] node
  | next {node final : Node} {cmd : Command} {cmds : List Command} {replies : List Reply}
      {shard : Nat} (client : Nat) (schedule : List ChunkEvent)
      (owned : pool.shardFor cmd = some shard)
      (fresh : ∀ this ∈ node.executors, ∀ held ∈ this.sync.held, held.client ≠ client)
      (accepts : Chunk.Accepts now client (Chunk.start node
        [(pool.executorFor shard, ⟨[(shard, cmd)], client⟩)]) schedule)
      (undropped : ∀ executor, .drop executor ∉ schedule)
      (answered : (pool.single node now client shard cmd schedule).cell.remaining = 0)
      (rest : DispatchedEach now (pool.single node now client shard cmd schedule).node cmds
        replies final) :
      DispatchedEach now node (cmd :: cmds)
        (oneReply ((pool.single node now client shard cmd schedule).cell.answers[
          pool.executorFor shard]?.join) :: replies) final

end ShardPool

end Seedstone
