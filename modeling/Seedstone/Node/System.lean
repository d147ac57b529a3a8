import Seedstone.Node.Writer

/-!
# The node

Any number of executors and the writer, with the world between them.  An event
lets one of them run one handler; a run is any list of events.  An event whose
handler cannot run leaves the node as it is.
-/

namespace Seedstone

structure Node where
  executors : List Executor
  writer : Writer
  world : World

inductive Event where
  | serve (executor : Nat) (now : Now) (envelope : Envelope)
  | hear (executor : Nat)
  | hearNothing (executor : Nat)
  | tick (executor : Nat) (now : Now)
  | stop (executor : Nat) (queued : List (Now × Envelope))
  | writerBegin
  | writerTake
  | writerFlush (now : Nat)
  | writerCompleted (ok : Bool) (now : Nat)
  | writerTick (now : Nat)
  | writerLost

/-- The executor whose handler an event runs, if it is not the writer's. -/
def Event.executor? : Event → Option Nat
  | .serve executor .. | .hear executor | .hearNothing executor | .tick executor _
  | .stop executor _ => some executor
  | _ => none

namespace Node

def runExecutor (node : Node) (index : Nat) (task : Task Executor) : Node :=
  let (this, world) := task.run World.handle node.world
  { node with executors := node.executors.set index this, world := world }

def runWriter (node : Node) (task : Task Writer) : Node :=
  let (writer, world) := task.run World.handle node.world
  { node with writer := writer, world := world }

variable [SipHasher]

/-- The handlers of one executor: the inbox waits while the writer is behind,
and the writer's channel closes with the writer. -/
def stepExecutor (node : Node) (index : Nat) (this : Executor) : Event → Node
  | .serve _ now envelope =>
    if this.phase = .serving ∧ !this.sync.overBudget then
      node.runExecutor index (this.serve now envelope)
    else
      node
  | .hear _ =>
    match node.world.progress index with
    | message :: rest =>
      if this.phase ≠ .ended ∧ this.sync.link then
        runExecutor
          { node with world := { node.world with
            progress := Function.update node.world.progress index rest } }
          index (this.hear message)
      else
        node
    | [] => node
  | .hearNothing _ =>
    if node.writer.phase.gone ∧ node.world.progress index = [] ∧
        this.phase ≠ .ended ∧ this.sync.link then
      node.runExecutor index this.hearNothing
    else
      node
  | .tick _ now =>
    if this.phase = .serving then
      node.runExecutor index (this.housekeeping now)
    else
      node
  | .stop _ queued =>
    if this.phase = .serving then
      node.runExecutor index (this.stop queued)
    else
      node
  | _ => node

/-- The handlers an executor's events run, and the worlds they run in. -/
inductive Handles (node : Node) (index : Nat) (this : Executor) : Task Executor → World → Prop where
  | serve (now : Now) (envelope : Envelope)
      (ready : this.phase = .serving ∧ !this.sync.overBudget) :
      Handles node index this (this.serve now envelope) node.world
  | hear {message : Progress} {rest : List Progress}
      (queue : node.world.progress index = message :: rest)
      (ready : this.phase ≠ .ended ∧ this.sync.link) :
      Handles node index this (this.hear message)
        { node.world with progress := Function.update node.world.progress index rest }
  | hearNothing (ready : node.writer.phase.gone ∧ node.world.progress index = [] ∧
        this.phase ≠ .ended ∧ this.sync.link) :
      Handles node index this this.hearNothing node.world
  | tick (now : Now) (serves : this.phase = .serving) :
      Handles node index this (this.housekeeping now) node.world
  | stop (queued : List (Now × Envelope)) (serves : this.phase = .serving) :
      Handles node index this (this.stop queued) node.world

theorem stepExecutor_cases (node : Node) (index : Nat) (this : Executor) (event : Event) :
    node.stepExecutor index this event = node ∨ ∃ task world, Handles node index this task world ∧
      node.stepExecutor index this event = { node with
        executors := node.executors.set index (task.run World.handle world).1
        world := (task.run World.handle world).2 } := by
  unfold stepExecutor
  split
  · next now envelope =>
      split
      · next ready => exact Or.inr ⟨_, _, .serve now envelope ready, rfl⟩
      · exact Or.inl rfl
  · split
    · next queue =>
        split
        · next ready => exact Or.inr ⟨_, _, .hear queue ready, rfl⟩
        · exact Or.inl rfl
    · exact Or.inl rfl
  · split
    · next ready => exact Or.inr ⟨_, _, .hearNothing ready, rfl⟩
    · exact Or.inl rfl
  · next now =>
      split
      · next serves => exact Or.inr ⟨_, _, .tick now serves, rfl⟩
      · exact Or.inl rfl
  · next queued =>
      split
      · next serves => exact Or.inr ⟨_, _, .stop queued serves, rfl⟩
      · exact Or.inl rfl
  · exact Or.inl rfl

/-- The handlers of the writer, whose task may also be lost at any await. -/
def stepWriter (node : Node) : Event → Node
  | .writerBegin =>
    if node.writer.phase = .opened then
      node.runWriter do
        let writer ← node.writer.nudgeIfDue
        pure { writer with phase := .idle }
    else
      node
  | .writerTake =>
    match node.world.inbox with
    | message :: rest =>
      if node.writer.phase = .idle ∨ node.writer.phase = .draining then
        runWriter { node with world := { node.world with inbox := rest } }
          (node.writer.draining message)
      else
        node
    | [] => node
  | .writerFlush now =>
    if node.writer.phase = .draining then
      node.runWriter (node.writer.flush now)
    else
      node
  | .writerCompleted ok now =>
    match node.writer.awaited with
    | some flight =>
      runWriter
        { node with world := { node.world with
          disk := node.world.disk.settle flight ok } }
        (node.writer.completed ok now)
    | none => node
  | .writerTick now =>
    if node.writer.phase = .idle then
      node.runWriter (node.writer.maybeIssue now)
    else
      node
  | .writerLost =>
    if node.writer.phase.gone then
      node
    else
      { node with writer := { node.writer with phase := .lost node.writer.phase.waits } }
  | _ => node

def step (node : Node) (event : Event) : Node :=
  match event.executor? with
  | some index =>
    match node.executors[index]? with
    | some this => node.stepExecutor index this event
    | none => node
  | none => node.stepWriter event

/-- The node after any interleaving of handlers. -/
def run (node : Node) (events : List Event) : Node :=
  events.foldl step node

end Node

end Seedstone
