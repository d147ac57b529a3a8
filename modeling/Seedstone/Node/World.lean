import Seedstone.Library.Program
import Seedstone.Log.Layout

/-!
# The world around an executor and the writer

The disk (`disk.rs`), the channels between the executors and the writer, the
node's memory gauge and the clients.  Every call a handler makes is a `Call`;
`World.handle` says what it does and what it answers.  Which fallible calls
fail is decided by `answers`, one answer per call, and nothing is assumed of
it.
-/

namespace Seedstone

inductive ToWriter where
  | submit (executor batch : Nat) (records : List Record)
  | covered (executor cycle : Nat) (throughBatch : Option Nat) (snapshotBytes : Nat)
  | syncNow
  | stop (executor : Nat)
deriving DecidableEq, Repr

inductive Progress where
  | written (bytes : Nat)
  | durable (throughBatch : Option Nat) (bytes round : Nat)
  | fault
  | nudge
  | stopped
deriving DecidableEq, Repr

/-- A command of an envelope and the records it appended. -/
structure Served where
  command : Command
  appended : List Record
deriving DecidableEq, Repr

/-- Replies on their way to a client.  `served` is ghost: what each reply
answers. -/
structure Answer where
  executor : Nat
  client : Nat
  replies : List Reply
  served : List Served
deriving DecidableEq, Repr

/-- One file: the writes that returned `Ok`, how many of them were there when
the last sync that returned `Ok` was issued, and whether a write or a sync of
it has failed. -/
structure FileState where
  writes : List (List Piece)
  synced : Nat
  failed : Bool
deriving DecidableEq, Repr

def FileState.empty : FileState :=
  ⟨[], 0, false⟩

def FileState.len (file : FileState) : Nat :=
  (file.writes.flatten.map Piece.encodedLen).sum

/-- A sync in flight: the file, and the writes it was issued over. -/
structure Flight where
  name : FileName
  covers : Nat
deriving DecidableEq, Repr

/-- `files` holds every file ever created, removed or not; `directory` the
names linked now; `unsettled` the names created or removed since the directory
was last synced. -/
structure Disk where
  files : FileName → FileState
  directory : List FileName
  unsettled : List FileName
  answers : Nat → Bool
  calls : Nat

namespace Disk

def verdict (disk : Disk) : Bool :=
  disk.answers disk.calls

/-- The next call takes the next answer. -/
def called (disk : Disk) : Disk :=
  { disk with calls := disk.calls + 1 }

def setFile (disk : Disk) (name : FileName) (file : FileState) : Disk :=
  { disk with files := Function.update disk.files name file }

/-- `create_append`: an existing file is opened as it is. -/
def create (disk : Disk) (name : FileName) : Bool × Disk :=
  let next := disk.called
  if !disk.verdict then
    (false, next)
  else if name ∈ disk.directory then
    (true, next)
  else
    (true, { next with
      directory := disk.directory ++ [name]
      unsettled := name :: disk.unsettled })

/-- `write_all`: a file with a failed write is never trusted again. -/
def write (disk : Disk) (name : FileName) (pieces : List Piece) : Bool × Disk :=
  let file := disk.files name
  if disk.verdict then
    (true, disk.called.setFile name { file with writes := file.writes ++ [pieces] })
  else
    (false, disk.called.setFile name { file with failed := true })

/-- A sync that answers: it covers what had been written when it was issued. -/
def settle (disk : Disk) (flight : Flight) (ok : Bool) : Disk :=
  let file := disk.files flight.name
  if ok then
    disk.setFile flight.name { file with synced := max file.synced flight.covers }
  else
    disk.setFile flight.name { file with failed := true }

/-- `sync_later`: the sync's own answer comes later. -/
def syncLater (disk : Disk) (name : FileName) : Flight :=
  ⟨name, (disk.files name).writes.length⟩

def syncData (disk : Disk) (name : FileName) : Bool × Disk :=
  (disk.verdict, disk.called.settle (disk.syncLater name) disk.verdict)

def syncDir (disk : Disk) : Bool × Disk :=
  if disk.verdict then
    (true, { disk.called with unsettled := [] })
  else
    (false, disk.called)

/-- What `remove_file` came to. -/
inductive Removal where
  | removed
  | notFound
  | failed
deriving DecidableEq, Repr

def remove (disk : Disk) (name : FileName) : Removal × Disk :=
  let next := disk.called
  if !disk.verdict then
    (.failed, next)
  else if name ∈ disk.directory then
    (.removed, { next with
      directory := disk.directory.filter (· ≠ name)
      unsettled := name :: disk.unsettled })
  else
    (.notFound, next)

def list (disk : Disk) : Option (List FileName) × Disk :=
  (if disk.verdict then some disk.directory else none, disk.called)

def len (disk : Disk) (name : FileName) : Option Nat × Disk :=
  (if disk.verdict ∧ name ∈ disk.directory then some (disk.files name).len else none,
    disk.called)

end Disk

inductive Call where
  | create (name : FileName)
  | write (name : FileName) (pieces : List Piece)
  | syncData (name : FileName)
  | syncLater (name : FileName)
  | letGo (flight : Flight)
  | syncDir
  | remove (name : FileName)
  | list
  | len (name : FileName)
  | toWriter (message : ToWriter)
  | toExecutor (executor : Nat) (message : Progress)
  | answer (answer : Answer)
  | gaugeUsed
  | gaugeApply (before after : Nat)

def Call.Return : Call → Type
  | .create _ | .write .. | .syncData _ | .syncDir => Bool
  | .syncLater _ => Flight
  | .remove _ => Disk.Removal
  | .list => Option (List FileName)
  | .len _ => Option Nat
  | .gaugeUsed => Nat
  | .letGo _ | .toWriter _ | .toExecutor .. | .answer _ | .gaugeApply .. => Unit

/-- What a handler does. -/
abbrev Task (α : Type) := Program Call Call.Return α

namespace Task

def create (name : FileName) : Task Bool :=
  Program.perform (Call.create name)

def write (name : FileName) (pieces : List Piece) : Task Bool :=
  Program.perform (Call.write name pieces)

def syncData (name : FileName) : Task Bool :=
  Program.perform (Call.syncData name)

def syncLater (name : FileName) : Task Flight :=
  Program.perform (Call.syncLater name)

def letGo (flight : Flight) : Task Unit :=
  Program.perform (Call.letGo flight)

def syncDir : Task Bool :=
  Program.perform Call.syncDir

def remove (name : FileName) : Task Disk.Removal :=
  Program.perform (Call.remove name)

def list : Task (Option (List FileName)) :=
  Program.perform Call.list

def len (name : FileName) : Task (Option Nat) :=
  Program.perform (Call.len name)

def toWriter (message : ToWriter) : Task Unit :=
  Program.perform (Call.toWriter message)

def toExecutor (executor : Nat) (message : Progress) : Task Unit :=
  Program.perform (Call.toExecutor executor message)

def answer (answer : Answer) : Task Unit :=
  Program.perform (Call.answer answer)

def gaugeUsed : Task Nat :=
  Program.perform Call.gaugeUsed

def gaugeApply (before after : Nat) : Task Unit :=
  Program.perform (Call.gaugeApply before after)

/-- Two fallible tasks, the second only when the first succeeded. -/
def andThen (first second : Task Bool) : Task Bool := do
  let ok ← first
  if ok then second else pure false

end Task

/-- The channels are first in, first out: `inbox` is the writer's, `progress`
holds one queue per executor.  `answered` keeps what the clients were told. -/
structure World where
  disk : Disk
  inbox : List ToWriter
  progress : Nat → List Progress
  answered : List Answer
  gauge : Nat

namespace World

def onDisk {α : Type} (world : World) (outcome : α × Disk) : α × World :=
  (outcome.1, { world with disk := outcome.2 })

/-- What each call does.  A sync the writer lets go of runs on unseen: it
counts as failed. -/
def handle (call : Call) (world : World) : call.Return × World :=
  match call with
  | .create name => world.onDisk (world.disk.create name)
  | .write name pieces => world.onDisk (world.disk.write name pieces)
  | .syncData name => world.onDisk (world.disk.syncData name)
  | .syncLater name => (world.disk.syncLater name, world)
  | .letGo flight => ((), { world with disk := world.disk.settle flight false })
  | .syncDir => world.onDisk world.disk.syncDir
  | .remove name => world.onDisk (world.disk.remove name)
  | .list => world.onDisk world.disk.list
  | .len name => world.onDisk (world.disk.len name)
  | .toWriter message => ((), { world with inbox := world.inbox ++ [message] })
  | .toExecutor executor message =>
    ((), { world with
      progress := Function.update world.progress executor
        (world.progress executor ++ [message]) })
  | .answer answer => ((), { world with answered := world.answered ++ [answer] })
  | .gaugeUsed => (world.gauge, world)
  | .gaugeApply before after =>
    ((), { world with gauge := world.gauge + after - before })

end World

namespace Task

/-- What a task comes to, run from a world. -/
abbrev Leads {α : Type} (task : Task α) (world : World) (post : α → World → Prop) : Prop :=
  post (task.run World.handle world).1 (task.run World.handle world).2

theorem leads_bind {α β : Type} {task : Task α} {next : α → Task β} {world : World}
    {post : β → World → Prop} :
    Leads (task >>= next) world post ↔
      (next (task.run World.handle world).1).Leads (task.run World.handle world).2 post := by
  rw [Leads, Program.run_bind]

variable (world : World)

@[simp]
theorem run_create (name : FileName) :
    (create name).run World.handle world = world.onDisk (world.disk.create name) :=
  rfl

@[simp]
theorem run_write (name : FileName) (pieces : List Piece) :
    (write name pieces).run World.handle world = world.onDisk (world.disk.write name pieces) :=
  rfl

@[simp]
theorem run_syncData (name : FileName) :
    (syncData name).run World.handle world = world.onDisk (world.disk.syncData name) :=
  rfl

@[simp]
theorem run_syncLater (name : FileName) :
    (syncLater name).run World.handle world = (world.disk.syncLater name, world) :=
  rfl

@[simp]
theorem run_syncDir : syncDir.run World.handle world = world.onDisk world.disk.syncDir :=
  rfl

@[simp]
theorem run_toWriter (message : ToWriter) :
    (toWriter message).run World.handle world =
      ((), { world with inbox := world.inbox ++ [message] }) :=
  rfl

@[simp]
theorem run_toExecutor (executor : Nat) (message : Progress) :
    (toExecutor executor message).run World.handle world =
      ((), { world with
        progress := Function.update world.progress executor
          (world.progress executor ++ [message]) }) :=
  rfl

@[simp]
theorem run_answer (answer : Answer) :
    (Task.answer answer).run World.handle world =
      ((), { world with answered := world.answered ++ [answer] }) :=
  rfl

@[simp]
theorem run_andThen (first second : Task Bool) :
    (first.andThen second).run World.handle world =
      if (first.run World.handle world).1 then
        second.run World.handle (first.run World.handle world).2
      else
        (false, (first.run World.handle world).2) := by
  unfold andThen
  rw [Program.run_bind]
  cases (first.run World.handle world).1 <;> rfl

end Task

namespace World

@[simp]
theorem onDisk_fst {α : Type} (world : World) (outcome : α × Disk) :
    (world.onDisk outcome).1 = outcome.1 :=
  rfl

@[simp]
theorem onDisk_snd {α : Type} (world : World) (outcome : α × Disk) :
    (world.onDisk outcome).2 = { world with disk := outcome.2 } :=
  rfl

end World

end Seedstone
