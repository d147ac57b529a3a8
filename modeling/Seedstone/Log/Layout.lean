import Seedstone.Shard.Tracking

/-!
# What the log's files hold

The files of `wal/` (`file.rs`, `snapshot.rs`), one decoded piece after the
other, with the number of bytes each piece takes, and the buffer a shard
appends to.
-/

namespace Seedstone

def deadlineLen (deadline : Option Nat) : Nat :=
  if deadline.isSome then 1 + 8 else 1

def Effect.encodedLen : Effect → Nat
  | .put key value millis =>
    1 + (4 + key.length + 4 + value.length + deadlineLen millis)
  | .del key => 1 + (4 + key.length)
  | .deadline key millis => 1 + (4 + key.length + deadlineLen millis)
  | .flush | .rebase => 1 + 0

/-- `HEADER_LEN + BODY_FIXED_LEN`: a record around its payload. -/
def recordFixedLen : Nat :=
  9 + 10

def Record.encodedLen (record : Record) : Nat :=
  recordFixedLen + record.effect.encodedLen

theorem Record.encodedLen_pos (record : Record) : 0 < record.encodedLen := by
  unfold Record.encodedLen recordFixedLen
  omega

/-- The bytes a buffer of records holds. -/
def encodedLen (records : List Record) : Nat :=
  (records.map Record.encodedLen).sum

theorem encodedLen_pos {records : List Record} (some : records ≠ []) : 0 < encodedLen records := by
  cases records with
  | nil => exact absurd rfl some
  | cons record records =>
    have first := record.encodedLen_pos
    simp only [encodedLen, List.map_cons, List.sum_cons]
    omega

-- A point is a position that may be absent, an `Option<u64>`: `None` precedes every `Some`.

def pointMax (first second : Option Nat) : Option Nat :=
  match first, second with
  | none, point => point
  | point, none => point
  | some first, some second => some (max first second)

def pointLt (first second : Option Nat) : Bool :=
  match first, second with
  | _, none => false
  | none, some _ => true
  | some first, some second => first < second

inductive FileName where
  | segment (generation rotation : Nat)
  | snapshot (generation executor cycle : Nat)
  | counter
  | counterTmp
deriving DecidableEq, Repr

/-- The generation of a segment or a snapshot. -/
def FileName.generation? : FileName → Option Nat
  | .segment generation _ => some generation
  | .snapshot generation _ _ => some generation
  | .counter | .counterTmp => none

def FileName.isSegment : FileName → Bool
  | .segment .. => true
  | _ => false

/-- A snapshot's header: whose image it is, and each shard's base. -/
structure SnapshotHeader where
  generation : Nat
  executor : Nat
  cycle : Nat
  unixMillis : Nat
  bases : List (Nat × Nat)
deriving DecidableEq, Repr

/-- A segment's header: which file it is, and where its generation's start cut
a shard. -/
structure SegmentHeader where
  generation : Nat
  rotation : Nat
  cuts : List (Nat × Nat)
deriving DecidableEq, Repr

inductive Piece where
  | segmentHeader (header : SegmentHeader)
  | snapshotHeader (header : SnapshotHeader)
  | record (record : Record)
  | syncMark
  | footer (cycle : Nat) (counts : List (Nat × Nat))
  | endOfLog
  | number (value : Nat)
deriving DecidableEq, Repr

def segmentHeaderLen (cuts : Nat) : Nat :=
  if cuts = 0 then 23 else 23 + cuts * 10 + 4

def SnapshotHeader.encodedLen (header : SnapshotHeader) : Nat :=
  29 + header.bases.length * (2 + 8) + 4

def Piece.encodedLen : Piece → Nat
  | .segmentHeader header => segmentHeaderLen header.cuts.length
  | .snapshotHeader header => header.encodedLen
  | .record item => item.encodedLen
  | .syncMark => recordFixedLen
  | .footer _ counts => recordFixedLen + counts.length * 10
  | .endOfLog => 1
  | .number value => (decimal value).length

/-- `FileLog`: a buffer, and the points it keeps.  `accepted` is ghost: every
record the log ever took. -/
structure FileLog where
  pending : List Record
  pendingThrough : Option Nat
  flushedThrough : Option Nat
  durable : Option Nat
  accepted : List Record

namespace FileLog

def new : FileLog :=
  ⟨[], none, none, none, []⟩

def append (log : FileLog) (record : Record) : Bool × FileLog :=
  (true, { log with
    pending := log.pending ++ [record]
    pendingThrough := some record.seq
    accepted := log.accepted ++ [record] })

/-- `flush_into`: what is handed over, and the log after. -/
def flushInto (log : FileLog) : List Record × FileLog :=
  if log.pending.isEmpty then
    ([], log)
  else
    (log.pending, { log with
      pending := []
      pendingThrough := none
      flushedThrough := log.pendingThrough.or log.flushedThrough })

def syncCompleted (log : FileLog) (through : Option Nat) : FileLog :=
  { log with durable := pointMax log.durable through }

def covered (log : FileLog) (through : Nat) : FileLog :=
  { log with durable := pointMax log.durable (some through) }

end FileLog

instance : RecordedLog FileLog where
  append := FileLog.append
  records := FileLog.accepted
  records_taken := by
    intro log after record taken
    cases taken
    rfl
  records_refused := by
    nofun

namespace FileLog

/-- A log's records are those it handed over and those it still holds. -/
theorem flushInto_fst (log : FileLog) : log.flushInto.1 = log.pending := by
  unfold flushInto
  split
  · rename_i empty
    exact (List.isEmpty_iff.mp empty).symm
  · rfl

@[simp]
theorem flushInto_pending (log : FileLog) : log.flushInto.2.pending = [] := by
  unfold flushInto
  split
  · rename_i empty
    exact List.isEmpty_iff.mp empty
  · rfl

@[simp]
theorem flushInto_accepted (log : FileLog) : log.flushInto.2.accepted = log.accepted := by
  unfold flushInto
  split <;> rfl

end FileLog

end Seedstone
