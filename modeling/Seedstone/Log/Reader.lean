import Seedstone.Library.Loop
import Seedstone.Log.Record

/-!
# The reader of a segment's records

`reader.rs`: a window over the source, filled a chunk at a time and compacted; the
records in it consumed whole; damage stepped over a byte at a time, with the cap
on what one hole may checksum.  Offsets are body offsets, from the end of the
segment's header.
-/

namespace Seedstone

/-- `RESYNC_CAP`: 4 MiB. -/
def resyncCap : Nat := 4194304

/-- `READ_CHUNK`: 4 MiB. -/
def readChunk : Nat := 4194304

inductive ReaderMode where
  | resynchronising
  | prefixScan
deriving DecidableEq, Repr

structure Damage where
  bytes : Nat
  holes : Nat
  truncatedTail : Nat
  abandoned : Bool
deriving DecidableEq, Repr

def Damage.none : Damage :=
  ⟨0, 0, 0, false⟩

/-- An intact record; it lies from `start` (`at`) to `stop` (`end`). -/
structure Item where
  shard : Nat
  seq : Nat
  payload : Bytes
  start : Nat
  stop : Nat
deriving DecidableEq, Repr

/-- The part of a reader that keeps account of damage. -/
structure Accounts where
  resynchronising : Bool
  holeAtTail : Option Nat
  holeAtEnd : Option Damage
  spent : Nat
  damage : Damage
deriving DecidableEq, Repr

namespace Accounts

def fresh : Accounts :=
  ⟨false, none, none, 0, .none⟩

def enterHole (accounts : Accounts) : Accounts :=
  if accounts.resynchronising then
    accounts
  else
    { accounts with
      resynchronising := true
      damage := { accounts.damage with holes := accounts.damage.holes + 1 } }

def overdrawn (accounts : Accounts) : Bool :=
  resyncCap < accounts.spent

def abandon (accounts : Accounts) : Accounts :=
  { accounts with damage := { accounts.damage with abandoned := true } }

def charge (accounts : Accounts) (declared : Nat) : Accounts :=
  if accounts.overdrawn then
    accounts.abandon
  else
    { accounts with spent := accounts.spent + declared }

/-- `step`, on the accounts. -/
def step (accounts : Accounts) (n : Nat) : Accounts :=
  { accounts with damage := { accounts.damage with bytes := accounts.damage.bytes + n } }

/-- A record was read. -/
def found (accounts : Accounts) : Accounts :=
  { accounts with resynchronising := false, holeAtTail := none, holeAtEnd := none, spent := 0 }

/-- An end marker at a trusted boundary opens a hole that may yet be the end. -/
def atMarker (accounts : Accounts) : Accounts :=
  if accounts.resynchronising then
    accounts
  else
    enterHole { accounts with holeAtEnd := some accounts.damage }

/-- A candidate cut short by the segment's end opens a hole that may yet be the tail. -/
def atTail (accounts : Accounts) : Accounts :=
  let accounts := accounts.enterHole
  { accounts with holeAtTail := some accounts.damage.bytes }

/-- Damage, and the checksum that was paid to know it. -/
def atDamage (accounts : Accounts) (checksummed : Option Nat) : Accounts :=
  match checksummed with
  | none => accounts.enterHole
  | some declared => accounts.enterHole.charge declared

def endOfSegment (accounts : Accounts) : Accounts :=
  match accounts.holeAtEnd with
  | some before => { accounts with damage := before, holeAtEnd := none, holeAtTail := none }
  | none =>
    match accounts.holeAtTail with
    | some start =>
      let tail := accounts.damage.bytes - start
      { accounts with
        holeAtTail := none
        damage := { accounts.damage with
          bytes := start
          holes := accounts.damage.holes - 1
          truncatedTail := accounts.damage.truncatedTail + tail } }
    | none => accounts

end Accounts

/-- What a source still has to give, and whether reading past it fails. -/
structure Source where
  bytes : Bytes
  faulty : Bool

/-- `Reader`; `cursor` is its `at`. -/
structure Reader where
  src : Source
  len : Nat
  remaining : Nat
  buf : Bytes
  cursor : Nat
  chunk : Nat
  mode : ReaderMode
  accounts : Accounts

/-- What a call of `next_record` comes to; the last two are a slice out of range
and a loop that goes on for ever. -/
inductive Reader.Answer where
  | item (item : Item)
  | finished
  | failed
  | panicked
  | stuck
deriving DecidableEq, Repr

namespace Reader

def withChunk (src : Source) (len : Nat) (mode : ReaderMode) (chunk : Nat) : Reader :=
  ⟨src, len, len, [], 0, max chunk 1, mode, .fresh⟩

def new (src : Source) (len : Nat) (mode : ReaderMode) : Reader :=
  withChunk src len mode readChunk

def damage (reader : Reader) : Damage :=
  reader.accounts.damage

def window (reader : Reader) : Bytes :=
  reader.buf.drop reader.cursor

def offset (reader : Reader) : Nat :=
  reader.len - reader.remaining - (reader.buf.length - reader.cursor)

def step (reader : Reader) (n : Nat) : Reader :=
  { reader with cursor := reader.cursor + n, accounts := reader.accounts.step n }

/-- Up to `want` more bytes, and how many came; none if the source failed. -/
def fill (reader : Reader) (want : Nat) : Option (Nat × Reader) :=
  let want := min want reader.remaining
  let got := reader.src.bytes.take want
  if got.length < want ∧ reader.src.faulty then
    none
  else
    some (got.length, { reader with
      src := { reader.src with bytes := reader.src.bytes.drop want }
      buf := reader.buf ++ got
      remaining := reader.remaining - got.length })

def compact (reader : Reader) : Reader :=
  if 0 < reader.cursor ∧ reader.buf.length / 2 ≤ reader.cursor then
    { reader with buf := reader.buf.drop reader.cursor, cursor := 0 }
  else
    reader

/-- `resync_short_read`; none if the source failed. -/
def resyncShortRead (reader : Reader) : Option Reader :=
  if reader.window.length < headerLen then
    if reader.remaining = 0 then
      some (reader.step 1)
    else
      (reader.fill reader.chunk).map fun (got, filled) =>
        if got = 0 then filled.step 1 else filled
  else
    let total := headerLen + declaredLen reader.window
    let available := reader.window.length + reader.remaining
    if available < total then
      some (reader.step 1)
    else if reader.accounts.overdrawn then
      some { reader with accounts := reader.accounts.abandon }
    else
      (reader.fill (total - reader.window.length)).map (·.2)

/-- The end of a turn. -/
def settle (reader : Reader) : Loop.Turn Reader (Answer × Reader) :=
  if reader.damage.abandoned then .last (.finished, reader) else .again reader

def settleRead (reader : Reader) : Option Reader → Loop.Turn Reader (Answer × Reader)
  | none => .last (.failed, reader)
  | some read => read.settle

/-- `NeedMore` at a trusted boundary. -/
def shortRead (reader : Reader) : Loop.Turn Reader (Answer × Reader) :=
  match reader.fill reader.chunk with
  | none => .last (.failed, reader)
  | some (got, filled) =>
    if got ≠ 0 then
      filled.settle
    else if filled.mode = .prefixScan then
      .last (.finished, { filled with
        accounts := { filled.accounts with
          damage := { filled.damage with
            truncatedTail := filled.damage.truncatedTail + filled.window.length } } })
    else
      (step { filled with accounts := filled.accounts.atTail } 1).settle

/-- A turn of the loop of `next_record`, once there is something to decode. -/
def decode (reader : Reader) : Loop.Turn Reader (Answer × Reader) :=
  match decodeRecord reader.window with
  | .record shard seq payload consumed =>
    .last (.item ⟨shard, seq, payload, reader.offset, reader.offset + consumed⟩,
      { reader with
        cursor := reader.cursor + consumed
        accounts := reader.accounts.found })
  | .endOfLog =>
    if reader.accounts.resynchronising = false ∧ reader.mode = .prefixScan then
      .last (.finished, reader)
    else
      (step { reader with accounts := reader.accounts.atMarker } 1).settle
  | .needMore =>
    if reader.accounts.resynchronising then
      reader.settleRead reader.resyncShortRead
    else
      reader.shortRead
  | .corrupt skip =>
    if reader.mode = .prefixScan then
      .last (.finished, reader)
    else
      (step { reader with
        accounts := reader.accounts.atDamage (checksummedLen reader.window) } skip).settle

def turn (reader : Reader) : Loop.Turn Reader (Answer × Reader) :=
  if reader.buf.length ≤ reader.cursor ∧ reader.remaining = 0 then
    .last (.finished, { reader with accounts := reader.accounts.endOfSegment })
  else if reader.buf.length < reader.cursor then
    .last (.panicked, reader)
  else
    reader.compact.decode

/-- More turns than a call takes that ends. -/
def turns (reader : Reader) : Nat :=
  2 * reader.src.bytes.length + (reader.buf.length + 1 - reader.cursor) + 1

def nextRecord (reader : Reader) : Answer × Reader :=
  (Loop.run turn reader.turns reader).getD (.stuck, reader)

def readLoop : Nat → Reader → List (Item × Damage) × Answer × Reader
  | 0, reader => ([], .stuck, reader)
  | fuel + 1, reader =>
    match reader.nextRecord with
    | (.item item, next) =>
      let (items, last) := readLoop fuel next
      ((item, next.damage) :: items, last)
    | last => ([], last)

/-- The records of a reader, each with the damage met by then, and the answer that
ended the read. -/
def readAll (reader : Reader) : List (Item × Damage) × Answer × Reader :=
  reader.readLoop reader.turns

/-- The records of a body, and the damage seen. -/
def scan (mode : ReaderMode) (chunk : Nat) (body : Bytes) : List Item × Damage :=
  let (items, _, last) := (withChunk ⟨body, false⟩ body.length mode chunk).readAll
  (items.map Prod.fst, last.damage)

end Reader

end Seedstone
