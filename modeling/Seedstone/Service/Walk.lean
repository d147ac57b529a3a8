import Seedstone.Shard.Command

/-!
# One call across shards

`walk.rs`: the cursor `SCAN` exchanges, which packs a shard and that shard's
own cursor into one word, and the `Crossing` of one call over the shards it
reaches.
-/

namespace Seedstone.Service

def cursorInternalBits : Nat := 48

/-- The low `cursorInternalBits` bits. -/
def cursorInternalMask : BitVec 64 :=
  281474976710655

def packCursor (shard : Nat) (internal : Cursor) : Cursor :=
  (BitVec.ofNat 64 shard <<< cursorInternalBits) ||| (internal &&& cursorInternalMask)

def unpackCursor (cursor : Cursor) : Nat × Cursor :=
  ((cursor >>> cursorInternalBits).toNat, cursor &&& cursorInternalMask)

/-- One envelope the crossing wants dispatched. -/
structure Step where
  shard : Nat
  cursor : Cursor
  count : Nat
deriving DecidableEq, Repr

structure Crossing where
  shards : Nat
  shard : Nat
  internal : Cursor
  keyTarget : Nat
  bucketsLeft : Nat
  keys : List Bytes
  finished : Bool
deriving DecidableEq, Repr

namespace Crossing

/-- `none` for a cursor that names a shard the node does not have. -/
def begin (shards : Nat) (cursor : Cursor) (keyTarget bucketCeiling : Nat) : Option Crossing :=
  let (shard, internal) := unpackCursor cursor
  if shards ≤ shard then
    none
  else
    some ⟨shards, shard, internal, max keyTarget 1, max bucketCeiling 1, [], false⟩

def wantsStep (crossing : Crossing) : Option Step :=
  if crossing.finished ∨ crossing.keyTarget ≤ crossing.keys.length ∨
      crossing.bucketsLeft = 0 then
    none
  else
    some ⟨crossing.shard, crossing.internal, crossing.bucketsLeft⟩

def feed (crossing : Crossing) (nextCursor : Cursor) (keys : List Bytes) (visited : Nat) :
    Crossing :=
  let crossing := { crossing with
    keys := crossing.keys ++ keys
    bucketsLeft := crossing.bucketsLeft - max visited 1 }
  if nextCursor ≠ 0 then
    { crossing with internal := nextCursor }
  else if crossing.shard + 1 < crossing.shards then
    { crossing with shard := crossing.shard + 1, internal := 0 }
  else
    { crossing with finished := true }

def finish (crossing : Crossing) : Cursor × List Bytes :=
  (if crossing.finished then 0 else packCursor crossing.shard crossing.internal, crossing.keys)

end Crossing

end Seedstone.Service
