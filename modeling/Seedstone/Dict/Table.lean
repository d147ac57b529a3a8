import Mathlib.Data.List.Basic

/-!
# Entries, buckets and tables

The storage half of `dict.rs`: an entry, the slot a bucket chains, a table as
a list of buckets, and the free functions that look into one table.  The hash
is SipHash-1-3 keyed by the dict's seed; nothing in the dict depends on which
function it is, so it is a parameter of the development.  An instant of the
monotonic clock is its number of milliseconds.
-/

namespace Seedstone

abbrev Bytes := List UInt8

/-- The two keys of a dict's hash function. -/
structure DictSeed where
  k0 : BitVec 64
  k1 : BitVec 64
deriving DecidableEq, Repr

/-- `shard_seed`: every shard hashes under a seed of its own. -/
def shardSeed (seed : DictSeed) (shard : BitVec 16) : DictSeed :=
  ⟨seed.k0 ^^^ shard.setWidth 64, seed.k1⟩

/-- The keyed hash function the `siphasher` crate supplies. -/
class SipHasher where
  finish : BitVec 64 → BitVec 64 → Bytes → BitVec 64

structure Entry where
  value : Bytes
  expiresAt : Option Nat
  touched : UInt32
deriving DecidableEq, Repr

/-- One element of a bucket's chain: the hash it was placed with, its key and
its entry. -/
structure Slot where
  hash : BitVec 64
  key : Bytes
  entry : Entry
deriving DecidableEq, Repr

abbrev Bucket := List Slot

abbrev Table := List Bucket

def initialBuckets : Nat := 8

def entryOverhead : Nat := 96

def bucketOverhead : Nat := 24

def entryBytes (key value : Bytes) : Nat :=
  entryOverhead + key.length + value.length

def tableBytes (buckets : Nat) : Nat :=
  buckets * bucketOverhead

def emptyTable (buckets : Nat) : Table :=
  List.replicate buckets []

def hashKey [SipHasher] (seed : DictSeed) (key : Bytes) : BitVec 64 :=
  SipHasher.finish seed.k0 seed.k1 key

def bucketIndex (hash : BitVec 64) (buckets : Nat) : Nat :=
  (hash &&& BitVec.ofNat 64 (buckets - 1)).toNat

def maskOf (table : Table) : BitVec 64 :=
  BitVec.ofNat 64 (table.length - 1)

/-- `matches`: the stored hash is compared first, the key behind it. -/
def Slot.matches (slot : Slot) (hash : BitVec 64) (key : Bytes) : Bool :=
  slot.hash == hash && slot.key == key

def bucketAt (table : Table) (index : Nat) : Bucket :=
  table.getD index []

def find (table : Table) (hash : BitVec 64) (key : Bytes) : Option Entry :=
  ((bucketAt table (bucketIndex hash table.length)).find?
    (fun slot => slot.matches hash key)).map Slot.entry

/-- The bucket behind a write through `find_mut`: the first matching slot changed. -/
def Bucket.modifyEntry (hash : BitVec 64) (key : Bytes)
    (change : Entry → Entry) : Bucket → Bucket
  | [] => []
  | slot :: rest =>
    if slot.matches hash key then
      { slot with entry := change slot.entry } :: rest
    else
      slot :: modifyEntry hash key change rest

/-- A write through the entry `find_mut` returns. -/
def Table.modifyEntry (table : Table) (hash : BitVec 64) (key : Bytes)
    (change : Entry → Entry) : Table :=
  table.modify (bucketIndex hash table.length)
    (Bucket.modifyEntry hash key change)

/-- `table[index].push(slot)`. -/
def Table.push (table : Table) (index : Nat) (slot : Slot) : Table :=
  table.modify index (fun bucket => bucket ++ [slot])

def removeFrom (table : Table) (hash : BitVec 64) (key : Bytes) :
    Option Entry × Table :=
  let index := bucketIndex hash table.length
  match (bucketAt table index).find? (fun slot => slot.matches hash key) with
  | none => (none, table)
  | some slot =>
    (some slot.entry,
      table.modify index
        (fun bucket => bucket.eraseP (fun slot => slot.matches hash key)))

/-- The keys and entries `visit_bucket` hands to its visitor, in order. -/
def visitBucket (table : Table) (cursor : BitVec 64) : List (Bytes × Entry) :=
  (bucketAt table (cursor &&& maskOf table).toNat).map
    (fun slot => (slot.key, slot.entry))

end Seedstone
