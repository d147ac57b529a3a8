import Seedstone.Dict.Table

/-!
# The dict

`Dict` of `dict.rs`: a chained hash table that grows by migrating the buckets
of `old` into a table twice its size, a few at a time, with every operation
looking into both tables while the migration lasts.
-/

namespace Seedstone

structure Dict where
  seed : DictSeed
  old : Table
  new : Option Table
  rehashIndex : Nat
  len : Nat
  mayHoldDeadlines : Bool
  usedBytes : Nat
  withDeadline : Nat
  clock : UInt32
deriving DecidableEq, Repr

/-- A scan cursor, a position in the reverse binary cycle. -/
abbrev Cursor := BitVec 64

/-- The order a walk's cursor advances in: the next cursor, under a mask. -/
abbrev WalkOrder := Cursor → BitVec 64 → Cursor

def reverseIncrement (cursor : Cursor) (mask : BitVec 64) : Cursor :=
  ((cursor ||| ~~~mask).reverse + 1).reverse

/-- `ReverseBinary`, the only order the crate ships. -/
def reverseBinary : WalkOrder :=
  reverseIncrement

/-- The honest expiry policy: a key is due once `now` has reached its deadline. -/
def Deadlines.dueOnRead (expiresAt : Option Nat) (now : Nat) : Bool :=
  expiresAt.any (fun deadline => deadline ≤ now)

def Deadlines.dueOnSweep (expiresAt : Option Nat) (now : Nat) : Bool :=
  expiresAt.any (fun deadline => deadline ≤ now)

def Deadlines.takesUndated : Bool :=
  false

/-- `usize::from(deadline.is_some())`. -/
def dated (deadline : Option Nat) : Nat :=
  if deadline.isSome then 1 else 0

namespace Dict

def withSeed (seed : DictSeed) : Dict where
  seed := seed
  old := emptyTable initialBuckets
  new := none
  rehashIndex := 0
  len := 0
  mayHoldDeadlines := false
  usedBytes := tableBytes initialBuckets
  withDeadline := 0
  clock := 0

def isEmpty (dict : Dict) : Bool :=
  dict.len == 0

def isRehashing (dict : Dict) : Bool :=
  dict.new.isSome

/-- One drained bucket: every slot moves to `new` under the hash it was placed
with. -/
def drainBucket (bucket : Bucket) (new : Table) : Table :=
  bucket.foldl
    (fun table slot => Table.push table (bucketIndex slot.hash table.length) slot)
    new

/-- The migration loop of `rehash_step`, over `count` buckets from `index`. -/
def drain (old new : Table) (index : Nat) : Nat → Table × Table
  | 0 => (old, new)
  | count + 1 =>
    drain (old.set index []) (drainBucket (bucketAt old index) new)
      (index + 1) count

def rehashStep (dict : Dict) (buckets : Nat) : Dict :=
  match dict.new with
  | none => dict
  | some new =>
    let stop := min (dict.rehashIndex + buckets) dict.old.length
    let (old, new) := drain dict.old new dict.rehashIndex (stop - dict.rehashIndex)
    if stop = old.length then
      { dict with
        usedBytes := dict.usedBytes - tableBytes old.length
        old := new
        new := none
        rehashIndex := 0 }
    else
      { dict with old := old, new := some new, rehashIndex := stop }

def startRehash (dict : Dict) : Dict :=
  { dict with
    new := some (emptyTable (dict.old.length * 2))
    usedBytes := dict.usedBytes + tableBytes (dict.old.length * 2)
    rehashIndex := 0 }

def clear (dict : Dict) : Dict :=
  withSeed dict.seed

/-- The loop of `scan_in_order` over the larger table.  `Dict.scanInOrder` bounds it by
one lap of that table, which `scanLarge_reverseBinary` shows the shipped order never
uses up. -/
def scanLarge (order : WalkOrder) (new : Table) (small : BitVec 64) :
    Nat → Cursor → List (Bytes × Entry) × Cursor
  | 0, v => ([], v)
  | laps + 1, v =>
    let visited := visitBucket new v
    let v := order v (maskOf new)
    if v &&& (small ^^^ maskOf new) = 0 then
      (visited, v)
    else
      let (rest, v) := scanLarge order new small laps v
      (visited ++ rest, v)

/-- `scan_in_order`: what one step hands to its visitor, and the next cursor. -/
def scanInOrder (dict : Dict) (cursor : Cursor) (order : WalkOrder) :
    List (Bytes × Entry) × Cursor :=
  if dict.isEmpty then
    ([], 0)
  else
    match dict.new with
    | none => (visitBucket dict.old cursor, order cursor (maskOf dict.old))
    | some new =>
      let visited := visitBucket dict.old cursor
      let (rest, v) :=
        scanLarge order new (maskOf dict.old) new.length cursor
      (visited ++ rest, v)

def scan (dict : Dict) (cursor : Cursor) : List (Bytes × Entry) × Cursor :=
  dict.scanInOrder cursor reverseBinary

/-- The loop of `expire_step`: at most `budget` cursor steps, ending with the
cycle. -/
def expireLoop (dict : Dict) (now : Nat) :
    Nat → Cursor → Cursor × List Bytes
  | 0, cursor => (cursor, [])
  | budget + 1, cursor =>
    let (visited, next) := dict.scan cursor
    let dead := (visited.filter
      (fun item => Deadlines.dueOnSweep item.2.expiresAt now)).map Prod.fst
    if next = 0 then
      (next, dead)
    else
      let (last, rest) := expireLoop dict now budget next
      (last, dead ++ rest)

def expireStep (dict : Dict) (cursor : Cursor) (budgetBuckets : Nat)
    (now : Nat) : Cursor × List Bytes :=
  if !dict.mayHoldDeadlines && !Deadlines.takesUndated then
    (cursor, [])
  else
    dict.expireLoop now budgetBuckets cursor

/-- The visitor of `sample_oldest`: the entries met and the oldest candidate. -/
def sampleVisit (spared : Option Bytes)
    (state : Nat × Option (UInt32 × Bytes)) (item : Bytes × Entry) :
    Nat × Option (UInt32 × Bytes) :=
  if spared = some item.1 then
    state
  else
    (state.1 + 1,
      match state.2 with
      | none => some (item.2.touched, item.1)
      | some (stamp, key) =>
        if item.2.touched < stamp then
          some (item.2.touched, item.1)
        else
          some (stamp, key))

/-- The loop of `sample_oldest`; `steps` counts down from the bound. -/
def sampleLoop (dict : Dict) (samples : Nat) (spared : Option Bytes) :
    Nat → Cursor → Nat × Option (UInt32 × Bytes) →
      Option (UInt32 × Bytes) × Cursor
  | 0, cursor, state => (state.2, cursor)
  | steps + 1, cursor, state =>
    if state.1 < samples then
      let (visited, next) := dict.scan cursor
      sampleLoop dict samples spared steps next
        (visited.foldl (sampleVisit spared) state)
    else
      (state.2, cursor)

def sampleOldest (dict : Dict) (cursor : Cursor) (samples : Nat)
    (spared : Option Bytes) : Option Bytes × Cursor :=
  if dict.isEmpty then
    (none, cursor)
  else
    let bound := dict.old.length + (dict.new.map List.length).getD 0
    let (oldest, cursor) :=
      dict.sampleLoop samples spared bound cursor (0, none)
    (oldest.map Prod.snd, cursor)

/-- `may_hold_deadlines |= expires_at.is_some()`. -/
def noteDeadline (dict : Dict) (expiresAt : Option Nat) : Dict :=
  { dict with mayHoldDeadlines := dict.mayHoldDeadlines || expiresAt.isSome }

def account (dict : Dict) (usedBytes withDeadline : Nat) : Dict :=
  { dict with usedBytes := usedBytes, withDeadline := withDeadline }

/-- `clock.wrapping_add(1)`. -/
def tick (dict : Dict) : Dict :=
  { dict with clock := dict.clock + 1 }

/-- The end of `remove`: one entry fewer, and a dict left empty holds no
deadline. -/
def uncount (dict : Dict) : Dict :=
  { dict with
    len := dict.len - 1
    mayHoldDeadlines :=
      if dict.len - 1 = 0 then false else dict.mayHoldDeadlines }

/-- The growth decision at the head of `insert`. -/
def makeRoom (dict : Dict) : Dict :=
  if dict.isRehashing then
    dict.rehashStep 1
  else if dict.len ≥ dict.old.length then
    dict.startRehash
  else
    dict

/-- A key that is not present yet goes into the table that survives the
rehash. -/
def pushSlot (dict : Dict) (slot : Slot) : Dict :=
  match dict.new with
  | some new =>
    { dict with
      new := some (Table.push new (bucketIndex slot.hash new.length) slot)
      len := dict.len + 1 }
  | none =>
    { dict with
      old := Table.push dict.old (bucketIndex slot.hash dict.old.length) slot
      len := dict.len + 1 }

variable [SipHasher]

def get (dict : Dict) (key : Bytes) : Option Entry :=
  let hash := hashKey dict.seed key
  match find dict.old hash key with
  | some entry => some entry
  | none =>
    match dict.new with
    | none => none
    | some new => find new hash key

/-- A write through `find_mut` on whichever table holds `key`, `old` first.
Nothing changes when neither does. -/
def modifyEntry (dict : Dict) (key : Bytes) (change : Entry → Entry) : Dict :=
  let hash := hashKey dict.seed key
  match find dict.old hash key with
  | some _ => { dict with old := Table.modifyEntry dict.old hash key change }
  | none =>
    match dict.new with
    | none => dict
    | some new => { dict with new := some (Table.modifyEntry new hash key change) }

def setDeadline (dict : Dict) (key : Bytes) (expiresAt : Option Nat) :
    Bool × Dict :=
  let dict := dict.noteDeadline expiresAt
  match dict.get key with
  | none => (false, dict)
  | some entry =>
    (true,
      (dict.modifyEntry key
        (fun entry => { entry with expiresAt := expiresAt })).account
          dict.usedBytes
          (dict.withDeadline + dated expiresAt - dated entry.expiresAt))

def touch (dict : Dict) (key : Bytes) : Dict :=
  let dict := dict.tick
  dict.modifyEntry key (fun entry => { entry with touched := dict.clock })

def insert (dict : Dict) (key : Bytes) (entry : Entry) : Dict :=
  let dict := dict.makeRoom.noteDeadline entry.expiresAt
  match dict.get key with
  | some existing =>
    (dict.modifyEntry key (fun _ => entry)).account
      (dict.usedBytes - entryBytes key existing.value
        + entryBytes key entry.value)
      (dict.withDeadline + dated entry.expiresAt - dated existing.expiresAt)
  | none =>
    (dict.pushSlot ⟨hashKey dict.seed key, key, entry⟩).account
      (dict.usedBytes + entryBytes key entry.value)
      (dict.withDeadline + dated entry.expiresAt)

/-- `remove_from` on `old`, or else on `new`. -/
def removeSlot (dict : Dict) (key : Bytes) : Option Entry × Dict :=
  let hash := hashKey dict.seed key
  match removeFrom dict.old hash key with
  | (some entry, old) => (some entry, { dict with old := old })
  | (none, _) =>
    match dict.new with
    | none => (none, dict)
    | some new =>
      let (removed, new) := removeFrom new hash key
      (removed, { dict with new := some new })

def remove (dict : Dict) (key : Bytes) : Option Entry × Dict :=
  let dict := if dict.isRehashing then dict.rehashStep 1 else dict
  match dict.removeSlot key with
  | (none, dict) => (none, dict)
  | (some removed, dict) =>
    (some removed,
      (dict.account (dict.usedBytes - entryBytes key removed.value)
        (dict.withDeadline - dated removed.expiresAt)).uncount)

end Dict

end Seedstone
