import Seedstone.Dict.Table
import Seedstone.Library.ReverseBinary
import Mathlib.Data.List.Perm.Basic
import Mathlib.Data.List.Nodup

/-!
# The slots of one table

A table is read through `List.flatten`, the list of its slots.  In a table
whose slots all sit in the bucket their own hash selects, a lookup finds a key
exactly when some slot holds it, and each change made through one bucket is a
map, a filter or a permutation of the flattened list.
-/

namespace Seedstone

variable {table : Table} {index : Nat} {change : Bucket → Bucket} {key : Bytes}

theorem bucketAt_modify (change : Bucket → Bucket) (inside : index < table.length) (other : Nat) :
    bucketAt (table.modify index change) other = if index = other then change (bucketAt table index)
      else bucketAt table other := by
  unfold bucketAt
  simp only [List.getD_eq_getElem?_getD]
  by_cases same : index = other
  · subst other
    simp [inside]
  · simp [List.getElem?_modify_ne _ _ same, same]

theorem bucketAt_modify_eq_nil {other : Nat} (inside : index < table.length)
    (keeps : change [] = []) (empty : bucketAt table other = []) :
    bucketAt (table.modify index change) other = [] := by
  rw [bucketAt_modify change inside]
  split
  · next same => rw [same, empty, keeps]
  · exact empty

theorem mem_flatten_iff {slot : Slot} :
    slot ∈ table.flatten ↔ ∃ index, slot ∈ bucketAt table index := by
  unfold bucketAt
  simp only [List.getD_eq_getElem?_getD, List.mem_flatten]
  constructor
  · rintro ⟨bucket, bucketMember, slotMember⟩
    obtain ⟨index, found⟩ := List.mem_iff_getElem?.mp bucketMember
    exact ⟨index, by simpa [found] using slotMember⟩
  · rintro ⟨index, member⟩
    cases found : table[index]? with
    | none => simp [found] at member
    | some bucket =>
      refine ⟨bucket, List.mem_of_getElem? found, ?_⟩
      simpa [found] using member

theorem flatten_perm_bucketAt (inside : index < table.length) :
    table.flatten.Perm (bucketAt table index ++ (table.set index []).flatten) := by
  induction table generalizing index with
  | nil => simp at inside
  | cons bucket rest induction =>
    cases index with
    | zero => simp [bucketAt]
    | succ index =>
      have shorter : index < rest.length := by simpa using inside
      have tail := induction shorter
      have moved :
          (bucket ++ (bucketAt rest index ++ (rest.set index []).flatten)).Perm
            (bucketAt rest index ++ (bucket ++ (rest.set index []).flatten)) := by
        rw [← List.append_assoc, ← List.append_assoc]
        exact List.perm_append_comm.append_right _
      have head : bucketAt (bucket :: rest) (index + 1) = bucketAt rest index := by
        simp [bucketAt]
      rw [List.flatten_cons, List.set_cons_succ, List.flatten_cons, head]
      exact (tail.append_left bucket).trans moved

theorem flatten_push_perm (inside : index < table.length) (slot : Slot) :
    (Table.push table index slot).flatten.Perm (slot :: table.flatten) := by
  unfold Table.push
  induction table generalizing index with
  | nil => simp at inside
  | cons bucket rest induction =>
    cases index with
    | zero =>
      simp only [List.modify_zero_cons, List.flatten_cons, List.append_assoc,
        List.cons_append, List.nil_append]
      exact List.perm_middle
    | succ index =>
      have shorter : index < rest.length := by simpa using inside
      simp only [List.modify_succ_cons, List.flatten_cons]
      exact ((induction shorter).append_left bucket).trans List.perm_middle

/-- A change that keeps every other bucket is the change made slot by slot to the table.
-/
theorem flatten_modify_eq_flatMap {spread : Slot → List Slot}
    (here : change (bucketAt table index) = (bucketAt table index).flatMap spread)
    (elsewhere : ∀ other, other ≠ index → ∀ slot ∈ bucketAt table other, spread slot = [slot]) :
    (table.modify index change).flatten = table.flatten.flatMap spread := by
  have untouched : ∀ bucket : Bucket, (∀ slot ∈ bucket, spread slot = [slot]) →
      bucket.flatMap spread = bucket := by
    intro bucket
    induction bucket with
    | nil => simp
    | cons slot bucket induction =>
      intro fixed
      rw [List.flatMap_cons, fixed slot (by simp),
        induction (fun other member => fixed other (by simp [member]))]
      rfl
  induction table generalizing index with
  | nil => simp
  | cons bucket rest induction =>
    cases index with
    | zero =>
      have rests : rest.flatten.flatMap spread = rest.flatten := by
        apply untouched
        intro slot member
        obtain ⟨other, found⟩ := mem_flatten_iff.mp member
        apply elsewhere (other + 1) (by simp)
        simpa [bucketAt] using found
      have first : change bucket = bucket.flatMap spread := by
        simpa [bucketAt] using here
      simp [first, rests]
    | succ index =>
      have first : bucket.flatMap spread = bucket := by
        apply untouched
        intro slot member
        apply elsewhere 0 (by simp)
        simpa [bucketAt] using member
      have tail := @induction index (by simpa [bucketAt] using here)
        (by
          intro other different slot member
          apply elsewhere (other + 1) (by simpa using different)
          simpa [bucketAt] using member)
      simp [first, tail]

theorem bucketIndex_lt (hash : BitVec 64) {buckets bits : Nat}
    (power : buckets = 2 ^ bits) : bucketIndex hash buckets < buckets := by
  unfold bucketIndex
  have positive : 0 < 2 ^ bits := Nat.two_pow_pos bits
  have bounded : (hash &&& BitVec.ofNat 64 (buckets - 1)).toNat ≤ buckets - 1 := by
    rw [BitVec.toNat_and, BitVec.toNat_ofNat]
    exact le_trans Nat.and_le_right (Nat.mod_le _ _)
  omega

theorem bucketAt_sublist_flatten (table : Table) (index : Nat) :
    (bucketAt table index).Sublist table.flatten := by
  unfold bucketAt
  rw [List.getD_eq_getElem?_getD]
  cases found : table[index]? with
  | none => simp
  | some bucket =>
    exact List.sublist_flatten_of_mem (List.mem_of_getElem? found)

theorem bucket_distinct (distinct : (table.flatten.map Slot.key).Nodup) (index : Nat) :
    ((bucketAt table index).map Slot.key).Nodup :=
  distinct.sublist ((bucketAt_sublist_flatten table index).map Slot.key)

/-- The slot a change of `key`'s entry leaves in a slot's place. -/
def Slot.rewrite (key : Bytes) (change : Entry → Entry) (slot : Slot) : Slot :=
  if slot.key = key then { slot with entry := change slot.entry } else slot

@[simp]
theorem Slot.rewrite_key (key : Bytes) (change : Entry → Entry) (slot : Slot) :
    (slot.rewrite key change).key = slot.key := by
  unfold rewrite
  split <;> rfl

@[simp]
theorem Slot.rewrite_hash (key : Bytes) (change : Entry → Entry) (slot : Slot) :
    (slot.rewrite key change).hash = slot.hash := by
  unfold rewrite
  split <;> rfl

theorem Slot.rewrite_of_ne (change : Entry → Entry) {slot : Slot}
    (different : slot.key ≠ key) : slot.rewrite key change = slot := by
  unfold rewrite
  rw [if_neg different]

theorem map_rewrite_of_absent (change : Entry → Entry) {slots : List Slot}
    (absent : ∀ slot ∈ slots, slot.key ≠ key) : slots.map (Slot.rewrite key change) = slots := by
  have same : slots.map (Slot.rewrite key change) = slots.map id := List.map_congr_left
      (fun slot member => Slot.rewrite_of_ne change (absent slot member))
  rw [same, List.map_id]

theorem map_key_rewrite (key : Bytes) (change : Entry → Entry) (slots : List Slot) :
    (slots.map (Slot.rewrite key change)).map Slot.key = slots.map Slot.key := by
  rw [List.map_map]
  apply List.map_congr_left
  intro slot _
  exact Slot.rewrite_key key change slot

variable {hash : BitVec 64} {bucket : Bucket}

theorem ne_key_of_nodup {slot : Slot} (distinct : ((slot :: bucket).map Slot.key).Nodup)
    (same : slot.key = key) : ∀ other ∈ bucket, other.key ≠ key := by
  rw [List.map_cons, List.nodup_cons] at distinct
  intro other member equal
  apply distinct.1
  rw [same, ← equal]
  exact List.mem_map_of_mem member

section

variable (change : Entry → Entry) (distinct : (bucket.map Slot.key).Nodup)
  (matched : ∀ slot ∈ bucket, slot.matches hash key = true ↔ slot.key = key)

include distinct matched

theorem Bucket.modifyEntry_eq_map :
    Bucket.modifyEntry hash key change bucket = bucket.map (Slot.rewrite key change) := by
  induction bucket with
  | nil => rfl
  | cons slot rest induction =>
    have here := matched slot (by simp)
    unfold Bucket.modifyEntry
    by_cases same : slot.key = key
    · rw [if_pos (here.mpr same), List.map_cons,
        map_rewrite_of_absent change (ne_key_of_nodup distinct same)]
      unfold Slot.rewrite
      rw [if_pos same]
    · rw [if_neg (fun found => same (here.mp found)), List.map_cons, Slot.rewrite_of_ne change same,
        induction distinct.of_cons (fun other member => matched other (by simp [member]))]

theorem eraseP_matches_eq_filter :
    bucket.eraseP (fun slot => slot.matches hash key) =
      bucket.filter (fun slot => slot.key ≠ key) := by
  induction bucket with
  | nil => rfl
  | cons slot rest induction =>
    have here := matched slot (by simp)
    by_cases same : slot.key = key
    · rw [List.eraseP_cons, here.mpr same, cond_true, List.filter_cons_of_neg (by simp [same]),
        List.filter_eq_self.mpr (by simpa using ne_key_of_nodup distinct same)]
    · have missed : slot.matches hash key = false := by
        simpa using fun found => same (here.mp found)
      rw [List.eraseP_cons, missed, cond_false, List.filter_cons_of_pos (by simp [same]),
        induction distinct.of_cons (fun other member => matched other (by simp [member]))]

end

variable [SipHasher]

/-- Every slot sits in the bucket its key's hash selects, and the bucket count
is a power of two. -/
structure Placed (seed : DictSeed) (table : Table) : Prop where
  powerOfTwo : ∃ bits, table.length = 2 ^ bits
  hashed : ∀ index, ∀ slot ∈ bucketAt table index,
    slot.hash = hashKey seed slot.key
  bucket : ∀ index, ∀ slot ∈ bucketAt table index,
    bucketIndex (hashKey seed slot.key) table.length = index

namespace Placed

variable {seed : DictSeed} {table : Table} {slot : Slot} {index : Nat}

section

variable (placed : Placed seed table)

include placed

theorem bucketIndex_lt (hash : BitVec 64) : bucketIndex hash table.length < table.length := by
  obtain ⟨bits, power⟩ := placed.powerOfTwo
  exact Seedstone.bucketIndex_lt hash power

theorem mem_bucket (member : slot ∈ table.flatten) :
    slot ∈ bucketAt table (bucketIndex (hashKey seed slot.key) table.length) := by
  obtain ⟨index, found⟩ := mem_flatten_iff.mp member
  rwa [placed.bucket index slot found]

theorem matches_iff (member : slot ∈ table.flatten) (key : Bytes) :
    slot.matches (hashKey seed key) key = true ↔ slot.key = key := by
  obtain ⟨index, found⟩ := mem_flatten_iff.mp member
  have hash := placed.hashed index slot found
  unfold Slot.matches
  constructor
  · intro both
    simp only [Bool.and_eq_true, beq_iff_eq] at both
    exact both.2
  · intro same
    simp [hash, same]

theorem find_eq_none_iff (key : Bytes) :
    find table (hashKey seed key) key = none ↔ ∀ slot ∈ table.flatten, slot.key ≠ key := by
  unfold find
  rw [Option.map_eq_none_iff, List.find?_eq_none]
  constructor
  · intro missed slot member same
    have inBucket := placed.mem_bucket member
    rw [same] at inBucket
    exact missed slot inBucket ((placed.matches_iff member key).mpr same)
  · intro absent slot member found
    have inTable : slot ∈ table.flatten := mem_flatten_iff.mpr ⟨_, member⟩
    exact absent slot inTable ((placed.matches_iff inTable key).mp found)

theorem exists_slot_of_find {entry : Entry}
    (found : find table (hashKey seed key) key = some entry) :
    ∃ slot ∈ table.flatten, slot.key = key ∧ slot.entry = entry := by
  unfold find at found
  obtain ⟨slot, located, same⟩ := Option.map_eq_some_iff.mp found
  have member := List.mem_of_find?_eq_some located
  have inTable : slot ∈ table.flatten := mem_flatten_iff.mpr ⟨_, member⟩
  have matched := List.find?_some located
  exact ⟨slot, inTable, (placed.matches_iff inTable key).mp matched, same⟩

end

theorem emptyTable (seed : DictSeed) (bits : Nat) : Placed seed (emptyTable (2 ^ bits)) := by
  have empty : ∀ index, bucketAt (Seedstone.emptyTable (2 ^ bits)) index = [] := by
    intro index
    unfold bucketAt Seedstone.emptyTable
    rw [List.getD_eq_getElem?_getD, List.getElem?_replicate]
    split <;> rfl
  refine ⟨⟨bits, by simp [Seedstone.emptyTable]⟩, ?_, ?_⟩
  · intro index slot member
    simp [empty index] at member
  · intro index slot member
    simp [empty index] at member

variable (placed : Placed seed table)

include placed

/-- A change of one bucket that adds no slot with another placement keeps the
table placed. -/
theorem modify (inside : index < table.length)
    (kept : ∀ slot ∈ change (bucketAt table index), slot.hash = hashKey seed slot.key ∧
      bucketIndex (hashKey seed slot.key) table.length = index) :
    Placed seed (table.modify index change) := by
  refine ⟨?_, ?_, ?_⟩
  · obtain ⟨bits, power⟩ := placed.powerOfTwo
    exact ⟨bits, by rw [List.length_modify, power]⟩
  · intro other slot member
    rw [bucketAt_modify change inside other] at member
    split at member
    · exact (kept slot member).1
    · exact placed.hashed other slot member
  · intro other slot member
    rw [List.length_modify]
    rw [bucketAt_modify change inside other] at member
    split at member
    · next same =>
        rw [← same]
        exact (kept slot member).2
    · exact placed.bucket other slot member

theorem push (hash : slot.hash = hashKey seed slot.key) :
    Placed seed (Table.push table (bucketIndex slot.hash table.length) slot) := by
  apply placed.modify (placed.bucketIndex_lt slot.hash)
  intro other member
  rcases List.mem_append.mp member with old | new
  · exact ⟨placed.hashed _ other old, placed.bucket _ other old⟩
  · rw [List.mem_singleton] at new
    subst new
    exact ⟨hash, by rw [hash]⟩

theorem matches_iff_of_bucket (member : slot ∈ bucketAt table index) (key : Bytes) :
    slot.matches (hashKey seed key) key = true ↔ slot.key = key :=
  placed.matches_iff (mem_flatten_iff.mpr ⟨index, member⟩) key

theorem key_ne_of_other_bucket (other : index ≠ bucketIndex (hashKey seed key) table.length)
    (member : slot ∈ bucketAt table index) : slot.key ≠ key := by
  intro same
  apply other
  rw [← same, placed.bucket index slot member]

variable (distinct : (table.flatten.map Slot.key).Nodup)

include distinct

theorem flatten_modifyEntry (key : Bytes) (change : Entry → Entry) :
    (Table.modifyEntry table (hashKey seed key) key change).flatten =
      table.flatten.map (Slot.rewrite key change) := by
  rw [List.map_eq_flatMap]
  unfold Table.modifyEntry
  apply flatten_modify_eq_flatMap
  · rw [← List.map_eq_flatMap]
    exact Bucket.modifyEntry_eq_map change (bucket_distinct distinct _)
      (fun slot member => placed.matches_iff_of_bucket member key)
  · intro other different slot member
    rw [Slot.rewrite_of_ne change (placed.key_ne_of_other_bucket different member)]

theorem modifyEntry (key : Bytes) (change : Entry → Entry) :
    Placed seed (Table.modifyEntry table (hashKey seed key) key change) := by
  apply placed.modify (placed.bucketIndex_lt _)
  rw [Bucket.modifyEntry_eq_map change (bucket_distinct distinct _)
    (fun slot member => placed.matches_iff_of_bucket member key)]
  intro slot member
  obtain ⟨before, beforeMember, rfl⟩ := List.mem_map.mp member
  simp only [Slot.rewrite_key, Slot.rewrite_hash]
  exact ⟨placed.hashed _ before beforeMember, placed.bucket _ before beforeMember⟩

theorem removeFrom_spec (key : Bytes) :
    (removeFrom table (hashKey seed key) key).1 = find table (hashKey seed key) key ∧
      (removeFrom table (hashKey seed key) key).2.flatten =
        table.flatten.filter (fun slot => slot.key ≠ key) ∧
      (removeFrom table (hashKey seed key) key).2.length = table.length ∧
      (∀ index, bucketAt table index = [] →
        bucketAt (removeFrom table (hashKey seed key) key).2 index = []) ∧
      Placed seed (removeFrom table (hashKey seed key) key).2 := by
  have missing := placed.find_eq_none_iff key
  unfold removeFrom
  unfold find at missing ⊢
  dsimp only
  cases located : (bucketAt table (bucketIndex (hashKey seed key) table.length)).find?
      (fun slot => slot.matches (hashKey seed key) key) with
  | none =>
    rw [located] at missing
    have absent := missing.mp rfl
    refine ⟨rfl, ?_, rfl, fun index empty => empty, placed⟩
    exact (List.filter_eq_self.mpr (by simpa using absent)).symm
  | some slot =>
    have erased := eraseP_matches_eq_filter (bucket_distinct distinct
      (bucketIndex (hashKey seed key) table.length))
      (fun slot member => placed.matches_iff_of_bucket member key)
    refine ⟨rfl, ?_, by simp, ?_, ?_⟩
    · have spread : ∀ slots : List Slot,
          slots.filter (fun slot => slot.key ≠ key) =
            slots.flatMap (fun slot => if slot.key = key then [] else [slot]) := by
        intro slots
        induction slots with
        | nil => rfl
        | cons slot rest induction =>
          by_cases same : slot.key = key
          · rw [List.filter_cons_of_neg (by simp [same]), induction]
            simp [same]
          · rw [List.filter_cons_of_pos (by simp [same]), induction]
            simp [same]
      rw [spread]
      apply flatten_modify_eq_flatMap
      · rw [erased, spread]
      · intro other different slot member
        rw [if_neg (placed.key_ne_of_other_bucket different member)]
    · intro index empty
      exact bucketAt_modify_eq_nil (placed.bucketIndex_lt _) rfl empty
    · apply placed.modify (placed.bucketIndex_lt _)
      rw [erased]
      intro slot member
      have kept := (List.mem_filter.mp member).1
      exact ⟨placed.hashed _ slot kept, placed.bucket _ slot kept⟩

end Placed

end Seedstone
