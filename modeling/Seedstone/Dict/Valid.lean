import Seedstone.Dict.Basic
import Seedstone.Dict.Slots

/-!
# The invariant of a dict

`Dict.Valid` is what every operation of a dict keeps: both tables place their
slots, the larger has twice the buckets of the smaller, the buckets a migration
has passed are empty, no key sits in two slots, and `len` counts the slots.
Under it a dict is the association of its slots, `lookup dict.slots`.
-/

namespace Seedstone

variable {key : Bytes} {entry : Entry}

/-- The entry a list of slots associates with a key. -/
def lookup (slots : List Slot) (key : Bytes) : Option Entry :=
  (slots.find? (fun slot => slot.key = key)).map Slot.entry

theorem lookup_cons (slot : Slot) (slots : List Slot) (key : Bytes) :
    lookup (slot :: slots) key = if slot.key = key then some slot.entry else lookup slots key := by
  unfold lookup
  rw [List.find?_cons]
  by_cases same : slot.key = key
  · simp [same]
  · simp [same]

theorem lookup_append (first second : List Slot) (key : Bytes) :
    lookup (first ++ second) key = (lookup first key).or (lookup second key) := by
  unfold lookup
  rw [List.find?_append]
  cases first.find? (fun slot => slot.key = key) <;> rfl

theorem lookup_eq_none_iff {slots : List Slot} :
    lookup slots key = none ↔ ∀ slot ∈ slots, slot.key ≠ key := by
  unfold lookup
  rw [Option.map_eq_none_iff, List.find?_eq_none]
  simp

theorem exists_of_lookup {slots : List Slot} (found : lookup slots key = some entry) :
    ∃ slot ∈ slots, slot.key = key ∧ slot.entry = entry := by
  unfold lookup at found
  obtain ⟨slot, located, same⟩ := Option.map_eq_some_iff.mp found
  exact ⟨slot, List.mem_of_find?_eq_some located,
    by simpa using List.find?_some located, same⟩

/-- The slot a lookup finds, in front of those with other keys. -/
theorem perm_of_lookup {slots : List Slot} (distinct : (slots.map Slot.key).Nodup)
    (found : lookup slots key = some entry) :
    ∃ slot others, slots.Perm (slot :: others) ∧ slot.key = key ∧ slot.entry = entry ∧
      ∀ other ∈ others, other.key ≠ key := by
  obtain ⟨slot, member, same, value⟩ := exists_of_lookup found
  obtain ⟨before, after, rfl⟩ := List.append_of_mem member
  have perm : (before ++ slot :: after).Perm (slot :: (before ++ after)) := List.perm_middle
  have moved := (perm.map Slot.key).nodup_iff.mp distinct
  rw [List.map_cons, List.nodup_cons] at moved
  refine ⟨slot, before ++ after, perm, same, value, fun other inside equal => moved.1 ?_⟩
  rw [same, ← equal]
  exact List.mem_map_of_mem inside

theorem lookup_of_mem {slots : List Slot}
    (distinct : (slots.map Slot.key).Nodup) {slot : Slot} (member : slot ∈ slots) :
    lookup slots slot.key = some slot.entry := by
  induction slots with
  | nil => simp at member
  | cons head tail induction =>
    rw [List.map_cons, List.nodup_cons] at distinct
    rw [lookup_cons]
    rcases List.mem_cons.mp member with here | later
    · rw [here, if_pos rfl]
    · have different : head.key ≠ slot.key := by
        intro same
        apply distinct.1
        rw [same]
        exact List.mem_map_of_mem later
      rw [if_neg different, induction distinct.2 later]

theorem lookup_eq_some_iff {slots : List Slot} (distinct : (slots.map Slot.key).Nodup) :
    lookup slots key = some entry ↔ ∃ slot ∈ slots, slot.key = key ∧ slot.entry = entry := by
  constructor
  · exact exists_of_lookup
  · rintro ⟨slot, member, rfl, rfl⟩
    exact lookup_of_mem distinct member

theorem lookup_perm {first second : List Slot}
    (distinct : (first.map Slot.key).Nodup) (perm : first.Perm second)
    (key : Bytes) : lookup first key = lookup second key := by
  have distinct' : (second.map Slot.key).Nodup := (perm.map Slot.key).nodup_iff.mp distinct
  apply Option.ext
  intro entry
  rw [lookup_eq_some_iff distinct, lookup_eq_some_iff distinct']
  simp only [perm.mem_iff]

theorem lookup_rewrite (slots : List Slot) (key other : Bytes) (change : Entry → Entry) :
    lookup (slots.map (Slot.rewrite key change)) other =
      if other = key then (lookup slots key).map change
      else lookup slots other := by
  induction slots with
  | nil => simp [lookup]
  | cons slot slots induction =>
    rw [List.map_cons, lookup_cons, Slot.rewrite_key, induction, lookup_cons, lookup_cons]
    by_cases same : slot.key = other
    · by_cases target : other = key
      · subst target
        simp [same, Slot.rewrite]
      · have different : slot.key ≠ key := by rwa [same]
        simp [same, target, Slot.rewrite_of_ne change different]
    · by_cases target : other = key
      · subst target
        simp [same]
      · simp [same, target]

theorem lookup_filter (slots : List Slot) (key other : Bytes) :
    lookup (slots.filter (fun slot => slot.key ≠ key)) other =
      if other = key then none else lookup slots other := by
  by_cases target : other = key
  · rw [if_pos target, lookup_eq_none_iff]
    intro slot member
    have kept := (List.mem_filter.mp member).2
    rw [target]
    simpa using kept
  · rw [if_neg target]
    induction slots with
    | nil => rfl
    | cons slot slots induction =>
      by_cases same : slot.key = key
      · have different : slot.key ≠ other := by
          rw [same]
          exact fun equal => target equal.symm
        rw [List.filter_cons_of_neg (by simp [same]), induction, lookup_cons, if_neg different]
      · rw [List.filter_cons_of_pos (by simp [same]), lookup_cons, lookup_cons, induction]

namespace Dict

/-- Every slot of a dict, the old table's first. -/
def slots (dict : Dict) : List Slot :=
  dict.old.flatten ++ (dict.new.getD []).flatten

variable [SipHasher]

/-- The invariant of the two tables, without the counter over them. -/
structure Shaped (dict : Dict) : Prop where
  old : Placed dict.seed dict.old
  new : ∀ new, dict.new = some new → Placed dict.seed new
  doubled : ∀ new, dict.new = some new → new.length = dict.old.length * 2
  draining : ∀ new, dict.new = some new → dict.rehashIndex < dict.old.length
  resting : dict.new = none → dict.rehashIndex = 0
  drained : ∀ index, index < dict.rehashIndex → bucketAt dict.old index = []
  distinct : (dict.slots.map Slot.key).Nodup

structure Valid (dict : Dict) : Prop extends Shaped dict where
  counted : dict.len = dict.slots.length

end Dict

theorem Placed.find_eq_lookup [SipHasher] {seed : DictSeed} {table : Table}
    (placed : Placed seed table) (distinct : (table.flatten.map Slot.key).Nodup) (key : Bytes) :
    find table (hashKey seed key) key = lookup table.flatten key := by
  cases found : find table (hashKey seed key) key with
  | none =>
    rw [eq_comm, lookup_eq_none_iff]
    exact (placed.find_eq_none_iff key).mp found
  | some entry =>
    rw [eq_comm, lookup_eq_some_iff distinct]
    exact placed.exists_slot_of_find found

namespace Dict

variable [SipHasher] {dict : Dict}

theorem Valid.old_distinct (valid : dict.Valid) : (dict.old.flatten.map Slot.key).Nodup :=
  valid.distinct.sublist ((List.sublist_append_left _ _).map Slot.key)

theorem Valid.new_distinct (valid : dict.Valid) {new : Table}
    (rehashing : dict.new = some new) : (new.flatten.map Slot.key).Nodup := by
  have distinct := valid.distinct
  unfold slots at distinct
  rw [rehashing] at distinct
  exact distinct.sublist ((List.sublist_append_right _ _).map Slot.key)

theorem Valid.get_eq_lookup (valid : dict.Valid) (key : Bytes) :
    dict.get key = lookup dict.slots key := by
  unfold get slots
  dsimp only
  rw [lookup_append, ← valid.old.find_eq_lookup valid.old_distinct key]
  cases found : find dict.old (hashKey dict.seed key) key with
  | some entry => rfl
  | none =>
    cases rehashing : dict.new with
    | none => rfl
    | some new =>
      simp only [Option.getD_some, Option.none_or]
      exact (valid.new new rehashing).find_eq_lookup (valid.new_distinct rehashing) key

theorem Valid.get_eq_some_iff (valid : dict.Valid) :
    dict.get key = some entry ↔ ∃ slot ∈ dict.slots, slot.key = key ∧ slot.entry = entry := by
  rw [valid.get_eq_lookup, lookup_eq_some_iff valid.distinct]

omit [SipHasher] in
theorem flatten_emptyTable (buckets : Nat) : (emptyTable buckets).flatten = [] := by
  unfold emptyTable
  induction buckets with
  | zero => rfl
  | succ buckets induction =>
    rw [List.replicate_succ, List.flatten_cons, induction]
    rfl

omit [SipHasher] in
theorem slots_withSeed (seed : DictSeed) : (withSeed seed).slots = [] := by
  unfold slots withSeed
  simp [flatten_emptyTable]

theorem valid_withSeed (seed : DictSeed) : (withSeed seed).Valid where
  old := Placed.emptyTable seed 3
  new := by
    intro new rehashing
    simp [withSeed] at rehashing
  doubled := by
    intro new rehashing
    simp [withSeed] at rehashing
  draining := by
    intro new rehashing
    simp [withSeed] at rehashing
  resting := fun _ => rfl
  drained := by
    intro index below
    simp [withSeed] at below
  distinct := by simp [slots_withSeed]
  counted := by
    rw [slots_withSeed]
    rfl

end Dict

end Seedstone
