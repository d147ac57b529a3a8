import Seedstone.Dict.Deadlines
import Seedstone.Dict.FiniteMap

/-!
# The two counters of a dict

`used_bytes` and `with_deadline` are kept by differences, through overwrites,
removals and two tables at a time.  Both are the weight of the slots under a
function of one entry, `used_bytes` with the price of the buckets on top, so
one set of lemmas about weights carries the two.  Since each counter equals
what it counts, no operation takes from it more than it holds.
-/

namespace Seedstone

/-- The sum of a weight over a list of slots. -/
def total (weight : Bytes → Entry → Nat) (slots : List Slot) : Nat :=
  (slots.map (fun slot => weight slot.key slot.entry)).sum

/-- What `used_bytes` charges for an entry. -/
def entryWeight (key : Bytes) (entry : Entry) : Nat :=
  entryBytes key entry.value

/-- What `with_deadline` counts for an entry. -/
def datedWeight (_ : Bytes) (entry : Entry) : Nat :=
  dated entry.expiresAt

section Total

variable {weight : Bytes → Entry → Nat} {key : Bytes}

theorem total_cons (slot : Slot) (slots : List Slot) :
    total weight (slot :: slots) = weight slot.key slot.entry + total weight slots := by
  unfold total
  rw [List.map_cons, List.sum_cons]

theorem total_perm {first second : List Slot} (perm : first.Perm second) :
    total weight first = total weight second :=
  (perm.map _).sum_eq

theorem total_rewrite {slots : List Slot} (distinct : (slots.map Slot.key).Nodup)
    {entry : Entry} (found : lookup slots key = some entry) (change : Entry → Entry) :
    total weight (slots.map (Slot.rewrite key change)) + weight key entry =
      total weight slots + weight key (change entry) := by
  obtain ⟨slot, others, perm, rfl, rfl, absent⟩ := perm_of_lookup distinct found
  have here : (slot.rewrite slot.key change).entry = change slot.entry := by
    simp [Slot.rewrite]
  rw [total_perm (perm.map _), total_perm perm, List.map_cons,
    map_rewrite_of_absent change absent, total_cons, total_cons, Slot.rewrite_key, here]
  omega

theorem total_rewrite_same {change : Entry → Entry}
    (kept : ∀ entry, weight key (change entry) = weight key entry) (slots : List Slot) :
    total weight (slots.map (Slot.rewrite key change)) = total weight slots := by
  unfold total
  rw [List.map_map]
  congr 1
  apply List.map_congr_left
  intro slot _
  by_cases same : slot.key = key
  · simp [Slot.rewrite, same, kept]
  · simp [Slot.rewrite_of_ne change same]

theorem total_filter {slots : List Slot} (distinct : (slots.map Slot.key).Nodup)
    {entry : Entry} (found : lookup slots key = some entry) :
    total weight (slots.filter (fun slot => slot.key ≠ key)) + weight key entry =
      total weight slots := by
  obtain ⟨slot, others, perm, rfl, rfl, absent⟩ := perm_of_lookup distinct found
  rw [total_perm (perm.filter _), total_perm perm, List.filter_cons_of_neg (by simp),
    List.filter_eq_self.mpr (by simpa using absent), total_cons, Nat.add_comm]

theorem total_datedWeight (slots : List Slot) :
    total datedWeight slots =
      slots.countP (fun slot => slot.entry.expiresAt.isSome) := by
  induction slots with
  | nil => rfl
  | cons slot slots induction =>
    rw [total_cons, List.countP_cons, induction]
    unfold datedWeight dated
    omega

end Total

namespace Dict

variable {key : Bytes} {entry : Entry}

/-- The buckets of both tables. -/
def buckets (dict : Dict) : Nat :=
  dict.old.length + (dict.new.getD []).length

/-- What `used_bytes` is to be: every entry and every bucket, counted again. -/
def recount (dict : Dict) : Nat :=
  total entryWeight dict.slots + tableBytes dict.buckets

/-- The step that empties `old` takes the price of its buckets off `used_bytes`. -/
def rehashSubtractions (dict : Dict) (buckets : Nat) : List (Nat × Nat) :=
  match dict.new with
  | none => []
  | some _ =>
    if min (dict.rehashIndex + buckets) dict.old.length = dict.old.length then
      [(dict.usedBytes, tableBytes dict.old.length)]
    else
      []

variable [SipHasher] {dict : Dict}

/-- The subtractions an operation makes, in order: what each takes from, and what it
takes. -/
def subtractions (dict : Dict) : DictOp → List (Nat × Nat)
  | .insert key entry =>
    let room := dict.makeRoom
    dict.rehashSubtractions 1 ++
      match room.get key with
      | none => []
      | some existing =>
        [(room.usedBytes, entryBytes key existing.value),
          (room.withDeadline + dated entry.expiresAt, dated existing.expiresAt)]
  | .remove key =>
    let start := if dict.isRehashing then dict.rehashStep 1 else dict
    dict.rehashSubtractions 1 ++
      match start.get key with
      | none => []
      | some removed =>
        [(start.usedBytes, entryBytes key removed.value),
          (start.withDeadline, dated removed.expiresAt),
          (start.len, 1)]
  | .setDeadline key expiresAt =>
    match dict.get key with
    | none => []
    | some entry =>
      [(dict.withDeadline + dated expiresAt, dated entry.expiresAt)]
  | .touch _ => []
  | .rehashStep buckets => dict.rehashSubtractions buckets
  | .clear => []

/-- A sound dict whose counters are what they count. -/
structure Accounted (dict : Dict) : Prop extends Sound dict where
  bytes : dict.usedBytes = dict.recount
  dates : dict.withDeadline = total datedWeight dict.slots

/-- A change of the tables that leaves the two counters alone and allocates
nothing. -/
structure SameCounters (before after : Dict) : Prop where
  usedBytes : after.usedBytes = before.usedBytes
  withDeadline : after.withDeadline = before.withDeadline
  buckets : after.buckets = before.buckets

omit [SipHasher] in
theorem SameShape.buckets {before after : Dict} (same : SameShape before after) :
    after.buckets = before.buckets := by
  have lengths : ∀ dict : Dict,
      dict.buckets = dict.old.length + (dict.new.map List.length).getD 0 := by
    intro dict
    unfold Dict.buckets
    cases dict.new <;> rfl
  rw [lengths, lengths, same.old, same.new]

theorem sameCounters_modifyEntry (dict : Dict) (key : Bytes)
    (change : Entry → Entry) : SameCounters dict (dict.modifyEntry key change) := by
  refine ⟨?_, ?_, (sameShape_modifyEntry dict key change).buckets⟩ <;>
  · unfold modifyEntry
    dsimp only
    split
    · rfl
    · split <;> rfl

theorem sameCounters_removeSlot (dict : Dict) (key : Bytes) :
    SameCounters dict (dict.removeSlot key).2 := by
  refine ⟨?_, ?_, (sameShape_removeSlot dict key).buckets⟩ <;>
  · unfold removeSlot
    dsimp only
    split
    · rfl
    · split <;> rfl

/-- A step either leaves both tables allocated or frees the one it emptied. -/
theorem rehashStep_bytes (valid : dict.Valid) (buckets : Nat) :
    ((dict.rehashStep buckets).usedBytes = dict.usedBytes ∧
        (dict.rehashStep buckets).buckets = dict.buckets) ∨
      ((dict.rehashStep buckets).usedBytes = dict.usedBytes - tableBytes dict.old.length ∧
        (dict.rehashStep buckets).buckets + dict.old.length = dict.buckets) := by
  have migrated := valid.migrated buckets
  generalize dict.rehashStep buckets = after at migrated
  cases migrated with
  | resting => exact Or.inl ⟨rfl, rfl⟩
  | finished rehashing _ length =>
    refine Or.inr ⟨rfl, ?_⟩
    simp [Dict.buckets, rehashing, length, Nat.add_comm]
  | moved rehashing _ oldLength newLength =>
    refine Or.inl ⟨rfl, ?_⟩
    simp [Dict.buckets, rehashing, oldLength, newLength]

omit [SipHasher] in
theorem tableBytes_add (first second : Nat) :
    tableBytes (first + second) = tableBytes first + tableBytes second :=
  Nat.add_mul first second bucketOverhead

omit [SipHasher] in
theorem tableBytes_old_le (dict : Dict) : tableBytes dict.old.length ≤ dict.recount := by
  unfold recount Dict.buckets
  rw [tableBytes_add]
  omega

section

variable (accounted : dict.Accounted)

include accounted

theorem Accounted.rehashSubtractions_le (buckets : Nat) :
    ∀ taken ∈ dict.rehashSubtractions buckets, taken.2 ≤ taken.1 := by
  intro taken member
  unfold rehashSubtractions at member
  split at member
  · simp at member
  · split at member
    · rw [List.mem_singleton.mp member]
      dsimp only
      rw [accounted.bytes]
      exact tableBytes_old_le dict
    · simp at member

theorem Accounted.rehashStep (buckets : Nat) : (dict.rehashStep buckets).Accounted where
  toSound := accounted.toSound.rehashStep buckets
  bytes := by
    have perm := (rehashStep_spec accounted.toValid buckets).2
    have weight : total entryWeight (dict.rehashStep buckets).slots =
        total entryWeight dict.slots := total_perm perm
    have before := accounted.bytes
    unfold recount at before ⊢
    rw [weight]
    rcases rehashStep_bytes accounted.toValid buckets with ⟨kept, same⟩ | ⟨freed, fewer⟩
    · rw [kept, same]
      exact before
    · rw [← fewer, tableBytes_add] at before
      rw [freed, before]
      omega
  dates := by
    rw [(sameCounts_rehashStep dict buckets).withDeadline, accounted.dates]
    exact (total_perm (rehashStep_spec accounted.toValid buckets).2).symm

theorem Accounted.beforeRemove :
    (if dict.isRehashing then dict.rehashStep 1 else dict).Accounted := by
  split
  · exact accounted.rehashStep 1
  · exact accounted

theorem Accounted.makeRoom : dict.makeRoom.Accounted := by
  unfold Dict.makeRoom
  split
  · exact accounted.rehashStep 1
  · next resting =>
      split
      · have idle : dict.new = none := by
          simpa [isRehashing] using resting
        obtain ⟨started, same⟩ := startRehash_spec accounted.toValid idle
        refine ⟨⟨started, ?_⟩, ?_, ?_⟩
        · intro down key entry found
          rw [get_eq_of_perm accounted.toValid started (by rw [same])] at found
          exact accounted.flagged down key entry found
        · have before := accounted.bytes
          unfold recount Dict.buckets at before ⊢
          rw [same]
          simp only [startRehash, idle, Option.getD_some, Option.getD_none,
            List.length_nil, Nat.add_zero, emptyTable, List.length_replicate,
            tableBytes_add] at before ⊢
          omega
        · rw [same]
          exact accounted.dates
      · exact accounted

theorem Accounted.noteDeadline (expiresAt : Option Nat) :
    (dict.noteDeadline expiresAt).Accounted where
  toValid := (sameTables_noteDeadline dict expiresAt).valid accounted.toValid
  flagged := by
    intro down key entry found
    have flags : dict.mayHoldDeadlines = false ∧ expiresAt.isSome = false := by
      simpa [Dict.noteDeadline] using down
    rw [(sameTables_noteDeadline dict expiresAt).get] at found
    exact accounted.flagged flags.1 key entry found
  __ := accounted

end

/-- What rewriting one entry leaves of the counters' sums. -/
theorem Valid.total_modifyEntry (valid : dict.Valid) (weight : Bytes → Entry → Nat)
    (found : dict.get key = some entry) (change : Entry → Entry) :
    total weight (dict.modifyEntry key change).slots + weight key entry =
      total weight dict.slots + weight key (change entry) := by
  rw [slots_modifyEntry valid]
  rw [valid.get_eq_lookup] at found
  exact total_rewrite valid.distinct found change

theorem Valid.weight_le_total (valid : dict.Valid) (weight : Bytes → Entry → Nat)
    (found : dict.get key = some entry) : weight key entry ≤ total weight dict.slots := by
  rw [valid.get_eq_lookup] at found
  have split : total weight (dict.slots.filter (fun slot => slot.key ≠ key)) +
      weight key entry = total weight dict.slots := total_filter valid.distinct found
  omega

section

variable (accounted : dict.Accounted)

include accounted

theorem Accounted.entryBytes_le (found : dict.get key = some entry) :
    entryBytes key entry.value ≤ dict.usedBytes := by
  have bound : entryBytes key entry.value ≤ total entryWeight dict.slots :=
    accounted.toValid.weight_le_total entryWeight found
  have counted := accounted.bytes
  unfold recount at counted
  omega

theorem Accounted.dated_le (found : dict.get key = some entry) :
    dated entry.expiresAt ≤ dict.withDeadline := by
  rw [accounted.dates]
  exact accounted.toValid.weight_le_total datedWeight found

/-- The counters after an entry was rewritten: old price out, new price in. -/
theorem Accounted.rewritten (found : dict.get key = some entry) (change : Entry → Entry) :
    dict.usedBytes - entryBytes key entry.value + entryBytes key (change entry).value =
        (dict.modifyEntry key change).recount ∧
      dict.withDeadline + dated (change entry).expiresAt - dated entry.expiresAt =
        total datedWeight (dict.modifyEntry key change).slots := by
  have bytes := accounted.toValid.total_modifyEntry entryWeight found change
  have dates := accounted.toValid.total_modifyEntry datedWeight found change
  have paid := accounted.entryBytes_le found
  have counted := accounted.bytes
  have countedDates := accounted.dates
  unfold recount at counted ⊢
  rw [(sameCounters_modifyEntry dict key change).buckets]
  unfold entryWeight at bytes counted ⊢
  unfold datedWeight at dates countedDates ⊢
  omega

theorem Accounted.setDeadline (key : Bytes) (expiresAt : Option Nat) :
    (dict.setDeadline key expiresAt).2.Accounted := by
  have sound := accounted.toSound.setDeadline key expiresAt
  have noted := accounted.noteDeadline expiresAt
  revert sound
  unfold Dict.setDeadline
  dsimp only
  cases found : (dict.noteDeadline expiresAt).get key with
  | none =>
    intro _
    exact noted
  | some entry =>
    intro sound
    obtain ⟨bytes, dates⟩ := noted.rewritten found
      (fun entry => { entry with expiresAt := expiresAt })
    refine ⟨sound, ?_, dates⟩
    refine Eq.trans ?_ bytes
    exact (Nat.sub_add_cancel (noted.entryBytes_le found)).symm

theorem Accounted.touch (key : Bytes) : (dict.touch key).Accounted := by
  have sound := accounted.toSound.touch key
  have tickedValid := (sameTables_tick dict).valid accounted.toValid
  have slotsEq := slots_modifyEntry tickedValid key
    (fun entry => { entry with touched := dict.tick.clock })
  have counters := sameCounters_modifyEntry dict.tick key
    (fun entry => { entry with touched := dict.tick.clock })
  unfold Dict.touch at sound ⊢
  refine ⟨sound, ?_, ?_⟩
  · unfold recount
    rw [counters.usedBytes, counters.buckets, slotsEq, total_rewrite_same]
    · exact accounted.bytes
    · exact fun _ => rfl
  · rw [counters.withDeadline, slotsEq, total_rewrite_same]
    · exact accounted.dates
    · exact fun _ => rfl

theorem Accounted.insert (key : Bytes) (entry : Entry) : (dict.insert key entry).Accounted := by
  have sound := accounted.toSound.insert key entry
  have noted := accounted.makeRoom.noteDeadline entry.expiresAt
  revert sound
  unfold Dict.insert
  dsimp only
  generalize dict.makeRoom.noteDeadline entry.expiresAt = room at noted
  cases found : room.get key with
  | some existing =>
    intro sound
    obtain ⟨bytes, dates⟩ := noted.rewritten found (fun _ => entry)
    exact ⟨sound, bytes, dates⟩
  | none =>
    intro sound
    obtain ⟨-, perm⟩ := pushSlot_spec noted.toValid ⟨hashKey room.seed key, key, entry⟩ rfl found
    have buckets := (sameShape_pushSlot room ⟨hashKey room.seed key, key, entry⟩).buckets
    have bytes : total entryWeight
        (room.pushSlot ⟨hashKey room.seed key, key, entry⟩).slots =
          entryBytes key entry.value + total entryWeight room.slots :=
      (total_perm perm).trans (total_cons _ _)
    have dates : total datedWeight
        (room.pushSlot ⟨hashKey room.seed key, key, entry⟩).slots =
          dated entry.expiresAt + total datedWeight room.slots :=
      (total_perm perm).trans (total_cons _ _)
    refine ⟨sound, ?_, ?_⟩
    · have counted := noted.bytes
      show room.usedBytes + entryBytes key entry.value =
        total entryWeight (room.pushSlot ⟨hashKey room.seed key, key, entry⟩).slots +
          tableBytes (room.pushSlot ⟨hashKey room.seed key, key, entry⟩).buckets
      unfold recount at counted
      rw [bytes, buckets, counted]
      omega
    · show room.withDeadline + dated entry.expiresAt =
        total datedWeight (room.pushSlot ⟨hashKey room.seed key, key, entry⟩).slots
      rw [dates, noted.dates]
      omega

theorem Accounted.remove (key : Bytes) : (dict.remove key).2.Accounted := by
  have sound := accounted.toSound.remove key
  have started := accounted.beforeRemove
  revert sound
  unfold Dict.remove
  dsimp only
  generalize (if dict.isRehashing then dict.rehashStep 1 else dict) = start at started
  obtain ⟨result, slotsEq, -, -⟩ := removeSlot_spec started.toValid key
  have counters := sameCounters_removeSlot start key
  have looked := started.toValid.get_eq_lookup key
  generalize start.removeSlot key = outcome at result slotsEq counters
  obtain ⟨removed, after⟩ := outcome
  dsimp only at result slotsEq counters
  rw [← result] at looked
  have counted := started.bytes
  unfold recount at counted
  cases removed with
  | none =>
    intro sound
    have absent := lookup_eq_none_iff.mp looked.symm
    have unchanged : after.slots = start.slots := by
      rw [slotsEq, List.filter_eq_self.mpr (by simpa using absent)]
    refine ⟨sound, ?_, ?_⟩
    · unfold recount
      rw [counters.usedBytes, counters.buckets, unchanged]
      exact counted
    · rw [counters.withDeadline, unchanged]
      exact started.dates
  | some entry =>
    intro sound
    have bytes : total entryWeight after.slots + entryBytes key entry.value =
        total entryWeight start.slots := by
      rw [slotsEq]
      exact total_filter started.distinct looked.symm
    have dates : total datedWeight after.slots + dated entry.expiresAt =
        total datedWeight start.slots := by
      rw [slotsEq]
      exact total_filter started.distinct looked.symm
    refine ⟨sound, ?_, ?_⟩
    · show after.usedBytes - entryBytes key entry.value =
        total entryWeight after.slots + tableBytes after.buckets
      rw [counters.usedBytes, counters.buckets]
      omega
    · show after.withDeadline - dated entry.expiresAt = total datedWeight after.slots
      rw [counters.withDeadline, started.dates]
      omega

end

theorem accounted_withSeed (seed : DictSeed) : (withSeed seed).Accounted where
  toSound := sound_withSeed seed
  bytes := by
    unfold recount
    rw [slots_withSeed]
    simp [withSeed, total, Dict.buckets, emptyTable]
  dates := by
    rw [slots_withSeed]
    rfl

theorem Accounted.step (accounted : dict.Accounted) (op : DictOp) : (dict.step op).2.Accounted := by
  cases op with
  | insert key entry => exact accounted.insert key entry
  | remove key => exact accounted.remove key
  | setDeadline key expiresAt => exact accounted.setDeadline key expiresAt
  | touch key => exact accounted.touch key
  | rehashStep buckets => exact accounted.rehashStep buckets
  | clear => exact accounted_withSeed dict.seed

theorem Accounted.run (accounted : dict.Accounted) (ops : List DictOp) :
    (dict.run ops).2.Accounted := by
  have kept : ∀ (dict : Dict) (op : DictOp), dict.Accounted → (dict.step op).2.Accounted :=
    fun _ op holds => holds.step op
  exact Machine.run_invariant kept accounted ops

/-- No subtraction of any operation takes more than there is. -/
theorem Accounted.subtractions_le (accounted : dict.Accounted) (op : DictOp) :
    ∀ taken ∈ dict.subtractions op, taken.2 ≤ taken.1 := by
  cases op with
  | insert key entry =>
    have room := accounted.makeRoom
    intro taken member
    rcases List.mem_append.mp member with migrated | written
    · exact accounted.rehashSubtractions_le 1 taken migrated
    · cases found : dict.makeRoom.get key with
      | none => simp [found] at written
      | some existing =>
        have price := room.entryBytes_le found
        have date := room.dated_le found
        simp only [found, List.mem_cons, List.not_mem_nil, or_false] at written
        rcases written with rfl | rfl
        · exact price
        · exact Nat.le_add_right_of_le date
  | remove key =>
    have start := accounted.beforeRemove
    intro taken member
    rcases List.mem_append.mp member with migrated | written
    · exact accounted.rehashSubtractions_le 1 taken migrated
    · generalize (if dict.isRehashing then dict.rehashStep 1 else dict) = begun
        at start written
      cases found : begun.get key with
      | none => simp [found] at written
      | some removed =>
        have price := start.entryBytes_le found
        have date := start.dated_le found
        have held : 1 ≤ begun.len := by
          by_contra empty
          rw [start.toValid.get_eq_none_of_len (by omega)] at found
          simp at found
        simp only [found, List.mem_cons, List.not_mem_nil, or_false] at written
        rcases written with rfl | rfl | rfl
        · exact price
        · exact date
        · exact held
  | setDeadline key expiresAt =>
    intro taken member
    unfold subtractions at member
    cases found : dict.get key with
    | none => simp [found] at member
    | some entry =>
      have date := accounted.dated_le found
      simp only [found, List.mem_singleton] at member
      rw [member]
      exact Nat.le_add_right_of_le date
  | touch | clear => simp [subtractions]
  | rehashStep buckets => exact accounted.rehashSubtractions_le buckets

end Dict

end Seedstone
