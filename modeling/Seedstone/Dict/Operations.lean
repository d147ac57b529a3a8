import Seedstone.Dict.Valid

/-!
# What each operation does to the slots

One lemma per operation of a dict: the operation keeps `Dict.Valid`, and its
effect on `Dict.slots` is a map, a filter, a new slot or a permutation.
-/

namespace Seedstone

namespace Dict

variable [SipHasher] {dict : Dict} {seed : DictSeed} {table : Table} {index : Nat}
  {before after : Dict}

theorem drainBucket_spec {new : Table} (placed : Placed seed new) {bucket : Bucket}
    (hashed : ∀ slot ∈ bucket, slot.hash = hashKey seed slot.key) :
    Placed seed (drainBucket bucket new) ∧ (drainBucket bucket new).length = new.length ∧
      (drainBucket bucket new).flatten.Perm (bucket ++ new.flatten) := by
  unfold drainBucket
  induction bucket generalizing new with
  | nil => exact ⟨placed, rfl, List.Perm.refl _⟩
  | cons slot rest induction =>
    have pushed := placed.push (hashed slot (by simp))
    obtain ⟨restPlaced, restLength, restPerm⟩ := induction pushed
      (fun other member => hashed other (by simp [member]))
    refine ⟨restPlaced, ?_, ?_⟩
    · rw [List.foldl_cons, restLength]
      simp [Table.push]
    · have moved := flatten_push_perm (placed.bucketIndex_lt slot.hash) slot
      exact restPerm.trans ((moved.append_left rest).trans List.perm_middle)

omit [SipHasher] in
theorem bucketAt_set_nil (inside : index < table.length) (other : Nat) :
    bucketAt (table.set index []) other = if index = other then [] else bucketAt table other := by
  unfold bucketAt
  simp only [List.getD_eq_getElem?_getD]
  by_cases same : index = other
  · subst other
    simp [inside]
  · simp [List.getElem?_set_ne same, same]

theorem placed_set_nil (placed : Placed seed table) (inside : index < table.length) :
    Placed seed (table.set index []) := by
  refine ⟨?_, ?_, ?_⟩
  · simpa using placed.powerOfTwo
  · intro other slot member
    rw [bucketAt_set_nil inside] at member
    split at member
    · simp at member
    · exact placed.hashed other slot member
  · intro other slot member
    rw [bucketAt_set_nil inside] at member
    rw [List.length_set]
    split at member
    · simp at member
    · exact placed.bucket other slot member

/-- The migration loop moves slots over and empties every bucket it passes. -/
theorem drain_spec (count : Nat) {old new : Table} (oldPlaced : Placed seed old)
    (newPlaced : Placed seed new) (inside : index + count ≤ old.length)
    (before : ∀ other, other < index → bucketAt old other = []) :
    Placed seed (drain old new index count).1 ∧ Placed seed (drain old new index count).2 ∧
      (drain old new index count).1.length = old.length ∧
      (drain old new index count).2.length = new.length ∧
      (∀ other, other < index + count → bucketAt (drain old new index count).1 other = []) ∧
      ((drain old new index count).1.flatten ++ (drain old new index count).2.flatten).Perm
          (old.flatten ++ new.flatten) := by
  induction count generalizing old new index with
  | zero =>
    exact ⟨oldPlaced, newPlaced, rfl, rfl, by simpa [drain] using before, List.Perm.refl _⟩
  | succ count induction =>
    have here : index < old.length := by omega
    obtain ⟨bucketPlaced, bucketLength, bucketPerm⟩ :=
      drainBucket_spec newPlaced (oldPlaced.hashed index)
    have passed : ∀ other, other < index + 1 → bucketAt (old.set index []) other = [] := by
      intro other below
      rw [bucketAt_set_nil here]
      split
      · rfl
      · exact before other (by omega)
    obtain ⟨first, second, firstLength, secondLength, empty, perm⟩ :=
      induction (placed_set_nil oldPlaced here) bucketPlaced (by rw [List.length_set]; omega) passed
    refine ⟨first, second, ?_, ?_, ?_, ?_⟩
    · have emptied : (old.set index []).length = old.length := List.length_set
      rw [← emptied]
      exact firstLength
    · rw [← bucketLength]
      exact secondLength
    · intro other below
      exact empty other (by omega)
    · refine perm.trans ?_
      have regrouped :
          ((old.set index []).flatten ++ (bucketAt old index ++ new.flatten)).Perm
            (bucketAt old index ++ (old.set index []).flatten ++ new.flatten) := by
        rw [← List.append_assoc]
        exact List.perm_append_comm.append_right _
      exact ((bucketPerm.append_left _).trans regrouped).trans
        ((flatten_perm_bucketAt here).symm.append_right _)

omit [SipHasher] in
theorem flatten_eq_nil (empty : ∀ index, index < table.length → bucketAt table index = []) :
    table.flatten = [] := by
  rw [List.flatten_eq_nil_iff]
  intro bucket member
  obtain ⟨index, inside, located⟩ := List.mem_iff_getElem.mp member
  have nothing := empty index inside
  unfold bucketAt at nothing
  rw [List.getD_eq_getElem _ _ inside, located] at nothing
  exact nothing

omit [SipHasher] in
theorem distinct_of_perm (perm : after.slots.Perm before.slots)
    (distinct : (before.slots.map Slot.key).Nodup) : (after.slots.map Slot.key).Nodup :=
  (perm.map Slot.key).nodup_iff.mpr distinct

theorem rehashStep_spec (valid : dict.Valid) (buckets : Nat) :
    (dict.rehashStep buckets).Valid ∧ (dict.rehashStep buckets).slots.Perm dict.slots := by
  unfold rehashStep
  cases rehashing : dict.new with
  | none => exact ⟨valid, List.Perm.refl _⟩
  | some new =>
    dsimp only
    have draining := valid.draining new rehashing
    have doubled := valid.doubled new rehashing
    generalize stopEq : min (dict.rehashIndex + buckets) dict.old.length = stop
    have stopLower : dict.rehashIndex ≤ stop := by omega
    have stopUpper : stop ≤ dict.old.length := by omega
    have span : dict.rehashIndex + (stop - dict.rehashIndex) = stop := by omega
    obtain ⟨oldPlaced, newPlaced, oldLength, newLength, empty, perm⟩ :=
      drain_spec (stop - dict.rehashIndex) valid.old (valid.new new rehashing)
        (by omega) valid.drained
    rw [span] at empty
    generalize drainEq :
      drain dict.old new dict.rehashIndex (stop - dict.rehashIndex) = drained
      at oldPlaced newPlaced oldLength newLength empty perm
    obtain ⟨old, migrated⟩ := drained
    dsimp only at oldPlaced newPlaced oldLength newLength empty perm ⊢
    have whole : dict.slots = dict.old.flatten ++ new.flatten := by
      unfold slots
      rw [rehashing]
      rfl
    rw [← whole] at perm
    split
    · next finished =>
        have nothing : old.flatten = [] := by
          apply flatten_eq_nil
          intro index inside
          exact empty index (by omega)
        rw [nothing, List.nil_append] at perm
        have slotsPerm : (slots { dict with
            usedBytes := dict.usedBytes - tableBytes old.length
            old := migrated, new := none, rehashIndex := 0 }).Perm dict.slots := by
          simpa [slots] using perm
        refine ⟨?_, slotsPerm⟩
        exact {
          old := newPlaced
          new := by intro other impossible; simp at impossible
          doubled := by intro other impossible; simp at impossible
          draining := by intro other impossible; simp at impossible
          resting := fun _ => rfl
          drained := by intro index impossible; simp at impossible
          distinct := distinct_of_perm slotsPerm valid.distinct
          counted := by rw [slotsPerm.length_eq]; exact valid.counted }
    · next unfinished =>
        have slotsPerm : (slots { dict with
            old := old, new := some migrated, rehashIndex := stop }).Perm dict.slots := by
          simpa [slots] using perm
        refine ⟨?_, slotsPerm⟩
        exact {
          old := oldPlaced
          new := by
            intro other same
            simp only [Option.some.injEq] at same
            rw [← same]
            exact newPlaced
          doubled := by
            intro other same
            simp only [Option.some.injEq] at same
            rw [← same]
            simp only [newLength, oldLength, doubled]
          draining := by
            intro other same
            simp only
            omega
          resting := by intro impossible; simp at impossible
          drained := empty
          distinct := distinct_of_perm slotsPerm valid.distinct
          counted := by rw [slotsPerm.length_eq]; exact valid.counted }

theorem startRehash_spec (valid : dict.Valid) (resting : dict.new = none) :
    dict.startRehash.Valid ∧ dict.startRehash.slots = dict.slots := by
  have same : dict.startRehash.slots = dict.slots := by
    unfold startRehash slots
    simp [resting, flatten_emptyTable]
  obtain ⟨bits, power⟩ := valid.old.powerOfTwo
  refine ⟨?_, same⟩
  exact {
    old := valid.old
    new := by
      intro new allocated
      simp only [startRehash, Option.some.injEq] at allocated
      rw [← allocated, power, ← pow_succ]
      exact Placed.emptyTable dict.seed (bits + 1)
    doubled := by
      intro new allocated
      simp only [startRehash, Option.some.injEq] at allocated
      rw [← allocated]
      simp [startRehash, emptyTable]
    draining := by
      intro new _
      simp only [startRehash]
      rw [power]
      exact Nat.two_pow_pos bits
    resting := fun _ => rfl
    drained := by
      intro index below
      simp [startRehash] at below
    distinct := by
      rw [same]
      exact valid.distinct
    counted := by
      rw [same]
      exact valid.counted }

/-- The table in use changes, and no bucket it has empty is filled. -/
theorem Shaped.changeOld (shaped : before.Shaped) (seed : after.seed = before.seed)
    (new : after.new = before.new) (index : after.rehashIndex = before.rehashIndex)
    (length : after.old.length = before.old.length) (placed : Placed before.seed after.old)
    (empty : ∀ index < before.rehashIndex, bucketAt before.old index = [] →
      bucketAt after.old index = []) (distinct : (after.slots.map Slot.key).Nodup) :
    after.Shaped where
  old := by rwa [seed]
  new := by
    rw [seed, new]
    exact shaped.new
  doubled := by
    rw [new, length]
    exact shaped.doubled
  draining := by
    rw [new, index, length]
    exact shaped.draining
  resting := by
    rw [new, index]
    exact shaped.resting
  drained other below := by
    rw [index] at below
    exact empty other below (shaped.drained other below)
  distinct := distinct

theorem Shaped.changeNew (shaped : before.Shaped) {new changed : Table}
    (rehashing : before.new = some new) (same : after.new = some changed)
    (seed : after.seed = before.seed) (old : after.old = before.old)
    (index : after.rehashIndex = before.rehashIndex)
    (length : changed.length = new.length) (placed : Placed before.seed changed)
    (distinct : (after.slots.map Slot.key).Nodup) :
    after.Shaped where
  old := by
    rw [seed, old]
    exact shaped.old
  new other found := by
    rw [same, Option.some.injEq] at found
    rwa [← found, seed]
  doubled other found := by
    rw [same, Option.some.injEq] at found
    rw [← found, length, old]
    exact shaped.doubled new rehashing
  draining _ _ := by
    rw [index, old]
    exact shaped.draining new rehashing
  resting rests := by
    rw [same] at rests
    cases rests
  drained := by
    rw [index, old]
    exact shaped.drained
  distinct := distinct

theorem slots_modifyEntry (valid : dict.Valid) (key : Bytes) (change : Entry → Entry) :
    (dict.modifyEntry key change).slots = dict.slots.map (Slot.rewrite key change) := by
  have oldChanged := valid.old.flatten_modifyEntry valid.old_distinct key change
  have looked := valid.old.find_eq_lookup valid.old_distinct key
  have distinct := valid.distinct
  unfold modifyEntry slots
  unfold slots at distinct
  dsimp only
  rw [List.map_append]
  cases found : find dict.old (hashKey dict.seed key) key with
  | some entry =>
    dsimp only
    rw [oldChanged]
    congr 1
    rw [map_rewrite_of_absent]
    rw [found] at looked
    obtain ⟨slot, member, sameKey, -⟩ := exists_of_lookup looked.symm
    intro other otherMember equal
    rw [List.map_append, List.nodup_append] at distinct
    exact distinct.2.2 slot.key (List.mem_map_of_mem member) other.key
      (List.mem_map_of_mem otherMember) (by rw [sameKey, equal])
  | none =>
    rw [found] at looked
    have absent := lookup_eq_none_iff.mp looked.symm
    cases rehashing : dict.new with
    | none => simp [rehashing, map_rewrite_of_absent change absent]
    | some new =>
      have newChanged := (valid.new new rehashing).flatten_modifyEntry
        (valid.new_distinct rehashing) key change
      simp [newChanged, map_rewrite_of_absent change absent]

theorem modifyEntry_valid (valid : dict.Valid) (key : Bytes)
    (change : Entry → Entry) : (dict.modifyEntry key change).Valid := by
  have changed := slots_modifyEntry valid key change
  have distinct : ((dict.modifyEntry key change).slots.map Slot.key).Nodup := by
    rw [changed, map_key_rewrite]
    exact valid.distinct
  have counted : dict.len = (dict.modifyEntry key change).slots.length := by
    rw [changed, List.length_map]
    exact valid.counted
  have inside := valid.old.bucketIndex_lt (hashKey dict.seed key)
  revert distinct counted
  unfold modifyEntry
  dsimp only
  cases found : find dict.old (hashKey dict.seed key) key with
  | some entry =>
    intro distinct counted
    exact ⟨valid.toShaped.changeOld rfl rfl rfl (List.length_modify ..)
      (valid.old.modifyEntry valid.old_distinct key change)
      (fun _ _ => bucketAt_modify_eq_nil inside rfl) distinct, counted⟩
  | none =>
    cases rehashing : dict.new with
    | none =>
      intro _ _
      exact valid
    | some new =>
      intro distinct counted
      exact ⟨valid.toShaped.changeNew rehashing rfl rfl rfl rfl (List.length_modify ..)
        ((valid.new new rehashing).modifyEntry (valid.new_distinct rehashing) key change)
        distinct, counted⟩

/-- Two dicts that differ only in the counters that describe their contents. -/
structure SameTables (before after : Dict) : Prop where
  seed : after.seed = before.seed
  old : after.old = before.old
  new : after.new = before.new
  rehashIndex : after.rehashIndex = before.rehashIndex
  len : after.len = before.len

section

omit [SipHasher]

theorem sameTables_noteDeadline (dict : Dict) (expiresAt : Option Nat) :
    SameTables dict (dict.noteDeadline expiresAt) :=
  ⟨rfl, rfl, rfl, rfl, rfl⟩

theorem sameTables_account (dict : Dict) (usedBytes withDeadline : Nat) :
    SameTables dict (dict.account usedBytes withDeadline) :=
  ⟨rfl, rfl, rfl, rfl, rfl⟩

theorem sameTables_tick (dict : Dict) : SameTables dict dict.tick :=
  ⟨rfl, rfl, rfl, rfl, rfl⟩

theorem SameTables.slots (same : SameTables before after) : after.slots = before.slots := by
  unfold Dict.slots
  rw [same.old, same.new]

end

theorem SameTables.get (same : SameTables before after) (key : Bytes) :
    after.get key = before.get key := by
  unfold Dict.get
  rw [same.seed, same.old, same.new]

theorem SameTables.valid (same : SameTables before after) (valid : before.Valid) : after.Valid := by
  refine ⟨valid.toShaped.changeOld same.seed same.new same.rehashIndex ?_ ?_ ?_ ?_, ?_⟩
  · rw [same.old]
  · rw [same.old]
    exact valid.old
  · rw [same.old]
    exact fun _ _ => id
  · rw [same.slots]
    exact valid.distinct
  · rw [same.slots, same.len]
    exact valid.counted

theorem get_eq_of_perm (beforeValid : before.Valid) (afterValid : after.Valid)
    (perm : after.slots.Perm before.slots) (key : Bytes) : after.get key = before.get key := by
  rw [afterValid.get_eq_lookup, beforeValid.get_eq_lookup]
  exact lookup_perm afterValid.distinct perm key

section

variable (valid : dict.Valid)

include valid

theorem get_rehashStep (buckets : Nat) (key : Bytes) :
    (dict.rehashStep buckets).get key = dict.get key := by
  obtain ⟨after, perm⟩ := rehashStep_spec valid buckets
  exact get_eq_of_perm valid after perm key

theorem get_modifyEntry (key other : Bytes) (change : Entry → Entry) :
    (dict.modifyEntry key change).get other =
      if other = key then (dict.get key).map change else dict.get other := by
  rw [(modifyEntry_valid valid key change).get_eq_lookup, valid.get_eq_lookup,
    valid.get_eq_lookup, slots_modifyEntry valid, lookup_rewrite]

theorem setDeadline_spec (key : Bytes) (expiresAt : Option Nat) :
    (dict.setDeadline key expiresAt).2.Valid ∧
      (dict.setDeadline key expiresAt).1 = (dict.get key).isSome ∧
      ∀ other, (dict.setDeadline key expiresAt).2.get other =
        if other = key then
          (dict.get key).map (fun entry => { entry with expiresAt := expiresAt })
        else dict.get other := by
  have noted := sameTables_noteDeadline dict expiresAt
  have notedValid := noted.valid valid
  unfold setDeadline
  dsimp only
  rw [noted.get key]
  cases found : dict.get key with
  | none =>
    refine ⟨notedValid, rfl, ?_⟩
    intro other
    rw [noted.get]
    split
    · next same => rw [same, found, Option.map_none]
    · rfl
  | some entry =>
    have changed := modifyEntry_valid notedValid key
      (fun entry => { entry with expiresAt := expiresAt })
    refine ⟨(sameTables_account _ _ _).valid changed, rfl, ?_⟩
    intro other
    rw [(sameTables_account _ _ _).get, get_modifyEntry notedValid, noted.get, noted.get, found]

theorem touch_spec (key : Bytes) :
    (dict.touch key).Valid ∧
      ∀ other, (dict.touch key).get other =
        if other = key then
          (dict.get key).map (fun entry => { entry with touched := dict.clock + 1 })
        else dict.get other := by
  have ticked := sameTables_tick dict
  have tickedValid := ticked.valid valid
  unfold touch
  refine ⟨modifyEntry_valid tickedValid key _, ?_⟩
  intro other
  rw [get_modifyEntry tickedValid, ticked.get, ticked.get]
  rfl

theorem makeRoom_spec : dict.makeRoom.Valid ∧ dict.makeRoom.slots.Perm dict.slots := by
  unfold makeRoom
  split
  · exact rehashStep_spec valid 1
  · next resting =>
      split
      · have idle : dict.new = none := by
          simpa [isRehashing] using resting
        obtain ⟨started, same⟩ := startRehash_spec valid idle
        exact ⟨started, by rw [same]⟩
      · exact ⟨valid, List.Perm.refl _⟩

theorem pushSlot_spec (slot : Slot) (hash : slot.hash = hashKey dict.seed slot.key)
    (absent : dict.get slot.key = none) :
    (dict.pushSlot slot).Valid ∧ (dict.pushSlot slot).slots.Perm (slot :: dict.slots) := by
  rw [valid.get_eq_lookup, lookup_eq_none_iff] at absent
  have fresh : ((slot :: dict.slots).map Slot.key).Nodup := by
    rw [List.map_cons, List.nodup_cons]
    refine ⟨?_, valid.distinct⟩
    intro member
    obtain ⟨other, otherMember, same⟩ := List.mem_map.mp member
    exact absent other otherMember same
  have perm : (dict.pushSlot slot).slots.Perm (slot :: dict.slots) := by
    unfold pushSlot slots
    cases rehashing : dict.new with
    | none =>
      simpa using flatten_push_perm (valid.old.bucketIndex_lt slot.hash) slot
    | some new =>
      have pushed := flatten_push_perm ((valid.new new rehashing).bucketIndex_lt slot.hash) slot
      exact (pushed.append_left dict.old.flatten).trans List.perm_middle
  have distinct : ((dict.pushSlot slot).slots.map Slot.key).Nodup :=
    (perm.map Slot.key).nodup_iff.mpr fresh
  have counted : dict.len + 1 = (dict.pushSlot slot).slots.length := by
    rw [perm.length_eq, List.length_cons, valid.counted]
  refine ⟨?_, perm⟩
  revert distinct counted
  unfold pushSlot
  cases rehashing : dict.new with
  | none =>
    intro distinct counted
    exact ⟨valid.toShaped.changeOld rfl rehashing.symm rfl (List.length_modify ..)
      (valid.old.push hash)
      (fun index below => by simp [valid.resting rehashing] at below) distinct, counted⟩
  | some new =>
    intro distinct counted
    exact ⟨valid.toShaped.changeNew rehashing rfl rfl rfl rfl (List.length_modify ..)
      ((valid.new new rehashing).push hash) distinct, counted⟩

theorem insert_spec (key : Bytes) (entry : Entry) :
    (dict.insert key entry).Valid ∧
      ∀ other, (dict.insert key entry).get other =
        if other = key then some entry else dict.get other := by
  obtain ⟨roomValid, roomPerm⟩ := makeRoom_spec valid
  have noted := sameTables_noteDeadline dict.makeRoom entry.expiresAt
  have notedValid := noted.valid roomValid
  have looked : ∀ other,
      (dict.makeRoom.noteDeadline entry.expiresAt).get other = dict.get other := by
    intro other
    rw [noted.get, get_eq_of_perm valid roomValid roomPerm]
  unfold insert
  dsimp only
  cases found : (dict.makeRoom.noteDeadline entry.expiresAt).get key with
  | some existing =>
    have changed := modifyEntry_valid notedValid key (fun _ => entry)
    refine ⟨(sameTables_account _ _ _).valid changed, ?_⟩
    intro other
    rw [(sameTables_account _ _ _).get, get_modifyEntry notedValid, found, looked]
    rfl
  | none =>
    obtain ⟨pushedValid, pushedPerm⟩ := pushSlot_spec notedValid
      ⟨hashKey (dict.makeRoom.noteDeadline entry.expiresAt).seed key, key, entry⟩ rfl found
    refine ⟨(sameTables_account _ _ _).valid pushedValid, ?_⟩
    intro other
    rw [(sameTables_account _ _ _).get, pushedValid.get_eq_lookup,
      lookup_perm pushedValid.distinct pushedPerm, lookup_cons, ← notedValid.get_eq_lookup, looked]
    dsimp only
    by_cases same : other = key
    · rw [if_pos same, if_pos same.symm]
    · rw [if_neg same, if_neg (fun equal => same equal.symm)]

theorem removeSlot_spec (key : Bytes) :
    (dict.removeSlot key).1 = dict.get key ∧
      (dict.removeSlot key).2.slots =
        dict.slots.filter (fun slot => slot.key ≠ key) ∧ (dict.removeSlot key).2.len = dict.len ∧
      (dict.removeSlot key).2.Shaped := by
  obtain ⟨oldResult, oldSlots, oldLength, oldEmpty, oldPlaced⟩ :=
    valid.old.removeFrom_spec valid.old_distinct key
  have oldLookup := valid.old.find_eq_lookup valid.old_distinct key
  have distinct := valid.distinct
  have kept := distinct.sublist
    ((List.filter_sublist (p := fun slot => slot.key ≠ key)).map Slot.key)
  rw [← oldResult] at oldLookup
  unfold removeSlot get
  dsimp only
  rw [← oldResult]
  generalize removeFrom dict.old (hashKey dict.seed key) key = outcome
    at oldResult oldSlots oldLength oldEmpty oldPlaced oldLookup
  obtain ⟨removed, old⟩ := outcome
  dsimp only at oldResult oldSlots oldLength oldEmpty oldPlaced oldLookup
  cases removed with
  | some entry =>
    dsimp only
    obtain ⟨slot, member, sameKey, -⟩ := exists_of_lookup oldLookup.symm
    have newKept : (dict.new.getD []).flatten.filter (fun slot => slot.key ≠ key) =
        (dict.new.getD []).flatten := by
      apply List.filter_eq_self.mpr
      intro other otherMember
      unfold slots at distinct
      rw [List.map_append, List.nodup_append] at distinct
      have different := distinct.2.2 slot.key (List.mem_map_of_mem member) other.key
        (List.mem_map_of_mem otherMember)
      rw [sameKey] at different
      simpa using fun equal => different equal.symm
    have slotsEq : slots { dict with old := old } =
        dict.slots.filter (fun slot => slot.key ≠ key) := by
      unfold slots
      rw [List.filter_append, newKept, ← oldSlots]
    exact ⟨rfl, slotsEq, rfl, valid.toShaped.changeOld rfl rfl rfl oldLength oldPlaced
      (fun index _ => oldEmpty index) (by rwa [slotsEq])⟩
  | none =>
    have absent := lookup_eq_none_iff.mp oldLookup.symm
    have oldKept : dict.old.flatten.filter (fun slot => slot.key ≠ key) = dict.old.flatten :=
      List.filter_eq_self.mpr (by simpa using absent)
    cases rehashing : dict.new with
    | none =>
      refine ⟨rfl, ?_, rfl, valid.toShaped⟩
      unfold slots
      rw [List.filter_append, oldKept, rehashing]
      rfl
    | some new =>
      obtain ⟨newResult, newSlots, newLength, -, newPlaced⟩ :=
        (valid.new new rehashing).removeFrom_spec (valid.new_distinct rehashing) key
      have slotsEq : slots { dict with
            new := some (removeFrom new (hashKey dict.seed key) key).2 } =
          dict.slots.filter (fun slot => slot.key ≠ key) := by
        unfold slots
        rw [List.filter_append, oldKept, rehashing]
        simp only [Option.getD_some, newSlots]
      exact ⟨newResult, slotsEq, rfl, valid.toShaped.changeNew rehashing rfl rfl rfl rfl
        newLength newPlaced (by rwa [slotsEq])⟩

end

omit [SipHasher] in
theorem length_filter_of_lookup {slots : List Slot}
    (distinct : (slots.map Slot.key).Nodup) {key : Bytes} {entry : Entry}
    (found : lookup slots key = some entry) :
    (slots.filter (fun slot => slot.key ≠ key)).length = slots.length - 1 := by
  obtain ⟨slot, others, perm, rfl, _, absent⟩ := perm_of_lookup distinct found
  rw [(perm.filter _).length_eq, perm.length_eq, List.filter_cons_of_neg (by simp),
    List.filter_eq_self.mpr (by simpa using absent)]
  rfl

theorem remove_spec (valid : dict.Valid) (key : Bytes) :
    (dict.remove key).2.Valid ∧ (dict.remove key).1 = dict.get key ∧
      ∀ other, (dict.remove key).2.get other = if other = key then none else dict.get other := by
  unfold remove
  dsimp only
  generalize startEq : (if dict.isRehashing then dict.rehashStep 1 else dict) = start
  have startSpec : start.Valid ∧ start.slots.Perm dict.slots := by
    rw [← startEq]
    split
    · exact rehashStep_spec valid 1
    · exact ⟨valid, List.Perm.refl _⟩
  obtain ⟨startValid, startPerm⟩ := startSpec
  have looked := get_eq_of_perm valid startValid startPerm
  obtain ⟨result, slotsEq, lenEq, shaped⟩ := removeSlot_spec startValid key
  have afterGet : ∀ other, lookup (start.removeSlot key).2.slots other =
      if other = key then none else dict.get other := by
    intro other
    rw [slotsEq, lookup_filter, ← startValid.get_eq_lookup, looked]
  generalize start.removeSlot key = outcome at result slotsEq lenEq shaped afterGet
  obtain ⟨removed, after⟩ := outcome
  dsimp only at result slotsEq lenEq shaped afterGet
  rw [looked] at result
  cases removed with
  | none =>
    have unchanged : after.slots = start.slots := by
      have absent := result.symm
      rw [← looked, startValid.get_eq_lookup, lookup_eq_none_iff] at absent
      rw [slotsEq, List.filter_eq_self.mpr (by simpa using absent)]
    have afterValid : after.Valid :=
      { shaped with counted := by rw [lenEq, unchanged, startValid.counted] }
    refine ⟨afterValid, result, ?_⟩
    intro other
    rw [afterValid.get_eq_lookup, afterGet]
  | some entry =>
    have counted : after.len - 1 = after.slots.length := by
      have found := result.symm
      rw [← looked, startValid.get_eq_lookup] at found
      rw [lenEq, slotsEq, length_filter_of_lookup startValid.distinct found, startValid.counted]
    have afterValid : (Dict.uncount (after.account (after.usedBytes - entryBytes key entry.value)
        (after.withDeadline - dated entry.expiresAt))).Valid :=
      ⟨shaped.changeOld rfl rfl rfl rfl shaped.old (fun _ _ => id) shaped.distinct, counted⟩
    refine ⟨afterValid, result, ?_⟩
    intro other
    rw [afterValid.get_eq_lookup]
    exact afterGet other

end Dict

end Seedstone
