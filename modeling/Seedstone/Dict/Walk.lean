import Seedstone.Dict.FiniteMap
import Seedstone.Dict.Interval

/-!
# A walk visits every key that stays

A walk starts at cursor `0` and passes each returned cursor to the next scan
call until `0` comes back, with any operations in between.  The cursor's rank
measures its progress, and a table that grows only splits the intervals still ahead.
-/

namespace Seedstone

open ReverseBinary

namespace Dict

variable [SipHasher] {dict : Dict} {key : Bytes} {cursor : Cursor} {entry : Entry}

/-- Between two scan calls the seed stays and the smaller table never shrinks. -/
structure Grows (before after : Dict) : Prop where
  seed : after.seed = before.seed
  size : before.old.length ≤ after.old.length

section

omit [SipHasher]

theorem Grows.refl (dict : Dict) : Grows dict dict :=
  ⟨rfl, Nat.le_refl _⟩

theorem Grows.trans {first second third : Dict} (one : Grows first second)
    (two : Grows second third) : Grows first third :=
  ⟨two.seed.trans one.seed, one.size.trans two.size⟩

theorem SameShape.grows {before after : Dict} (same : SameShape before after) :
    Grows before after :=
  ⟨same.seed, Nat.le_of_eq same.old.symm⟩

end

section

variable (valid : dict.Valid)

include valid

theorem grows_rehashStep (buckets : Nat) : Grows dict (dict.rehashStep buckets) := by
  have migrated := valid.migrated buckets
  generalize dict.rehashStep buckets = after at migrated
  cases migrated with
  | resting => exact Grows.refl dict
  | @finished new _ rehashing _ length =>
    have doubled := valid.doubled new rehashing
    exact ⟨rfl, by dsimp only; omega⟩
  | moved _ _ oldLength _ => exact ⟨rfl, Nat.le_of_eq oldLength.symm⟩

theorem grows_makeRoom : Grows dict dict.makeRoom := by
  unfold makeRoom
  split
  · exact grows_rehashStep valid 1
  · split
    · exact ⟨rfl, Nat.le_refl _⟩
    · exact Grows.refl dict

theorem grows_remove (key : Bytes) : Grows dict (dict.remove key).2 := by
  refine Grows.trans ?_ (sameShape_remove dict key).grows
  split
  · exact grows_rehashStep valid 1
  · exact Grows.refl dict

theorem grows_step {op : DictOp} (kept : op ≠ .clear) : Grows dict (dict.step op).2 := by
  cases op with
  | insert key entry => exact (grows_makeRoom valid).trans (sameShape_insert dict key entry).grows
  | remove key => exact grows_remove valid key
  | setDeadline key expiresAt => exact (sameShape_setDeadline dict key expiresAt).grows
  | touch key => exact (sameShape_touch dict key).grows
  | rehashStep buckets => exact grows_rehashStep valid buckets
  | clear => exact absurd rfl kept

theorem step_valid (op : DictOp) : (dict.step op).2.Valid := by
  cases op with
  | insert key entry => exact (insert_spec valid key entry).1
  | remove key => exact (remove_spec valid key).1
  | setDeadline key expiresAt => exact (setDeadline_spec valid key expiresAt).1
  | touch key => exact (touch_spec valid key).1
  | rehashStep buckets => exact (rehashStep_spec valid buckets).1
  | clear => exact valid_withSeed dict.seed

theorem run_valid (ops : List DictOp) : (dict.run ops).2.Valid := by
  have kept : ∀ (state : Dict) (op : DictOp), Valid state → Valid (state.step op).2 :=
    fun _ op holds => step_valid holds op
  exact Machine.run_invariant kept valid ops

theorem grows_run {ops : List DictOp} (kept : ∀ op ∈ ops, op ≠ .clear) :
    Grows dict (dict.run ops).2 := by
  induction ops generalizing dict with
  | nil => exact Grows.refl dict
  | cons op rest induction =>
    have first := grows_step valid (kept op (by simp))
    have later := induction (step_valid valid op)
      (fun other member => kept other (by simp [member]))
    exact first.trans later

end

/-- The dict at every moment of a sequence of operations, the first and the
last included. -/
def moments (dict : Dict) : List DictOp → List Dict
  | [] => [dict]
  | op :: ops => dict :: moments (dict.step op).2 ops

/-- A walk from a cursor to its end: the dict at every moment, and the keys visited. -/
inductive Walk : Dict → Cursor → List Dict → List Bytes → Prop where
  | last {dict : Dict} {cursor : Cursor}
      (ended : (dict.scanInOrder cursor reverseBinary).2 = 0) :
      Walk dict cursor [dict]
        ((dict.scanInOrder cursor reverseBinary).1.map Prod.fst)
  | next {dict : Dict} {cursor : Cursor} {ops : List DictOp}
      {later : List Dict} {visited : List Bytes}
      (more : (dict.scanInOrder cursor reverseBinary).2 ≠ 0)
      (kept : ∀ op ∈ ops, op ≠ .clear)
      (rest : Walk (dict.run ops).2 (dict.scanInOrder cursor reverseBinary).2
        later visited) :
      Walk dict cursor (dict.moments ops ++ later)
        ((dict.scanInOrder cursor reverseBinary).1.map Prod.fst ++ visited)

theorem mem_moments_self (dict : Dict) (ops : List DictOp) : dict ∈ dict.moments ops := by
  cases ops <;> simp [moments]

theorem Valid.len_ne_zero (valid : dict.Valid) (present : (dict.get key).isSome) :
    dict.len ≠ 0 := by
  obtain ⟨entry, found⟩ := Option.isSome_iff_exists.mp present
  obtain ⟨slot, member, -⟩ := valid.get_eq_some_iff.mp found
  rw [valid.counted]
  exact List.length_pos_iff_exists_mem.mpr ⟨slot, member⟩ |>.ne'

omit [SipHasher] in
theorem mem_slots_of_mem_visitBucket {table : Table}
    (visited : (key, entry) ∈ visitBucket table cursor) :
    ∃ slot ∈ table.flatten, slot.key = key ∧ slot.entry = entry := by
  obtain ⟨slot, member, same⟩ := List.mem_map.mp visited
  rw [Prod.mk.injEq] at same
  exact ⟨slot, (bucketAt_sublist_flatten table _).subset member, same⟩

omit [SipHasher] in
theorem mem_slots_of_mem_scanLarge {order : WalkOrder} {table : Table} {small : BitVec 64}
    (laps : Nat) (cursor : Cursor)
    (visited : (key, entry) ∈ (scanLarge order table small laps cursor).1) :
    ∃ slot ∈ table.flatten, slot.key = key ∧ slot.entry = entry := by
  induction laps generalizing cursor with
  | zero => simp [scanLarge] at visited
  | succ laps induction =>
    simp only [scanLarge] at visited
    split at visited
    · exact mem_slots_of_mem_visitBucket visited
    · rcases List.mem_append.mp visited with here | later
      · exact mem_slots_of_mem_visitBucket here
      · exact induction _ later

theorem get_of_mem_scan (valid : dict.Valid)
    (visited : (key, entry) ∈ (dict.scan cursor).1) : dict.get key = some entry := by
  apply valid.get_eq_some_iff.mpr
  unfold scan scanInOrder at visited
  split at visited
  · simp at visited
  · split at visited
    · next resting =>
        simpa [slots, resting] using mem_slots_of_mem_visitBucket visited
    · next new rehashing =>
        rcases List.mem_append.mp visited with here | later
        · obtain ⟨slot, member, same⟩ := mem_slots_of_mem_visitBucket here
          exact ⟨slot, by simp [slots, member], same⟩
        · obtain ⟨slot, member, same⟩ := mem_slots_of_mem_scanLarge _ _ later
          exact ⟨slot, by simp [slots, rehashing, member], same⟩

/-- The walk at `cursor` has still to come to `key`. -/
structure Ahead (dict : Dict) (cursor : Cursor) (key : Bytes) : Prop where
  aligned : cursor.toNat < dict.old.length
  ranked : rank cursor ≤ rank (hashKey dict.seed key)

theorem Ahead.grows {before after : Dict} (ahead : before.Ahead cursor key)
    (grows : Grows before after) : after.Ahead cursor key :=
  ⟨lt_of_lt_of_le ahead.aligned grows.size, by rw [grows.seed]; exact ahead.ranked⟩

theorem ahead_zero (valid : dict.Valid) (key : Bytes) : dict.Ahead 0 key := by
  obtain ⟨bits, power⟩ := valid.old.powerOfTwo
  refine ⟨?_, ?_⟩
  · rw [power]
    exact Nat.two_pow_pos bits
  · rw [(rank_eq_zero_iff 0).mpr rfl]
    exact Nat.zero_le _

/-- A scan call comes to a key, or has still to come to it. -/
theorem Ahead.scan (ahead : dict.Ahead cursor key) (valid : dict.Valid)
    (present : (dict.get key).isSome) :
    key ∈ (dict.scan cursor).1.map Prod.fst ∨
      ((dict.scan cursor).2 ≠ 0 ∧ dict.Ahead (dict.scan cursor).2 key) := by
  obtain ⟨entry, found⟩ := Option.isSome_iff_exists.mp present
  obtain ⟨slot, member, rfl, -⟩ := valid.get_eq_some_iff.mp found
  obtain ⟨next, covers⟩ := scan_spec valid (valid.len_ne_zero present) ahead.aligned
  by_cases covered : (dict.scan cursor).2 = 0 ∨
      rank (hashKey dict.seed slot.key) < rank (dict.scan cursor).2
  · exact Or.inl (List.mem_map.mpr ⟨_, covers slot member ahead.ranked covered, rfl⟩)
  · rw [not_or, Nat.not_lt] at covered
    exact Or.inr ⟨covered.1, next, covered.2⟩

/-- From any cursor on, a walk visits the keys that stay and rank at or above
the cursor. -/
theorem Walk.visits {between : List Dict} {visited : List Bytes}
    (walk : Walk dict cursor between visited) (valid : dict.Valid) (ahead : dict.Ahead cursor key)
    (present : ∀ moment ∈ between, (moment.get key).isSome) : key ∈ visited := by
  induction walk with
  | last ended =>
    rcases ahead.scan valid (present _ (by simp)) with here | ⟨more, -⟩
    · exact here
    · exact absurd ended more
  | @next dict cursor ops later visited more kept rest induction =>
    have here := present dict (List.mem_append_left _ (mem_moments_self dict ops))
    rcases ahead.scan valid here with now | ⟨-, later⟩
    · exact List.mem_append_left _ now
    · apply List.mem_append_right
      exact induction (run_valid valid ops) (later.grows (grows_run valid kept))
        fun moment member => present moment (List.mem_append_right _ member)

/-- Whatever a dict went through before, a walk from cursor `0` that ends has
visited every key present at each of its moments. -/
theorem walk_complete (seed : DictSeed) (before : List DictOp)
    {between : List Dict} {visited : List Bytes}
    (walk : Walk ((withSeed seed).run before).2 0 between visited) {key : Bytes}
    (present : ∀ moment ∈ between, (moment.get key).isSome) :
    key ∈ visited := by
  have valid := run_valid (valid_withSeed seed) before
  exact walk.visits valid (ahead_zero valid key) present

/-- A walk with nothing between its calls, for at most `calls` of them. -/
def idleWalk (dict : Dict) : Nat → Cursor → Option (List Bytes)
  | 0, _ => none
  | calls + 1, cursor =>
    let (visited, next) := dict.scanInOrder cursor reverseBinary
    if next = 0 then
      some (visited.map Prod.fst)
    else
      (idleWalk dict calls next).map (fun rest => visited.map Prod.fst ++ rest)

/-- A walk with the operations of `script` between its calls, if it ends with them. -/
def scriptedWalk (dict : Dict) : List (List DictOp) → Cursor → Option (List Dict × List Bytes)
  | [], cursor =>
    let (visited, next) := dict.scanInOrder cursor reverseBinary
    if next = 0 then some ([dict], visited.map Prod.fst) else none
  | ops :: script, cursor =>
    let (visited, next) := dict.scanInOrder cursor reverseBinary
    if next = 0 then
      none
    else
      (scriptedWalk (dict.run ops).2 script next).map fun (later, rest) =>
        (dict.moments ops ++ later, visited.map Prod.fst ++ rest)

theorem walk_of_scriptedWalk {script : List (List DictOp)} {walked : List Dict × List Bytes}
    (kept : ∀ ops ∈ script, ∀ op ∈ ops, op ≠ .clear)
    (ended : dict.scriptedWalk script cursor = some walked) :
    Walk dict cursor walked.1 walked.2 := by
  induction script generalizing dict cursor walked with
  | nil =>
    obtain ⟨zero, same⟩ := Option.ite_none_right_eq_some.mp ended
    cases same
    exact .last zero
  | cons ops script induction =>
    obtain ⟨more, later⟩ := Option.ite_none_left_eq_some.mp ended
    obtain ⟨rest, restEnded, rfl⟩ := Option.map_eq_some_iff.mp later
    rw [List.forall_mem_cons] at kept
    exact .next more kept.1 (induction kept.2 restEnded)

omit [SipHasher] in
/-- Between the calls of a walk over eight keys a ninth starts a rehash, a key goes, and
the rehash goes on. -/
theorem walk_complete_rehash :
    let _ : SipHasher := ⟨fun _ _ bytes => (bytes.headD 0).toBitVec.setWidth 64⟩
    let keys : List DictOp := (List.range 8).map fun key => .insert [.ofNat key] ⟨[1], none, 0⟩
    ∃ between visited, Walk ((withSeed ⟨0, 0⟩).run keys).2 0 between visited ∧
      between.any isRehashing ∧ [7] ∈ visited := by
  intro hasher keys
  let script : List (List DictOp) :=
    [[.insert [8] ⟨[1], none, 0⟩, .remove [1]], [.rehashStep 2], [], [], [], [], []]
  have ended : (((withSeed ⟨0, 0⟩).run keys).2.scriptedWalk script 0).any fun walked =>
      walked.1.any isRehashing && walked.1.all fun moment => (moment.get [7]).isSome := by
    decide +kernel
  obtain ⟨walked, found, holds⟩ := (Option.any_eq_true _ _).mp ended
  rw [Bool.and_eq_true, List.all_eq_true] at holds
  have walk := walk_of_scriptedWalk (by decide) found
  exact ⟨_, _, walk, holds.1, walk_complete ⟨0, 0⟩ keys walk holds.2⟩

end Dict

end Seedstone
