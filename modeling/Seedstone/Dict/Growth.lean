import Seedstone.Dict.Accounting
import Seedstone.Dict.Walk

/-!
# Growth keeps up with inserts

An insert moves one bucket while a rehash is in flight, so a rehash from `N` to
`2N` buckets ends after at most `N` more entries.  Each doubling lets at most
one entry in before the first bucket moves: the slack over `N` is the number of
doublings so far.
-/

namespace Seedstone

namespace Dict

variable [SipHasher] {dict : Dict}

/-- The entries a dict may hold where it stands: its buckets, one for each
doubling that made them and, while a rehash is in flight, one more and one for
each bucket that has moved. -/
def capacity (dict : Dict) : Nat :=
  dict.old.length + Nat.log2 (dict.old.length / initialBuckets) +
    if dict.isRehashing then 1 + dict.rehashIndex else 0

/-- A dict within its capacity, with no fewer buckets than it began with. -/
structure Keeps (dict : Dict) (more : Nat) : Prop where
  buckets : initialBuckets ≤ dict.old.length
  room : dict.len + more ≤ dict.capacity

section

omit [SipHasher]

theorem SameShape.capacity {before after : Dict} (same : SameShape before after) :
    after.capacity = before.capacity := by
  have rehashing : after.isRehashing = before.isRehashing := by
    have newLength := congrArg Option.isSome same.new
    simpa [isRehashing] using newLength
  unfold Dict.capacity
  rw [same.old, rehashing, same.rehashIndex]

theorem Keeps.reshape {before after : Dict} {more less : Nat} (keeps : Keeps before more)
    (same : SameShape before after) (len : after.len + less ≤ before.len + more) :
    Keeps after less where
  buckets := by rw [same.old]; exact keeps.buckets
  room := by rw [same.capacity]; exact len.trans keeps.room

theorem log2_doubled {buckets : Nat} (enough : initialBuckets ≤ buckets) :
    Nat.log2 (buckets * 2 / initialBuckets) = Nat.log2 (buckets / initialBuckets) + 1 := by
  unfold initialBuckets at enough ⊢
  have half : buckets * 2 / 8 / 2 = buckets / 8 := by omega
  rw [Nat.log2_def, if_pos (by omega), half]

end

/-- A step of the migration makes room for one more entry. -/
theorem Keeps.rehashStep {more : Nat} (valid : dict.Valid) (keeps : Keeps dict more)
    (buckets : Nat) :
    Keeps (dict.rehashStep buckets) (if dict.isRehashing then more + min 1 buckets else more) := by
  have room := keeps.room
  have enough := keeps.buckets
  have migrated := valid.migrated buckets
  generalize dict.rehashStep buckets = after at migrated
  cases migrated with
  | resting idle =>
    rw [if_neg (by simp [isRehashing, idle])]
    exact keeps
  | @finished new migrated rehashing _ length =>
    have doubled := valid.doubled new rehashing
    have draining := valid.draining new rehashing
    have size : migrated.length = dict.old.length * 2 := by omega
    have logarithm := log2_doubled enough
    rw [if_pos (by simp [isRehashing, rehashing])]
    refine ⟨by dsimp only; omega, ?_⟩
    simp only [Dict.capacity, isRehashing, rehashing, size, logarithm, Option.isSome,
      if_true, Bool.false_eq_true, if_false] at room ⊢
    omega
  | moved rehashing _ oldLength _ =>
    rw [if_pos (by simp [isRehashing, rehashing])]
    refine ⟨by dsimp only; omega, ?_⟩
    simp only [Dict.capacity, isRehashing, rehashing, oldLength, Option.isSome, if_true] at room ⊢
    omega

theorem Keeps.makeRoom (valid : dict.Valid) (keeps : Keeps dict 0) : Keeps dict.makeRoom 1 := by
  have room := keeps.room
  have enough := keeps.buckets
  have stepped := keeps.rehashStep valid 1
  unfold Dict.makeRoom
  split
  · next rehashing =>
      rw [if_pos rehashing] at stepped
      exact stepped
  · next resting =>
      have idle : dict.isRehashing = false := by simpa using resting
      simp only [Dict.capacity, idle, Bool.false_eq_true, if_false] at room
      split
      · refine ⟨enough, ?_⟩
        simp only [startRehash, Dict.capacity, isRehashing, Option.isSome, if_true]
        omega
      · refine ⟨enough, ?_⟩
        simp only [Dict.capacity, idle, Bool.false_eq_true, if_false]
        omega

theorem insert_len_le (dict : Dict) (key : Bytes) (entry : Entry) :
    (dict.insert key entry).len ≤ dict.makeRoom.len + 1 := by
  unfold insert
  dsimp only
  split
  · exact ((sameCounts_modifyEntry _ _ _).len.le).trans (Nat.le_succ _)
  · unfold pushSlot
    split <;> exact Nat.le_refl _

theorem setDeadline_len (dict : Dict) (key : Bytes) (expiresAt : Option Nat) :
    (dict.setDeadline key expiresAt).2.len = dict.len := by
  unfold setDeadline
  dsimp only
  split
  · rfl
  · exact (sameCounts_modifyEntry _ _ _).len

theorem remove_len_le (dict : Dict) (key : Bytes) :
    (dict.remove key).2.len ≤ (if dict.isRehashing then dict.rehashStep 1 else dict).len := by
  rcases remove_snd dict key with same | ⟨_, _, same⟩ <;> rw [same]
  · exact (sameCounts_removeSlot _ key).len.le
  · exact (Nat.sub_le _ _).trans (sameCounts_removeSlot _ key).len.le

theorem Keeps.step (valid : dict.Valid) (keeps : Keeps dict 0) (op : DictOp) :
    Keeps (dict.step op).2 0 := by
  have stepped : ∀ buckets, Keeps (dict.rehashStep buckets) 0 := by
    intro buckets
    obtain ⟨enough, room⟩ := keeps.rehashStep valid buckets
    exact ⟨enough, by omega⟩
  cases op with
  | insert key entry =>
    exact (keeps.makeRoom valid).reshape (sameShape_insert dict key entry)
      (insert_len_le dict key entry)
  | remove key =>
    have started : Keeps (if dict.isRehashing then dict.rehashStep 1 else dict) 0 := by
      split
      · exact stepped 1
      · exact keeps
    exact started.reshape (sameShape_remove dict key) (remove_len_le dict key)
  | setDeadline key expiresAt =>
    exact keeps.reshape (sameShape_setDeadline dict key expiresAt)
      (setDeadline_len dict key expiresAt).le
  | touch key =>
    exact keeps.reshape (sameShape_touch dict key) (sameCounts_modifyEntry _ _ _).len.le
  | rehashStep buckets => exact stepped buckets
  | clear => exact ⟨Nat.le_refl _, Nat.zero_le _⟩

theorem keeps_run (seed : DictSeed) (ops : List DictOp) :
    ((withSeed seed).run ops).2.Valid ∧ Keeps ((withSeed seed).run ops).2 0 := by
  have kept : ∀ (state : Dict) (op : DictOp), (Valid state ∧ Keeps state 0) →
      Valid (state.step op).2 ∧ Keeps (state.step op).2 0 :=
    fun _ op holds => ⟨step_valid holds.1 op, holds.2.step holds.1 op⟩
  exact Machine.run_invariant kept ⟨valid_withSeed seed, Nat.le_refl _, Nat.zero_le _⟩ ops

/-- The logarithm of the bound is exact: the buckets are the first eight, doubled. -/
theorem Valid.doublings (valid : dict.Valid) (enough : initialBuckets ≤ dict.old.length) :
    dict.old.length = initialBuckets * 2 ^ Nat.log2 (dict.old.length / initialBuckets) := by
  obtain ⟨bits, power⟩ := valid.old.powerOfTwo
  unfold initialBuckets at enough ⊢
  rw [power] at enough ⊢
  have three : 3 ≤ bits := by
    by_contra small
    have below : 2 ^ bits < 2 ^ 3 := Nat.pow_lt_pow_right (by decide) (by omega)
    omega
  obtain ⟨doublings, rfl⟩ := Nat.exists_eq_add_of_le three
  rw [Nat.pow_add, show (2 : Nat) ^ 3 = 8 from rfl, Nat.mul_div_cancel_left _ (by decide),
    Nat.log2_two_pow]

/-- The entries a dict holds after any operations: at rest in `N` buckets no
more than `N` and one for each doubling; while a rehash to `2N` stands at a
bucket, one more than that and one for each bucket before it; so never more
than twice its buckets. -/
theorem growth_keeps_up (seed : DictSeed) (ops : List DictOp) (dict : Dict)
    (reached : ((withSeed seed).run ops).2 = dict) :
    dict.old.length =
        initialBuckets * 2 ^ Nat.log2 (dict.old.length / initialBuckets) ∧
      (dict.new = none →
        dict.len ≤ dict.old.length + Nat.log2 (dict.old.length / initialBuckets)) ∧
      (∀ new, dict.new = some new →
        new.length = 2 * dict.old.length ∧
          dict.len ≤ dict.old.length + Nat.log2 (dict.old.length / initialBuckets) +
            1 + dict.rehashIndex) ∧
      dict.len ≤ 2 * dict.buckets := by
  obtain ⟨valid, enough, room⟩ := keeps_run seed ops
  rw [reached] at valid enough room
  have doublings := valid.doublings enough
  have few : Nat.log2 (dict.old.length / initialBuckets) < dict.old.length :=
    (Nat.lt_two_pow_self).trans_le
      ((Nat.le_mul_of_pos_left _ (by decide)).trans_eq doublings.symm)
  unfold capacity isRehashing at room
  unfold Dict.buckets
  cases rehashing : dict.new with
  | none =>
    simp only [rehashing, Option.isSome, Bool.false_eq_true, if_false] at room
    exact ⟨doublings, fun _ => room, fun new impossible => by simp at impossible,
      by omega⟩
  | some new =>
    have draining := valid.draining new rehashing
    have doubled := valid.doubled new rehashing
    simp only [rehashing, Option.isSome, if_true] at room
    refine ⟨doublings, fun impossible => by simp at impossible, ?_, ?_⟩
    · intro other same
      obtain rfl := Option.some.inj same
      exact ⟨by omega, by omega⟩
    · rw [Option.getD_some]
      omega

omit [SipHasher] in
/-- Nine keys in eight buckets, with the bound met: the rehash has just begun. -/
theorem growth_keeps_up_nine :
    let _ : SipHasher := ⟨fun _ _ _ => 3⟩
    let nine := ((withSeed ⟨1, 2⟩).run ((List.range 9).map fun number =>
      .insert [UInt8.ofNat number] ⟨[], none, 0⟩)).2
    nine.isRehashing = true ∧ nine.len = 8 + 0 + 1 + nine.rehashIndex ∧
      nine.len ≤ 2 * nine.buckets := by
  let _ : SipHasher := ⟨fun _ _ _ => 3⟩
  exact ⟨by decide +kernel, by decide +kernel, (growth_keeps_up _ _ _ rfl).2.2.2⟩

end Dict

end Seedstone
