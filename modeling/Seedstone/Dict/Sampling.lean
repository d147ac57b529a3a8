import Seedstone.Dict.Cycle

/-!
# A sample comes back empty only from an empty dict

`sample_oldest` walks on from a cursor that any earlier sample left, in a dict
that has changed since, for as many steps as the tables have buckets.  From the
second step on the cursor is one of the smaller table, and as many steps as
that table has buckets come round to every bucket: a sample that met no
candidate in them met every key, and each was the spared one.
-/

namespace Seedstone

open ReverseBinary

namespace Dict

variable [SipHasher] {dict : Dict} {cursor : Cursor} {spared : Option Bytes}
  {state : Nat × Option (UInt32 × Bytes)}

/-- What `steps` scan calls from a cursor hand out, past the end of the cycle. -/
def lap (dict : Dict) : Nat → Cursor → List (Bytes × Entry)
  | 0, _ => []
  | steps + 1, cursor =>
    (dict.scan cursor).1 ++ lap dict steps (dict.scan cursor).2

/-- The cursor after some scan calls. -/
def cursorAfter (dict : Dict) : Nat → Cursor → Cursor
  | 0, cursor => cursor
  | steps + 1, cursor => cursorAfter dict steps (dict.scan cursor).2

omit [SipHasher] in
theorem mem_lap {steps step : Nat} (inside : step < steps) {item : Bytes × Entry}
    (visited : item ∈ (dict.scan (dict.cursorAfter step cursor)).1) :
    item ∈ dict.lap steps cursor := by
  induction steps generalizing step cursor with
  | zero => omega
  | succ steps induction =>
    cases step with
    | zero => exact List.mem_append_left _ visited
    | succ step =>
      exact List.mem_append_right _ (induction (by omega) visited)

theorem rank_cursorAfter (valid : dict.Valid) (nonempty : dict.len ≠ 0) {bits : Nat}
    (power : dict.old.length = 2 ^ bits) (steps : Nat) (below : cursor.toNat < 2 ^ min bits 64) :
    rank (dict.cursorAfter steps cursor) =
      (rank cursor + steps * 2 ^ (64 - min bits 64)) % 2 ^ 64 := by
  induction steps generalizing cursor with
  | zero =>
    rw [cursorAfter, Nat.zero_mul, Nat.add_zero, Nat.mod_eq_of_lt (rank_lt cursor)]
  | succ steps induction =>
    have fits : min bits 64 ≤ 64 := Nat.min_le_right _ _
    have next := scan_next valid nonempty cursor
    rw [maskOf_eq_lowMask power] at next
    rw [cursorAfter, next, induction (increment_lt fits below),
      rank_increment_eq fits below, Nat.mod_add_mod, Nat.succ_mul]
    congr 1
    omega

/-- Some call of a full lap from an aligned cursor starts at any given one. -/
theorem exists_cursorAfter (valid : dict.Valid) (nonempty : dict.len ≠ 0) {bits : Nat}
    (power : dict.old.length = 2 ^ bits) {wanted : Cursor} (below : cursor.toNat < 2 ^ min bits 64)
    (wantedBelow : wanted.toNat < 2 ^ min bits 64) :
    ∃ step, step < 2 ^ min bits 64 ∧ dict.cursorAfter step cursor = wanted := by
  have fits : min bits 64 ≤ 64 := Nat.min_le_right _ _
  obtain ⟨here, hereEq⟩ := Nat.dvd_of_mod_eq_zero ((lt_two_pow_iff_rank_mod fits cursor).mp below)
  obtain ⟨there, thereEq⟩ :=
    Nat.dvd_of_mod_eq_zero ((lt_two_pow_iff_rank_mod fits wanted).mp wantedBelow)
  have whole : 2 ^ 64 = 2 ^ (64 - min bits 64) * 2 ^ min bits 64 := by
    rw [← pow_add, Nat.sub_add_cancel fits]
  have unit : 0 < 2 ^ (64 - min bits 64) := Nat.two_pow_pos _
  have hereLt : here < 2 ^ min bits 64 := by
    have bound := rank_lt cursor
    rw [hereEq, whole] at bound
    exact Nat.lt_of_mul_lt_mul_left bound
  have thereLt : there < 2 ^ min bits 64 := by
    have bound := rank_lt wanted
    rw [thereEq, whole] at bound
    exact Nat.lt_of_mul_lt_mul_left bound
  refine ⟨(there + 2 ^ min bits 64 - here) % 2 ^ min bits 64,
    Nat.mod_lt _ (Nat.two_pow_pos _), rank_injective ?_⟩
  rw [rank_cursorAfter valid nonempty power _ below, hereEq, thereEq, whole,
    Nat.mul_comm (_ % _), ← Nat.mul_add, Nat.mul_mod_mul_left, Nat.add_mod_mod]
  congr 1
  have around : here + (there + 2 ^ min bits 64 - here) = there + 2 ^ min bits 64 := by omega
  rw [around, Nat.add_mod_right, Nat.mod_eq_of_lt thereLt]

theorem mem_lap_of_aligned (valid : dict.Valid) (aligned : cursor.toNat < dict.old.length)
    {steps : Nat} (enough : dict.old.length ≤ steps) {slot : Slot}
    (member : slot ∈ dict.slots) : (slot.key, slot.entry) ∈ dict.lap steps cursor := by
  obtain ⟨bits, power⟩ := valid.old.powerOfTwo
  have fits : min bits 64 ≤ 64 := Nat.min_le_right _ _
  have nonempty : dict.len ≠ 0 := by
    rw [valid.counted]
    exact (List.length_pos_iff_exists_mem.mpr ⟨slot, member⟩).ne'
  rw [power] at aligned
  have wantedBelow := and_lowMask_lt fits (hashKey dict.seed slot.key)
  obtain ⟨step, inside, arrived⟩ := exists_cursorAfter valid nonempty power
    (toNat_lt_two_pow_min aligned) wantedBelow
  have smaller : 2 ^ min bits 64 ≤ dict.old.length := by
    rw [power]
    exact Nat.pow_le_pow_right (by omega) (Nat.min_le_left _ _)
  obtain ⟨lower, upper⟩ := rank_and_lowMask fits (hashKey dict.seed slot.key)
  have wantedAligned : (hashKey dict.seed slot.key &&& lowMask 64 (min bits 64)).toNat <
      dict.old.length := by omega
  apply mem_lap (by omega : step < steps)
  rw [arrived]
  apply (scan_spec valid nonempty wantedAligned).2 slot member lower
  rw [scan_next valid nonempty, maskOf_eq_lowMask power]
  rcases rank_increment_cases fits wantedBelow with further | ⟨ended, -⟩
  · right
    rw [further]
    exact upper
  · exact Or.inl ended

omit [SipHasher] in
theorem scan_and_mask (resting : dict.new = none) (cursor : Cursor) :
    dict.scan (cursor &&& maskOf dict.old) = dict.scan cursor := by
  unfold scan scanInOrder
  rw [resting]
  simp only [visitBucket_and_mask, reverseBinary_eq_increment, increment_and_mask]

theorem mask_lt (valid : dict.Valid) (cursor : Cursor) :
    (cursor &&& maskOf dict.old).toNat < dict.old.length := by
  obtain ⟨bits, power⟩ := valid.old.powerOfTwo
  rw [maskOf_eq_lowMask power, power]
  exact lt_of_lt_of_le (and_lowMask_lt (Nat.min_le_right _ _) cursor)
    (Nat.pow_le_pow_right (by omega) (Nat.min_le_left _ _))

/-- From any cursor, as many steps as both tables have buckets hand out every slot, even
if the first meets half a bucket of a migration. -/
theorem mem_lap_of_bound (valid : dict.Valid) (cursor : Cursor) {slot : Slot}
    (member : slot ∈ dict.slots) :
    (slot.key, slot.entry) ∈
      dict.lap (dict.old.length + (dict.new.map List.length).getD 0) cursor := by
  obtain ⟨bits, power⟩ := valid.old.powerOfTwo
  have positive : 0 < dict.old.length := by
    rw [power]
    exact Nat.two_pow_pos bits
  have nonempty : dict.len ≠ 0 := by
    rw [valid.counted]
    exact (List.length_pos_iff_exists_mem.mpr ⟨slot, member⟩).ne'
  cases rehashing : dict.new with
  | none =>
    have covered := mem_lap_of_aligned valid (mask_lt valid cursor)
      (Nat.le_refl dict.old.length) member
    obtain ⟨fewer, more⟩ : ∃ fewer, dict.old.length = fewer + 1 := ⟨dict.old.length - 1, by omega⟩
    rw [Option.map_none, Option.getD_none, Nat.add_zero]
    rw [more, lap, scan_and_mask rehashing] at covered
    rw [more, lap]
    exact covered
  | some new =>
    have doubled := valid.doubled new rehashing
    rw [Option.map_some, Option.getD_some]
    obtain ⟨fewer, more⟩ : ∃ fewer, dict.old.length + new.length = fewer + 1 :=
      ⟨dict.old.length + new.length - 1, by omega⟩
    have aligned : (dict.scan cursor).2.toNat < dict.old.length := by
      rw [scan_next valid nonempty, maskOf_eq_lowMask power, power]
      exact lt_of_lt_of_le (increment_lt_two_pow (Nat.min_le_right _ _) cursor)
        (Nat.pow_le_pow_right (by omega) (Nat.min_le_left _ _))
    rw [more, lap]
    apply List.mem_append_right
    exact mem_lap_of_aligned valid aligned (by omega) member

/-- A sample so far: it has a candidate once it has met an entry that is not spared. -/
structure Sampled (dict : Dict) (spared : Option Bytes)
    (state : Nat × Option (UInt32 × Bytes)) : Prop where
  chosen : state.1 ≠ 0 → state.2 ≠ none
  held : ∀ stamp key, state.2 = some (stamp, key) →
    (dict.get key).isSome ∧ spared ≠ some key

theorem sampled_visit (sampled : Sampled dict spared state) {item : Bytes × Entry}
    (stored : dict.get item.1 = some item.2) :
    Sampled dict spared (sampleVisit spared state item) ∧
      ((sampleVisit spared state item).1 = 0 → state.1 = 0 ∧ spared = some item.1) := by
  obtain ⟨count, candidate⟩ := state
  unfold sampleVisit
  split
  · next kept => exact ⟨sampled, fun zero => ⟨zero, kept⟩⟩
  · next other =>
      have present : (dict.get item.1).isSome ∧ spared ≠ some item.1 := ⟨by rw [stored]; rfl, other⟩
      refine ⟨⟨?_, ?_⟩, fun zero => by simp at zero⟩
      · intro _
        cases candidate with
        | none => simp
        | some oldest =>
          dsimp only
          split <;> simp
      · intro stamp key same
        cases candidate with
        | none =>
          simp only [Option.some.injEq, Prod.mk.injEq] at same
          rw [← same.2]
          exact present
        | some oldest =>
          dsimp only at same
          split at same
          · simp only [Option.some.injEq, Prod.mk.injEq] at same
            rw [← same.2]
            exact present
          · exact sampled.held stamp key same

theorem sampled_visits {items : List (Bytes × Entry)}
    (stored : ∀ item ∈ items, dict.get item.1 = some item.2) (sampled : Sampled dict spared state) :
    Sampled dict spared (items.foldl (sampleVisit spared) state) ∧
      ((items.foldl (sampleVisit spared) state).1 = 0 →
        state.1 = 0 ∧ ∀ item ∈ items, spared = some item.1) := by
  induction items generalizing state with
  | nil => exact ⟨sampled, fun zero => ⟨zero, by simp⟩⟩
  | cons item items induction =>
    obtain ⟨visited, none⟩ := sampled_visit sampled (stored item (by simp))
    obtain ⟨rest, restNone⟩ :=
      induction (fun other member => stored other (by simp [member])) visited
    refine ⟨rest, fun zero => ?_⟩
    obtain ⟨before, spares⟩ := restNone zero
    obtain ⟨start, here⟩ := none before
    refine ⟨start, ?_⟩
    intro other member
    rcases List.mem_cons.mp member with same | later
    · rw [same]
      exact here
    · exact spares other later

/-- A sample's candidate is a stored key that is not spared, and it has none only if it
met nothing else. -/
theorem sampleLoop_spec (valid : dict.Valid) {samples : Nat} (wanted : 1 ≤ samples)
    (steps : Nat) (cursor : Cursor) (sampled : Sampled dict spared state) :
    (∀ stamp key, (dict.sampleLoop samples spared steps cursor state).1 = some (stamp, key) →
        (dict.get key).isSome ∧ spared ≠ some key) ∧
      ((dict.sampleLoop samples spared steps cursor state).1 = none →
        state.1 = 0 ∧ ∀ item ∈ dict.lap steps cursor, spared = some item.1) := by
  induction steps generalizing cursor state with
  | zero =>
    refine ⟨sampled.held, fun none => ⟨?_, by simp [lap]⟩⟩
    by_contra met
    exact sampled.chosen met none
  | succ steps induction =>
    unfold sampleLoop
    split
    · have stored : ∀ item ∈ (dict.scan cursor).1, dict.get item.1 = some item.2 :=
        fun item member => get_of_mem_scan valid member
      obtain ⟨visited, spares⟩ := sampled_visits stored sampled
      obtain ⟨held, none⟩ := induction (dict.scan cursor).2 visited
      refine ⟨held, fun nothing => ?_⟩
      obtain ⟨zero, later⟩ := none nothing
      obtain ⟨start, here⟩ := spares zero
      refine ⟨start, ?_⟩
      intro item member
      rcases List.mem_append.mp member with first | rest
      · exact here item first
      · exact later item rest
    · next enough =>
        refine ⟨sampled.held, fun none => ?_⟩
        exact absurd none (sampled.chosen (by omega))

/-- `sample_oldest` names a stored key that is not spared, if the dict holds one. -/
theorem sampleOldest_spec (valid : dict.Valid) (cursor : Cursor) {samples : Nat}
    (wanted : 1 ≤ samples) (spared : Option Bytes) :
    (∀ victim, (dict.sampleOldest cursor samples spared).1 = some victim →
        (dict.get victim).isSome ∧ spared ≠ some victim) ∧
      ((dict.sampleOldest cursor samples spared).1 = none →
        ∀ key, (dict.get key).isSome → spared = some key) := by
  have start : Sampled dict spared (0, none) :=
    ⟨fun met => absurd rfl met, fun _ _ same => by simp at same⟩
  obtain ⟨held, nothing⟩ := sampleLoop_spec valid wanted
    (dict.old.length + (dict.new.map List.length).getD 0) cursor start
  unfold sampleOldest
  split
  · next empty =>
      refine ⟨fun victim none => by simp at none, fun _ key present => ?_⟩
      have zero : dict.len = 0 := by simpa [isEmpty] using empty
      exact absurd zero (valid.len_ne_zero present)
  · dsimp only
    refine ⟨?_, ?_⟩
    · intro victim named
      obtain ⟨⟨stamp, key⟩, found, same⟩ := Option.map_eq_some_iff.mp named
      rw [← same]
      exact held stamp key found
    · intro none key present
      obtain ⟨entry, found⟩ := Option.isSome_iff_exists.mp present
      obtain ⟨slot, member, same, -⟩ := valid.get_eq_some_iff.mp found
      rw [← same]
      exact (nothing (Option.map_eq_none_iff.mp none)).2 _ (mem_lap_of_bound valid cursor member)

end Dict

end Seedstone
