import Seedstone.Dict.Valid

/-!
# One call of the scan

A cursor stands for the hashes that rank between it and the next cursor of the
smaller table.  A call on a dict that holds anything moves its cursor on by the
increment of that table, wherever the cursor came from and however far a migration
is, and from an aligned cursor it visits exactly the slots of the interval, in
both tables, each of them once.
-/

namespace Seedstone

variable {table : Table} {bits : Nat} {seed : DictSeed}

open ReverseBinary

theorem reverseBinary_eq_increment (cursor : Cursor) (mask : BitVec 64) :
    reverseBinary cursor mask = increment cursor mask :=
  rfl

/-- A table of `2 ^ bits` buckets selects with its low bits, all of the word's
when it has more buckets than there are words. -/
theorem maskOf_eq_lowMask (power : table.length = 2 ^ bits) :
    maskOf table = lowMask 64 (min bits 64) := by
  unfold maskOf lowMask
  rw [power]
  apply BitVec.eq_of_getLsbD_eq
  intro index inside
  rw [BitVec.getLsbD_ofNat, BitVec.getLsbD_ofNat, Nat.testBit_two_pow_sub_one,
    Nat.testBit_two_pow_sub_one]
  have agree : index < bits ↔ index < min bits 64 := by omega
  rw [decide_eq_decide.mpr agree]

theorem toNat_lt_two_pow_min {cursor : Cursor} (below : cursor.toNat < 2 ^ bits) :
    cursor.toNat < 2 ^ min bits 64 := by
  rcases Nat.le_total bits 64 with small | large
  · rwa [Nat.min_eq_left small]
  · rw [Nat.min_eq_right large]
    exact cursor.isLt

namespace Dict

/-- The cursors the loop over the larger table visits, in order. -/
def visitsLarge (order : WalkOrder) (new : Table) (small : BitVec 64) :
    Nat → Cursor → List Cursor
  | 0, _ => []
  | laps + 1, v =>
    if order v (maskOf new) &&& (small ^^^ maskOf new) = 0 then
      [v]
    else
      v :: visitsLarge order new small laps (order v (maskOf new))

/-- The cursors of one scan call: those it visits `old` at, and those it visits
`new` at. -/
def visits (dict : Dict) (cursor : Cursor) : List Cursor × List Cursor :=
  if dict.isEmpty then
    ([], [])
  else
    match dict.new with
    | none => ([cursor], [])
    | some new =>
      ([cursor], visitsLarge reverseBinary new (maskOf dict.old) new.length cursor)

theorem scanLarge_fst (order : WalkOrder) (new : Table) (small : BitVec 64)
    (laps : Nat) (cursor : Cursor) :
    (scanLarge order new small laps cursor).1 =
      (visitsLarge order new small laps cursor).flatMap (visitBucket new) := by
  induction laps generalizing cursor with
  | zero => rfl
  | succ laps induction =>
    unfold scanLarge visitsLarge
    dsimp only
    split
    · simp
    · rw [List.flatMap_cons, ← induction]

theorem scan_fst (dict : Dict) (cursor : Cursor) :
    (dict.scan cursor).1 = (dict.visits cursor).1.flatMap (visitBucket dict.old) ++
      (dict.visits cursor).2.flatMap (visitBucket (dict.new.getD [])) := by
  unfold scan scanInOrder visits
  split
  · rfl
  · cases dict.new with
    | none => simp
    | some new => simp [scanLarge_fst]

theorem visitBucket_and_mask (table : Table) (cursor : Cursor) :
    visitBucket table (cursor &&& maskOf table) = visitBucket table cursor := by
  unfold visitBucket
  rw [BitVec.and_assoc, BitVec.and_self]

section Large

variable {old new : Table} {bits : Nat} {cursor : Cursor}

theorem and_lowMask_of_clear (clear : cursor.getLsbD bits = false) :
    cursor &&& lowMask 64 (bits + 1) = cursor &&& lowMask 64 bits := by
  apply BitVec.eq_of_getLsbD_eq
  intro index below
  rw [BitVec.getLsbD_and, BitVec.getLsbD_and, getLsbD_lowMask, getLsbD_lowMask]
  by_cases same : index = bits
  · rw [same, clear]
    rfl
  · have agree : index < bits ↔ index < bits + 1 := by omega
    simp [agree]

theorem increment_returns (inside : bits < 64) (cursor : Cursor) :
    increment cursor (lowMask 64 bits) &&& (lowMask 64 bits ^^^ lowMask 64 (bits + 1)) = 0 := by
  have below := increment_lt_two_pow (Nat.le_of_lt inside) cursor
  rw [and_lowMask_xor_eq_zero_iff inside, getLsbD_eq_false_iff_lt
    (lt_trans below (Nat.pow_lt_pow_right (by omega) (by omega)))]
  exact below

theorem exists_laps (newPower : new.length = 2 ^ (bits + 1)) : ∃ laps, new.length = laps + 2 := by
  have positive : 0 < 2 ^ bits := Nat.two_pow_pos bits
  refine ⟨new.length - 2, ?_⟩
  rw [newPower, pow_succ]
  omega

variable (oldPower : old.length = 2 ^ bits) (newPower : new.length = 2 ^ (bits + 1))

include oldPower newPower

theorem masks (inside : bits < 64) :
    maskOf old = lowMask 64 bits ∧ maskOf new = lowMask 64 (bits + 1) := by
  rw [maskOf_eq_lowMask oldPower, maskOf_eq_lowMask newPower,
    Nat.min_eq_left (Nat.le_of_lt inside), Nat.min_eq_left (Nat.succ_le_of_lt inside)]
  exact ⟨rfl, rfl⟩

/-- From half way through a bucket of the smaller table the loop visits the other half.
-/
theorem visitsLarge_halfway (inside : bits < 64) (bit : cursor.getLsbD bits = true)
    (laps : Nat) :
    visitsLarge reverseBinary new (maskOf old) (laps + 1) cursor = [cursor] ∧
      (scanLarge reverseBinary new (maskOf old) (laps + 1) cursor).2 =
        increment cursor (maskOf old) := by
  obtain ⟨small, large⟩ := masks oldPower newPower inside
  have next : increment cursor (maskOf new) = increment cursor (maskOf old) := by
    rw [small, large, increment_of_bit bit]
  have returned : increment cursor (maskOf old) &&& (maskOf old ^^^ maskOf new) = 0 := by
    rw [small, large]
    exact increment_returns inside cursor
  simp only [scanLarge, visitsLarge, reverseBinary_eq_increment, next, if_pos returned, and_self]

theorem visitsLarge_whole (inside : bits < 64) (clear : cursor.getLsbD bits = false)
    (laps : Nat) :
    visitsLarge reverseBinary new (maskOf old) (laps + 2) cursor =
        [cursor, increment cursor (maskOf new)] ∧
      (scanLarge reverseBinary new (maskOf old) (laps + 2) cursor).2 =
        increment cursor (maskOf old) := by
  obtain ⟨small, large⟩ := masks oldPower newPower inside
  have below := and_lowMask_lt (Nat.le_of_lt inside) cursor
  have masked : increment cursor (maskOf new) =
      increment (cursor &&& lowMask 64 bits) (lowMask 64 (bits + 1)) := by
    rw [large, ← and_lowMask_of_clear clear, increment_and_mask]
  have bit : (increment cursor (maskOf new)).getLsbD bits = true := by
    rw [masked]
    exact getLsbD_increment_half inside below
  have halfway : ¬ increment cursor (maskOf new) &&& (maskOf old ^^^ maskOf new) = 0 := by
    rw [small, large, and_lowMask_xor_eq_zero_iff inside, ← large, bit]
    simp
  have twice : increment (increment cursor (maskOf new)) (maskOf old) =
      increment cursor (maskOf old) := by
    rw [small, ← increment_of_bit bit, masked, increment_twice inside below, increment_and_mask]
  obtain ⟨rest, next⟩ := visitsLarge_halfway oldPower newPower inside bit laps
  rw [twice] at next
  constructor
  · rw [visitsLarge, reverseBinary_eq_increment, if_neg halfway, rest]
  · rw [scanLarge]
    dsimp only
    rw [reverseBinary_eq_increment, if_neg halfway]
    exact next

/-- The loop over the larger table covers the two buckets the smaller one's
bucket expands into, and ends within one lap. -/
theorem scanLarge_reverseBinary (inside : bits < 64) (below : cursor.toNat < 2 ^ bits) :
    scanLarge reverseBinary new (maskOf old) new.length cursor =
      (visitBucket new cursor ++ visitBucket new (increment cursor (maskOf new)),
        increment cursor (maskOf old)) := by
  have clear : cursor.getLsbD bits = false :=
    (getLsbD_eq_false_iff_lt (lt_trans below (Nat.pow_lt_pow_right (by omega) (by omega)))).mpr
      below
  obtain ⟨laps, lapsEq⟩ := exists_laps newPower
  obtain ⟨visited, next⟩ := visitsLarge_whole oldPower newPower inside clear laps
  rw [lapsEq]
  refine Prod.ext ?_ next
  rw [scanLarge_fst, visited]
  simp

theorem scanLarge_reverseBinary_wide (wide : 64 ≤ bits) (cursor : Cursor) :
    scanLarge reverseBinary new (maskOf old) new.length cursor =
      (visitBucket new cursor, increment cursor (maskOf old)) := by
  have small : maskOf old = lowMask 64 64 := by
    rw [maskOf_eq_lowMask oldPower, Nat.min_eq_right wide]
  have large : maskOf new = lowMask 64 64 := by
    rw [maskOf_eq_lowMask newPower, Nat.min_eq_right (by omega)]
  obtain ⟨laps, lapsEq⟩ := exists_laps newPower
  rw [lapsEq]
  simp [scanLarge, reverseBinary_eq_increment, small, large]

theorem visitsLarge_spec (cursor : Cursor) :
    (visitsLarge reverseBinary new (maskOf old) new.length cursor).length ≤ 2 ∧
      (scanLarge reverseBinary new (maskOf old) new.length cursor).2 =
        increment cursor (maskOf old) := by
  obtain ⟨laps, lapsEq⟩ := exists_laps newPower
  rcases Nat.lt_or_ge bits 64 with inside | wide
  · rw [lapsEq]
    cases bit : cursor.getLsbD bits with
    | false =>
      obtain ⟨visited, next⟩ := visitsLarge_whole oldPower newPower inside bit laps
      exact ⟨by rw [visited]; simp, next⟩
    | true =>
      obtain ⟨visited, next⟩ := visitsLarge_halfway oldPower newPower inside bit (laps + 1)
      exact ⟨by rw [visited]; simp, next⟩
  · -- Both masks select every bit of the word, so the loop is back at once.
    have loop := scanLarge_reverseBinary_wide oldPower newPower wide cursor
    refine ⟨?_, by rw [loop]⟩
    have small : maskOf old = lowMask 64 64 := by
      rw [maskOf_eq_lowMask oldPower, Nat.min_eq_right wide]
    have large : maskOf new = lowMask 64 64 := by
      rw [maskOf_eq_lowMask newPower, Nat.min_eq_right (by omega)]
    rw [lapsEq]
    simp [visitsLarge, small, large]

end Large

end Dict

/-- The slots whose hash ranks in an interval, the upper end excluded. -/
def between (low high : Nat) (slots : List Slot) : List Slot :=
  slots.filter (fun slot => low ≤ rank slot.hash && rank slot.hash < high)

theorem between_append (low high : Nat) (first second : List Slot) :
    between low high (first ++ second) = between low high first ++ between low high second :=
  List.filter_append ..

theorem between_perm {low middle high : Nat} (lower : low ≤ middle)
    (upper : middle ≤ high) (slots : List Slot) :
    (between low middle slots ++ between middle high slots).Perm (between low high slots) := by
  have halves := List.filter_append_perm (fun slot : Slot => rank slot.hash < middle)
    (between low high slots)
  have first : (between low high slots).filter (fun slot => rank slot.hash < middle) =
      between low middle slots := by
    unfold between
    rw [List.filter_filter]
    apply List.filter_congr
    intro slot _
    rw [Bool.eq_iff_iff]
    simp only [Bool.and_eq_true, decide_eq_true_eq]
    omega
  have second : (between low high slots).filter
      (fun slot => !decide (rank slot.hash < middle)) = between middle high slots := by
    unfold between
    rw [List.filter_filter]
    apply List.filter_congr
    intro slot _
    rw [Bool.eq_iff_iff]
    simp only [Bool.and_eq_true, Bool.not_eq_true', decide_eq_true_eq, decide_eq_false_iff_not]
    omega
  rw [first, second] at halves
  exact halves

theorem between_whole (slots : List Slot) : between 0 (2 ^ 64) slots = slots := by
  apply List.filter_eq_self.mpr
  intro slot _
  have bound := rank_lt slot.hash
  simpa using bound

/-- In a list of lists that keeps at `index` what `position` sends to `index`,
the entries sent to one position are the list that stands there. -/
theorem flatten_filter_position {Element : Type*} (position : Element → Nat)
    (base : Nat) {lists : List (List Element)}
    (placed : ∀ index, ∀ element ∈ lists.getD index [], position element = base + index)
    (index : Nat) :
    lists.flatten.filter (fun element => position element = base + index) =
      lists.getD index [] := by
  induction lists generalizing base index with
  | nil => simp
  | cons head tail induction =>
    rw [List.flatten_cons, List.filter_append]
    have first : ∀ element ∈ head, position element = base :=
      fun element member => placed 0 element member
    have later : ∀ index, ∀ element ∈ tail.getD index [], position element = base + 1 + index := by
      intro index element member
      rw [placed (index + 1) element (by simpa using member)]
      omega
    cases index with
    | zero =>
      have here : head.filter (fun element => position element = base + 0) = head :=
        List.filter_eq_self.mpr (by simpa using first)
      have nothing : tail.flatten.filter
          (fun element => position element = base + 0) = [] := by
        rw [List.filter_eq_nil_iff]
        intro element member
        obtain ⟨list, listMember, inList⟩ := List.mem_flatten.mp member
        obtain ⟨place, found⟩ := List.mem_iff_getElem?.mp listMember
        have somewhere := later place element (by simpa [found] using inList)
        simp only [decide_eq_true_eq]
        omega
      rw [here, nothing, List.append_nil, List.getD_cons_zero]
    | succ index =>
      have nothing : head.filter
          (fun element => position element = base + (index + 1)) = [] := by
        rw [List.filter_eq_nil_iff]
        intro element member
        have somewhere := first element member
        simp only [decide_eq_true_eq]
        omega
      have rest := induction (base + 1) later index
      have sum : base + 1 + index = base + (index + 1) := by omega
      rw [sum] at rest
      rw [nothing, List.nil_append, List.getD_cons_succ]
      exact rest

variable [SipHasher]

/-- The bucket a cursor of its own table stands at holds the cursor's interval. -/
theorem Placed.bucketAt_eq_between (placed : Placed seed table)
    (power : table.length = 2 ^ bits) {cursor : Cursor} (below : cursor.toNat < 2 ^ min bits 64) :
    bucketAt table (cursor &&& maskOf table).toNat =
      between (rank cursor) (rank cursor + 2 ^ (64 - min bits 64)) table.flatten := by
  have fits : min bits 64 ≤ 64 := Nat.min_le_right _ _
  have mask := maskOf_eq_lowMask power
  have itself := and_lowMask_eq_of_rank fits below (Nat.le_refl (rank cursor))
    (Nat.lt_add_of_pos_right (Nat.two_pow_pos _))
  have located : ∀ index, ∀ slot ∈ table.getD index [],
      bucketIndex slot.hash table.length = 0 + index := by
    intro index slot member
    rw [placed.hashed index slot member, placed.bucket index slot member, Nat.zero_add]
  have bucket := flatten_filter_position (fun slot : Slot => bucketIndex slot.hash table.length)
    0 located (cursor &&& maskOf table).toNat
  unfold bucketAt
  rw [← bucket]
  apply List.filter_congr
  intro slot _
  -- Selected by the mask is the same as ranked in the interval.
  have selects : bucketIndex slot.hash table.length = (cursor &&& maskOf table).toNat ↔
      slot.hash &&& lowMask 64 (min bits 64) = cursor := by
    rw [mask, itself, ← mask]
    exact BitVec.toNat_inj
  rw [Bool.eq_iff_iff]
  simp only [decide_eq_true_eq, Bool.and_eq_true, Nat.zero_add]
  rw [selects]
  constructor
  · intro same
    have interval := rank_and_lowMask fits slot.hash
    rw [same] at interval
    exact interval
  · rintro ⟨lower, upper⟩
    exact and_lowMask_eq_of_rank fits below lower upper

namespace Dict

variable {dict : Dict} {bits : Nat} {cursor : Cursor}

theorem scan_next (valid : dict.Valid) (nonempty : dict.len ≠ 0) (cursor : Cursor) :
    (dict.scan cursor).2 = increment cursor (maskOf dict.old) := by
  obtain ⟨bits, power⟩ := valid.old.powerOfTwo
  have occupied : dict.isEmpty = false := by
    simpa [isEmpty] using nonempty
  unfold scan scanInOrder
  rw [occupied]
  cases rehashing : dict.new with
  | none => rfl
  | some new =>
    have newPower : new.length = 2 ^ (bits + 1) := by
      rw [valid.doubled new rehashing, power, pow_succ]
    exact (visitsLarge_spec power newPower cursor).2

omit [SipHasher] in
theorem scan_empty (empty : dict.len = 0) (cursor : Cursor) : dict.scan cursor = ([], 0) := by
  have vacant : dict.isEmpty = true := by
    simp [isEmpty, empty]
  unfold scan scanInOrder
  rw [vacant]
  rfl

/-- One call visits at most one bucket of the smaller table and two of the
larger. -/
theorem length_visits (valid : dict.Valid) (cursor : Cursor) :
    (dict.visits cursor).1.length ≤ 1 ∧ (dict.visits cursor).2.length ≤ 2 := by
  obtain ⟨bits, power⟩ := valid.old.powerOfTwo
  unfold visits
  split
  · simp
  · cases rehashing : dict.new with
    | none => simp
    | some new =>
      have newPower : new.length = 2 ^ (bits + 1) := by
        rw [valid.doubled new rehashing, power, pow_succ]
      exact ⟨by simp, (visitsLarge_spec power newPower cursor).1⟩

/-- What a visitor is handed of a slot. -/
def handed (slot : Slot) : Bytes × Entry :=
  (slot.key, slot.entry)

/-- The rank a walk has reached: the end of the cycle once the cursor is `0`. -/
def reached (cursor : Cursor) : Nat :=
  if cursor = 0 then 2 ^ 64 else rank cursor

theorem visitBucket_eq (placed : Placed seed table) (power : table.length = 2 ^ bits)
    (below : cursor.toNat < 2 ^ min bits 64) :
    visitBucket table cursor =
      (between (rank cursor) (rank cursor + 2 ^ (64 - min bits 64)) table.flatten).map
        handed := by
  rw [← placed.bucketAt_eq_between power below]
  rfl

/-- The two buckets one of the smaller table expands into hold its interval. -/
theorem visitBucket_halves (placed : Placed seed table)
    (power : table.length = 2 ^ (bits + 1)) (inside : bits < 64)
    (aligned : cursor.toNat < 2 ^ bits) :
    (visitBucket table cursor ++ visitBucket table (increment cursor (maskOf table))).Perm
      ((between (rank cursor) (rank cursor + 2 ^ (64 - bits)) table.flatten).map handed) := by
  have larger : min (bits + 1) 64 = bits + 1 := Nat.min_eq_left (Nat.succ_le_of_lt inside)
  have mask : maskOf table = lowMask 64 (bits + 1) := by
    rw [maskOf_eq_lowMask power, larger]
  have half := rank_increment_half inside aligned
  have halves : 2 ^ (64 - bits) = 2 ^ (64 - (bits + 1)) + 2 ^ (64 - (bits + 1)) := by
    rw [← Nat.two_mul, ← pow_succ']
    congr 1
    omega
  have firstBelow : cursor.toNat < 2 ^ min (bits + 1) 64 := by
    rw [larger]
    exact lt_trans aligned (Nat.pow_lt_pow_right (by omega) (by omega))
  have secondBelow : (increment cursor (lowMask 64 (bits + 1))).toNat < 2 ^ min (bits + 1) 64 := by
    rw [larger]
    exact increment_half_lt inside aligned
  rw [mask, visitBucket_eq placed power firstBelow, visitBucket_eq placed power secondBelow,
    larger, half, halves, ← List.map_append, ← Nat.add_assoc]
  exact (between_perm (Nat.le_add_right _ _) (Nat.le_add_right _ _) _).map handed

/-- One call from an aligned cursor hands out its interval, each slot once. -/
theorem scan_perm (valid : dict.Valid) (nonempty : dict.len ≠ 0)
    (power : dict.old.length = 2 ^ bits) (aligned : cursor.toNat < 2 ^ bits) :
    (dict.scan cursor).2.toNat < 2 ^ bits ∧
      reached (dict.scan cursor).2 = rank cursor + 2 ^ (64 - min bits 64) ∧
      (dict.scan cursor).1.Perm
        ((between (rank cursor) (reached (dict.scan cursor).2) dict.slots).map handed) := by
  have fits : min bits 64 ≤ 64 := Nat.min_le_right _ _
  have below := toNat_lt_two_pow_min aligned
  have next := scan_next valid nonempty cursor
  rw [maskOf_eq_lowMask power] at next
  have arrived : reached (dict.scan cursor).2 = rank cursor + 2 ^ (64 - min bits 64) := by
    unfold reached
    rw [next]
    rcases rank_increment_cases fits below with further | ⟨ended, whole⟩
    · have positive : 0 < 2 ^ (64 - min bits 64) := Nat.two_pow_pos _
      have nonzero : increment cursor (lowMask 64 (min bits 64)) ≠ 0 := by
        intro zero
        rw [zero, (rank_eq_zero_iff _).mpr rfl] at further
        omega
      rw [if_neg nonzero, further]
    · rw [if_pos ended, whole]
  refine ⟨?_, arrived, ?_⟩
  · rw [next]
    exact lt_of_lt_of_le (increment_lt fits below)
      (Nat.pow_le_pow_right (by omega) (Nat.min_le_left _ _))
  · rw [arrived]
    have occupied : dict.isEmpty = false := by
      simpa [isEmpty] using nonempty
    have old := visitBucket_eq valid.old power below
    unfold scan scanInOrder
    rw [occupied]
    cases rehashing : dict.new with
    | none =>
      simp only [Bool.false_eq_true, if_false, slots, rehashing, Option.getD_none,
        List.flatten_nil, List.append_nil]
      rw [old]
    | some new =>
      have newPower : new.length = 2 ^ (bits + 1) := by
        rw [valid.doubled new rehashing, power, pow_succ]
      have placed := valid.new new rehashing
      simp only [Bool.false_eq_true, if_false, slots, rehashing, Option.getD_some,
        between_append, List.map_append]
      rcases Nat.lt_or_ge bits 64 with inside | wide
      · rw [scanLarge_reverseBinary power newPower inside aligned, old]
        have small : min bits 64 = bits := Nat.min_eq_left (Nat.le_of_lt inside)
        rw [small]
        exact (visitBucket_halves placed newPower inside aligned).append_left _
      · have same : min (bits + 1) 64 = min bits 64 := by omega
        have newBelow : cursor.toNat < 2 ^ min (bits + 1) 64 := by
          rw [same]
          exact below
        have whole := visitBucket_eq placed newPower newBelow
        rw [same] at whole
        rw [scanLarge_reverseBinary_wide power newPower wide cursor, old, whole]

theorem Valid.hash_eq (valid : dict.Valid) {slot : Slot} (member : slot ∈ dict.slots) :
    slot.hash = hashKey dict.seed slot.key := by
  rcases List.mem_append.mp member with old | new
  · obtain ⟨index, found⟩ := mem_flatten_iff.mp old
    exact valid.old.hashed index slot found
  · cases rehashing : dict.new with
    | none => simp [rehashing] at new
    | some table =>
      rw [rehashing] at new
      obtain ⟨index, found⟩ := mem_flatten_iff.mp new
      exact (valid.new table rehashing).hashed index slot found

/-- A call moves the cursor on by an interval, and visits every slot of it. -/
theorem scan_spec (valid : dict.Valid) (nonempty : dict.len ≠ 0)
    (aligned : cursor.toNat < dict.old.length) :
    (dict.scan cursor).2.toNat < dict.old.length ∧ ∀ slot ∈ dict.slots,
        rank cursor ≤ rank (hashKey dict.seed slot.key) →
        ((dict.scan cursor).2 = 0 ∨ rank (hashKey dict.seed slot.key) < rank (dict.scan cursor).2) →
        (slot.key, slot.entry) ∈ (dict.scan cursor).1 := by
  obtain ⟨bits, power⟩ := valid.old.powerOfTwo
  rw [power] at aligned ⊢
  obtain ⟨next, -, visited⟩ := scan_perm valid nonempty power aligned
  refine ⟨next, fun slot member lower upper =>
    visited.mem_iff.mpr (List.mem_map.mpr ⟨slot, List.mem_filter.mpr ⟨member, ?_⟩, rfl⟩)⟩
  rw [← valid.hash_eq member] at lower upper
  have bound := rank_lt slot.hash
  have before : rank slot.hash < reached (dict.scan cursor).2 := by
    unfold reached
    split
    · exact bound
    · next more => exact upper.resolve_left more
  simp [lower, before]

end Dict

end Seedstone
