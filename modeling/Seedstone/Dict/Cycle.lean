import Seedstone.Dict.Walk
import Mathlib.Data.Nat.Log

/-!
# The scan cycle ends

The increment a call moves its cursor by ranks above the cursor and is a multiple of
the interval of the smaller table, so a walk cannot stay below the end for more calls
than the largest table it met has buckets.
-/

namespace Seedstone

open ReverseBinary

namespace Dict

variable [SipHasher] {dict : Dict}

/-- The dict and the cursor of each call of a walk, with any operations in between. -/
def calls (between : Nat → List DictOp) (start : Dict × Cursor) : Nat → Dict × Cursor
  | 0 => start
  | call + 1 =>
    let (dict, cursor) := calls between start call
    ((dict.run (between call)).2, (dict.scan cursor).2)

/-- No table of a dict has more than `most` buckets. -/
def TablesWithin (most : Nat) (dict : Dict) : Prop :=
  dict.old.length ≤ most ∧ ∀ new, dict.new = some new → new.length ≤ most

/-- The bits of a cursor of a table of at most `most` buckets. -/
def cursorBits (most : Nat) : Nat :=
  min (Nat.log 2 most) 64

/-- One call ends the cycle, or lands on a cursor of the largest table that ranks above.
-/
theorem scan_advances (valid : dict.Valid) {most : Nat}
    (bounded : dict.old.length ≤ most) (cursor : Cursor) :
    (dict.scan cursor).2 = 0 ∨
      (rank cursor < rank (dict.scan cursor).2 ∧
        2 ^ (64 - cursorBits most) ∣ rank (dict.scan cursor).2) := by
  by_cases empty : dict.len = 0
  · rw [scan_empty empty]
    exact Or.inl rfl
  · obtain ⟨own, power⟩ := valid.old.powerOfTwo
    have fits : min own 64 ≤ 64 := Nat.min_le_right _ _
    have below : min own 64 ≤ cursorBits most := by
      rw [power] at bounded
      have logged := Nat.le_log_of_pow_le (by omega : 1 < 2) bounded
      unfold cursorBits
      omega
    rw [scan_next valid empty, maskOf_eq_lowMask power]
    rcases rank_lt_rank_increment fits cursor with zero | further
    · exact Or.inl zero
    · refine Or.inr ⟨further, ?_⟩
      have inside : cursorBits most ≤ 64 := Nat.min_le_right _ _
      apply Nat.dvd_of_mod_eq_zero
      rw [← lt_two_pow_iff_rank_mod inside]
      exact lt_of_lt_of_le (increment_lt_two_pow fits cursor)
        (Nat.pow_le_pow_right (by omega) below)

theorem calls_valid (between : Nat → List DictOp) {start : Dict × Cursor}
    (valid : start.1.Valid) (call : Nat) : (calls between start call).1.Valid := by
  induction call with
  | zero => exact valid
  | succ call induction => exact run_valid induction (between call)

/-- Until a call returns `0`, each moves the cursor on by an interval of the largest
table. -/
theorem le_rank_calls {between : Nat → List DictOp} {start : Dict × Cursor}
    (valid : start.1.Valid) {most : Nat}
    (bounded : ∀ call, TablesWithin most (calls between start call).1) {call : Nat}
    (pending : ∀ earlier, earlier < call → (calls between start (earlier + 1)).2 ≠ 0) :
    call ≤ rank (calls between start call).2 / 2 ^ (64 - cursorBits most) := by
  induction call with
  | zero => exact Nat.zero_le _
  | succ call induction =>
    have sofar := induction (fun earlier before => pending earlier (by omega))
    rcases scan_advances (calls_valid between valid call) (bounded call).1
      (calls between start call).2 with zero | ⟨further, divides⟩
    · exact absurd zero (pending call (by omega))
    · obtain ⟨quotient, whole⟩ := divides
      have positive : 0 < 2 ^ (64 - cursorBits most) := Nat.two_pow_pos _
      have next : rank (calls between start (call + 1)).2 =
          2 ^ (64 - cursorBits most) * quotient := whole
      rw [whole, Nat.mul_comm, ← Nat.div_lt_iff_lt_mul positive] at further
      rw [next, Nat.mul_div_cancel_left _ positive]
      omega

/-- From any cursor, whatever happens between the calls and as long as no table
has more than `most` buckets, one of the first `most` calls returns `0`; and
each call visits at most one bucket of the smaller table and two of the
larger. -/
theorem scan_cycle_ends (seed : DictSeed) (before : List DictOp) (cursor : Cursor)
    (between : Nat → List DictOp) (most : Nat)
    (bounded : ∀ call, TablesWithin most
      (calls between (((withSeed seed).run before).2, cursor) call).1) :
    (∃ call, call < most ∧
        (calls between (((withSeed seed).run before).2, cursor) (call + 1)).2 = 0) ∧
      ∀ call,
        let (dict, cursor) := calls between (((withSeed seed).run before).2, cursor) call
        (dict.scan cursor).1 = (dict.visits cursor).1.flatMap (visitBucket dict.old) ++
            (dict.visits cursor).2.flatMap (visitBucket (dict.new.getD [])) ∧
          (dict.visits cursor).1.length ≤ 1 ∧ (dict.visits cursor).2.length ≤ 2 := by
  have valid := run_valid (valid_withSeed seed) before
  generalize ((withSeed seed).run before).2 = dict at bounded valid ⊢
  have reached : ∀ call, (calls between (dict, cursor) call).1.Valid :=
    calls_valid between valid
  refine ⟨?_, ?_⟩
  · by_contra none
    have pending : ∀ earlier, earlier < most →
        (calls between (dict, cursor) (earlier + 1)).2 ≠ 0 := by
      intro earlier inside zero
      exact none ⟨earlier, inside, zero⟩
    have climbed : most ≤ rank (calls between (dict, cursor) most).2 /
        2 ^ (64 - cursorBits most) := le_rank_calls valid bounded pending
    have room : rank (calls between (dict, cursor) most).2 / 2 ^ (64 - cursorBits most) <
        2 ^ cursorBits most := by
      have bound := rank_lt (calls between (dict, cursor) most).2
      have fits : cursorBits most ≤ 64 := Nat.min_le_right _ _
      rw [Nat.div_lt_iff_lt_mul (Nat.two_pow_pos _), ← pow_add, Nat.add_sub_cancel' fits]
      exact bound
    have buckets : 2 ^ cursorBits most ≤ most := by
      have some : most ≠ 0 := by
        obtain ⟨bits, power⟩ := valid.old.powerOfTwo
        have within : dict.old.length ≤ most := (bounded 0).1
        have positive : 0 < 2 ^ bits := Nat.two_pow_pos bits
        omega
      exact (Nat.pow_le_pow_right (by omega) (Nat.min_le_left _ _)).trans
        (Nat.pow_log_le_self 2 some)
    omega
  · intro call
    exact ⟨scan_fst _ _, length_visits (reached call) _⟩

theorem calls_idle {between : Nat → List DictOp} {last : Nat}
    (idle : ∀ call, last ≤ call → between call = []) (start : Dict × Cursor) (more : Nat) :
    (calls between start (last + more)).1 = (calls between start last).1 := by
  induction more with
  | zero => rfl
  | succ more induction =>
    rw [← Nat.add_assoc, calls]
    dsimp only
    rw [idle _ (Nat.le_add_right _ _)]
    exact induction

omit [SipHasher] in
/-- Eight keys scanned from a cursor no scan returned; a ninth starts a rehash behind the
first call, a key goes, and behind the second call all are cleared. -/
theorem scan_cycle_ends_rehash :
    let _ : SipHasher := ⟨fun _ _ bytes => (bytes.headD 0).toBitVec.setWidth 64⟩
    let keys : List DictOp := (List.range 8).map fun key => .insert [.ofNat key] ⟨[1], none, 0⟩
    let between : Nat → List DictOp := fun call =>
      ([[.insert [8] ⟨[1], none, 0⟩, .remove [1]], [.clear]][call]?).getD []
    let start := ((withSeed ⟨0, 0⟩).run keys).2
    (calls between (start, 0xdeadbeef) 1).1.isRehashing = true ∧
      ∃ call, call < 16 ∧ (calls between (start, 0xdeadbeef) (call + 1)).2 = 0 := by
  intro hasher keys between start
  have idle : ∀ call, 2 ≤ call → between call = [] := by
    intro call late
    simp only [between]
    rw [List.getElem?_eq_none (by simpa using late)]
    rfl
  have within : ∀ call < 3, (calls between (start, 0xdeadbeef) call).1.old.length ≤ 16 ∧
      (calls between (start, 0xdeadbeef) call).1.new.all (·.length ≤ 16) := by decide +kernel
  have bounded : ∀ call, TablesWithin 16 (calls between (start, 0xdeadbeef) call).1 := by
    have early : ∀ call < 3, TablesWithin 16 (calls between (start, 0xdeadbeef) call).1 := by
      intro call inside
      obtain ⟨old, new⟩ := within call inside
      exact ⟨old, fun table found => by simpa using (Option.all_eq_true _ _).mp new table found⟩
    intro call
    by_cases late : 2 ≤ call
    · obtain ⟨more, rfl⟩ := Nat.exists_eq_add_of_le late
      rw [calls_idle idle]
      exact early 2 (by decide)
    · exact early call (by omega)
  exact ⟨by decide +kernel, (scan_cycle_ends ⟨0, 0⟩ keys 0xdeadbeef between 16 bounded).1⟩

end Dict

end Seedstone
