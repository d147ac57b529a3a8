import Seedstone.Dict.Accounting
import Seedstone.Dict.Cycle

/-!
# A quiet cycle visits each key once

With nothing between its calls, the intervals of a scan cycle's calls follow each
other from `0` to the end of the cycle, so the whole cycle visits every slot once, and
the expiry sweep, which is the same walk in portions, names every due key once.
-/

namespace Seedstone

open ReverseBinary

namespace Dict

variable [SipHasher] {dict : Dict} {bits : Nat} {cursor : Cursor} {budgets : List Nat}

/-- The rest of the cycle, split at the end of the next call. -/
theorem between_call (valid : dict.Valid) (nonempty : dict.len ≠ 0)
    (power : dict.old.length = 2 ^ bits) (aligned : cursor.toNat < 2 ^ bits) {high : Nat}
    (further : reached (dict.scan cursor).2 ≤ high) :
    ((dict.scan cursor).1 ++
        (between (reached (dict.scan cursor).2) high dict.slots).map handed).Perm
      ((between (rank cursor) high dict.slots).map handed) := by
  obtain ⟨-, arrived, visited⟩ := scan_perm valid nonempty power aligned
  have onward : rank cursor ≤ reached (dict.scan cursor).2 := by
    rw [arrived]
    exact Nat.le_add_right _ _
  have joined := (between_perm onward further dict.slots).map handed
  rw [List.map_append] at joined
  exact (visited.append_right _).trans joined

omit [SipHasher] in
theorem reached_le (cursor : Cursor) : reached cursor ≤ 2 ^ 64 := by
  unfold reached
  split
  · exact Nat.le_refl _
  · exact Nat.le_of_lt (rank_lt cursor)

/-- With enough calls left a walk gets to the end, and has handed out the rest once. -/
theorem idleWalk_perm (valid : dict.Valid) (nonempty : dict.len ≠ 0)
    (power : dict.old.length = 2 ^ bits) {calls : Nat} (aligned : cursor.toNat < 2 ^ bits)
    (enough : 2 ^ 64 ≤ rank cursor + calls * 2 ^ (64 - min bits 64)) :
    ∃ visited, dict.idleWalk calls cursor = some visited ∧
      visited.Perm ((between (rank cursor) (2 ^ 64) dict.slots).map Slot.key) := by
  induction calls generalizing cursor with
  | zero =>
    have bound := rank_lt cursor
    omega
  | succ calls induction =>
    obtain ⟨next, arrived, -⟩ := scan_perm valid nonempty power aligned
    have split := (between_call valid nonempty power aligned
      (reached_le (dict.scan cursor).2)).map Prod.fst
    rw [List.map_append, List.map_map, List.map_map] at split
    have unfolded : dict.idleWalk (calls + 1) cursor =
        if (dict.scan cursor).2 = 0 then
          some ((dict.scan cursor).1.map Prod.fst)
        else
          (dict.idleWalk calls (dict.scan cursor).2).map
            (fun rest => (dict.scan cursor).1.map Prod.fst ++ rest) := rfl
    rw [unfolded]
    by_cases ended : (dict.scan cursor).2 = 0
    · rw [if_pos ended]
      have nothing : between (reached (dict.scan cursor).2) (2 ^ 64) dict.slots = [] := by
        unfold between reached
        rw [if_pos ended, List.filter_eq_nil_iff]
        intro slot _
        simp only [Bool.and_eq_true, decide_eq_true_eq]
        omega
      rw [nothing, List.map_nil, List.append_nil] at split
      exact ⟨_, rfl, split⟩
    · have here : reached (dict.scan cursor).2 = rank (dict.scan cursor).2 := if_neg ended
      rw [here] at split arrived
      rw [Nat.succ_mul] at enough
      obtain ⟨rest, walked, perm⟩ := induction next (by omega)
      rw [if_neg ended, walked]
      exact ⟨_, rfl, (perm.append_left _).trans split⟩

/-- The keys among a list of slots that a sweep finds due. -/
def dueKeys (now : Nat) (slots : List Slot) : List Bytes :=
  (slots.filter (fun slot => Deadlines.dueOnSweep slot.entry.expiresAt now)).map Slot.key

omit [SipHasher] in
theorem dueKeys_perm (now : Nat) {first second : List Slot} (perm : first.Perm second) :
    (dueKeys now first).Perm (dueKeys now second) :=
  (perm.filter _).map Slot.key

omit [SipHasher] in
theorem dueKeys_append (now : Nat) (first second : List Slot) :
    dueKeys now (first ++ second) = dueKeys now first ++ dueKeys now second := by
  unfold dueKeys
  rw [List.filter_append, List.map_append]

theorem dueKeys_scan (valid : dict.Valid) (nonempty : dict.len ≠ 0)
    (power : dict.old.length = 2 ^ bits) (aligned : cursor.toNat < 2 ^ bits) (now : Nat) :
    (((dict.scan cursor).1.filter
        (fun item => Deadlines.dueOnSweep item.2.expiresAt now)).map Prod.fst).Perm
      (dueKeys now (between (rank cursor) (reached (dict.scan cursor).2) dict.slots)) := by
  obtain ⟨-, -, visited⟩ := scan_perm valid nonempty power aligned
  have due := (visited.filter
    (fun item => Deadlines.dueOnSweep item.2.expiresAt now)).map Prod.fst
  rw [List.filter_map, List.map_map] at due
  exact due

/-- A portion of the sweep gets an interval further and names the due keys it passed
once. -/
theorem expireLoop_perm (valid : dict.Valid) (nonempty : dict.len ≠ 0)
    (power : dict.old.length = 2 ^ bits) (now budget : Nat) (aligned : cursor.toNat < 2 ^ bits) :
    (dict.expireLoop now (budget + 1) cursor).1.toNat < 2 ^ bits ∧
      rank cursor + 2 ^ (64 - min bits 64) ≤ reached (dict.expireLoop now (budget + 1) cursor).1 ∧
      (dict.expireLoop now (budget + 1) cursor).2.Perm
        (dueKeys now (between (rank cursor)
          (reached (dict.expireLoop now (budget + 1) cursor).1) dict.slots)) := by
  induction budget generalizing cursor with
  | zero =>
    obtain ⟨next, arrived, -⟩ := scan_perm valid nonempty power aligned
    have due := dueKeys_scan valid nonempty power aligned now
    have unfolded : dict.expireLoop now 1 cursor =
        ((dict.scan cursor).2, ((dict.scan cursor).1.filter
          (fun item => Deadlines.dueOnSweep item.2.expiresAt now)).map Prod.fst) := by
      unfold expireLoop
      dsimp only
      split
      · rfl
      · simp [expireLoop]
    rw [unfolded]
    exact ⟨next, Nat.le_of_eq arrived.symm, due⟩
  | succ budget induction =>
    obtain ⟨next, arrived, -⟩ := scan_perm valid nonempty power aligned
    have due := dueKeys_scan valid nonempty power aligned now
    unfold expireLoop
    dsimp only
    split
    · exact ⟨next, Nat.le_of_eq arrived.symm, due⟩
    · next more =>
        have here : reached (dict.scan cursor).2 = rank (dict.scan cursor).2 := if_neg more
        rw [here] at due arrived
        obtain ⟨lastAligned, further, rest⟩ := induction next
        have onward : rank cursor ≤ rank (dict.scan cursor).2 := by
          rw [arrived]
          exact Nat.le_add_right _ _
        have beyond := (Nat.le_add_right _ _).trans further
        have joined := dueKeys_perm now (between_perm onward beyond dict.slots)
        rw [dueKeys_append] at joined
        exact ⟨lastAligned, arrived ▸ beyond, (due.append rest).trans joined⟩

/-- Calls of `expire_step` until `0` comes back, over a dict nothing changes meanwhile.
-/
def expireCycle (dict : Dict) (now : Nat) : List Nat → Cursor → Option (List Bytes)
  | [], _ => none
  | budget :: budgets, cursor =>
    let (next, dead) := dict.expireStep cursor budget now
    if next = 0 then
      some dead
    else
      (expireCycle dict now budgets next).map (fun rest => dead ++ rest)

theorem expireCycle_perm (valid : dict.Valid) (nonempty : dict.len ≠ 0)
    (power : dict.old.length = 2 ^ bits) (flag : dict.mayHoldDeadlines = true) (now : Nat)
    (positive : ∀ budget ∈ budgets, 1 ≤ budget) (aligned : cursor.toNat < 2 ^ bits)
    (enough : 2 ^ 64 ≤ rank cursor + budgets.length * 2 ^ (64 - min bits 64)) :
    ∃ dead, dict.expireCycle now budgets cursor = some dead ∧
      dead.Perm (dueKeys now (between (rank cursor) (2 ^ 64) dict.slots)) := by
  induction budgets generalizing cursor with
  | nil =>
    have bound := rank_lt cursor
    simp only [List.length_nil, Nat.zero_mul, Nat.add_zero] at enough
    omega
  | cons budget budgets induction =>
    obtain ⟨fewer, rfl⟩ : ∃ fewer, budget = fewer + 1 :=
      ⟨budget - 1, by have := positive budget (by simp); omega⟩
    obtain ⟨last, further, named⟩ := expireLoop_perm valid nonempty power now fewer aligned
    have walked : dict.expireStep cursor (fewer + 1) now =
        dict.expireLoop now (fewer + 1) cursor := by
      unfold expireStep
      rw [flag]
      rfl
    have onward := (Nat.le_add_right (rank cursor) _).trans further
    have joined := dueKeys_perm now (between_perm onward
      (reached_le (dict.expireLoop now (fewer + 1) cursor).1) dict.slots)
    rw [dueKeys_append] at joined
    unfold expireCycle
    dsimp only
    rw [walked]
    by_cases ended : (dict.expireLoop now (fewer + 1) cursor).1 = 0
    · have whole : reached (dict.expireLoop now (fewer + 1) cursor).1 = 2 ^ 64 := if_pos ended
      rw [whole] at named
      rw [if_pos ended]
      exact ⟨_, rfl, named⟩
    · have here : reached (dict.expireLoop now (fewer + 1) cursor).1 =
          rank (dict.expireLoop now (fewer + 1) cursor).1 := if_neg ended
      rw [here] at named joined further
      rw [List.length_cons, Nat.succ_mul] at enough
      obtain ⟨rest, cycled, perm⟩ := induction
        (fun other member => positive other (by simp [member])) last (by omega)
      rw [if_neg ended, cycled]
      exact ⟨_, rfl, (named.append perm).trans joined⟩

omit [SipHasher] in
theorem expireCycle_undated (flag : dict.mayHoldDeadlines = false) (now : Nat)
    (given : 0 < budgets.length) : dict.expireCycle now budgets 0 = some [] := by
  cases budgets with
  | nil => simp at given
  | cons budget budgets => simp [expireCycle, expireStep, flag, Deadlines.takesUndated]

omit [SipHasher] in
theorem expireCycle_empty (empty : dict.len = 0) (now : Nat)
    (positive : ∀ budget ∈ budgets, 1 ≤ budget) (given : 0 < budgets.length) :
    dict.expireCycle now budgets 0 = some [] := by
  cases flag : dict.mayHoldDeadlines with
  | false => exact expireCycle_undated flag now given
  | true =>
    cases budgets with
    | nil => simp at given
    | cons budget budgets =>
      obtain ⟨fewer, rfl⟩ : ∃ fewer, budget = fewer + 1 :=
        ⟨budget - 1, by have := positive budget (by simp); omega⟩
      simp [expireCycle, expireStep, expireLoop, flag, scan_empty empty]

omit [SipHasher] in
theorem full_cycle {calls : Nat} (power : dict.old.length = 2 ^ bits)
    (most : dict.old.length ≤ calls) :
    2 ^ 64 ≤ rank (0 : Cursor) + calls * 2 ^ (64 - min bits 64) := by
  have fits : min bits 64 ≤ 64 := Nat.min_le_right _ _
  have smaller : 2 ^ min bits 64 ≤ calls := by
    rw [power] at most
    exact (Nat.pow_le_pow_right (by omega) (Nat.min_le_left _ _)).trans most
  calc
    2 ^ 64 = 2 ^ min bits 64 * 2 ^ (64 - min bits 64) := by
      rw [← pow_add, Nat.add_sub_cancel' fits]
    _ ≤ calls * 2 ^ (64 - min bits 64) := Nat.mul_le_mul_right _ smaller
    _ ≤ rank (0 : Cursor) + calls * 2 ^ (64 - min bits 64) := Nat.le_add_left _ _

theorem count_keys (valid : dict.Valid) (key : Bytes) :
    (dict.slots.map Slot.key).count key = if (dict.get key).isSome then 1 else 0 := by
  rw [valid.distinct.count]
  congr 1
  rw [valid.get_eq_lookup, eq_iff_iff, List.mem_map, Option.isSome_iff_exists]
  constructor
  · rintro ⟨slot, member, rfl⟩
    exact ⟨slot.entry, lookup_of_mem valid.distinct member⟩
  · rintro ⟨entry, found⟩
    obtain ⟨slot, member, same, -⟩ := exists_of_lookup found
    exact ⟨slot, member, same⟩

theorem count_dueKeys (valid : dict.Valid) (now : Nat) (key : Bytes) :
    (dueKeys now dict.slots).count key =
      if (dict.get key).any (fun entry => Deadlines.dueOnSweep entry.expiresAt now) then 1
      else 0 := by
  have distinct : (dueKeys now dict.slots).Nodup :=
    valid.distinct.sublist (List.filter_sublist.map Slot.key)
  rw [distinct.count]
  congr 1
  unfold dueKeys
  rw [valid.get_eq_lookup, eq_iff_iff, List.mem_map, Option.any_eq_true]
  constructor
  · rintro ⟨slot, member, rfl⟩
    obtain ⟨held, due⟩ := List.mem_filter.mp member
    exact ⟨slot.entry, lookup_of_mem valid.distinct held, due⟩
  · rintro ⟨entry, found, due⟩
    obtain ⟨slot, member, same, rfl⟩ := exists_of_lookup found
    exact ⟨slot, List.mem_filter.mpr ⟨member, due⟩, same⟩

/-- Whatever a dict went through, with no change meanwhile: a walk from `0`
comes back to `0` and hands each stored key to its visitor once, and calls of
`expire_step` from `0` with budgets of at least one come back to `0` having
named exactly the due keys, each once. -/
theorem quiet_cycle_exact (seed : DictSeed) (before : List DictOp) :
    let dict := ((withSeed seed).run before).2
    (∃ visited, dict.idleWalk dict.old.length 0 = some visited ∧
        ∀ key, visited.count key = if (dict.get key).isSome then 1 else 0) ∧
      ∀ (now : Nat) (budgets : List Nat), (∀ budget ∈ budgets, 1 ≤ budget) →
        dict.old.length ≤ budgets.length →
        ∃ dead, dict.expireCycle now budgets 0 = some dead ∧
          ∀ key, dead.count key =
            if (dict.get key).any
              (fun entry => Deadlines.dueOnSweep entry.expiresAt now) then 1 else 0 := by
  intro dict
  have sound : dict.Sound := ((accounted_withSeed seed).run before).toSound
  have valid := sound.toValid
  obtain ⟨bits, power⟩ := valid.old.powerOfTwo
  have aligned : (0 : Cursor).toNat < 2 ^ bits := Nat.two_pow_pos bits
  have start : between (rank (0 : Cursor)) (2 ^ 64) dict.slots = dict.slots := by
    rw [(rank_eq_zero_iff _).mpr rfl, between_whole]
  have given : ∀ budgets : List Nat, dict.old.length ≤ budgets.length →
      0 < budgets.length := by
    intro budgets enough
    have some := Nat.two_pow_pos bits
    omega
  by_cases empty : dict.len = 0
  · have nothing := valid.get_eq_none_of_len empty
    refine ⟨⟨[], ?_, fun key => by simp [nothing]⟩, ?_⟩
    · obtain ⟨fewer, more⟩ : ∃ fewer, dict.old.length = fewer + 1 :=
        ⟨dict.old.length - 1, by have := Nat.two_pow_pos bits; omega⟩
      have ended : dict.scanInOrder 0 reverseBinary = ([], 0) := scan_empty empty 0
      rw [more, idleWalk, ended]
      rfl
    · intro now budgets least enough
      exact ⟨[], expireCycle_empty empty now least (given budgets enough),
        fun key => by simp [nothing]⟩
  · refine ⟨?_, ?_⟩
    · obtain ⟨visited, walked, perm⟩ := idleWalk_perm valid empty power aligned
        (full_cycle power (Nat.le_refl _))
      rw [start] at perm
      exact ⟨visited, walked, fun key => (perm.count_eq key).trans (count_keys valid key)⟩
    · intro now budgets least enough
      cases flag : dict.mayHoldDeadlines with
      | false =>
        refine ⟨[], expireCycle_undated flag now (given budgets enough), ?_⟩
        intro key
        have undue : (dict.get key).any
            (fun entry => Deadlines.dueOnSweep entry.expiresAt now) = false := by
          rw [Option.any_eq_false]
          intro entry found
          simp [Deadlines.dueOnSweep, sound.flagged flag key entry found]
        simp [undue]
      | true =>
        obtain ⟨dead, cycled, perm⟩ := expireCycle_perm valid empty power flag now least
          aligned (full_cycle power enough)
        rw [start] at perm
        exact ⟨dead, cycled,
          fun key => (perm.count_eq key).trans (count_dueKeys valid now key)⟩

omit [SipHasher] in
/-- Nine keys, so that a migration is under way, one of them due at `7`, swept
two buckets at a time. -/
theorem quiet_cycle_exact_migrating :
    let _ : SipHasher := ⟨fun _ _ key => BitVec.ofNat 64 (key.headD 0).toNat⟩
    let ops : List DictOp := DictOp.insert [9] ⟨[1], some 5, 0⟩ ::
      (List.range 8).map (fun key => .insert [key.toUInt8] ⟨[1], none, 0⟩)
    let dict := ((withSeed ⟨0, 0⟩).run ops).2
    dict.isRehashing = true ∧
      ∃ dead, dict.expireCycle 7 (List.replicate 8 2) 0 = some dead ∧
        dead.count [9] = 1 ∧ dead.count [3] = 0 := by
  intro hasher ops dict
  have due : (dict.get [9]).any
      (fun entry => Deadlines.dueOnSweep entry.expiresAt 7) = true := by decide +kernel
  have undue : (dict.get [3]).any
      (fun entry => Deadlines.dueOnSweep entry.expiresAt 7) = false := by decide +kernel
  have enough : dict.old.length ≤ (List.replicate 8 2).length := by decide +kernel
  obtain ⟨dead, cycled, counted⟩ := (quiet_cycle_exact ⟨0, 0⟩ ops).2 7
    (List.replicate 8 2) (by decide) enough
  refine ⟨by decide +kernel, dead, cycled, ?_, ?_⟩
  · exact (counted [9]).trans (if_pos due)
  · exact (counted [3]).trans (by rw [undue]; rfl)

end Dict

end Seedstone
