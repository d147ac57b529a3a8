import Seedstone.Library.StableSort
import Seedstone.Recovery.Recover

/-!
# The gapless prefix

What `prefix` finds, in terms of the live records alone: at each number from the
base on the first record of the newest generation, up to the first number that has
none, and the records above that one.
-/

namespace Seedstone

namespace Recovery

variable {logged : Logged}

instance : Std.Refl Logged.NotAfter :=
  ⟨fun _ => Or.inr ⟨rfl, Nat.le_refl _⟩⟩

instance : Std.Total Logged.NotAfter :=
  ⟨fun first second => by
    unfold Logged.NotAfter
    omega⟩

instance : IsTrans Logged Logged.NotAfter :=
  ⟨fun first second third one two => by
    unfold Logged.NotAfter at *
    omega⟩

/-- The records at one number. -/
def numbered (records : List Logged) (number : Nat) : List Logged :=
  records.filter fun logged => logged.seq = number

/-- The records above a number. -/
def above (records : List Logged) (number : Nat) : List Logged :=
  records.filter fun logged => number < logged.seq

/-- The record of the newest generation, the first read where one was written twice. -/
structure IsNewest (records : List Logged) (logged : Logged) : Prop where
  newest : ∀ other ∈ records, other.generation ≤ logged.generation
  first : records.find? (fun other => other.generation = logged.generation) = some logged

/-- The records a replay from `start` applies: the newest at each number, up to the
first number that has none. -/
structure Gapless (records : List Logged) (start : Nat) (applied : List Logged) : Prop where
  each : ∀ index (inside : index < applied.length),
    IsNewest (numbered records (start + index)) applied[index]
  missing : numbered records (start + applied.length) = []

/-- What the loop over sorted records comes to from the number `expected` on. -/
structure Walked (records : List Logged) (found : Prefix) (applied : List Logged)
    (after : Prefix) : Prop where
  taken : after.records = found.records ++ applied.map fun logged => (logged.seq, logged.effect)
  each : ∀ index (inside : index < applied.length),
    (numbered records (found.expected + index)).head? = some applied[index]
  missing : numbered records (found.expected + applied.length) = []
  discarded : after.discarded = (above records (found.expected + applied.length)).length

theorem numbered_cons_of_ne {records : List Logged} {number : Nat} (other : logged.seq ≠ number) :
    numbered (logged :: records) number = numbered records number :=
  List.filter_cons_of_neg (by simpa using other)

theorem numbered_cons_self (logged : Logged) (records : List Logged) :
    numbered (logged :: records) logged.seq = logged :: numbered records logged.seq :=
  List.filter_cons_of_pos (by simp)

theorem above_cons_of_le {records : List Logged} {number : Nat}
    (below : logged.seq ≤ number) : above (logged :: records) number = above records number :=
  List.filter_cons_of_neg (by simpa using below)

theorem foldl_take_discarded (records : List Logged) {found : Prefix} (gap : 0 < found.discarded) :
    records.foldl Prefix.take found =
      { found with
        discarded := found.discarded + records.length
        kept := (records.map Logged.file).reverse ++ found.kept } := by
  induction records generalizing found with
  | nil => rfl
  | cons logged rest induction =>
    have step : found.take logged =
        { found with discarded := found.discarded + 1, kept := logged.file :: found.kept } :=
      if_pos (Or.inl gap)
    rw [List.foldl_cons, step, induction (Nat.succ_pos _)]
    simp only [List.length_cons, List.map_cons, List.reverse_cons, List.append_assoc,
      List.singleton_append, Prefix.mk.injEq, true_and, and_true]
    omega

theorem foldl_take (records : List Logged)
    (sorted : records.Pairwise fun first second => first.seq ≤ second.seq) :
    ∀ {found : Prefix}, found.discarded = 0 →
      ∃ applied, Walked records found applied (records.foldl Prefix.take found) := by
  induction records with
  | nil =>
    intro found whole
    exact ⟨[], by simp, by simp, rfl, whole⟩
  | cons logged rest induction =>
    intro found whole
    have later : ∀ other ∈ rest, logged.seq ≤ other.seq := fun other member =>
      List.rel_of_pairwise_cons sorted member
    rw [List.foldl_cons]
    rcases Nat.lt_trichotomy found.expected logged.seq with gap | next | duplicate
    · -- the first record past a gap
      have all : above (logged :: rest) found.expected = logged :: rest := by
        apply List.filter_eq_self.mpr
        intro other member
        rcases List.mem_cons.mp member with rfl | member
        · exact decide_eq_true gap
        · exact decide_eq_true (Nat.lt_of_lt_of_le gap (later other member))
      have none : numbered (logged :: rest) found.expected = [] := by
        apply List.filter_eq_nil_iff.mpr
        intro other member same
        have number : other.seq = found.expected := of_decide_eq_true same
        rcases List.mem_cons.mp member with rfl | member
        · omega
        · have := later other member
          omega
      have step : found.take logged =
          { found with discarded := found.discarded + 1, kept := logged.file :: found.kept } :=
        if_pos (Or.inr gap)
      refine ⟨[], ?_⟩
      rw [step, foldl_take_discarded rest (Nat.succ_pos _)]
      refine ⟨by simp, by simp, none, ?_⟩
      dsimp only [List.length_nil, Nat.add_zero]
      rw [all, whole, List.length_cons]
      omega
    · -- the record expected
      have step : found.take logged =
          { found with
            records := found.records ++ [(logged.seq, logged.effect)]
            expected := found.expected + 1
            kept := logged.file :: found.kept } := by
        unfold Prefix.take
        rw [if_neg (by omega), if_pos next.symm]
      rw [step]
      obtain ⟨applied, walked⟩ := @induction sorted.of_cons
        ⟨found.records ++ [(logged.seq, logged.effect)], found.expected + 1, found.discarded,
          logged.file :: found.kept⟩ whole
      have shift : ∀ index, found.expected + 1 + index = found.expected + (index + 1) := by
        omega
      refine ⟨logged :: applied, ?_, ?_, ?_, ?_⟩
      · rw [walked.taken, List.map_cons, List.append_assoc]
        rfl
      · intro index inside
        cases index with
        | zero =>
          rw [Nat.add_zero, next, numbered_cons_self]
          rfl
        | succ index =>
          have each := walked.each index (Nat.lt_of_succ_lt_succ inside)
          rw [shift] at each
          have other : logged.seq ≠ found.expected + (index + 1) := by omega
          rw [numbered_cons_of_ne other]
          exact each
      · have missing := walked.missing
        have other : logged.seq ≠ found.expected + (applied.length + 1) := by omega
        rw [shift] at missing
        rw [List.length_cons, numbered_cons_of_ne other]
        exact missing
      · have discarded := walked.discarded
        have below : logged.seq ≤ found.expected + (applied.length + 1) := by omega
        rw [shift] at discarded
        rw [List.length_cons, above_cons_of_le below]
        exact discarded
    · -- a duplicate
      have step : found.take logged = found := by
        unfold Prefix.take
        rw [if_neg (by omega), if_neg (by omega)]
      rw [step]
      have other : ∀ index, logged.seq ≠ found.expected + index := by omega
      have below : ∀ index, logged.seq ≤ found.expected + index := by omega
      obtain ⟨applied, walked⟩ := induction sorted.of_cons whole
      refine ⟨applied, walked.taken, ?_, ?_, ?_⟩
      · intro index inside
        rw [numbered_cons_of_ne (other index)]
        exact walked.each index inside
      · rw [numbered_cons_of_ne (other _)]
        exact walked.missing
      · rw [above_cons_of_le (below _)]
        exact walked.discarded

section

variable {live : List Logged} {number : Nat}

theorem isNewest_of_head
    (head : (numbered (live.insertionSort Logged.NotAfter) number).head? = some logged) :
    IsNewest (numbered live number) logged := by
  have here : logged.seq = number := by
    have member : logged ∈ numbered (live.insertionSort Logged.NotAfter) number :=
      List.mem_of_head? head
    exact of_decide_eq_true (List.mem_filter.mp member).2
  constructor
  · intro other member
    obtain ⟨inside, there⟩ := List.mem_filter.mp member
    have same : other.seq = number := of_decide_eq_true there
    rcases StableSort.head_before head inside there with less | ⟨_, older⟩
    · omega
    · exact older
  · -- records of one number and one generation keep their order
    have stable : (numbered (live.insertionSort Logged.NotAfter) number).filter
          (fun other => other.generation = logged.generation) =
        (numbered live number).filter fun other => other.generation = logged.generation := by
      unfold numbered
      rw [List.filter_filter, List.filter_filter]
      apply StableSort.filter_insertionSort
      intro first second one two
      simp only [Bool.and_eq_true, decide_eq_true_eq] at one two
      exact Or.inr ⟨one.2.trans two.2.symm, (two.1.trans one.1.symm).le⟩
    rw [← List.head?_filter, ← stable, List.head?_filter]
    cases shape : numbered (live.insertionSort Logged.NotAfter) number with
    | nil =>
      rw [shape] at head
      cases head
    | cons first rest =>
      rw [shape] at head
      cases head
      exact List.find?_cons_of_pos (decide_eq_true rfl)

theorem numbered_eq_nil_of_sorted (none :
    numbered (live.insertionSort Logged.NotAfter) number = []) :
    numbered live number = [] := by
  have same := (List.perm_insertionSort Logged.NotAfter live).filter
    fun logged => decide (logged.seq = number)
  exact List.nil_perm.mp (none ▸ same)

end

/-- What `prefix` finds in a bucket. -/
structure PrefixOf (live : List Logged) (start : Nat) (applied : List Logged) (found : Prefix) :
    Prop where
  gapless : Gapless live start applied
  records : found.records = applied.map fun logged => (logged.seq, logged.effect)
  discarded : found.discarded = (above live (start + applied.length)).length

theorem gaplessPrefix_spec (bucket : List Logged) (rebases : List (Nat × Nat)) (start : Nat) :
    ∃ applied, PrefixOf (bucket.filter (isLive rebases start)) start applied
      (gaplessPrefix bucket rebases start) := by
  have ordered := List.pairwise_insertionSort Logged.NotAfter (bucket.filter (isLive rebases start))
  have sorted : ((bucket.filter (isLive rebases start)).insertionSort Logged.NotAfter).Pairwise
      fun first second => first.seq ≤ second.seq :=
    ordered.imp fun {first second} notAfter => by
      unfold Logged.NotAfter at notAfter
      omega
  obtain ⟨applied, walked⟩ := @foldl_take _ sorted ⟨[], start, 0,
    (bucket.filter fun logged => logged.effect = .rebase).map Logged.file⟩ rfl
  have counted := (List.perm_insertionSort Logged.NotAfter
    (bucket.filter (isLive rebases start))).filter
      fun logged => decide (start + applied.length < logged.seq)
  refine ⟨applied, ⟨fun index inside => isNewest_of_head (walked.each index inside),
    numbered_eq_nil_of_sorted walked.missing⟩, walked.taken, ?_⟩
  exact walked.discarded.trans counted.length_eq

end Recovery

end Seedstone
