import Mathlib.Data.List.Basic
import Mathlib.Logic.Function.Iterate

/-!
# Wildcard patterns and one remembered star

A pattern is a list of pieces, each of which takes one symbol or any run of
them.  `Search` is the iterative matcher that remembers only the last run it met
and, at a mismatch, gives that run one symbol more.  What an earlier run could
still have done is not lost: between two runs a pattern takes a fixed number of
symbols, so a match that moves an earlier run is also one that moves the later.
-/

namespace Seedstone

namespace Wildcard

inductive Piece (α : Type) where
  | run
  | one (accepts : α → Bool)

variable {α : Type}

inductive Matches : List (Piece α) → List α → Prop where
  | nil : Matches [] []
  | run {pattern : List (Piece α)} {subject : List α} (skipped : List α)
      (behind : Matches pattern subject) : Matches (.run :: pattern) (skipped ++ subject)
  | one {accepts : α → Bool} {symbol : α} {pattern : List (Piece α)} {subject : List α}
      (accepted : accepts symbol = true) (behind : Matches pattern subject) :
      Matches (.one accepts :: pattern) (symbol :: subject)

theorem matches_run {pattern : List (Piece α)} {subject : List α} :
    Matches (.run :: pattern) subject ↔
      ∃ skipped rest, subject = skipped ++ rest ∧ Matches pattern rest := by
  constructor
  · intro found
    cases found with
    | run skipped behind => exact ⟨skipped, _, rfl, behind⟩
  · rintro ⟨skipped, rest, rfl, behind⟩
    exact .run skipped behind

theorem matches_one {accepts : α → Bool} {pattern : List (Piece α)} {symbol : α}
    {subject : List α} :
    Matches (.one accepts :: pattern) (symbol :: subject) ↔
      accepts symbol = true ∧ Matches pattern subject := by
  constructor
  · intro found
    cases found with
    | one accepted behind => exact ⟨accepted, behind⟩
  · rintro ⟨accepted, behind⟩
    exact .one accepted behind

theorem matches_ones (ones : List (α → Bool)) {pattern : List (Piece α)} {subject : List α}
    (found : Matches (ones.map .one ++ pattern) subject) :
    ∃ taken rest, subject = taken ++ rest ∧ taken.length = ones.length ∧
      Matches pattern rest := by
  induction ones generalizing subject with
  | nil => exact ⟨[], subject, rfl, rfl, found⟩
  | cons accepts ones induction =>
    cases found with
    | one accepted behind =>
      obtain ⟨taken, rest, rfl, length, behind⟩ := induction behind
      exact ⟨_ :: taken, rest, rfl, by simp [length], behind⟩

def isRun : Piece α → Bool
  | .run => true
  | .one _ => false

theorem matches_nil {pattern : List (Piece α)} : Matches pattern [] ↔ pattern.all isRun = true := by
  induction pattern with
  | nil => simp [Matches.nil]
  | cons piece pattern induction =>
    cases piece with
    | run =>
      rw [matches_run, List.all_cons, isRun, Bool.true_and, ← induction]
      constructor
      · rintro ⟨skipped, rest, nothing, behind⟩
        rwa [(List.append_eq_nil_iff.mp nothing.symm).2] at behind
      · intro behind
        exact ⟨[], [], rfl, behind⟩
    | one accepts =>
      simp only [List.all_cons, isRun, Bool.false_and, Bool.false_eq_true, iff_false]
      nofun

/-- What is left of the pattern and the subject, and both as they stood behind
the last run when it was given what it has. -/
structure Search (α : Type) where
  pattern : List (Piece α)
  subject : List α
  star : Option (List (Piece α) × List α)

namespace Search

def back (search : Search α) : Option (Search α) :=
  match search.star with
  | some (pattern, _ :: subject) => some ⟨pattern, subject, some (pattern, subject)⟩
  | _ => none

/-- One step; none where the subject is spent and where nothing can match. -/
def step (search : Search α) : Option (Search α) :=
  match search.subject, search.pattern with
  | [], _ => none
  | symbol :: subject, .run :: pattern =>
    some ⟨pattern, symbol :: subject, some (pattern, symbol :: subject)⟩
  | symbol :: subject, .one accepts :: pattern =>
    if accepts symbol then some ⟨pattern, subject, search.star⟩ else search.back
  | _ :: _, [] => search.back

def loop : Nat → Search α → Bool
  | 0, _ => false
  | steps + 1, search =>
    match search.subject with
    | [] => search.pattern.all isRun
    | _ :: _ =>
      match search.step with
      | none => false
      | some next => loop steps next

/-- Since the last run only pieces of one symbol were matched. -/
structure Sound (size : Nat) (search : Search α) : Prop where
  bounded : search.pattern.length ≤ size
  since : ∀ pattern subject, search.star = some (pattern, subject) →
    pattern.length ≤ size ∧ ∃ (ones : List (α → Bool)) (taken : List α),
      pattern = ones.map .one ++ search.pattern ∧
      subject = taken ++ search.subject ∧ taken.length = ones.length

/-- The search can still succeed: from where it stands, or with more for the run. -/
def Viable (search : Search α) : Prop :=
  Matches search.pattern search.subject ∨
    ∃ pattern symbol skipped rest, search.star = some (pattern, symbol :: (skipped ++ rest)) ∧
      Matches pattern rest

/-- An upper bound on the steps that are left. -/
def effort (size : Nat) (search : Search α) : Nat :=
  (match search.star with
    | none => search.subject.length + 1
    | some (_, subject) => subject.length) * (size + 1) + search.pattern.length

variable {size : Nat} {search next : Search α}

/-- What a step of a sound search comes to. -/
structure Steps (size : Nat) (search : Search α) (outcome : Option (Search α)) : Prop where
  stuck : outcome = none → ¬search.Viable
  moves : ∀ next, outcome = some next →
    next.Sound size ∧ (search.Viable ↔ next.Viable) ∧ next.effort size < search.effort size

theorem Sound.back (sound : search.Sound size)
    (fails : ¬Matches search.pattern search.subject) : Steps size search search.back := by
  unfold Search.back
  split
  · next pattern symbol subject star =>
    obtain ⟨bounded, _⟩ := sound.since _ _ star
    refine ⟨by simp, ?_⟩
    rintro next ⟨rfl⟩
    refine ⟨⟨bounded, ?_⟩, ?_, ?_⟩
    · rintro _ _ ⟨rfl, rfl⟩
      exact ⟨bounded, [], [], rfl, rfl, rfl⟩
    · constructor
      · rintro (found | ⟨pattern', symbol', skipped, rest, star', found⟩)
        · exact absurd found fails
        · rw [star] at star'
          simp only [Option.some.injEq, Prod.mk.injEq, List.cons.injEq] at star'
          obtain ⟨rfl, rfl, rfl⟩ := star'
          cases skipped with
          | nil => exact .inl found
          | cons first skipped => exact .inr ⟨_, first, skipped, rest, rfl, found⟩
      · rintro (found | ⟨pattern', symbol', skipped, rest, star', found⟩)
        · exact .inr ⟨pattern, symbol, [], subject, star, found⟩
        · simp only [Option.some.injEq, Prod.mk.injEq] at star'
          obtain ⟨rfl, rfl⟩ := star'
          exact .inr ⟨_, symbol, symbol' :: skipped, rest, star, found⟩
    · simp only [effort, star, List.length_cons]
      rw [Nat.add_mul]
      omega
  · next unstarred =>
    refine ⟨fun _ => ?_, by simp⟩
    rintro (found | ⟨pattern, symbol, skipped, rest, star, _⟩)
    · exact fails found
    · exact unstarred _ _ _ star

theorem Sound.step (sound : search.Sound size) (filled : search.subject ≠ []) :
    Steps size search search.step := by
  unfold Search.step
  split
  · next empty => exact absurd empty filled
  · next symbol subject pattern subjectEq patternEq =>
    refine ⟨by simp, ?_⟩
    rintro next ⟨rfl⟩
    have bounded : pattern.length + 1 ≤ size := by
      simpa [patternEq] using sound.bounded
    have fits : pattern.length ≤ size := by omega
    refine ⟨⟨fits, ?_⟩, ?_, ?_⟩
    · rintro _ _ ⟨rfl, rfl⟩
      exact ⟨fits, [], [], rfl, rfl, rfl⟩
    · have here : Matches search.pattern search.subject ↔
          Viable ⟨pattern, symbol :: subject, some (pattern, symbol :: subject)⟩ := by
        rw [patternEq, subjectEq, matches_run]
        constructor
        · rintro ⟨skipped, rest, whole, found⟩
          cases skipped with
          | nil =>
            rw [List.nil_append] at whole
            exact .inl (whole ▸ found)
          | cons first skipped =>
            rw [List.cons_append] at whole
            exact .inr ⟨pattern, first, skipped, rest, by rw [whole], found⟩
        · rintro (found | ⟨_, first, skipped, rest, star, found⟩)
          · exact ⟨[], _, rfl, found⟩
          · simp only [Option.some.injEq, Prod.mk.injEq] at star
            obtain ⟨rfl, whole⟩ := star
            exact ⟨first :: skipped, rest, whole, found⟩
      constructor
      · rintro (found | ⟨pattern', first, skipped, rest, star, found⟩)
        · exact here.mp found
        · -- The earlier run takes more; the pieces up to this run take as many as before.
          obtain ⟨_, ones, taken, rfl, whole, length⟩ := sound.since _ _ star
          obtain ⟨others, behind, rfl, same, found⟩ := matches_ones ones found
          rw [patternEq, matches_run] at found
          obtain ⟨more, last, rfl, reached⟩ := found
          refine here.mp ?_
          rw [patternEq, matches_run]
          have suffix : taken ++ search.subject = (first :: skipped ++ others ++ more) ++ last := by
            rw [← whole]
            simp
          have short : taken.length ≤ (first :: skipped ++ others ++ more).length := by
            simp only [List.length_append, List.length_cons]
            omega
          refine ⟨(first :: skipped ++ others ++ more).drop taken.length, last, ?_, reached⟩
          have dropped := congrArg (List.drop taken.length) suffix
          rwa [List.drop_left, List.drop_append_of_le_length short] at dropped
      · intro viable
        exact .inl (here.mpr viable)
    · simp only [effort, patternEq, subjectEq, List.length_cons]
      cases star : search.star with
      | none =>
        simp only [Nat.add_mul]
        omega
      | some held =>
        obtain ⟨pattern', subject'⟩ := held
        obtain ⟨_, ones, taken, _, whole, _⟩ := sound.since _ _ star
        have longer : subject.length + 1 ≤ subject'.length := by
          rw [whole, subjectEq]
          simp
        have scaled := Nat.mul_le_mul_right (size + 1) longer
        dsimp only
        omega
  · next symbol subject accepts pattern subjectEq patternEq =>
    split
    · next accepted =>
      refine ⟨by simp, ?_⟩
      rintro next ⟨rfl⟩
      have bounded : pattern.length + 1 ≤ size := by
        simpa [patternEq] using sound.bounded
      have fits : pattern.length ≤ size := by omega
      refine ⟨⟨fits, ?_⟩, ?_, ?_⟩
      · intro pattern' subject' star
        obtain ⟨held, ones, taken, rfl, rfl, length⟩ := sound.since _ _ star
        refine ⟨held, ones ++ [accepts], taken ++ [symbol], ?_, ?_, by simp [length]⟩
        · simp [patternEq]
        · simp [subjectEq]
      · unfold Viable
        rw [patternEq, subjectEq, matches_one, and_iff_right accepted]
      · simp only [effort, patternEq, subjectEq, List.length_cons]
        cases search.star with
        | none =>
          simp only [Nat.add_mul]
          omega
        | some held => simp
    · next refused =>
      refine sound.back ?_
      rw [patternEq, subjectEq, matches_one]
      exact fun found => refused found.1
  · next symbol subject subjectEq patternEq =>
    refine sound.back ?_
    rw [patternEq, subjectEq]
    nofun

theorem Sound.loop (steps : Nat) :
    ∀ {search : Search α}, search.Sound size → search.effort size < steps →
      (search.loop steps = true ↔ search.Viable) := by
  induction steps with
  | zero =>
    intro search _ short
    omega
  | succ steps induction =>
    intro search sound enough
    unfold Search.loop
    split
    · next spent =>
      rw [← matches_nil]
      constructor
      · intro found
        exact .inl (spent ▸ found)
      · rintro (found | ⟨pattern, symbol, skipped, rest, star, found⟩)
        · rwa [spent] at found
        · -- With nothing left, the run cannot take more: the pieces behind it lack symbols.
          obtain ⟨_, ones, taken, rfl, whole, length⟩ := sound.since _ _ star
          obtain ⟨others, behind, rfl, same, _⟩ := matches_ones ones found
          have counted := congrArg List.length whole
          rw [spent] at counted
          simp only [List.length_append, List.length_cons, List.length_nil] at counted
          omega
    · next symbol subject more =>
      have filled : search.subject ≠ [] := by
        rw [more]
        simp
      have stepped := sound.step filled
      cases outcome : search.step with
      | none => simpa using stepped.stuck outcome
      | some next =>
        obtain ⟨kept, same, less⟩ := stepped.moves next outcome
        rw [same]
        exact induction kept (by omega)

theorem Sound.ends (bound : Nat) :
    ∀ {search : Search α}, search.Sound size → search.effort size < bound →
      ∃ steps ≤ bound, (fun search => search.bind Search.step)^[steps] (some search) = none := by
  induction bound with
  | zero =>
    intro search _ short
    omega
  | succ bound induction =>
    intro search sound enough
    cases outcome : search.step with
    | none => exact ⟨1, by omega, outcome⟩
    | some next =>
      have filled : search.subject ≠ [] := by
        intro spent
        unfold Search.step at outcome
        rw [spent] at outcome
        cases outcome
      obtain ⟨kept, _, less⟩ := (sound.step filled).moves next outcome
      obtain ⟨steps, within, overrun⟩ := induction kept (by omega)
      refine ⟨steps + 1, by omega, ?_⟩
      rw [Function.iterate_succ_apply, Option.bind_some, outcome]
      exact overrun

/-- A search from the start. -/
def start (pattern : List (Piece α)) (subject : List α) : Search α :=
  ⟨pattern, subject, none⟩

theorem sound_start (pattern : List (Piece α)) (subject : List α)
    (fits : pattern.length ≤ size) : (start pattern subject).Sound size :=
  ⟨fits, nofun⟩

theorem viable_start (pattern : List (Piece α)) (subject : List α) :
    (start pattern subject).Viable ↔ Matches pattern subject := by
  unfold Viable start
  simp

end Search

end Wildcard

end Seedstone
