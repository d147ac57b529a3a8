import Mathlib.Data.List.Basic

/-!
# Runs that can fail

What the success of a sequence of steps in `Except` says of each of them.
-/

namespace Seedstone

namespace Fallible

variable {ε α β : Type} {inputs : List α}

theorem exists_of_bind_eq_ok {first : Except ε α} {next : α → Except ε β} {result : β}
    (succeeds : (first >>= next) = .ok result) :
    ∃ value, first = .ok value ∧ next value = .ok result := by
  cases first with
  | error error => cases succeeds
  | ok value => exact ⟨value, rfl, succeeds⟩

theorem mem_of_mapM_eq_ok {step : α → Except ε β} {results : List β}
    (succeeds : inputs.mapM step = .ok results) (result : β) :
    result ∈ results ↔ ∃ input ∈ inputs, step input = .ok result := by
  induction inputs generalizing results with
  | nil =>
    cases succeeds
    simp
  | cons input rest induction =>
    rw [List.mapM_cons] at succeeds
    obtain ⟨first, here, remaining⟩ := exists_of_bind_eq_ok succeeds
    obtain ⟨others, later, done⟩ := exists_of_bind_eq_ok remaining
    cases done
    rw [List.mem_cons, induction later, List.exists_mem_cons_iff, here, Except.ok.injEq, eq_comm]

theorem exists_mapM_eq_ok {step : α → Except ε β}
    (each : ∀ input ∈ inputs, ∃ result, step input = .ok result) :
    ∃ results, inputs.mapM step = .ok results := by
  induction inputs with
  | nil => exact ⟨[], rfl⟩
  | cons input rest induction =>
    obtain ⟨first, here⟩ := each input (by simp)
    obtain ⟨others, later⟩ := induction fun other member => each other (by simp [member])
    refine ⟨first :: others, ?_⟩
    rw [List.mapM_cons, here, later]
    rfl

theorem exists_foldlM_eq_ok {step : β → α → Except ε β}
    (each : ∀ input ∈ inputs, ∀ state, ∃ next, step state input = .ok next) (state : β) :
    ∃ last, inputs.foldlM step state = .ok last := by
  induction inputs generalizing state with
  | nil => exact ⟨state, rfl⟩
  | cons input rest induction =>
    obtain ⟨next, here⟩ := each input (by simp) state
    obtain ⟨last, later⟩ := induction (fun other member => each other (by simp [member])) next
    refine ⟨last, ?_⟩
    rw [List.foldlM_cons, here]
    exact later

section Steps

variable {κ : Type} {kind : α → κ} {step : β → α → Except ε β}
  (commutes : ∀ state first second, kind first ≠ kind second →
    (step state first >>= (step · second)) = (step state second >>= (step · first)))

include commutes

/-- A step may be taken later, behind steps of other kinds. -/
theorem foldlM_cons_append {first : α} {others : List α}
    (differ : ∀ other ∈ others, kind other ≠ kind first) (rest : List α) (state : β) :
    (first :: (others ++ rest)).foldlM step state =
      (others ++ first :: rest).foldlM step state := by
  induction others generalizing state with
  | nil => rfl
  | cons other others induction =>
    have swap := commutes state first other (differ other List.mem_cons_self).symm
    have later := induction fun next member => differ next (List.mem_cons_of_mem _ member)
    simp only [List.cons_append, List.foldlM_cons] at later ⊢
    rw [← bind_assoc, swap, bind_assoc, funext later]

variable [DecidableEq κ]

/-- What a run comes to depends on the order among the steps of each kind only. -/
theorem foldlM_eq_of_filter_eq {one two : List α}
    (same : ∀ among, one.filter (kind · = among) = two.filter (kind · = among)) (state : β) :
    one.foldlM step state = two.foldlM step state := by
  induction one generalizing two state with
  | nil =>
    have empty : two = [] := by
      cases two with
      | nil => rfl
      | cons first rest => simpa using same (kind first)
    rw [empty]
  | cons first rest induction =>
    obtain ⟨before, after, rfl, differ, -, -⟩ := List.filter_eq_cons_iff.1
      ((same (kind first)).symm.trans (List.filter_cons_of_pos (by simp)))
    have shorter : ∀ state, rest.foldlM step state = (before ++ after).foldlM step state :=
      induction fun among => by
        have equal := same among
        by_cases own : kind first = among
        · subst own
          have dropped : before.filter (kind · = kind first) = [] := by simpa using differ
          simpa [dropped] using equal
        · simpa [own] using equal
    rw [List.foldlM_cons, funext shorter]
    exact foldlM_cons_append commutes (by simpa using differ) after state

/-- Where steps of one kind overwrite each other, only the last of them counts. -/
theorem foldlM_cons_of_later
    (absorbs : ∀ state first second, kind first = kind second →
      (step state first >>= (step · second)) = step state second)
    {first : α} {rest : List α} (later : ∃ other ∈ rest, kind other = kind first) (state : β) :
    (first :: rest).foldlM step state = rest.foldlM step state := by
  induction rest generalizing state with
  | nil => simp at later
  | cons next rest induction =>
    by_cases own : kind first = kind next
    · simp only [List.foldlM_cons]
      rw [← bind_assoc, absorbs state first next own]
    · have further := induction (by simpa [Ne.symm own] using later)
      simp only [List.foldlM_cons] at further ⊢
      rw [← bind_assoc, commutes state first next own, bind_assoc, funext further]

end Steps
end Fallible

end Seedstone
