import Mathlib.Data.List.Basic

/-!
# Runs of a deterministic machine

A machine takes one input at a time, answers each with an output, and moves to
a new state.  Two rules carry facts about one step to whole runs: an invariant
that every step keeps holds at the end of a run, and a relation that every step
of two machines keeps, with equal outputs, makes their runs answer alike.
-/

namespace Machine

variable {State Other Input Output : Type*}

/-- The outputs of a run, in order, and the state it ends in. -/
def run (step : State → Input → Output × State) :
    State → List Input → List Output × State
  | state, [] => ([], state)
  | state, input :: rest =>
    let (output, next) := step state input
    let (outputs, last) := run step next rest
    (output :: outputs, last)

theorem run_invariant {step : State → Input → Output × State} {invariant : State → Prop}
    (kept : ∀ state input, invariant state → invariant (step state input).2)
    {state : State} (holds : invariant state) (inputs : List Input) :
    invariant (run step state inputs).2 := by
  induction inputs generalizing state with
  | nil => exact holds
  | cons input rest induction => exact induction (kept state input holds)

theorem run_append (step : State → Input → Output × State) (state : State)
    (first second : List Input) :
    (run step state (first ++ second)).2 = (run step (run step state first).2 second).2 := by
  induction first generalizing state with
  | nil => rfl
  | cons input rest induction => exact induction (step state input).2

/-- The run rule of a lockstep simulation. -/
theorem run_simulation {step : State → Input → Output × State}
    {other : Other → Input → Output × Other} {related : State → Other → Prop}
    (kept : ∀ state image input, related state image →
      (step state input).1 = (other image input).1 ∧
        related (step state input).2 (other image input).2)
    {state : State} {image : Other} (holds : related state image) (inputs : List Input) :
    (run step state inputs).1 = (run other image inputs).1 ∧
      related (run step state inputs).2 (run other image inputs).2 := by
  induction inputs generalizing state image with
  | nil => exact ⟨rfl, holds⟩
  | cons input rest induction =>
    obtain ⟨outputs, next⟩ := kept state image input holds
    obtain ⟨restOutputs, last⟩ := induction next
    refine ⟨?_, last⟩
    unfold run
    dsimp only
    rw [outputs, restOutputs]

end Machine
