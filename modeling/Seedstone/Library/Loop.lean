import Mathlib.Tactic.TypeStar

/-!
# Loops

A loop takes one turn after the other until a turn ends it.  `run` is the loop
with a bound on its turns; `Ends` says what it comes to without one, and a measure
that every turn lowers gives a bound that is enough.
-/

namespace Loop

/-- What one turn of a loop comes to. -/
inductive Turn (State Result : Type*) where
  | again (state : State)
  | last (result : Result)

variable {State Image Result Outcome : Type*}

/-- A turn seen through images of its state and its result. -/
def Turn.map (image : State → Image) (outcome : Result → Outcome) :
    Turn State Result → Turn Image Outcome
  | .again state => .again (image state)
  | .last result => .last (outcome result)

def run (turn : State → Turn State Result) : Nat → State → Option Result
  | 0, _ => none
  | fuel + 1, state =>
    match turn state with
    | .last result => some result
    | .again next => run turn fuel next

/-- The loop ends, and with which result. -/
inductive Ends (turn : State → Turn State Result) : State → Result → Prop where
  | last {state : State} {result : Result} (turned : turn state = .last result) :
      Ends turn state result
  | again {state next : State} {result : Result} (turned : turn state = .again next)
      (rest : Ends turn next result) : Ends turn state result

variable {turn : State → Turn State Result} {state : State} {result other : Result}

theorem run_isSome {invariant : State → Prop} {measure : State → Nat}
    (lowers : ∀ {state next}, invariant state → turn state = .again next →
      invariant next ∧ measure next < measure state)
    (holds : invariant state) {fuel : Nat} (enough : measure state < fuel) :
    ∃ result, run turn fuel state = some result ∧ Ends turn state result := by
  induction fuel generalizing state with
  | zero => omega
  | succ fuel induction =>
    unfold run
    cases turned : turn state with
    | last result => exact ⟨result, rfl, .last turned⟩
    | again next =>
      obtain ⟨kept, lower⟩ := lowers holds turned
      obtain ⟨result, ran, ends⟩ := induction kept (by omega)
      exact ⟨result, ran, .again turned ends⟩

end Loop
