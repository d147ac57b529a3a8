import Seedstone.Dict.Table

/-!
# Glob matching over bytes

`glob.rs`: an iterative matcher with one remembered star.  The loop carries a
bound on its steps, larger than any pattern and subject can use.
-/

namespace Seedstone

namespace Glob

/-- The member loop of `class`, from position `index`. -/
def classLoop (pattern : Bytes) (byte : UInt8) (negated : Bool) :
    Nat → Nat → Bool → Bool × Nat
  | 0, index, hit => (hit != negated, index)
  | steps + 1, index, hit =>
    match pattern[index]? with
    | none => (hit != negated, index)
    | some member =>
      if member = 93 then
        (hit != negated, index + 1)
      else if member = 92 ∧ index + 1 < pattern.length then
        classLoop pattern byte negated steps (index + 2)
          (hit || pattern[index + 1]? == some byte)
      else
        match pattern[index + 1]?, pattern[index + 2]? with
        | some 45, some stop =>
          let low := min member stop
          let high := max member stop
          classLoop pattern byte negated steps (index + 3)
            (hit || (low ≤ byte && byte ≤ high))
        | _, _ =>
          classLoop pattern byte negated steps (index + 1)
            (hit || member == byte)

/-- `class`: whether `byte` is a member of the class at the head of `pattern`,
and the class's width. -/
def classAt (pattern : Bytes) (byte : UInt8) : Bool × Nat :=
  let negated := pattern[1]? == some 94
  classLoop pattern byte negated (pattern.length + 1) (if negated then 2 else 1) false

/-- The matcher's position: in the pattern, in the subject, and where to resume
after a mismatch. -/
structure State where
  p : Nat
  s : Nat
  star : Option Nat
  resume : Nat
deriving DecidableEq, Repr

def backtrack (state : State) : Option State :=
  state.star.map fun star =>
    { state with p := star + 1, s := state.resume + 1, resume := state.resume + 1 }

/-- One turn of the loop on the subject byte `byte`; `none` is a definitive
mismatch. -/
def turn (pattern : Bytes) (byte : UInt8) (state : State) : Option State :=
  match pattern[state.p]? with
  | some 42 =>
    some { state with star := some state.p, resume := state.s, p := state.p + 1 }
  | some 63 => some { state with p := state.p + 1, s := state.s + 1 }
  | some 91 =>
    let (hit, width) := classAt (pattern.drop state.p) byte
    if hit then
      some { state with p := state.p + width, s := state.s + 1 }
    else
      backtrack state
  | some literal =>
    if literal = 92 ∧ state.p + 1 < pattern.length then
      if pattern[state.p + 1]? = some byte then
        some { state with p := state.p + 2, s := state.s + 1 }
      else
        backtrack state
    else if literal = byte then
      some { state with p := state.p + 1, s := state.s + 1 }
    else
      backtrack state
  | none => backtrack state

def matchLoop (pattern subject : Bytes) : Nat → State → Bool
  | 0, _ => false
  | steps + 1, state =>
    match subject[state.s]? with
    | none => (pattern.drop state.p).all (fun byte => byte == 42)
    | some byte =>
      match turn pattern byte state with
      | none => false
      | some next => matchLoop pattern subject steps next

def isMatch (pattern subject : Bytes) : Bool :=
  matchLoop pattern subject ((subject.length + 2) * (pattern.length + 2))
    ⟨0, 0, none, 0⟩

end Glob

end Seedstone
