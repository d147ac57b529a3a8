import Seedstone.Library.Program

/-!
# Programs among uncertain answers

An environment that may answer a call in more than one way, and that others may
change before each call.  `Plays` is one way a program can go in it; `Ensures` says
that on every way each call is fine where it is made, and what holds at the end,
with one rule per construct of a program.
-/

namespace Seedstone

/-- What others may make of a state, the answers a call may get in one, and the state
after each. -/
structure Environment (Op : Type) (Ret : Op → Type) (σ : Type) where
  drifts : σ → σ → Prop
  answers : σ → (op : Op) → Ret op → Prop
  after : σ → (op : Op) → Ret op → σ

namespace Environment

/-- A call where it was made, and its answer. -/
structure Moment (Op : Type) (Ret : Op → Type) (σ : Type) where
  state : σ
  op : Op
  answer : Ret op

variable {Op : Type} {Ret : Op → Type} {α β σ : Type} {env : Environment Op Ret σ}

/-- One way a program can go: its calls, its result, and the state it ends in. -/
inductive Plays (env : Environment Op Ret σ) :
    Program Op Ret α → σ → List (Moment Op Ret σ) → α → σ → Prop where
  | done {result : α} {state : σ} : Plays env (.done result) state [] result state
  | call {op : Op} {next : Ret op → Program Op Ret α} {state found last : σ}
      {answer : Ret op} {moments : List (Moment Op Ret σ)} {result : α}
      (drift : env.drifts state found) (may : env.answers found op answer)
      (rest : Plays env (next answer) (env.after found op answer) moments result last) :
      Plays env (.call op next) state (⟨found, op, answer⟩ :: moments) result last

/-- On every way a program can go each call is fine, and `post` holds at the end. -/
def Ensures (env : Environment Op Ret σ) (fine : σ → (op : Op) → Ret op → Prop)
    (post : α → σ → Prop) : Program Op Ret α → σ → Prop
  | .done result, state => post result state
  | .call op next, state =>
    ∀ found, env.drifts state found → ∀ answer, env.answers found op answer →
      fine found op answer ∧ Ensures env fine post (next answer) (env.after found op answer)

variable {fine : σ → (op : Op) → Ret op → Prop} {post : α → σ → Prop}
  {program : Program Op Ret α} {state last : σ} {moments : List (Moment Op Ret σ)}
  {result : α}

namespace Ensures

theorem plays (ensures : env.Ensures fine post program state)
    (plays : env.Plays program state moments result last) :
    (∀ moment ∈ moments, fine moment.state moment.op moment.answer) ∧ post result last := by
  induction plays with
  | done => exact ⟨nofun, ensures⟩
  | call drift may _ induction =>
    obtain ⟨here, later⟩ := ensures _ drift _ may
    obtain ⟨rest, holds⟩ := induction later
    exact ⟨List.forall_mem_cons.mpr ⟨here, rest⟩, holds⟩

theorem pure (holds : post result state) :
    env.Ensures fine post (Pure.pure result : Program Op Ret α) state :=
  holds

theorem perform (op : Op) {post : Ret op → σ → Prop}
    (each : ∀ found, env.drifts state found → ∀ answer, env.answers found op answer →
      fine found op answer ∧ post answer (env.after found op answer)) :
    env.Ensures fine post (Program.perform op) state :=
  each

theorem bind {middle : α → σ → Prop} {post : β → σ → Prop} {next : α → Program Op Ret β}
    (first : env.Ensures fine middle program state)
    (rest : ∀ result state, middle result state → env.Ensures fine post (next result) state) :
    env.Ensures fine post (program >>= next) state := by
  induction program generalizing state with
  | done result => exact rest result state first
  | call op next induction =>
    intro found drift answer may
    obtain ⟨here, later⟩ := first found drift answer may
    exact ⟨here, induction answer later⟩

theorem weaken {stronger : α → σ → Prop} (ensures : env.Ensures fine stronger program state)
    (enough : ∀ result state, stronger result state → post result state) :
    env.Ensures fine post program state := by
  induction program generalizing state with
  | done result => exact enough result state ensures
  | call op next induction =>
    intro found drift answer may
    obtain ⟨here, later⟩ := ensures found drift answer may
    exact ⟨here, induction answer later⟩

/-- A program in a state that every call keeps, and that makes every call fine. -/
theorem of_kept {holds : σ → Prop} (program : Program Op Ret α)
    (each : ∀ state found op answer, holds state → env.drifts state found →
      env.answers found op answer → fine found op answer ∧ holds (env.after found op answer))
    (start : holds state) : env.Ensures fine (fun _ => holds) program state := by
  induction program generalizing state with
  | done result => exact start
  | call op next induction =>
    intro found drift answer may
    obtain ⟨here, later⟩ := each state found op answer start drift may
    exact ⟨here, induction answer later⟩

/-- A program all of whose calls are fine anywhere. -/
theorem of_within {allowed : Op → Prop} {held : α → Prop} (within : program.Within allowed held)
    (each : ∀ op, allowed op → ∀ state answer, fine state op answer) (state : σ) :
    env.Ensures fine (fun _ _ => True) program state := by
  induction within generalizing state with
  | done => exact trivial
  | call may _ induction =>
    intro found _ answer _
    exact ⟨each _ may found answer, induction answer _⟩

end Ensures

end Environment

end Seedstone
