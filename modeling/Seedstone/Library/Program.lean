import Mathlib.Logic.Function.Basic

/-!
# Programs that call on an environment

A `Program` performs operations one after the other, each answered by an
environment it knows nothing about, and ends with a result.  `run` plays a
program against an environment given as a function on its state.  `Within` says
which calls a program makes and what it can end with, whatever it is answered,
with one rule per construct; what every allowed call does to the environment
then holds of whole runs.  `Ensures` relates the environment a run starts in to its
result and the environment it ends in.
-/

namespace Seedstone

inductive Program (Op : Type) (Ret : Op → Type) (α : Type) where
  | done (result : α)
  | call (op : Op) (next : Ret op → Program Op Ret α)

namespace Program

variable {Op : Type} {Ret : Op → Type} {α β σ : Type}

def bind : Program Op Ret α → (α → Program Op Ret β) → Program Op Ret β
  | .done result, next => next result
  | .call op rest, next => .call op fun answer => (rest answer).bind next

instance : Monad (Program Op Ret) where
  pure := .done
  bind := bind

theorem bind_pure (program : Program Op Ret α) : program >>= pure = program := by
  induction program with
  | done result => rfl
  | call op rest induction => exact congrArg (call op) (funext induction)

theorem bind_bind {γ : Type} (program : Program Op Ret α) (next : α → Program Op Ret β)
    (last : β → Program Op Ret γ) :
    (program >>= next) >>= last = program >>= fun result => next result >>= last := by
  induction program with
  | done result => rfl
  | call op rest induction => exact congrArg (call op) (funext induction)

/-- One operation and its answer. -/
def perform (op : Op) : Program Op Ret (Ret op) :=
  .call op .done

/-- What a program makes of an environment, and its result. -/
def run (handle : (op : Op) → σ → Ret op × σ) : Program Op Ret α → σ → α × σ
  | .done result, state => (result, state)
  | .call op next, state =>
    run handle (next (handle op state).1) (handle op state).2

variable {handle : (op : Op) → σ → Ret op × σ}

@[simp]
theorem run_pure (result : α) (state : σ) :
    run handle (pure result : Program Op Ret α) state = (result, state) :=
  rfl

@[simp]
theorem run_bind (program : Program Op Ret α) (next : α → Program Op Ret β) (state : σ) :
    run handle (program >>= next) state =
      run handle (next (run handle program state).1) (run handle program state).2 := by
  induction program generalizing state with
  | done result => rfl
  | call op rest induction => exact induction _ _

/-- Every call the program can make is `allowed`, and every result is one of `post`. -/
inductive Within (allowed : Op → Prop) (post : α → Prop) : Program Op Ret α → Prop where
  | done {result : α} (holds : post result) : Within allowed post (.done result)
  | call {op : Op} {next : Ret op → Program Op Ret α} (may : allowed op)
      (rest : ∀ answer, Within allowed post (next answer)) :
      Within allowed post (.call op next)

namespace Within

variable {allowed : Op → Prop} {post : α → Prop} {program : Program Op Ret α}

theorem pure {result : α} (holds : post result) :
    Within allowed post (Pure.pure result : Program Op Ret α) :=
  .done holds

theorem perform (op : Op) {post : Ret op → Prop} (may : allowed op)
    (holds : ∀ answer, post answer) : Within allowed post (Program.perform op) :=
  .call may fun answer => .done (holds answer)

theorem called (op : Op) (may : allowed op) :
    Within allowed (fun _ => True) (Program.perform op : Program Op Ret (Ret op)) :=
  perform op may fun _ => trivial

theorem bind {middle : α → Prop} {post : β → Prop} {next : α → Program Op Ret β}
    (first : Within allowed middle program)
    (rest : ∀ result, middle result → Within allowed post (next result)) :
    Within allowed post (program >>= next) := by
  induction first with
  | done holds => exact rest _ holds
  | call may _ induction => exact .call may induction

theorem after (op : Op) (may : allowed op) {next : Ret op → Program Op Ret α}
    (rest : ∀ answer, Within allowed post (next answer)) :
    Within allowed post (Program.perform op >>= next) :=
  (called op may).bind fun answer _ => rest answer

theorem weaken {stronger : α → Prop} (within : Within allowed stronger program)
    (enough : ∀ result, stronger result → post result) :
    Within allowed post program := by
  induction within with
  | done holds => exact .done (enough _ holds)
  | call may _ induction => exact .call may induction

theorem allow {more : Op → Prop} (within : Within allowed post program)
    (enough : ∀ op, allowed op → more op) : Within more post program := by
  induction within with
  | done holds => exact .done holds
  | call may _ induction => exact .call (enough _ may) induction

theorem any (program : Program Op Ret α) : Within (fun _ => True) (fun _ => True) program := by
  induction program with
  | done => exact .done trivial
  | call _ _ induction => exact .call trivial induction

/-- A run changes its environment by allowed calls only. -/
theorem run_related {related : σ → σ → Prop} (refl : ∀ state, related state state)
    (trans : ∀ {first second third}, related first second → related second third →
      related first third) (each : ∀ op, allowed op → ∀ state, related state (handle op state).2)
    (within : Within allowed post program) (state : σ) :
    post (run handle program state).1 ∧ related state (run handle program state).2 := by
  induction within generalizing state with
  | done holds => exact ⟨holds, refl state⟩
  | call may _ induction =>
    obtain ⟨held, reached⟩ := induction _ (handle _ state).2
    exact ⟨held, trans (each _ may state) reached⟩

end Within

/-- A run that starts in an environment of `pre` ends with a result and an environment
of `post`. -/
def Ensures (handle : (op : Op) → σ → Ret op × σ) (pre : σ → Prop)
    (program : Program Op Ret α) (post : α → σ → Prop) : Prop :=
  ∀ state, pre state → post (run handle program state).1 (run handle program state).2

namespace Ensures

variable {pre : σ → Prop} {program : Program Op Ret α} {post : α → σ → Prop}

theorem pure {result : α} (holds : ∀ state, pre state → post result state) :
    Ensures handle pre (Pure.pure result : Program Op Ret α) post :=
  holds

theorem bind {post : β → σ → Prop} {middle : α → σ → Prop} {next : α → Program Op Ret β}
    (first : Ensures handle pre program middle)
    (rest : ∀ result, Ensures handle (middle result) (next result) post) :
    Ensures handle pre (program >>= next) post := by
  intro state holds
  rw [run_bind]
  exact rest _ _ (first state holds)

end Ensures

end Program

end Seedstone
