import Mathlib.Algebra.BigOperators.Group.Finset.Basic
import Mathlib.Data.Fintype.Basic

/-!
# A counter moved by differences

Many parts each have a size, and one counter is to be their sum.  Whoever
changes a part opens a span with the size it had, and closes it by moving the
counter by the difference.  At any moment the counter is the sum of the sizes
with every part in an open span taken at the size it was opened with.
-/

namespace SharedCounter

variable {Part : Type*} [Fintype Part] {sizes : Part → Nat} {spans : Part → Option Nat}

/-- What the counter holds while some parts are in open spans. -/
def charged (sizes : Part → Nat) (spans : Part → Option Nat) : Nat :=
  ∑ part, (spans part).getD (sizes part)

theorem charged_of_closed (closed : ∀ part, spans part = none) :
    charged sizes spans = ∑ part, sizes part := by
  unfold charged
  apply Finset.sum_congr rfl
  intro part _
  rw [closed, Option.getD_none]

variable [DecidableEq Part]

theorem charged_split (sizes : Part → Nat) (spans : Part → Option Nat) (part : Part) :
    charged sizes spans = (spans part).getD (sizes part) +
      ∑ other ∈ Finset.univ.erase part, (spans other).getD (sizes other) :=
  (Finset.add_sum_erase Finset.univ _ (Finset.mem_univ part)).symm

/-- A part in an open span is charged what the span was opened with. -/
theorem le_charged {part : Part} {opened : Nat} (span : spans part = some opened) :
    opened ≤ charged sizes spans := by
  rw [charged_split sizes spans part, span, Option.getD_some]
  exact Nat.le_add_right opened _

theorem charged_open {part : Part} (closed : spans part = none) (size : Nat) :
    charged (Function.update sizes part size)
      (Function.update spans part (some (sizes part))) = charged sizes spans := by
  rw [charged_split _ _ part, charged_split sizes spans part, closed]
  congr 1
  · simp
  · apply Finset.sum_congr rfl
    intro other member
    have different : other ≠ part := Finset.ne_of_mem_erase member
    rw [Function.update_of_ne different, Function.update_of_ne different]

theorem charged_close {part : Part} {opened : Nat} (span : spans part = some opened) :
    charged sizes (Function.update spans part none) + opened =
      charged sizes spans + sizes part := by
  have others : ∑ other ∈ Finset.univ.erase part,
        (Function.update spans part none other).getD (sizes other) =
      ∑ other ∈ Finset.univ.erase part, (spans other).getD (sizes other) := by
    apply Finset.sum_congr rfl
    intro other member
    rw [Function.update_of_ne (Finset.ne_of_mem_erase member)]
  rw [charged_split sizes (Function.update spans part none) part,
    charged_split sizes spans part, others, Function.update_self, span,
    Option.getD_none, Option.getD_some]
  omega

end SharedCounter
