import Mathlib.Data.List.Sort

/-!
# Stable sorting

What an insertion sort does to elements its order does not tell apart, and to the
first of them.
-/

namespace StableSort

open List

variable {α : Type} {before : α → α → Prop} [DecidableRel before] {chosen : α → Bool}

theorem filter_insertionSort (values : List α)
    (alike : ∀ first second, chosen first → chosen second → before first second) :
    (values.insertionSort before).filter chosen = values.filter chosen := by
  have related : (values.filter chosen).Pairwise before := by
    rw [pairwise_iff_forall_sublist]
    intro first second pair
    have one := pair.subset mem_cons_self
    have two := pair.subset (mem_cons_of_mem _ mem_cons_self)
    exact alike first second (mem_filter.mp one).2 (mem_filter.mp two).2
  have kept : values.filter chosen <+ (values.insertionSort before).filter chosen := by
    have sorted := (sublist_insertionSort related filter_sublist).filter chosen
    rwa [filter_filter, funext fun value => Bool.and_self (chosen value)] at sorted
  have same := ((perm_insertionSort before values).filter chosen).length_eq
  exact (kept.eq_of_length same.symm).symm

theorem head_before [Std.Refl before] [Std.Total before] [IsTrans α before] {values : List α}
    {first : α} (front : ((values.insertionSort before).filter chosen).head? = some first)
    {other : α} (member : other ∈ values) (picked : chosen other = true) :
    before first other := by
  have sorted := (pairwise_insertionSort before values).filter chosen
  have inside : other ∈ (values.insertionSort before).filter chosen :=
    mem_filter.mpr ⟨(mem_insertionSort before).mpr member, picked⟩
  cases shape : (values.insertionSort before).filter chosen with
  | nil =>
    rw [shape] at inside
    exact absurd inside not_mem_nil
  | cons head rest =>
    rw [shape] at front inside sorted
    cases front
    rcases mem_cons.mp inside with rfl | later
    · exact refl other
    · exact rel_of_pairwise_cons sorted later

end StableSort
