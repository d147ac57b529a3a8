import Mathlib.Data.List.Basic

/-!
# Work spread over independent parts

A family of states, each serving the items addressed to it.  `serveInOrder` serves a
list of items one after the other.  An item meets only the items before it with
the same address, so a group of addresses, served alone, answers its items as
the whole does and leaves its states as the whole does.
-/

namespace Seedstone

section

variable {ι σ α β : Type} [DecidableEq ι]

/-- Serves items one after the other, each at its address. -/
def serveInOrder (serve : ι → α → σ → β × σ) : (ι → σ) → List (ι × α) → List β × (ι → σ)
  | states, [] => ([], states)
  | states, (address, item) :: rest =>
    let (reply, after) := serve address item (states address)
    let (replies, states) := serveInOrder serve (Function.update states address after) rest
    (reply :: replies, states)

variable (serve : ι → α → σ → β × σ)

theorem length_serveInOrder (states : ι → σ) (items : List (ι × α)) :
    (serveInOrder serve states items).1.length = items.length := by
  induction items generalizing states with
  | nil => rfl
  | cons item rest induction =>
    simp only [serveInOrder, List.length_cons]
    rw [induction]

/-- Items of a group of addresses, served without the others. -/
theorem serveInOrder_filter (group : ι → Bool) {states apart : ι → σ}
    (agree : ∀ address, group address = true → apart address = states address)
    (items : List (ι × α)) :
    (serveInOrder serve apart (items.filter fun item => group item.1)).1 =
        ((items.zip (serveInOrder serve states items).1).filter fun pair =>
          group pair.1.1).map Prod.snd ∧
      ∀ address, group address = true →
        (serveInOrder serve apart (items.filter fun item => group item.1)).2 address =
          (serveInOrder serve states items).2 address := by
  induction items generalizing states apart with
  | nil => exact ⟨rfl, agree⟩
  | cons item rest induction =>
    obtain ⟨address, item⟩ := item
    cases mine : group address with
    | true =>
      have kept : ∀ other, group other = true →
          Function.update apart address (serve address item (apart address)).2 other =
            Function.update states address (serve address item (states address)).2 other := by
        intro other inside
        by_cases same : other = address
        · rw [same, Function.update_self, Function.update_self, agree address mine]
        · rw [Function.update_of_ne same, Function.update_of_ne same, agree other inside]
      obtain ⟨replies, after⟩ := induction kept
      simp only [List.filter_cons, mine, if_true, serveInOrder, List.zip_cons_cons,
        List.map_cons, List.cons.injEq]
      exact ⟨⟨by rw [agree address mine], replies⟩, after⟩
    | false =>
      have kept : ∀ other, group other = true → apart other = Function.update states address
            (serve address item (states address)).2 other := by
        intro other inside
        have different : other ≠ address := by
          rintro rfl
          rw [mine] at inside
          cases inside
        rw [Function.update_of_ne different, agree other inside]
      obtain ⟨replies, after⟩ := induction kept
      simp only [List.filter_cons, mine, Bool.false_eq_true, if_false, serveInOrder,
        List.zip_cons_cons]
      exact ⟨replies, after⟩

end

end Seedstone
