import Mathlib.Data.List.Nodup

/-!
# Sweeps

A sweep visits the entries of a store one after the other, each once, and the step for an entry
leaves the others alone. So an entry is changed by its own step, in the state that the steps
before it have left, and it is found there as it was at the beginning.
-/

namespace Sweep

variable {α β γ : Type*} {step : β → α → β} {f : β → α → γ}

/-- An entry that is not visited. -/
theorem view_of_not_mem (hother : ∀ b i j, j ≠ i → f (step b i) j = f b j) {l : List α}
    {i : α} (hi : i ∉ l) (b : β) : f (l.foldl step b) i = f b i := by
  induction l generalizing b with
  | nil => rfl
  | cons j l ih =>
    rw [List.foldl_cons, ih (fun h => hi (List.mem_cons_of_mem j h))]
    exact hother b j i fun h => hi (h ▸ List.mem_cons_self)

/-- An entry that is visited once. -/
theorem view_of_mem (hother : ∀ b i j, j ≠ i → f (step b i) j = f b j) {l : List α}
    (hl : l.Nodup) {i : α} (hi : i ∈ l) (b : β) :
    ∃ l₁ l₂, l = l₁ ++ i :: l₂ ∧ f (l₁.foldl step b) i = f b i ∧
      f (l.foldl step b) i = f (step (l₁.foldl step b) i) i := by
  obtain ⟨l₁, l₂, rfl⟩ := List.append_of_mem hi
  have hnot : i ∉ l₁ ∧ i ∉ l₂ := by
    have h := List.nodup_middle.mp hl
    simpa using (List.nodup_cons.mp h).1
  refine ⟨l₁, l₂, rfl, view_of_not_mem hother hnot.1 b, ?_⟩
  rw [List.foldl_append, List.foldl_cons, view_of_not_mem hother hnot.2]

end Sweep
