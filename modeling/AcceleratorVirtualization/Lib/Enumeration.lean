import Mathlib.Data.List.Basic

/-!
# Enumerations with a numeric value

A finite enumeration whose members are numbered, with the partial inverse of the numbering.
The usual case is a list of all members in order: the value of a member is its position.
-/

/-- A type of named members, each with a numeric `value`, and the partial inverse `ofValue`. -/
class Enumeration (α : Type) where
  value : α → ℕ
  ofValue : ℕ → Option α
  ofValue_value : ∀ a, ofValue (value a) = some a

namespace Enumeration

/-- Members numbered by their position in a list that holds all of them. -/
@[reducible]
def ofList {α : Type} [DecidableEq α] (members : List α)
    (complete : ∀ a, a ∈ members) : Enumeration α where
  value a := members.idxOf a
  ofValue n := members[n]?
  ofValue_value a := by
    have hlt : members.idxOf a < members.length := List.idxOf_lt_length_iff.mpr (complete a)
    rw [List.getElem?_eq_getElem hlt, List.getElem_idxOf hlt]

variable {α : Type} [Enumeration α]

/-- Different values have different codes. -/
theorem value_injective : Function.Injective (value : α → ℕ) := by
  intro a b h
  have := ofValue_value a
  rw [h, ofValue_value b] at this
  exact (Option.some.inj this).symm

/-- Values with one code are the same. -/
@[simp]
theorem value_inj {a b : α} : value a = value b ↔ a = b :=
  value_injective.eq_iff

end Enumeration
