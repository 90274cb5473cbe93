import Mathlib.Data.List.Destutter
import Mathlib.Data.List.Sort
import AcceleratorVirtualization.Lib.KeyedList

/-!
# The first of each key

Of a list that is sorted by a key, and may have several members under one key, the first of each key
is kept. What is kept depends on the order in which the sort leaves members with equal keys; a sort
by insertion leaves them in the order they were listed in.
-/

namespace KeyedList

variable {α : Type*} {key : α → ℕ}

/-- Of members with equal keys that follow each other the first is kept. -/
def firsts (key : α → ℕ) (l : List α) : List α := l.destutter fun a b => key a ≠ key b

/-- Inserting puts a member in front of those with its key. -/
theorem find?_orderedInsert (k : ℕ) (a : α) (l : List α) :
    (l.orderedInsert (fun a b => key a ≤ key b) a).find? (fun b => key b = k) =
      (a :: l).find? fun b => key b = k := by
  induction l with
  | nil => rfl
  | cons b l ih =>
    rw [List.orderedInsert_cons]
    split
    · rfl
    · rename_i hab
      rw [List.find?_cons, ih]
      -- `b` goes first only if its key is smaller
      by_cases ha : key a = k
      · have hb : key b ≠ k := by omega
        simp [ha, hb]
      · simp [List.find?_cons, ha]

/-- Sorting by insertion keeps the first of each key. -/
theorem find?_insertionSort (k : ℕ) (l : List α) :
    (l.insertionSort fun a b => key a ≤ key b).find? (fun b => key b = k) =
      l.find? fun b => key b = k := by
  induction l with
  | nil => rfl
  | cons a l ih =>
    rw [List.insertionSort_cons, find?_orderedInsert, List.find?_cons, List.find?_cons, ih]

/-- Dropping what repeats a key keeps the first of each key. -/
theorem find?_destutter' (k : ℕ) (a : α) (l : List α) :
    (l.destutter' (fun a b => key a ≠ key b) a).find? (fun b => key b = k) =
      (a :: l).find? fun b => key b = k := by
  induction l generalizing a with
  | nil => rfl
  | cons b l ih =>
    rw [List.destutter'_cons]
    split
    · simp only [List.find?_cons, ih]
    · rename_i hab
      rw [ih]
      have hkey : key a = key b := not_not.mp hab
      by_cases ha : key a = k
      · simp [ha]
      · simp [ha, hkey ▸ ha]

/-- What is kept of a key is what was listed first under it. -/
theorem find?_firsts (k : ℕ) (l : List α) :
    (firsts key l).find? (fun b => key b = k) = l.find? fun b => key b = k := by
  cases l with
  | nil => rfl
  | cons a l => exact find?_destutter' k a l

/-- What is kept was listed. -/
theorem mem_of_mem_firsts {a : α} {l : List α} (h : a ∈ firsts key l) : a ∈ l :=
  (List.destutter_sublist _ _).subset h

/-- What is left of a sorted list has strictly increasing keys. -/
theorem sorted_firsts {l : List α} (hsorted : l.Pairwise fun a b => key a ≤ key b) :
    Sorted key (firsts key l) := by
  have hle := hsorted.sublist (List.destutter_sublist (fun a b => key a ≠ key b) _)
  have hne := List.isChain_destutter (fun a b => key a ≠ key b) l
  have hlt : (firsts key l).IsChain fun a b => key a < key b := by
    rw [List.isChain_iff_getElem] at hne ⊢
    exact fun i hi => Nat.lt_of_le_of_ne
      (List.isChain_iff_getElem.mp hle.isChain i hi) (hne i hi)
  have : IsTrans α fun a b => key a < key b := ⟨fun _ _ _ => Nat.lt_trans⟩
  exact hlt.pairwise

/-- A member of a sorted list is the one that is found under its key. -/
theorem find?_of_mem {a : α} {l : List α} (hl : Sorted key l) (ha : a ∈ l) :
    l.find? (fun b => key b = key a) = some a := by
  induction l with
  | nil => cases ha
  | cons b l ih =>
    obtain ⟨hb, hl⟩ := List.pairwise_cons.mp hl
    rcases List.mem_cons.mp ha with rfl | ha
    · simp
    · rw [List.find?_cons_of_neg, ih hl ha]
      have := hb a ha
      simp only [decide_eq_true_eq]
      omega

/-- What is left of a sorted list is what was listed first under its key. -/
theorem mem_firsts {a : α} {l : List α} (hl : l.Pairwise fun a b => key a ≤ key b) :
    a ∈ firsts key l ↔ l.find? (fun b => key b = key a) = some a := by
  rw [← find?_firsts]
  exact ⟨find?_of_mem (sorted_firsts hl), List.mem_of_find?_eq_some⟩

end KeyedList
