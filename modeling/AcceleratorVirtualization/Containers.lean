import AcceleratorVirtualization.Lib.LowerBound
import AcceleratorVirtualization.Surface

/-!
# The arrays of surfaces and profiles

A surface and a profile are arrays that nothing but `set` keeps sorted: a binary search over the
keys finds the position, and the entry there is replaced if it has the key. The containers of the
model carry the order as a part of their type; the arrays are what the code computes, whatever is in
them.
-/

namespace AcceleratorVirtualization

open Enumeration (value)
open KeyedList

/-! ### Enumerators as keys -/

variable {α β : Type} [Enumeration β] [DecidableEq β] {key : α → β}

/-- Under an enumerator stands what stands under its value. -/
theorem lastSet_value (as : List α) (k : β) :
    lastSet (fun a => value (key a)) as (value k) = lastSet key as k := by
  simp only [lastSet, Enumeration.value_inj]

/-- Sequences with the same last member under every enumerator have it under every number. -/
theorem lastSet_congr {as as' : List α} (h : ∀ k, lastSet key as k = lastSet key as' k) (n : ℕ) :
    lastSet (fun a => value (key a)) as n = lastSet (fun a => value (key a)) as' n := by
  by_cases hn : ∃ k : β, value k = n
  · obtain ⟨k, rfl⟩ := hn
    rw [lastSet_value, lastSet_value, h]
  · -- no member has the number for a key
    have hnone : ∀ l : List α, lastSet (fun a => value (key a)) l n = none := fun l =>
      List.find?_eq_none.mpr fun a _ ha => hn ⟨key a, of_decide_eq_true ha⟩
    rw [hnone, hnone]

/-! ### Containers -/

/-- A container that is filled from empty: what it holds is the array that the binary search and
the insertion compute, sorted by keys; the last member set under a key is found, and the container
is determined by these members. -/
structure Keyed {γ : Type} (empty : γ) (set : γ → α → γ) (members : γ → List α)
    (find : γ → β → Option α) (key : α → β) : Prop where
  array : ∀ as, members (as.foldl set empty) = fill (fun a => value (key a)) as
  sorted : ∀ as, Sorted (fun a => value (key a)) (fill (fun a => value (key a)) as)
  find : ∀ as k, find (as.foldl set empty) k = lastSet key as k
  congr : ∀ as as', (∀ k, lastSet key as k = lastSet key as' k) →
    as.foldl set empty = as'.foldl set empty

/-- A container whose operations are those of its array. -/
theorem Keyed.of {γ : Type} {empty : γ} {set : γ → α → γ} {members : γ → List α}
    {find : γ → β → Option α} (hempty : members empty = [])
    (hset : ∀ c a, members (set c a) = place (fun a => value (key a)) a (members c))
    (hfind : ∀ c k, find c k = (members c).find? fun a => key a = k)
    (hinjective : Function.Injective members) : Keyed empty set members find key := by
  have harray : ∀ as, members (as.foldl set empty) = fill (fun a => value (key a)) as := by
    intro as
    rw [fill, ← hempty]
    exact (List.foldl_hom members fun c a => (hset c a).symm).symm
  refine ⟨harray, sorted_fill, fun as k => ?_, fun as as' h => hinjective ?_⟩
  · have hvalue : (fill (fun a => value (key a)) as).find? (fun a => value (key a) = value k) = _ :=
      find?_fill as (value k)
    rw [lastSet_value] at hvalue
    simp only [Enumeration.value_inj] at hvalue
    rw [hfind, harray, hvalue]
  · rw [harray, harray, fill_congr (lastSet_congr h)]

/-- A surface is its entries. -/
theorem CapabilitySurface.entries_injective : Function.Injective CapabilitySurface.entries := by
  rintro ⟨entries, _⟩ ⟨_, _⟩ rfl
  rfl

/-- A profile is its claims. -/
theorem IsolationProfile.claims_injective : Function.Injective IsolationProfile.claims := by
  rintro ⟨claims, _⟩ ⟨_, _⟩ rfl
  rfl

/-- Surfaces and profiles are filled as their arrays are: sorted by their keys, with the last member
set under each of them and no other, whatever the order. -/
theorem keyed_containers :
    Keyed {} CapabilitySurface.set CapabilitySurface.entries CapabilitySurface.find
      CapabilityEntry.key ∧
    Keyed {} IsolationProfile.set IsolationProfile.claims IsolationProfile.find
      IsolationClaim.dimension := by
  constructor
  · exact .of rfl (fun surface entry => (place_eq_upsert entry surface.sorted).symm)
      (fun _ _ => rfl) CapabilitySurface.entries_injective
  · exact .of rfl (fun profile claim => (place_eq_upsert claim profile.sorted).symm)
      (fun _ _ => rfl) IsolationProfile.claims_injective

end AcceleratorVirtualization
