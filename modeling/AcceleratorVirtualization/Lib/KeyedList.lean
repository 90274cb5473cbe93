import Mathlib.Data.List.Basic

/-!
# Lists kept sorted by a key

A list whose members have strictly increasing keys, maintained by `upsert`: the position is
found by binary search in the programs that use such lists, and a member with the same key
is replaced. Rebuilding a sorted list member by member gives the list back.
-/

namespace KeyedList

variable {α : Type*} (key : α → ℕ)

/-- Strictly increasing keys. -/
def Sorted (l : List α) : Prop := l.Pairwise fun a b => key a < key b

/-- Insert at the position the key asks for, replacing a member with the same key. -/
def upsert (a : α) : List α → List α
  | [] => [a]
  | b :: l =>
    if key a < key b then a :: b :: l
    else if key a = key b then a :: l
    else b :: upsert a l

variable {key}

/-- The empty list is sorted. -/
theorem sorted_nil : Sorted key ([] : List α) := List.Pairwise.nil

/-- What is in the list after an insertion was there before or is the new element. -/
theorem key_mem_upsert {a c : α} {l : List α} (h : c ∈ upsert key a l) : c = a ∨ c ∈ l := by
  induction l with
  | nil => simpa [upsert] using h
  | cons b l ih =>
    simp only [upsert] at h
    split at h
    · simpa using h
    · split at h
      · rcases List.mem_cons.mp h with h | h
        · exact .inl h
        · exact .inr (List.mem_cons_of_mem b h)
      · rcases List.mem_cons.mp h with h | h
        · exact .inr (h ▸ List.mem_cons_self)
        · exact (ih h).imp id (List.mem_cons_of_mem b)

/-- Inserting keeps the keys strictly increasing. -/
theorem sorted_upsert (a : α) {l : List α} (hl : Sorted key l) : Sorted key (upsert key a l) := by
  induction l with
  | nil => exact List.pairwise_singleton _ _
  | cons b l ih =>
    obtain ⟨hb, hl'⟩ := List.pairwise_cons.mp hl
    simp only [upsert]
    split
    · rename_i hab
      refine List.pairwise_cons.mpr ⟨fun c hc => ?_, hl⟩
      rcases List.mem_cons.mp hc with rfl | hc
      · exact hab
      · exact Nat.lt_trans hab (hb c hc)
    · split
      · rename_i hab
        exact List.pairwise_cons.mpr ⟨fun c hc => hab ▸ hb c hc, hl'⟩
      · refine List.pairwise_cons.mpr ⟨fun c hc => ?_, ih hl'⟩
        rcases key_mem_upsert hc with rfl | hc
        · omega
        · exact hb c hc

/-- A member with the greatest key goes to the end. -/
theorem upsert_of_forall_lt {a : α} {l : List α} (h : ∀ b ∈ l, key b < key a) :
    upsert key a l = l ++ [a] := by
  induction l with
  | nil => rfl
  | cons b l ih =>
    have hb : key b < key a := h b List.mem_cons_self
    simp only [upsert, List.cons_append]
    rw [if_neg (by omega), if_neg (by omega), ih fun c hc => h c (List.mem_cons_of_mem b hc)]

/-- A member that was inserted is found under its key; under other keys nothing changes. -/
theorem find?_upsert (a : α) (k : ℕ) {l : List α} (hl : Sorted key l) :
    (upsert key a l).find? (fun b => key b = k) =
      if key a = k then some a else l.find? fun b => key b = k := by
  induction l with
  | nil =>
    by_cases hk : key a = k
    · simp [upsert, hk]
    · simp [upsert, hk]
  | cons b l ih =>
    obtain ⟨hb, hl'⟩ := List.pairwise_cons.mp hl
    simp only [upsert]
    split
    · by_cases hk : key a = k
      · simp [hk]
      · simp [List.find?_cons, hk]
    · split
      · rename_i hab
        by_cases hk : key a = k
        · simp [hk]
        · simp [hk, hab ▸ hk]
      · rename_i hab
        rw [List.find?_cons, ih hl', List.find?_cons]
        by_cases hk : key a = k
        · have hne : key b ≠ k := fun h => hab (hk.trans h.symm)
          simp [hk, hne]
        · simp [hk]

/-- A member is the one its key finds. -/
theorem find?_eq_some_iff {l : List α} (hl : Sorted key l) {a : α} {k : ℕ} :
    l.find? (fun b => key b = k) = some a ↔ a ∈ l ∧ key a = k := by
  constructor
  · intro h
    exact ⟨List.mem_of_find?_eq_some h, by simpa using List.find?_some h⟩
  · rintro ⟨ha, hk⟩
    induction l with
    | nil => exact absurd ha List.not_mem_nil
    | cons b l ih =>
      obtain ⟨hb, hl'⟩ := List.pairwise_cons.mp hl
      rcases List.mem_cons.mp ha with rfl | ha
      · simp [hk]
      · have hne : key b ≠ k := by
          have := hb a ha
          omega
        rw [List.find?_cons_of_neg (by simpa using hne), ih hl' ha]

/-- Inserting the members of a sorted list one after the other gives the list back. -/
theorem foldl_upsert_eq {l acc : List α} (h : Sorted key (acc ++ l)) :
    l.foldl (fun acc a => upsert key a acc) acc = acc ++ l := by
  induction l generalizing acc with
  | nil => simp
  | cons a l ih =>
    have hlt : ∀ b ∈ acc, key b < key a := fun b hb =>
      (List.pairwise_append.mp h).2.2 b hb a List.mem_cons_self
    rw [List.foldl_cons, upsert_of_forall_lt hlt, ih (by simpa using h)]
    simp

end KeyedList
