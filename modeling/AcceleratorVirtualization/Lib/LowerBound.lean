import AcceleratorVirtualization.Lib.KeyedList
import Mathlib.Data.List.Induction

/-!
# Arrays kept sorted by a binary search

A binary search for the first member that does not come before a key, and the insertion at the
position it finds, with a member of the same key replaced in place. On an array that is sorted this
is `upsert`, so that an array filled this way from empty stays sorted; what it holds is determined
by the last member that was set under every key.
-/

namespace KeyedList

variable {α κ : Type*}

/-! ### The search -/

/-- The loop of `std::lower_bound` over `count` members from a position on. -/
def lowerBoundLoop (before : α → Bool) (l : List α) (first count : ℕ) : ℕ :=
  if count = 0 then first
  else
    let half := count / 2
    if l[first + half]?.any before then
      lowerBoundLoop before l (first + half + 1) (count - half - 1)
    else lowerBoundLoop before l first half
termination_by count

/-- The first position whose element is not `before`, searched over the whole list. -/
def lowerBound (before : α → Bool) (l : List α) : ℕ := lowerBoundLoop before l 0 l.length

/-- The members up to a position, and no others, come before. -/
def Parts (before : α → Bool) (l : List α) (position : ℕ) : Prop :=
  position ≤ l.length ∧ (∀ a ∈ l.take position, before a = true) ∧
    ∀ a ∈ l.drop position, before a = false

variable {before : α → Bool} {l : List α}

/-- What comes before the members of a list comes before them without a gap. -/
theorem parts_lowerBoundLoop (hmono : l.Pairwise fun a b => before b = true → before a = true)
    {first count : ℕ} (hlength : first + count ≤ l.length)
    (hfirst : ∀ a ∈ l.take first, before a = true)
    (hlast : ∀ a ∈ l.drop (first + count), before a = false) :
    Parts before l (lowerBoundLoop before l first count) := by
  fun_induction lowerBoundLoop before l first count with
  | case1 first => exact ⟨hlength, hfirst, hlast⟩
  | case2 first count hzero half hany ih =>
    -- all members up to the middle come before, as it does
    have hmiddle : first + half < l.length := by omega
    rw [List.getElem?_eq_getElem hmiddle, Option.any_some] at hany
    refine ih (by omega) (fun a ha => ?_) fun a ha => hlast a ?_
    · rw [List.take_succ_eq_append_getElem hmiddle] at ha
      rcases List.mem_append.mp ha with ha | ha
      · have hsplit :=
          List.pairwise_append.mp ((List.take_append_drop (first + half) l).symm ▸ hmono)
        have hmember : l[first + half] ∈ l.drop (first + half) :=
          List.mem_drop_iff_getElem.mpr ⟨0, by omega, by simp⟩
        exact hsplit.2.2 a ha _ hmember hany
      · rw [List.mem_singleton.mp ha]
        exact hany
    · have heq : first + half + 1 + (count - half - 1) = first + count := by omega
      exact heq ▸ ha
  | case3 first count hzero half hany ih =>
    -- none of the members from the middle on comes before
    have hmiddle : first + half < l.length := by omega
    rw [List.getElem?_eq_getElem hmiddle, Option.any_some] at hany
    refine ih (by omega) hfirst fun a ha => ?_
    rw [List.drop_eq_getElem_cons hmiddle] at ha
    rcases List.mem_cons.mp ha with rfl | ha
    · exact Bool.eq_false_iff.mpr hany
    · have hsplit := hmono.sublist (List.drop_sublist (first + half) l)
      rw [List.drop_eq_getElem_cons hmiddle] at hsplit
      have hlater := List.rel_of_pairwise_cons hsplit ha
      exact Bool.eq_false_iff.mpr fun h => hany (hlater h)

/-- Where `before` is monotone, the search parts the list. -/
theorem parts_lowerBound (hmono : l.Pairwise fun a b => before b = true → before a = true) :
    Parts before l (lowerBound before l) :=
  parts_lowerBoundLoop hmono (by omega) (by simp) (by simp)

/-! ### The insertion -/

variable (key : α → ℕ)

/-- A member with the same key is replaced in place; without one, the new member is inserted where
the search ended. -/
def place (a : α) (l : List α) : List α :=
  let position := lowerBound (fun b => key b < key a) l
  if l[position]?.any (fun b => key b = key a) then l.set position a
  else l.take position ++ a :: l.drop position

variable {key}

/-- An insertion behind smaller keys leaves these in front. -/
theorem upsert_append {a : α} {l l' : List α} (h : ∀ b ∈ l, key b < key a) :
    upsert key a (l ++ l') = l ++ upsert key a l' := by
  induction l with
  | nil => rfl
  | cons b l ih =>
    have hb : key b < key a := h b List.mem_cons_self
    simp only [List.cons_append, upsert]
    rw [if_neg (by omega), if_neg (by omega), ih fun c hc => h c (List.mem_cons_of_mem b hc)]

/-- On a sorted array the insertion is the one at the position the key asks for. -/
theorem place_eq_upsert (a : α) (hl : Sorted key l) : place key a l = upsert key a l := by
  have hmono : l.Pairwise fun b c => decide (key c < key a) = true →
    decide (key b < key a) = true :=
    hl.imp fun hbc hc => decide_eq_true (Nat.lt_trans hbc (of_decide_eq_true hc))
  obtain ⟨hlength, htake, hdrop⟩ := parts_lowerBound hmono
  simp only [place]
  generalize lowerBound (fun b => decide (key b < key a)) l = position at *
  have hsplit : upsert key a l = l.take position ++ upsert key a (l.drop position) := by
    rw [← upsert_append fun b hb => of_decide_eq_true (htake b hb), List.take_append_drop]
  rw [hsplit]
  by_cases hend : position = l.length
  · subst hend
    simp only [List.getElem?_length, Option.any_none, Bool.false_eq_true, if_false,
      List.drop_length, upsert]
  · have hposition : position < l.length := by omega
    have hnot : ¬ key l[position] < key a := of_decide_eq_false
      (hdrop _ (List.mem_drop_iff_getElem.mpr ⟨0, by omega, by simp⟩))
    rw [List.drop_eq_getElem_cons hposition]
    by_cases hkey : key l[position] = key a
    · simp only [List.getElem?_eq_getElem hposition, Option.any_some, hkey, decide_true, if_true,
        upsert, Nat.lt_irrefl, if_false]
      rw [List.set_eq_take_append_cons_drop, if_pos hposition]
    · simp only [List.getElem?_eq_getElem hposition, Option.any_some, hkey, decide_false,
        Bool.false_eq_true, if_false, upsert]
      rw [if_pos (by omega)]

/-! ### Arrays filled from empty -/

variable (key) in
/-- The array after a sequence of insertions, from empty. -/
def fill (as : List α) : List α := as.foldl (fun l a => place key a l) []

/-- The last element is placed last. -/
theorem fill_concat (as : List α) (a : α) : fill key (as ++ [a]) = place key a (fill key as) :=
  List.foldl_concat ..

/-- A list that is filled one by one is sorted. -/
theorem sorted_fill (as : List α) : Sorted key (fill key as) := by
  induction as using List.reverseRec with
  | nil => exact sorted_nil
  | append_singleton as a ih =>
    rw [fill_concat, place_eq_upsert a ih]
    exact sorted_upsert a ih

/-- The last member of a sequence under a key. -/
def lastSet [DecidableEq κ] (key : α → κ) (as : List α) (k : κ) : Option α :=
  as.reverse.find? fun a => key a = k

/-- An array holds the last member that was set under every key, and nothing else. -/
theorem find?_fill (as : List α) (k : ℕ) :
    (fill key as).find? (fun a => key a = k) = lastSet key as k := by
  induction as using List.reverseRec with
  | nil => rfl
  | append_singleton as a ih =>
    rw [fill_concat, place_eq_upsert a (sorted_fill as), find?_upsert a k (sorted_fill as), ih,
      lastSet, lastSet, List.reverse_concat, List.find?_cons]
    by_cases hk : key a = k
    · simp [hk]
    · simp [hk]

/-- A sorted array is determined by what it holds under every key. -/
theorem Sorted.ext {l l' : List α} (hl : Sorted key l) (hl' : Sorted key l')
    (h : ∀ k, l.find? (fun a => key a = k) = l'.find? fun a => key a = k) : l = l' := by
  have hmem : ∀ a, a ∈ l ↔ a ∈ l' := by
    intro a
    have hfind := find?_eq_some_iff hl (a := a) (k := key a)
    rw [h, find?_eq_some_iff hl'] at hfind
    simpa using hfind.symm
  have hnodup : ∀ {l : List α}, Sorted key l → l.Nodup := fun h =>
    h.imp fun hab heq => absurd (heq ▸ hab) (Nat.lt_irrefl _)
  exact ((List.perm_ext_iff_of_nodup (hnodup hl) (hnodup hl')).mpr hmem).eq_of_pairwise
    (fun a b _ _ hab hba => absurd (Nat.lt_trans hab hba) (Nat.lt_irrefl _)) hl hl'

/-- What is placed depends only on the last element for each key. -/
theorem fill_congr {as as' : List α} (h : ∀ k, lastSet key as k = lastSet key as' k) :
    fill key as = fill key as' :=
  (sorted_fill as).ext (sorted_fill as') fun k => by rw [find?_fill, find?_fill, h]

end KeyedList
