import Mathlib.Data.List.Infix

/-!
# Logs of overwriting actions

A state is looked at through its cells, and an action overwrites at most one of them, with a value
that does not depend on the state. What a cell holds after a log of such actions then depends on
what it held before only if no action of the log overwrites it. So a log may be replayed over a
state that a part of it has already reached: it leads where the log leads from the beginning.

A state that is kept as a base and the log since has the content the log leads to. A checkpoint
makes the content the base and then empties the log; between the two, the log is still there and the
base has it already.
-/

namespace Journaling

section Overwriting

variable {α S κ : Type} {β : κ → Type} {act : S → α → S} {look : (c : κ) → S → β c}
  {cell : α → Option κ}

/-- Every action overwrites its cell, if it has one, and leaves the others alone. -/
structure Overwriting (act : S → α → S) (look : (c : κ) → S → β c) (cell : α → Option κ) :
    Prop where
  written : ∀ a c s t, cell a = some c → look c (act s a) = look c (act t a)
  kept : ∀ a c s, cell a ≠ some c → look c (act s a) = look c s

namespace Overwriting

variable {log part : List α} {c : κ} {s t : S}

/-- A cell that a log overwrites holds the same after it, whatever was there before; any other cell
holds what it held. -/
theorem look_foldl_congr (h : Overwriting act look cell)
    (hc : (∃ a ∈ log, cell a = some c) ∨ look c s = look c t) :
    look c (log.foldl act s) = look c (log.foldl act t) := by
  induction log generalizing s t with
  | nil =>
    rcases hc with ⟨a, ha, -⟩ | hc
    · exact absurd ha List.not_mem_nil
    · exact hc
  | cons a log ih =>
    refine ih ?_
    by_cases ha : cell a = some c
    · exact .inr (h.written a c s t ha)
    · rcases hc with ⟨a', ha', hcell⟩ | hc
      · rcases List.mem_cons.mp ha' with rfl | hmem
        · exact absurd hcell ha
        · exact .inl ⟨a', hmem, hcell⟩
      · right
        rw [h.kept a c s ha, h.kept a c t ha, hc]

/-- A cell that no action of a log overwrites keeps what it holds. -/
theorem look_foldl_of_forall (h : Overwriting act look cell) (hc : ∀ a ∈ log, cell a ≠ some c)
    (s : S) : look c (log.foldl act s) = look c s := by
  induction log generalizing s with
  | nil => rfl
  | cons a log ih =>
    rw [List.foldl_cons, ih fun a' ha' => hc a' (List.mem_cons_of_mem _ ha')]
    exact h.kept a c s (hc a List.mem_cons_self)

/-- A cell for which every action of a log has the same value, and some action has one. -/
theorem look_foldl_eq {v : β c} (h : Overwriting act look cell)
    (hv : ∀ a ∈ log, cell a = some c → ∀ s, look c (act s a) = v)
    (hc : ∃ a ∈ log, cell a = some c) (s : S) : look c (log.foldl act s) = v := by
  induction log generalizing s with
  | nil =>
    obtain ⟨a, ha, -⟩ := hc
    exact absurd ha List.not_mem_nil
  | cons a log ih =>
    rw [List.foldl_cons]
    by_cases hlog : ∃ a' ∈ log, cell a' = some c
    · exact ih (fun a' ha' => hv a' (List.mem_cons_of_mem _ ha')) hlog _
    · -- the first action is the last one with a value for the cell
      rw [h.look_foldl_of_forall fun a' ha' hcell => hlog ⟨a', ha', hcell⟩]
      obtain ⟨a', ha', hcell⟩ := hc
      rcases List.mem_cons.mp ha' with rfl | hmem
      · exact hv a' List.mem_cons_self hcell s
      · exact absurd ⟨a', hmem, hcell⟩ hlog

/-- If the actions of a log for a cell agree, the cell holds what it held or their value after any
first part of the log. -/
theorem look_foldl_take {v : β c} (h : Overwriting act look cell)
    (hv : ∀ a ∈ log, cell a = some c → ∀ s, look c (act s a) = v) (k : ℕ) (s : S) :
    look c ((log.take k).foldl act s) = look c s ∨ look c ((log.take k).foldl act s) = v := by
  by_cases hc : ∃ a ∈ log.take k, cell a = some c
  · exact .inr (h.look_foldl_eq (fun a ha => hv a (List.mem_of_mem_take ha)) hc s)
  · exact .inl (h.look_foldl_of_forall (fun a ha hcell => hc ⟨a, ha, hcell⟩) s)

/-- A cell after a log holds what it was, or what the log leads to from elsewhere. -/
theorem look_foldl_or (h : Overwriting act look cell) (log : List α) (c : κ) (s t : S) :
    look c (log.foldl act t) = look c (log.foldl act s) ∨ look c (log.foldl act t) = look c t := by
  by_cases hc : ∃ a ∈ log, cell a = some c
  · exact .inl (h.look_foldl_congr (.inl hc))
  · exact .inr (h.look_foldl_of_forall (fun a ha hcell => hc ⟨a, ha, hcell⟩) t)

/-- A log that is replayed over a state which some of its actions have reached leads where it leads
from the beginning. -/
theorem look_foldl_foldl (h : Overwriting act look cell) (hpart : part ⊆ log) :
    look c (log.foldl act (part.foldl act s)) = look c (log.foldl act s) := by
  refine h.look_foldl_congr ?_
  by_cases hlog : ∃ a ∈ log, cell a = some c
  · exact .inl hlog
  · exact .inr (h.look_foldl_of_forall (fun a ha hcell => hlog ⟨a, hpart ha, hcell⟩) s)

end Overwriting

end Overwriting

/-! ### A base and a log -/

/-- A base and the actions since. -/
structure Journaled (S α : Type) where
  base : S
  log : List α

namespace Journaled

variable {α S κ : Type} {β : κ → Type} {act : S → α → S} {look : (c : κ) → S → β c}
  {cell : α → Option κ}

/-- What the log leads to. -/
def content (act : S → α → S) (j : Journaled S α) : S := j.log.foldl act j.base

/-- Actions are appended to the log. -/
def append (j : Journaled S α) (actions : List α) : Journaled S α :=
  { j with log := j.log ++ actions }

/-- The first half of a checkpoint: the content is the base, and the log is still there. -/
def rebase (act : S → α → S) (j : Journaled S α) : Journaled S α := { j with base := j.content act }

/-- The content after an append is the old one with the actions applied. -/
theorem content_append (j : Journaled S α) (actions : List α) :
    (j.append actions).content act = actions.foldl act (j.content act) :=
  List.foldl_append

/-- In the middle of a checkpoint every cell still holds what it held. -/
theorem look_content_rebase (h : Overwriting act look cell) (j : Journaled S α) (c : κ) :
    look c ((j.rebase act).content act) = look c (j.content act) :=
  h.look_foldl_foldl (List.Subset.refl _)

end Journaled

/-! ### Words in a row -/

/-- The beginning of a row of words is the words before the cut and the beginning of the next. -/
theorem take_flatMap {α γ : Type} (word : α → List γ) (l : List α) (n : ℕ) :
    ∃ k rest, k ≤ l.length ∧ (l.flatMap word).take n = (l.take k).flatMap word ++ rest ∧
      ((k = l.length ∧ rest = [] ∧ ((l.take k).flatMap word).length ≤ n) ∨
        ∃ a, l[k]? = some a ∧ rest <+: word a ∧ rest.length < (word a).length ∧
          ((l.take k).flatMap word).length + rest.length = n) := by
  induction l generalizing n with
  | nil => exact ⟨0, [], le_rfl, by simp, .inl ⟨rfl, rfl, Nat.zero_le _⟩⟩
  | cons a l ih =>
    by_cases hn : n < (word a).length
    · -- the cut is in the first word
      refine ⟨0, (word a).take n, Nat.zero_le _, ?_, .inr ⟨a, rfl, List.take_prefix _ _, ?_, ?_⟩⟩
      · rw [List.flatMap_cons, List.take_append_of_le_length hn.le, List.take_zero,
          List.flatMap_nil, List.nil_append]
      · rw [List.length_take]
        omega
      · rw [List.take_zero, List.flatMap_nil, List.length_nil, List.length_take]
        omega
    · obtain ⟨k, rest, hk, htake, hrest⟩ := ih (n - (word a).length)
      refine ⟨k + 1, rest, Nat.succ_le_succ hk, ?_, ?_⟩
      · rw [List.flatMap_cons, List.take_append, List.take_of_length_le (not_lt.mp hn), htake,
          List.take_succ_cons, List.flatMap_cons, List.append_assoc]
      · rw [List.take_succ_cons, List.flatMap_cons, List.length_append, List.length_cons,
          List.getElem?_cons_succ]
        obtain ⟨hlast, hnil, hle⟩ | ⟨a', ha', hprefix, hlt, hsum⟩ := hrest
        · exact .inl ⟨by omega, hnil, by omega⟩
        · exact .inr ⟨a', ha', hprefix, hlt, by omega⟩

/-! ### Windows -/

section Windows

variable {α : Type} {capacity : ℕ}

/-- Append to a window, and keep no more than the last entries. -/
def slide (capacity : ℕ) (window new : List α) : List α :=
  (window ++ new).drop ((window ++ new).length - capacity)

/-- A sliding window stays within its capacity. -/
theorem length_slide_le (window new : List α) : (slide capacity window new).length ≤ capacity := by
  rw [slide, List.length_drop]
  omega

/-- What has room is only appended. -/
theorem slide_eq_append {window new : List α} (h : (window ++ new).length ≤ capacity) :
    slide capacity window new = window ++ new := by
  rw [slide, Nat.sub_eq_zero_of_le h, List.drop_zero]

/-- No more new entries than there is room for are all kept. -/
theorem mem_slide_of_mem {window new : List α} {a : α} (h : new.length ≤ capacity) (ha : a ∈ new) :
    a ∈ slide capacity window new := by
  rw [slide, List.drop_append_of_le_length (by rw [List.length_append]; omega)]
  exact List.mem_append_right _ ha

/-- Appending twice is appending both. -/
theorem slide_slide (window first second : List α) :
    slide capacity (slide capacity window first) second =
      slide capacity window (first ++ second) := by
  simp only [slide]
  -- the entries that are dropped first are among those that are dropped in the end
  rw [← List.drop_append_of_le_length (Nat.sub_le _ _), List.drop_drop, List.append_assoc]
  congr 1
  simp only [List.length_drop, List.length_append]
  omega

/-- A window that the actions with an entry for it extend, each by its entry. -/
def Sliding {S A : Type} (act : S → A → S) (window : S → List α) (entry : A → Option α)
    (capacity : ℕ) : Prop :=
  ∀ s a, window (act s a) = slide capacity (window s) (entry a).toList ∨
    entry a = none ∧ window (act s a) = window s

/-- After a log, the window has been extended by the entries of the log. -/
theorem Sliding.window_foldl {S A : Type} {act : S → A → S} {window : S → List α}
    {entry : A → Option α} (h : Sliding act window entry capacity) (log : List A) {s : S}
    (hs : (window s).length ≤ capacity) :
    window (log.foldl act s) = slide capacity (window s) (log.filterMap entry) := by
  induction log generalizing s with
  | nil => rw [List.filterMap_nil, slide_eq_append (by rwa [List.append_nil]), List.append_nil]; rfl
  | cons a log ih =>
    have hentries : (a :: log).filterMap entry = (entry a).toList ++ log.filterMap entry := by
      rw [List.filterMap_cons]
      cases entry a <;> rfl
    rw [List.foldl_cons, hentries]
    rcases h s a with hstep | ⟨hnone, hstep⟩
    · rw [ih (hstep ▸ length_slide_le _ _), hstep, slide_slide]
    · rw [ih (hstep ▸ hs), hstep, hnone]
      rfl

end Windows

end Journaling
