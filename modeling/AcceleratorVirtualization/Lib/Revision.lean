import Mathlib.Data.Option.Defs
import Mathlib.Logic.Relation

/-!
# Revisions of a keyed store

A store holds an entry under some of its keys. A step revises the entry under one key, or every
entry, by a relation between the old and the new one; it neither makes nor loses an entry. Steps
at one key compose as their relations do, and a sweep over many keys revises every entry by a
relation that is reflexive and transitive.
-/

namespace Revision

variable {S K A I : Type*} {f : S → K → Option A} {k : K} {R R' Q : A → A → Prop} {s t u : S}

/-! ### Entries -/

/-- A reflexive relation holds of what may be absent. -/
theorem rel_refl (hR : ∀ a, R a a) : ∀ o : Option A, Option.Rel R o o
  | none => .none
  | some a => .some (hR a)

/-- Relations compose where values may be absent. -/
theorem rel_comp {o o' o'' : Option A} (h : Option.Rel R o o') (h' : Option.Rel Q o' o'') :
    Option.Rel (Relation.Comp R Q) o o'' := by
  cases h with
  | none =>
    cases h'
    exact .none
  | some h =>
    obtain h' | _ := h'
    exact .some ⟨_, h, h'⟩

/-- A relation may be widened on the values that are there. -/
theorem rel_mono {o o' : Option A} (h : Option.Rel R o o')
    (hR : ∀ a b, o = some a → R a b → R' a b) : Option.Rel R' o o' := by
  cases h with
  | none => exact .none
  | some h => exact .some (hR _ _ rfl h)

/-! ### One entry -/

/-- Only the entry under `k` may change, by `R`. -/
structure At (f : S → K → Option A) (k : K) (R : A → A → Prop) (s t : S) : Prop where
  other : ∀ j, j ≠ k → f t j = f s j
  entry : Option.Rel R (f s k) (f t k)

namespace At

/-- Nothing changes under the key. -/
theorem of_eq (h : f t = f s) (hR : ∀ a, R a a) : At f k R s t :=
  ⟨fun _ _ => by rw [h], by rw [h]; exact rel_refl hR _⟩

/-- Two changes in a row under one key. -/
theorem comp (h : At f k R s t) (h' : At f k Q t u) : At f k (Relation.Comp R Q) s u :=
  ⟨fun j hj => (h'.other j hj).trans (h.other j hj), rel_comp h.entry h'.entry⟩

/-- What is known of the entry before may be used. -/
theorem mono (h : At f k R s t) (hR : ∀ a b, f s k = some a → R a b → R' a b) : At f k R' s t :=
  ⟨h.other, rel_mono h.entry hR⟩

/-- The relation looks at the value of the new state only. -/
theorem congr (h : At f k R s t) (hu : f u = f t) : At f k R s u :=
  ⟨fun j hj => by rw [hu]; exact h.other j hj, by rw [hu]; exact h.entry⟩

/-- The relation looks at the value of the old state only. -/
theorem congr_left (h : At f k R s t) (hs : f s = f u) : At f k R u t :=
  ⟨fun j hj => by rw [← hs]; exact h.other j hj, by rw [← hs]; exact h.entry⟩

/-- The entry afterwards. -/
theorem some {a : A} (h : At f k R s t) (ha : f s k = some a) : ∃ b, f t k = some b ∧ R a b := by
  have hentry := h.entry
  rw [ha] at hentry
  generalize f t k = o at hentry
  obtain hR | _ := hentry
  exact ⟨_, rfl, hR⟩

end At

/-! ### Every entry -/

/-- Every entry may change, by `R`. -/
def All (f : S → K → Option A) (R : A → A → Prop) (s t : S) : Prop :=
  ∀ k, Option.Rel R (f s k) (f t k)

/-- A change under one key, when the others stay. -/
theorem At.all (h : At f k R s t) (hR : ∀ a, R a a) : All f R s t := by
  classical
  intro j
  by_cases hj : j = k
  · subst hj
    exact h.entry
  · rw [h.other j hj]
    exact rel_refl hR _

namespace All

/-- Nothing changes at all. -/
theorem of_eq (h : f t = f s) (hR : ∀ a, R a a) : All f R s t := fun k => by
  rw [h]
  exact rel_refl hR _

/-- Two revisions in a row, by a transitive relation. -/
theorem trans (hR : ∀ a b c, R a b → R b c → R a c) (h : All f R s t) (h' : All f R t u) :
    All f R s u := fun k => rel_mono (rel_comp (h k) (h' k)) fun a c _ ⟨b, hab, hbc⟩ =>
  hR a b c hab hbc

/-- The relation of a revision may be widened on the values that are there. -/
theorem mono (h : All f R s t) (hR : ∀ k a b, f s k = some a → R a b → R' a b) : All f R' s t :=
  fun k => rel_mono (h k) (hR k)

/-- A sweep. -/
theorem foldl {step : S → I → S} (hR : ∀ a, R a a) (htrans : ∀ a b c, R a b → R b c → R a c)
    (hstep : ∀ s i, All f R s (step s i)) (l : List I) (s : S) : All f R s (l.foldl step s) :=
  List.foldlRecOn l step (of_eq rfl hR) fun _ h i _ => h.trans htrans (hstep _ i)

/-- An entry that is there stays, and is revised. -/
theorem some {a : A} (h : All f R s t) (ha : f s k = some a) : ∃ b, f t k = some b ∧ R a b := by
  have hentry := h k
  rw [ha] at hentry
  generalize f t k = o at hentry
  obtain hR | _ := hentry
  exact ⟨_, rfl, hR⟩

/-- What is absent stays absent. -/
theorem none (h : All f R s t) (ha : f s k = none) : f t k = none := by
  have hentry := h k
  rw [ha] at hentry
  generalize f t k = o at hentry ⊢
  cases hentry
  rfl

end All

end Revision
