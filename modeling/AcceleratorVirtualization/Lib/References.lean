import Mathlib.Logic.Function.Basic

/-!
# References

Records of several kinds, each under an identity. A record can name others, by kind and identity.
The records are rooted if each of them is fit and names only records that are there. A step that
loses no record keeps them rooted if it does so for the one record that it writes.
-/

namespace References

variable {κ ι : Type*} {R : κ → Type*}

/-- The records there are. -/
abbrev Records (R : κ → Type*) (ι : Type*) := (k : κ) → ι → Option (R k)

/-- There is a record of the kind under the identity. -/
def Has (f : Records R ι) (n : κ × ι) : Prop := (f n.1 n.2).isSome

/-- What is asked of a record, and which other records it names. -/
structure Scheme (R : κ → Type*) (ι : Type*) where
  fit : (k : κ) → R k → Prop
  names : (k : κ) → R k → List (κ × ι)

namespace Scheme

variable {S : Scheme R ι} {f f' f'' : Records R ι} {k : κ} {id : ι} {r : R k}

/-- A record is fit, and the records that it names are there. -/
structure Sits (S : Scheme R ι) (f : Records R ι) (k : κ) (r : R k) : Prop where
  fit : S.fit k r
  named : ∀ n ∈ S.names k r, Has f n

/-- Every record sits. -/
def Rooted (S : Scheme R ι) (f : Records R ι) : Prop :=
  ∀ k id r, f k id = some r → S.Sits f k r

/-- No record of `f` is missing from `f'`, whose records are rooted. -/
structure Follows (S : Scheme R ι) (f f' : Records R ι) : Prop where
  kept : ∀ n, Has f n → Has f' n
  rooted : S.Rooted f'

/-- A record sits also where more records are. -/
theorem Sits.mono (h : S.Sits f k r) (hkept : ∀ n, Has f n → Has f' n) : S.Sits f' k r :=
  ⟨h.fit, fun n hn => hkept n (h.named n hn)⟩

/-- Rooted records follow themselves. -/
theorem Rooted.follows (h : S.Rooted f) : S.Follows f f := ⟨fun _ hn => hn, h⟩

/-- Following is transitive. -/
theorem Follows.trans (h : S.Follows f f') (h' : S.Follows f' f'') : S.Follows f f'' :=
  ⟨fun n hn => h'.kept n (h.kept n hn), h'.rooted⟩

/-- A step that loses nothing, and after which every record was there or sits. -/
theorem Follows.step (h : S.Follows f f') (hkept : ∀ n, Has f' n → Has f'' n)
    (hnew : ∀ k id r, f'' k id = some r → f' k id = some r ∨ S.Sits f' k r) :
    S.Follows f f'' := by
  refine ⟨fun n hn => hkept n (h.kept n hn), fun k id r hr => ?_⟩
  obtain hold | hsits := hnew k id r hr
  · exact (h.rooted k id r hold).mono hkept
  · exact hsits.mono hkept

/-! ### Writing a record -/

section Write

variable [DecidableEq κ] [DecidableEq ι]

/-- What is under an identity is replaced. -/
def write (f : Records R ι) (k : κ) (id : ι) (r : Option (R k)) : Records R ι :=
  Function.update f k (Function.update (f k) id r)

/-- A write that takes no record away, of a record that sits. -/
theorem Follows.write {o : Option (R k)} (h : S.Follows f f') (hkept : Has f' (k, id) → o.isSome)
    (ho : ∀ r, o = some r → S.Sits f' k r) : S.Follows f (Scheme.write f' k id o) := by
  refine h.step ?_ ?_
  · rintro ⟨k', id'⟩ hn
    obtain rfl | hk := eq_or_ne k' k
    · obtain rfl | hid := eq_or_ne id' id
      · simpa [Has, Scheme.write] using hkept hn
      · simpa [Has, Scheme.write, hid] using hn
    · simpa [Has, Scheme.write, hk] using hn
  · intro k' id' r hr
    obtain rfl | hk := eq_or_ne k' k
    · obtain rfl | hid := eq_or_ne id' id
      · rw [Scheme.write, Function.update_self, Function.update_self] at hr
        exact .inr (ho r hr)
      · rw [Scheme.write, Function.update_self, Function.update_of_ne hid] at hr
        exact .inl hr
    · rw [Scheme.write, Function.update_of_ne hk] at hr
      exact .inl hr

/-- A new record that sits. -/
theorem Follows.enter (h : S.Follows f f') (hr : S.Sits f' k r) :
    S.Follows f (Scheme.write f' k id (some r)) := by
  refine h.write (fun _ => rfl) ?_
  rintro _ ⟨⟩
  exact hr

/-- A change after which a record sits if it did before. -/
theorem Follows.revise {g : R k → R k} (h : S.Follows f f')
    (hg : ∀ r, S.Sits f' k r → S.Sits f' k (g r)) :
    S.Follows f (Scheme.write f' k id ((f' k id).map g)) := by
  refine h.write (fun hn => by simpa [Has] using hn) fun r hr => ?_
  obtain ⟨r, hold, rfl⟩ := Option.map_eq_some_iff.mp hr
  exact hg r (h.rooted k id r hold)

end Write

end Scheme

end References
