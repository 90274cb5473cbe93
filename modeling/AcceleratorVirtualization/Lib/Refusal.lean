import Mathlib.Logic.Basic

/-!
# Sequences of checks

A check is a computation that may refuse. A sequence of checks written with `do` passes if and
only if every one of them passes; the lemmas take such a sequence apart, one check at a time,
without following the branches that refuse.
-/

namespace Refusal

variable {ε α β : Type} {b : β}

/-- A sequence succeeds when both of its parts do. -/
theorem bind_eq_ok {x : Except ε α} {f : α → Except ε β} :
    (x >>= f) = .ok b ↔ ∃ a, x = .ok a ∧ f a = .ok b := by
  cases x with
  | error e => simp [bind, Except.bind]
  | ok a => simp [bind, Except.bind]

/-- A guard in front of the remaining checks. -/
theorem guard_bind_eq_ok {c : Prop} [Decidable c] {e : ε} {f : α → Except ε β} {x : Except ε β} :
    (if c then (throw e >>= f) else x) = .ok b ↔ ¬ c ∧ x = .ok b := by
  by_cases h : c
  · simp [h, throw, throwThe, MonadExceptOf.throw, bind, Except.bind]
  · simp [h]

/-- A sequence of checks that is cut in two begins with the same guards. -/
theorem guard_bind_split {γ δ : Type} {c : Prop} [Decidable c] {e : ε} {f : γ → Except ε β}
    {f' : γ → Except ε δ} {x : Except ε β} {y : Except ε δ} {g : δ → Except ε β}
    (h : x = y >>= g) :
    (if c then (throw e >>= f) else x) = (if c then (throw e >>= f') else y) >>= g := by
  split
  · rfl
  · exact h

/-- A guard as the last check. -/
theorem guard_eq_ok {c : Prop} [Decidable c] {e : ε} {x : Except ε β} :
    (if c then throw e else x) = .ok b ↔ ¬ c ∧ x = .ok b := by
  by_cases h : c
  · simp [h, throw, throwThe, MonadExceptOf.throw]
  · simp [h]

/-- A given value succeeds with itself. -/
theorem pure_eq_ok {a : β} : (pure a : Except ε β) = .ok b ↔ a = b := by
  simp [pure, Except.pure]

/-- A refusal does not succeed. -/
theorem throw_ne_ok {e : ε} : (throw e : Except ε β) = .ok b ↔ False := by
  simp [throw, throwThe, MonadExceptOf.throw]

@[simp] theorem mapError_ok {ε' : Type} (f : ε → ε') (a : β) :
    (Except.ok a : Except ε β).mapError f = .ok a := rfl

@[simp] theorem mapError_error {ε' : Type} (f : ε → ε') (e : ε) :
    (Except.error e : Except ε β).mapError f = .error (f e) := rfl

/-- Whether a sequence of checks passes, as a value. -/
theorem isOk_iff {x : Except ε β} : x.isOk = true ↔ ∃ b, x = .ok b := by
  cases x <;> simp [Except.isOk, Except.toBool]

/-- What a refusal is reported as does not decide whether there is one. -/
theorem mapError_eq_ok {ε' : Type} {f : ε → ε'} {x : Except ε β} :
    x.mapError f = .ok b ↔ x = .ok b := by
  cases x <;> simp

/-- A check over a list passes if it passes at every entry. -/
theorem forM_eq_ok {check : α → Except ε Unit} {l : List α} :
    l.forM check = .ok () ↔ ∀ a ∈ l, check a = .ok () := by
  induction l with
  | nil => simp [List.forM, pure, Except.pure]
  | cons a l ih =>
    change (check a >>= fun _ => l.forM check) = .ok () ↔ _
    rw [bind_eq_ok, List.forall_mem_cons, ← ih]
    exact ⟨fun ⟨_, ha, hl⟩ => ⟨ha, hl⟩, fun ⟨ha, hl⟩ => ⟨(), ha, hl⟩⟩

/-! ### Reasons -/

/-- Every reason a computation refuses with satisfies `p`. -/
def Only (p : ε → Prop) (x : Except ε α) : Prop := ∀ e, x = .error e → p e

variable {p : ε → Prop}

/-- The reasons of a sequence are those of its parts. -/
theorem Only.bind {x : Except ε α} {f : α → Except ε β} (hx : Only p x) (hf : ∀ a, Only p (f a)) :
    Only p (x >>= f) := by
  intro e he
  cases x with
  | error e' =>
    cases he
    exact hx _ rfl
  | ok a => exact hf a e he

/-- A success gives no reason. -/
theorem only_ok {a : α} : Only p (.ok a : Except ε α) := fun _ he => nomatch he

theorem only_pure {a : α} : Only p (pure a : Except ε α) := only_ok

/-- A refusal gives its own reason. -/
theorem only_error {e : ε} (h : p e) : Only p (.error e : Except ε α) := by
  intro e' he
  cases he
  exact h

theorem only_throw {e : ε} (h : p e) : Only p (throw e : Except ε α) := only_error h

/-- A guard in front of the remaining checks. -/
theorem Only.guard {c : Prop} [Decidable c] {e : ε} {f : α → Except ε β} {x : Except ε β} (h : p e)
    (hx : Only p x) : Only p (if c then (throw e >>= f) else x) := by
  split
  · exact only_error h
  · exact hx

/-- A guard as the last check. -/
theorem Only.guard_last {c : Prop} [Decidable c] {e : ε} {x : Except ε β} (h : p e)
    (hx : Only p x) : Only p (if c then throw e else x) := by
  split
  · exact only_error h
  · exact hx

end Refusal
