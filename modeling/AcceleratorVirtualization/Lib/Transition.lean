import Mathlib.Logic.Basic

/-!
# Runs of a partial step function

A step takes a state and a label to the next state, if the label can happen there. A run is a list
of labels that happen one after the other. A property that holds at the beginning and that every
step keeps holds at the end of every run; where it is kept under a condition on the state before the
step and on its label, it holds at the end of the runs that meet the condition throughout.
-/

namespace Transition

variable {σ α : Type*} (step : σ → α → Option σ)

/-- The state after a run. -/
def run (s : σ) : List α → Option σ
  | [] => some s
  | a :: as => (step s a).bind fun s' => run s' as

/-- Whether every step of a run meets a condition, in the state it happens in. -/
def throughout (c : σ → α → Bool) (s : σ) : List α → Bool
  | [] => true
  | a :: as => c s a && (step s a).all fun s' => throughout c s' as

variable {step} {c : σ → α → Bool} {I : σ → Prop} {s s' : σ} {as : List α}

/-- A run of a first action and the rest. -/
theorem run_cons {a : α} :
    run step s (a :: as) = some s' ↔ ∃ u, step s a = some u ∧ run step u as = some s' := by
  simp [run, Option.bind_eq_some_iff]

/-- What every step keeps under a condition, every run keeps that meets it. -/
theorem invariant (hstep : ∀ s a s', I s → c s a = true → step s a = some s' → I s') (h : I s)
    (hr : run step s as = some s') (hc : throughout step c s as = true) : I s' := by
  induction as generalizing s with
  | nil =>
    cases hr
    exact h
  | cons a as ih =>
    obtain ⟨u, hu, hr⟩ := run_cons.mp hr
    rw [throughout, Bool.and_eq_true, hu, Option.all_some] at hc
    exact ih (hstep s a u h hc.1 hu) hr hc.2

/-- What every step keeps, every run keeps. -/
theorem invariant_of_step (hstep : ∀ s a s', I s → step s a = some s' → I s') (h : I s)
    (hr : run step s as = some s') : I s' := by
  induction as generalizing s with
  | nil =>
    cases hr
    exact h
  | cons a as ih =>
    obtain ⟨u, hu, hr⟩ := run_cons.mp hr
    exact ih (hstep s a u h hu) hr

end Transition
