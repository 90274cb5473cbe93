import Mathlib.Data.List.Infix

/-!
# Simulation of runs

Two partial step functions, the concrete one with labels that mean labels of the abstract one. Where
every concrete step between related states is an abstract step to related states again, every
concrete run is an abstract run, and what holds at the end of abstract runs is known of the concrete
ones. The steps need to be simulated only where they lead to states that a condition admits; the run
has to stay within it.
-/

namespace Simulation

variable {S T α β : Type*} {step : S → α → Option S} {step' : T → β → Option T} {meaning : α → β}
  {R : S → T → Prop} {admits : α → S → Prop}

/-- A run is simulated if its steps are. -/
theorem run (hstep : ∀ s t a s', R s t → admits a s' → step s a = some s' →
      ∃ t', step' t (meaning a) = some t' ∧ R s' t')
    {l : List α} {s s' : S} {t : T} (h : R s t)
    (hl : ∀ past a, past ++ [a] <+: l → ∀ u, (past ++ [a]).foldlM step s = some u → admits a u)
    (hr : l.foldlM step s = some s') :
    ∃ t', (l.map meaning).foldlM step' t = some t' ∧ R s' t' := by
  induction l generalizing s t with
  | nil =>
    obtain rfl := Option.some.inj hr
    exact ⟨t, rfl, h⟩
  | cons a l ih =>
    obtain ⟨u, hu, hr⟩ := Option.bind_eq_some_iff.mp hr
    have hadmits : admits a u := by
      refine hl [] a ?_ u ?_
      · exact List.prefix_append [a] l
      · change step s a >>= _ = some u
        rw [hu]
        rfl
    obtain ⟨t', ht', hR⟩ := hstep s t a u h hadmits hu
    -- the rest of the run begins where the first step leads
    obtain ⟨t'', hrun, hR'⟩ := ih hR (fun past b hpast v hv => by
      refine hl (a :: past) b ?_ v ?_
      · exact (List.prefix_cons_inj a).mpr hpast
      · change step s a >>= _ = some v
        rw [hu]
        exact hv) hr
    refine ⟨t'', ?_, hR'⟩
    change step' t (meaning a) >>= _ = some t''
    rw [ht']
    exact hrun

end Simulation
