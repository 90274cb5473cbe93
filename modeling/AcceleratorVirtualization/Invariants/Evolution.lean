import AcceleratorVirtualization.Invariants.Book
import AcceleratorVirtualization.Runtime.Run

/-!
# How a virtual accelerator evolves

What one operation may do to a virtual accelerator, seen from before and after it: where on the
life cycle it may go, that its generation advances with its state, that nothing is bound anew to a
retired one, and what a fenced one keeps. The relation composes, so that an operation that changes
the same virtual accelerator several times is judged by its ends.
-/

namespace AcceleratorVirtualization

open Leasing

/-- The assignment and the backing a virtual accelerator points to. -/
def Phase.binding (φ : Phase) : BackingAssignmentId × BackingId := (φ.assignment, φ.backing)

/-- How a virtual accelerator may change: its state by `D`; unless `grants` it does not come into
use, and if `sealed` a fenced one keeps its owner, its contract, its binding and its leases until
it is retired. -/
structure Evolves (D : VirtualLifecycleState → VirtualLifecycleState → Prop) (grants sealed : Prop)
    (q q' : Seat ℕ ℕ Phase) : Prop where
  state : D q.phase.state q'.phase.state
  generation : q.phase.generation ≤ q'.phase.generation
  advances : q'.phase.state ≠ q.phase.state → q.phase.generation < q'.phase.generation
  final : q.phase.state = .retired → q'.phase.state = .retired
  retired : q'.phase.state = .retired → q'.phase.binding = (0, 0) ∨
    q.phase.state = .retired ∧ q'.phase.binding = q.phase.binding
  bound : ¬ grants → leaseRules.occupied q'.phase →
    leaseRules.occupied q.phase ∧ q'.phase.binding = q.phase.binding
  fenced : sealed → q.phase.state = .fenced → q'.phase.state = .retired ∨
    q'.phase.state = .fenced ∧ q'.owner = q.owner ∧ q'.phase.contract = q.phase.contract ∧
      q'.phase.binding = q.phase.binding ∧ q'.leases = q.leases

namespace Evolves

variable {D : VirtualLifecycleState → VirtualLifecycleState → Prop} {grants sealed : Prop}
variable {q q' q'' : Seat ℕ ℕ Phase}

theorem refl (hD : ∀ s, D s s) (q : Seat ℕ ℕ Phase) : Evolves D grants sealed q q where
  state := hD _
  generation := Nat.le_refl _
  advances h := absurd rfl h
  final := id
  retired h := .inr ⟨h, rfl⟩
  bound _ h := ⟨h, rfl⟩
  fenced _ h := .inr ⟨h, rfl, rfl, rfl, rfl⟩

theorem trans (hD : ∀ s s' s'', D s s' → D s' s'' → D s s'') (h : Evolves D grants sealed q q')
    (h' : Evolves D grants sealed q' q'') : Evolves D grants sealed q q'' where
  state := hD _ _ _ h.state h'.state
  generation := h.generation.trans h'.generation
  advances hne := by
    by_cases hs : q'.phase.state = q.phase.state
    · exact Nat.lt_of_le_of_lt h.generation (h'.advances fun hc => hne (hc.trans hs))
    · exact Nat.lt_of_lt_of_le (h.advances hs) h'.generation
  final hr := h'.final (h.final hr)
  retired hr := by
    obtain h0 | ⟨hr', hb'⟩ := h'.retired hr
    · exact .inl h0
    · rw [hb']
      exact h.retired hr'
  bound hg ho := by
    obtain ⟨ho', hb'⟩ := h'.bound hg ho
    obtain ⟨ho, hb⟩ := h.bound hg ho'
    exact ⟨ho, hb'.trans hb⟩
  fenced hs hf := by
    obtain hr | ⟨hf', hown, hcon, hbind, hls⟩ := h.fenced hs hf
    · exact .inl (h'.final hr)
    · obtain hr | ⟨hf'', hown', hcon', hbind', hls'⟩ := h'.fenced hs hf'
      · exact .inl hr
      · exact .inr ⟨hf'', hown'.trans hown, hcon'.trans hcon, hbind'.trans hbind, hls'.trans hls⟩

/-- A change that is no life-cycle step: the state and the binding stay, and a fenced virtual
accelerator is not touched by it. -/
theorem of_state (hD : ∀ s, D s s) (hs : q'.phase.state = q.phase.state)
    (hg : q.phase.generation ≤ q'.phase.generation) (hb : q'.phase.binding = q.phase.binding)
    (hf : sealed → q.phase.state = .fenced →
      q'.owner = q.owner ∧ q'.phase.contract = q.phase.contract ∧ q'.leases = q.leases) :
    Evolves D grants sealed q q' where
  state := hs ▸ hD _
  generation := hg
  advances h := absurd hs h
  final h := hs.trans h
  retired h := .inr ⟨hs.symm.trans h, hb⟩
  bound _ h := by
    refine ⟨?_, hb⟩
    simpa only [leaseRules, hs] using h
  fenced hsealed h := by
    obtain ⟨ho, hc, hl⟩ := hf hsealed h
    exact .inr ⟨hs.trans h, ho, hc, hb, hl⟩

/-- A life-cycle step to an unoccupied phase. -/
theorem of_step (hd : D q.phase.state q'.phase.state)
    (hg : q.phase.generation < q'.phase.generation) (hq : q.phase.state ≠ .retired)
    (hq' : lifecycleAllowsLeases q'.phase.state = false)
    (hr : q'.phase.state = .retired → q'.phase.binding = (0, 0))
    (hf : sealed → q.phase.state = .fenced → q'.phase.state = .retired) :
    Evolves D grants sealed q q' where
  state := hd
  generation := hg.le
  advances _ := hg
  final h := absurd h hq
  retired h := .inl (hr h)
  bound _ h := by simp [leaseRules, hq'] at h
  fenced hs h := .inl (hf hs h)

end Evolves

/-! ### Courses -/

/-- A course to one state: no change, or the edge to it. -/
def towards (target s s' : VirtualLifecycleState) : Prop :=
  s' = s ∨ s' = target ∧ isLegalTransition s target = true

/-- The course of a policy change: what is in use is released, and any binding may be taken
away. -/
def revalidates (s s' : VirtualLifecycleState) : Prop :=
  s' = s ∨ lifecycleAllowsLeases s = true ∧ s' = .provisioned ∨
    s ≠ .retired ∧ s' = .recoveryRequired

/-- The state an operation leads to. -/
def Op.target : Op → VirtualLifecycleState
  | .registerPhysical .. | .refreshPhysical .. | .physicalLost .. => .recoveryRequired
  | .activate _ => .active
  | .drain .. => .draining
  | .resolveRecovery .. | .suspend .. => .suspended
  | .fenceVirtual .. | .fenceTenant .. => .fenced
  | .retireVirtual .. => .retired
  | .attach _ => .attached
  | .prepareMigration _ => .migrating
  | _ => .provisioned

/-- Where an operation may lead a virtual accelerator. -/
def Op.course : Op → VirtualLifecycleState → VirtualLifecycleState → Prop
  | .setPolicy .. => revalidates
  | op => towards op.target

/-- Whether an operation brings a virtual accelerator into use. -/
def Op.grants (op : Op) : Prop := ∃ auth, op = .attach auth

theorem towards_refl (t s : VirtualLifecycleState) : towards t s s := .inl rfl

theorem towards_trans {t s s' s'' : VirtualLifecycleState} (h : towards t s s')
    (h' : towards t s' s'') : towards t s s'' := by
  obtain rfl | ⟨rfl, hl⟩ := h
  · exact h'
  · obtain rfl | ⟨rfl, -⟩ := h'
    · exact .inr ⟨rfl, hl⟩
    · exact .inr ⟨rfl, hl⟩

theorem revalidates_trans {s s' s'' : VirtualLifecycleState} (h : revalidates s s')
    (h' : revalidates s' s'') : revalidates s s'' := by
  obtain rfl | ⟨ho, rfl⟩ | ⟨hr, rfl⟩ := h
  · exact h'
  · obtain rfl | ⟨hc, -⟩ | ⟨-, rfl⟩ := h'
    · exact .inr (.inl ⟨ho, rfl⟩)
    · cases hc
    · refine .inr (.inr ⟨?_, rfl⟩)
      rintro rfl
      cases ho
  · obtain rfl | ⟨hc, -⟩ | ⟨-, rfl⟩ := h'
    · exact .inr (.inr ⟨hr, rfl⟩)
    · cases hc
    · exact .inr (.inr ⟨hr, rfl⟩)

/-- A virtual accelerator that is not retired can be sent to recovery. -/
theorem isLegalTransition_recoveryRequired {s : VirtualLifecycleState} (h : s ≠ .retired)
    (hr : s ≠ .recoveryRequired) : isLegalTransition s .recoveryRequired = true := by
  revert h hr
  cases s <;> decide

/-- What is in use can be released. -/
theorem isLegalTransition_provisioned {s : VirtualLifecycleState}
    (h : lifecycleAllowsLeases s = true) : isLegalTransition s .provisioned = true := by
  revert h
  cases s <;> decide

variable {op : Op} {s s' s'' : VirtualLifecycleState}

theorem Op.course_refl (op : Op) (s : VirtualLifecycleState) : op.course s s := by
  cases op <;> exact .inl rfl

theorem Op.course_trans (h : op.course s s') (h' : op.course s' s'') : op.course s s'' := by
  cases op
  case setPolicy => exact revalidates_trans h h'
  all_goals exact towards_trans h h'

/-- Every course stays on the life cycle. -/
theorem Op.course_legal (h : op.course s s') : s' = s ∨ isLegalTransition s s' = true := by
  have htowards : ∀ t, towards t s s' → s' = s ∨ isLegalTransition s s' = true := by
    rintro t (rfl | ⟨rfl, hl⟩)
    · exact .inl rfl
    · exact .inr hl
  cases op
  case setPolicy =>
    obtain rfl | ⟨ho, rfl⟩ | ⟨hr, rfl⟩ := h
    · exact .inl rfl
    · exact .inr (isLegalTransition_provisioned ho)
    · by_cases hs : s = .recoveryRequired
      · exact .inl hs.symm
      · exact .inr (isLegalTransition_recoveryRequired hr hs)
  all_goals exact htowards _ h

/-- Only a preparation leads into a migration. -/
theorem Op.course_migrating (h : op.course s .migrating) :
    s = .migrating ∨ ∃ auth, op = .prepareMigration auth := by
  cases op
  case prepareMigration auth => exact .inr ⟨auth, rfl⟩
  case setPolicy =>
    obtain h | ⟨-, h⟩ | ⟨-, h⟩ := h
    · exact .inl h.symm
    · cases h
    · cases h
  all_goals
    obtain h | ⟨h, -⟩ := h
    · exact .inl h.symm
    · cases h

end AcceleratorVirtualization
