import AcceleratorVirtualization.Lib.Revision
import AcceleratorVirtualization.Invariants.Consistency

/-!
# What becomes of a virtual accelerator

Every operation revises the records of some virtual accelerators. What all revisions have in common
is said once: no generation goes back, and a change of what can be observed of a virtual
accelerator comes with a new generation. The terms of an operation say what it promises besides:
whether it marks all its changes so, and whether owners, retirements, the counted states and the
reserved bytes stay as they are.
-/

namespace AcceleratorVirtualization

open VirtualizationState Revision

/-! ### Terms -/

/-- The binding of a virtual accelerator to a backing, with its isolation. -/
def VirtualAcceleratorRecord.bound (v : VirtualAcceleratorRecord) :=
  (v.assignment, v.backing, v.backingGeneration, v.physical, v.physicalGeneration, v.backingClass,
    v.multiplexing, v.isolationClass, v.isolation)

/-- What is observed of a virtual accelerator under a generation. -/
def VirtualAcceleratorRecord.observed (v : VirtualAcceleratorRecord) :=
  (v.owner, v.ownerGeneration, v.state, v.contract, v.projection, v.bound)

/-- What an operation promises about the virtual accelerators. -/
structure Terms where
  marks : Prop
  owners : Prop
  retirements : Prop
  counts : Prop
  sizes : Prop

/-- The same terms, without the promise that changes are marked. -/
def Terms.unmarked (t : Terms) : Terms := { t with marks := False }

/-- Whether a state counts as active. -/
def VirtualLifecycleState.counts (s : VirtualLifecycleState) : Bool :=
  s ≠ .retired && s ≠ .suspended && s ≠ .fenced

/-- The generation of the state advances by `a' - a` while the generation advances by `g' - g`. -/
def Behind (a g a' g' : ℕ) : Prop := a ≤ a' ∧ a' + g ≤ g' + a

theorem Behind.trans {a g a' g' a'' g'' : ℕ} (h : Behind a g a' g') (h' : Behind a' g' a'' g'') :
    Behind a g a'' g'' := by
  unfold Behind at *
  omega

theorem Behind.of_le {g g' : ℕ} (a : ℕ) (h : g ≤ g') : Behind a g a g' := by
  unfold Behind
  omega

theorem Behind.succ (a g : ℕ) : Behind a g (a + 1) (g + 1) := by
  unfold Behind
  omega

theorem Behind.le {a g a' g' : ℕ} (h : Behind a g a' g') (hle : a ≤ g) : a' ≤ g' := by
  unfold Behind at h
  omega

/-- What becomes of the record of a virtual accelerator. -/
structure Revised (t : Terms) (v v' : VirtualAcceleratorRecord) : Prop where
  generation : v.generation ≤ v'.generation
  behind : Behind v.stateGeneration v.generation v'.stateGeneration v'.generation
  backingGeneration : v.backingGeneration ≤ v'.backingGeneration
  rebound : v'.backingGeneration = v.backingGeneration ∨ v.generation < v'.generation
  marked : t.marks → v'.observed = v.observed ∨ v.generation < v'.generation
  owner : t.owners → v'.owner = v.owner ∧ v'.ownerGeneration = v.ownerGeneration
  retired : t.retirements → (v'.state = .retired ↔ v.state = .retired)
  counted : t.counts → v'.state.counts = v.state.counts
  sized : t.sizes → v'.allocatedBytes = v.allocatedBytes

/-- A revision that comes with a new generation; what it changes besides is marked by that. -/
structure Advanced (t : Terms) (v v' : VirtualAcceleratorRecord) : Prop
    extends Revised t.unmarked v v' where
  advanced : v.generation < v'.generation

variable {t : Terms} {v v' v'' : VirtualAcceleratorRecord}

theorem Revised.refl (v : VirtualAcceleratorRecord) : Revised t v v :=
  ⟨le_rfl, .of_le _ le_rfl, le_rfl, .inl rfl, fun _ => .inl rfl, fun _ => ⟨rfl, rfl⟩, fun _ => .rfl,
    fun _ => rfl, fun _ => rfl⟩

theorem Revised.trans (h : Revised t v v') (h' : Revised t v' v'') : Revised t v v'' where
  generation := h.generation.trans h'.generation
  behind := h.behind.trans h'.behind
  backingGeneration := h.backingGeneration.trans h'.backingGeneration
  rebound := by
    obtain hb | hb := h.rebound
    · exact h'.rebound.imp (·.trans hb) h.generation.trans_lt
    · exact .inr (hb.trans_le h'.generation)
  marked ht := by
    obtain ho | ho := h.marked ht
    · exact (h'.marked ht).imp (·.trans ho) h.generation.trans_lt
    · exact .inr (ho.trans_le h'.generation)
  owner ht := ⟨(h'.owner ht).1.trans (h.owner ht).1, (h'.owner ht).2.trans (h.owner ht).2⟩
  retired ht := (h'.retired ht).trans (h.retired ht)
  counted ht := (h'.counted ht).trans (h.counted ht)
  sized ht := (h'.sized ht).trans (h.sized ht)

theorem Advanced.revised (h : Advanced t v v') : Revised t v v' :=
  { h.toRevised with marked := fun _ => .inr h.advanced }

theorem Advanced.after (h : Revised t.unmarked v v') (h' : Advanced t v' v'') :
    Advanced t v v'' :=
  ⟨h.trans h'.toRevised, h.generation.trans_lt h'.advanced⟩

theorem Advanced.before (h : Advanced t v v') (h' : Revised t.unmarked v' v'') :
    Advanced t v v'' :=
  ⟨h.toRevised.trans h', h.advanced.trans_le h'.generation⟩

/-! ### Changes of one record -/

/-- A change that is not observed. -/
theorem Revised.of_observed (ho : v'.observed = v.observed) (hg : v'.generation = v.generation)
    (hs : v'.stateGeneration = v.stateGeneration)
    (hsize : t.sizes → v'.allocatedBytes = v.allocatedBytes) : Revised t v v' := by
  have hfields := ho
  simp only [VirtualAcceleratorRecord.observed, VirtualAcceleratorRecord.bound, Prod.mk.injEq]
    at hfields
  obtain ⟨howner, hgeneration, hstate, -, -, -, -, hbacking, -⟩ := hfields
  constructor
  · exact hg.ge
  · rw [hs, hg]
    exact .of_le _ le_rfl
  · exact hbacking.ge
  · exact .inl hbacking
  · exact fun _ => .inl ho
  · exact fun _ => ⟨howner, hgeneration⟩
  · exact fun _ => by rw [hstate]
  · exact fun _ => by rw [hstate]
  · exact hsize

/-- A life-cycle step. -/
def VirtualAcceleratorRecord.relocate (v : VirtualAcceleratorRecord)
    (target : VirtualLifecycleState) (reason : Text) (now : UnixMicros) :
    VirtualAcceleratorRecord :=
  { v with
    state := target
    stateGeneration := v.stateGeneration + 1
    stateReason := reason
    generation := v.generation + 1
    updatedAt := now }

theorem advanced_relocate {target : VirtualLifecycleState} {reason : Text} {now : UnixMicros}
    (hr : t.retirements → (target = .retired ↔ v.state = .retired))
    (hc : t.counts → target.counts = v.state.counts) :
    Advanced t v (v.relocate target reason now) where
  generation := Nat.le_succ _
  behind := .succ _ _
  backingGeneration := le_rfl
  rebound := .inl rfl
  marked := nofun
  owner _ := ⟨rfl, rfl⟩
  retired := hr
  counted := hc
  sized _ := rfl
  advanced := Nat.lt_succ_self _

/-- A change of the projection, the contract or the binding that keeps its generation. -/
theorem revised_of_state (ho : v'.owner = v.owner) (hog : v'.ownerGeneration = v.ownerGeneration)
    (hst : v'.state = v.state) (hg : v'.generation = v.generation)
    (hs : v'.stateGeneration = v.stateGeneration)
    (hb : v'.backingGeneration = v.backingGeneration)
    (hsize : v'.allocatedBytes = v.allocatedBytes) : Revised t.unmarked v v' where
  generation := hg.ge
  behind := by
    rw [hs, hg]
    exact .of_le _ le_rfl
  backingGeneration := hb.ge
  rebound := .inl hb
  marked := nofun
  owner _ := ⟨ho, hog⟩
  retired _ := by rw [hst]
  counted _ := by rw [hst]
  sized _ := hsize

namespace Impl

variable {σ : Type} {im im' im'' : Impl σ} {id : VirtualAcceleratorId}

/-! ### Records -/

/-- The record of a virtual accelerator. -/
def virtualRecord (im : Impl σ) (id : VirtualAcceleratorId) : Option VirtualAcceleratorRecord :=
  im.state.virtuals[id]?

theorem virtualRecord_congr (h : im'.state.virtuals = im.state.virtuals) :
    im'.virtualRecord = im.virtualRecord := by
  funext id
  rw [virtualRecord, virtualRecord, h]

/-- An operation revises one virtual accelerator. -/
abbrev Amends (id : VirtualAcceleratorId)
    (R : VirtualAcceleratorRecord → VirtualAcceleratorRecord → Prop) (im im' : Impl σ) : Prop :=
  At virtualRecord id R im im'

/-- An operation revises virtual accelerators. -/
abbrev Revises (t : Terms) (im im' : Impl σ) : Prop := All virtualRecord (Revised t) im im'

theorem Revises.of_virtuals (h : im'.state.virtuals = im.state.virtuals) : Revises t im im' :=
  .of_eq (virtualRecord_congr h) Revised.refl

theorem Revises.trans' (h : Revises t im im') (h' : Revises t im' im'') : Revises t im im'' :=
  All.trans (fun _ _ _ => Revised.trans) h h'

theorem revises_of_amends (h : Amends id (Revised t) im im') : Revises t im im' :=
  h.all Revised.refl

/-- Changing a record revises one virtual accelerator. -/
theorem amends_modify (im : Impl σ) (id : VirtualAcceleratorId)
    (f : VirtualAcceleratorRecord → VirtualAcceleratorRecord) :
    Amends id (fun v v' => v' = f v) im (im.modify .virtual id f) := by
  have hfind := find_modify_self im.state .virtual id f
  refine ⟨fun j hj => (hfind j).trans (if_neg (Ne.symm hj)), ?_⟩
  have hentry : (im.modify .virtual id f).virtualRecord id = (im.virtualRecord id).map f :=
    (hfind id).trans (if_pos rfl)
  rw [hentry]
  cases im.virtualRecord id with
  | none => exact .none
  | some v => exact .some rfl

/-- A virtual accelerator is changed by `f`, after changes of other records. -/
theorem amends_modify_of {R : VirtualAcceleratorRecord → VirtualAcceleratorRecord → Prop}
    {f : VirtualAcceleratorRecord → VirtualAcceleratorRecord}
    (hsame : im'.state.virtuals = im.state.virtuals)
    (h : ∀ v, im.state.virtuals[id]? = some v → R v (f v)) :
    Amends id R im (im'.modify .virtual id f) := by
  have hmodify := (amends_modify im' id f).congr_left (virtualRecord_congr hsame)
  exact hmodify.mono fun v _ hv hb => hb ▸ h v hv

/-- A change after another one. -/
theorem Amends.modify {R R' : VirtualAcceleratorRecord → VirtualAcceleratorRecord → Prop}
    {f : VirtualAcceleratorRecord → VirtualAcceleratorRecord} (h : Amends id R im im')
    (hsame : im''.state.virtuals = im'.state.virtuals)
    (hf : ∀ v w, im.state.virtuals[id]? = some v → R v w → R' v (f w)) :
    Amends id R' im (im''.modify .virtual id f) := by
  refine (h.comp ((amends_modify im'' id f).congr_left (virtualRecord_congr hsame))).mono ?_
  rintro v _ hv ⟨w, hw, rfl⟩
  exact hf v w hv hw

/-! ### Helpers -/

theorem virtuals_carryEach (generation : Generation) (ids : List LeaseId) (im : Impl σ) :
    (ids.foldl (fun im lease => im.carryLease generation lease) im).state.virtuals =
      im.state.virtuals := by
  refine foldl_unchanged (f := fun im : Impl σ => im.state.virtuals) (fun im id => ?_) ids im
  unfold carryLease
  split
  · rfl
  · split <;> rfl

/-- Only the count of attachments is changed. -/
def Counted (v v' : VirtualAcceleratorRecord) : Prop :=
  ∃ n, v' = { v with activeAttachments := n }

theorem Counted.revised (h : Counted v v') : Revised t v v' := by
  obtain ⟨n, rfl⟩ := h
  exact .of_observed rfl rfl rfl fun _ => rfl

/-- Fencing the leases of a virtual accelerator revises one virtual accelerator. -/
theorem amends_fenceLeases (im : Impl σ) (id : VirtualAcceleratorId) (reason : Text)
    (now : UnixMicros) : Amends id Counted im (im.fenceLeases id reason now) := by
  have hrefl : ∀ v, Counted v v := fun v => ⟨v.activeAttachments, rfl⟩
  unfold fenceLeases
  split
  · exact .of_eq rfl hrefl
  · rename_i record hr
    have hfold := virtuals_fenceEach reason now record.leases im
    dsimp only
    generalize record.leases.foldl
      (fun im lease => im.fenceLease reason now lease) im = im1 at hfold
    split
    · exact .of_eq (virtualRecord_congr hfold) hrefl
    · refine At.congr (t := (im1.touchVirtual record.id).modify .virtual id fun record =>
        { record with activeAttachments := 0 }) ?_ ?_
      · exact amends_modify_of hfold fun v _ => ⟨0, rfl⟩
      · refine virtualRecord_congr ?_
        split <;> rfl

/-- A transition that is refused changes nothing. -/
theorem transition_refused (clock : Clock) {target : VirtualLifecycleState} (reason : Text)
    (hv : im.state.virtuals[id]? = some v) (hl : isLegalTransition v.state target = false) :
    ∃ status, im.transition clock id target reason = (im, .error status) := by
  obtain ⟨status, h, -⟩ | ⟨-, h, -⟩ := transition_cases (c := clock) hv target reason
  · exact ⟨status, h⟩
  · rw [hl] at h
    cases h

/-- A legal transition relocates the virtual accelerator. -/
theorem transition_legal (clock : Clock) {target : VirtualLifecycleState} (reason : Text)
    (hv : im.state.virtuals[id]? = some v) (hl : isLegalTransition v.state target = true) :
    (im.transition clock id target reason).2 = .ok () ∧
      Amends id (fun v v' => v' = v.relocate target reason (clock.transition id)) im
        (im.transition clock id target reason).1 := by
  unfold transition
  simp only [hv, checkTransition_eq_ok.mpr hl]
  refine ⟨trivial, ?_⟩
  split
  · refine At.congr ?_ (virtualRecord_congr (virtuals_carryEach _ _ _))
    exact amends_modify_of rfl fun _ _ => rfl
  · exact amends_modify_of rfl fun _ _ => rfl

section Transition

variable {context : OpContext} {clock : Clock} {target : VirtualLifecycleState} {reason : Text}
variable {after : Impl σ → Impl σ}

theorem transitionAct_legal (hafter : ∀ im : Impl σ, (after im).state.virtuals = im.state.virtuals)
    (hv : im.state.virtuals[id]? = some v) (hl : isLegalTransition v.state target = true) :
    Amends id (fun v v' => v' = v.relocate target reason (clock.transition id)) im
      (transitionAct context clock id target reason after im).1 := by
  obtain ⟨hok, hamends⟩ := transition_legal clock reason hv hl
  unfold transitionAct
  split
  · rename_i hcase
    rw [hcase] at hok
    cases hok
  · rename_i im1 hcase
    rw [hcase] at hamends
    exact hamends.congr (virtualRecord_congr (hafter im1))

/-- A step of the life cycle is refused or marked. -/
theorem revises_transitionAct
    (hafter : ∀ im : Impl σ, (after im).state.virtuals = im.state.virtuals)
    (hv : im.state.virtuals[id]? = some v)
    (hr : isLegalTransition v.state target = true → t.retirements →
      (target = .retired ↔ v.state = .retired))
    (hc : isLegalTransition v.state target = true → t.counts → target.counts = v.state.counts) :
    Revises t im (transitionAct context clock id target reason after im).1 := by
  cases hl : isLegalTransition v.state target with
  | false =>
    obtain ⟨status, hrefused⟩ := transition_refused clock reason hv hl
    refine .of_virtuals ?_
    simp only [transitionAct, hrefused]
  | true =>
    refine revises_of_amends ((transitionAct_legal hafter hv hl).mono fun w _ hw hb => ?_)
    obtain rfl := Option.some.inj (hv.symm.trans hw)
    rw [hb]
    exact (advanced_relocate (hr hl) (hc hl)).revised

/-- A step that is taken marks what was changed before it. -/
theorem amends_transitionAct_after (h : Amends id (Revised t.unmarked) im im')
    (hafter : ∀ im : Impl σ, (after im).state.virtuals = im.state.virtuals)
    (hv : im'.state.virtuals[id]? = some v) (hl : isLegalTransition v.state target = true)
    (hr : t.retirements → (target = .retired ↔ v.state = .retired))
    (hc : t.counts → target.counts = v.state.counts) :
    Amends id (fun v v' => Advanced t v v' ∧ v'.state = target) im
      (transitionAct context clock id target reason after im').1 := by
  have hadvanced : Amends id (fun v v' => Advanced t v v' ∧ v'.state = target) im'
      (transitionAct context clock id target reason after im').1 := by
    refine (transitionAct_legal hafter hv hl).mono fun w _ hw hb => ?_
    obtain rfl := Option.some.inj (hv.symm.trans hw)
    rw [hb]
    exact ⟨advanced_relocate hr hc, rfl⟩
  refine (h.comp hadvanced).mono ?_
  rintro _ _ - ⟨w, hw, hw', hstate⟩
  exact ⟨Advanced.after hw hw', hstate⟩

theorem revises_transitionAct_after (h : Amends id (Revised t.unmarked) im im')
    (hafter : ∀ im : Impl σ, (after im).state.virtuals = im.state.virtuals)
    (hv : im'.state.virtuals[id]? = some v) (hl : isLegalTransition v.state target = true)
    (hr : t.retirements → (target = .retired ↔ v.state = .retired))
    (hc : t.counts → target.counts = v.state.counts) :
    Revises t im (transitionAct context clock id target reason after im').1 :=
  revises_of_amends ((amends_transitionAct_after h hafter hv hl hr hc).mono
    fun _ _ _ hw => hw.1.revised)

end Transition

theorem virtuals_recompute (im : Impl σ) :
    im.recomputeDerivedAccounting.state.virtuals = im.state.virtuals := rfl

theorem virtuals_releaseBacking (im : Impl σ) (id : BackingId) :
    (im.releaseBacking id).state.virtuals = im.state.virtuals := by
  unfold releaseBacking
  split <;> rfl

/-- The projection is derived anew. -/
theorem amends_rebuildProjection (im : Impl σ) (id : VirtualAcceleratorId) :
    Amends id (fun v v' => v' = project im.state im.nextId v) im (im.rebuildProjection id) :=
  amends_modify_of rfl fun _ _ => rfl

theorem revised_project (s : VirtualizationState) (n : ℕ) (v : VirtualAcceleratorRecord) :
    Revised t.unmarked v (project s n v) :=
  revised_of_state rfl rfl rfl rfl rfl rfl rfl

/-- Retirement is not undone. -/
theorem retired_iff_of_legal {s target : VirtualLifecycleState} (h : target ≠ .retired)
    (hl : isLegalTransition s target = true) : target = .retired ↔ s = .retired := by
  revert h hl
  cases s <;> cases target <;> decide

end Impl

end AcceleratorVirtualization
