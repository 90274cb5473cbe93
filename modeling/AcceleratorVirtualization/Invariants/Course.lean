import AcceleratorVirtualization.Invariants.RecordOperations

/-!
# The course of the virtual accelerators

One statement for all operations: what becomes of the virtual accelerators, under which conditions
every change of one is marked by a new generation, and under which conditions the states that are
counted as active stay as they are. The conditions are on the state before the operation.
-/

namespace AcceleratorVirtualization

open VirtualizationState Revision Leasing

/-! ### Terms of the operations -/

namespace Op

/-- Whether an operation changes owners or their generations. -/
def reassigns : Op → Bool
  | .transferOwnership .. | .fenceTenant .. => true
  | _ => false

/-- Whether an operation is a retirement. -/
def retires : Op → Bool
  | .retireVirtual .. => true
  | _ => false

/-- Whether an operation makes a virtual accelerator. -/
def commissions : Op → Bool
  | .createVirtual .. => true
  | _ => false

/-- Whether an operation changes how many bytes are reserved. -/
def resizes : Op → Bool
  | .reserveAllocation .. | .releaseAllocation .. => true
  | _ => false

/-- Whether an operation ends with a recount of the derived counters. -/
def recounts : Op → Bool
  | .physicalLost .. | .setPolicy .. | .fenceTenant .. | .activate .. | .suspend .. | .resume ..
  | .fenceVirtual .. | .retireVirtual .. => true
  | _ => false

end Op

namespace Impl

variable {σ : Type} {im im' : Impl σ}

/-- Every change of a virtual accelerator is marked: no tenant is fenced that owns a virtual
accelerator which is not in use, and no policy is set while there is one that is neither retired nor
in use and that keeps its backing. -/
def marks (im : Impl σ) (now : UnixMicros) : Op → Bool
  | .fenceTenant auth id generation _ =>
    match fenceTenantCheck auth id generation im with
    | .error _ => true
    | .ok tenant => tenant.owned.all fun x =>
      im.state.virtuals[x]?.all fun v => lifecycleRequiresBacking v.state
  | .setPolicy auth policy =>
    match setPolicyCheck auth policy im with
    | .error _ => true
    | .ok updated => im.state.virtuals.toList.all fun (id, v) =>
      decide (v.state = .retired) || lifecycleRequiresBacking v.state ||
        im.beginOp.withdrawsFrom updated now id
  | _ => true

/-- No operation that does not recount takes a virtual accelerator out of the states that are not
counted, or into one: no recovery is resolved, nothing is bound, attached, prepared or released for
a suspended one, and no other device is registered under the key of one whose recorded holder is
suspended or fenced. -/
def countsAlong (im : Impl σ) : Op → Bool
  | .registerPhysical auth agent boot d =>
    !(registerPhysicalCheck auth agent boot d im).isOk ||
      (im.uprooted d).all fun v => v.state ≠ .suspended && v.state ≠ .fenced
  | .resolveRecovery auth _ => !(resolveRecoveryCheck auth im).isOk
  | .assignBacking auth backing _ =>
    match assignBackingCheck auth backing false im with
    | .error _ => true
    | .ok plan => plan.1.record.state ≠ .suspended
  | .replaceBacking auth backing _ =>
    match assignBackingCheck auth backing true im with
    | .error _ => true
    | .ok plan => plan.1.record.state ≠ .suspended
  | .attach auth =>
    match attachCheck auth im with
    | .error _ => true
    | .ok owned => owned.record.state ≠ .suspended
  | .detach auth | .revokeLease auth _ =>
    match resolveLeaseFor auth im with
    | .error _ => true
    | .ok held => held.record.state ≠ .suspended || 1 < held.record.activeAttachments
  | .prepareMigration auth =>
    match prepareMigrationCheck auth im with
    | .error _ => true
    | .ok f => f.record.state ≠ .suspended
  | _ => true

/-! ### Courses -/

/-- Virtual accelerators are revised, and new ones made; none is lost. -/
structure Course (t : Terms) (im im' : Impl σ) : Prop where
  kept : ∀ (x : VirtualAcceleratorId) (v : VirtualAcceleratorRecord),
    im.state.virtuals[x]? = some v → ∃ v', im'.state.virtuals[x]? = some v' ∧ Revised t v v'
  made : ∀ (x : VirtualAcceleratorId) (v' : VirtualAcceleratorRecord),
    im'.state.virtuals[x]? = some v' → im.state.virtuals[x]? = none →
      v'.stateGeneration ≤ v'.generation

theorem Revises.course {t : Terms} (h : Revises t im im') : Course t im im' where
  kept _ _ hv := All.some h hv
  made _ _ hv' hnone := absurd ((All.none h hnone).symm.trans hv') nofun

theorem course_createVirtualAct {t : Terms} {auth : Authority} {name : Text} {owner : TenantId}
    {ownerGeneration : Generation} {contract : ResourceContract} {clock : Clock}
    {tenant : TenantRecord} (hw : im.state.WellKeyed) :
    Course t im
      (createVirtualAct auth name owner ownerGeneration contract clock tenant im).1 := by
  have hnone : im.state.virtuals[im.nextId]? = none := hw.fresh .virtual le_rfl
  generalize hact :
    (createVirtualAct auth name owner ownerGeneration contract clock tenant im).1 = im1
  have hvirtuals : ∃ v : VirtualAcceleratorRecord, v.stateGeneration = 1 ∧ v.generation = 1 ∧
      im1.state.virtuals = im.state.virtuals.insert im.nextId v := by
    rw [← hact]
    exact ⟨_, rfl, rfl, rfl⟩
  obtain ⟨v, hs, hg, hvirtuals⟩ := hvirtuals
  constructor
  · intro x v0 hv0
    refine ⟨v0, ?_, .refl v0⟩
    rw [hvirtuals, Std.ExtTreeMap.getElem?_insert, if_neg, hv0]
    intro hx
    rw [Nat.compare_eq_eq.mp hx] at hnone
    exact absurd (hnone.symm.trans hv0) nofun
  · intro x v' hv' hx
    rw [hvirtuals, Std.ExtTreeMap.getElem?_insert] at hv'
    split at hv'
    · cases hv'
      rw [hs, hg]
    · exact absurd (hx.symm.trans hv') nofun

/-! ### Conditions -/

/-- A policy marks what it does to every virtual accelerator, if it takes the backing of those
that are not in use. -/
theorem withdraws_of_marks {auth : Authority} {policy updated : VirtualizationPolicy}
    {now : UnixMicros} (hm : im.marks now (.setPolicy auth policy) = true)
    (hcheck : setPolicyCheck auth policy im = .ok updated) {x : VirtualAcceleratorId}
    {v : VirtualAcceleratorRecord} {l₁ l₂ : List VirtualAcceleratorId}
    (hv : im.state.virtuals[x]? = some v) (hr : v.state ≠ .retired)
    (hkeys : (im.beginOp.superseded updated now).state.virtuals.keys = l₁ ++ x :: l₂) :
    lifecycleRequiresBacking v.state = true ∨ withdraws (im.beginOp.nextPolicy updated) now
      (l₁.foldl (revalidateVirtual (im.beginOp.nextPolicy updated) now)
        (im.beginOp.superseded updated now)) x := by
  simp only [marks, hcheck, List.all_eq_true] at hm
  have hx := hm (x, v) (Std.ExtTreeMap.mem_toList_iff_getElem?_eq_some.mpr hv)
  simp only [hr, decide_false, Bool.false_or, Bool.or_eq_true] at hx
  refine hx.imp id fun hw => ?_
  simp only [withdrawsFrom, takeWhile_of_nodup Std.ExtTreeMap.nodup_keys hkeys] at hw
  generalize l₁.foldl _ _ = before at hw ⊢
  split at hw
  · cases hw
  · rename_i v1 hv1
    exact ⟨v1, hv1, by simpa using hw⟩

/-- A registration keeps the counted states, if the holders it sends to recovery are counted. -/
theorem counts_registerPhysicalAct {auth : Authority} {agent : AgentId} {boot : AgentBootId}
    {d : PhysicalDeviceDescriptor} {clock : Clock} (hw : im.state.WellKeyed)
    (hcheck : registerPhysicalCheck auth agent boot d im = .ok ())
    (hc : im.countsAlong (.registerPhysical auth agent boot d) = true) {x : VirtualAcceleratorId}
    {v v' : VirtualAcceleratorRecord} (hv : im.state.virtuals[x]? = some v)
    (hv' : (registerPhysicalAct auth agent boot d clock () im.beginOp).1.state.virtuals[x]? =
      some v') : v'.state.counts = v.state.counts := by
  have hturns : Turns (fun q q' => q'.phase.state.counts = q.phase.state.counts) (fun _ => True)
      False False im.beginOp (registerPhysicalAct auth agent boot d clock () im.beginOp).1 := by
    refine turns_registerPhysicalAct (Tracks.beginOp hw)
      (P := fun s => s ≠ .retired → s.counts = true) (fun _ => rfl) ?_ nofun ?_
    · intro key device hf hd id hid x v hr hv hs
      simp only [countsAlong, hcheck, Except.isOk, Except.toBool, Bool.not_true, Bool.false_or,
        List.all_eq_true, Bool.and_eq_true, decide_eq_true_eq] at hc
      have hx := hc v (mem_uprooted hf hd hid hr hv)
      simp only [VirtualLifecycleState.counts, hs, hx.1, hx.2, ne_eq, not_false_eq_true,
        decide_true, Bool.and_self]
    · intro q hq hs
      rw [hs hq]
      rfl
  have hrefl : ∀ q : Seat ℕ ℕ Phase, q.phase.state.counts = q.phase.state.counts := fun _ => rfl
  have htrans : ∀ q q' q'' : Seat ℕ ℕ Phase, q'.phase.state.counts = q.phase.state.counts →
      q''.phase.state.counts = q'.phase.state.counts →
      q''.phase.state.counts = q.phase.state.counts := fun _ _ _ h h' => h'.trans h
  have hseat : im.beginOp.book.seat x = some v.toSeat := seat_of_virtual hv
  obtain ⟨q', hq', hcounts⟩ := Book.Steps.seat (R := fun q q' => q'.phase.state.counts =
    q.phase.state.counts) hrefl htrans hturns hseat
  obtain rfl := Option.some.inj ((seat_of_virtual hv').symm.trans hq')
  exact hcounts

/-- What can be bound is not retired, and counted as active unless it is suspended. -/
theorem counts_of_bindable {value : VirtualAcceleratorRecord} {backing : BackingRecord}
    {replacing : Bool} (h : im.checkBindable value backing replacing = .ok ()) :
    value.state ≠ .retired ∧ (value.state ≠ .suspended → value.state.counts = true) := by
  obtain ⟨-, -, -, hs | hs | ⟨-, hs⟩⟩ := checkBindable_ok h
  · rw [hs]
    exact ⟨nofun, fun _ => rfl⟩
  · rw [hs]
    exact ⟨nofun, fun hc => absurd rfl hc⟩
  · exact ⟨not_retired_of_requires hs, fun _ => counts_of_requires hs⟩

/-- The last attachment of what is not suspended is released from a counted state. -/
theorem counts_of_released {v : VirtualAcceleratorRecord}
    (h : (decide (v.state ≠ .suspended) || decide (1 < v.activeAttachments)) = true)
    (hlast : v.activeAttachments - 1 = 0)
    (hl : isLegalTransition v.state .provisioned = true) : v.state.counts = true := by
  have hs : v.state ≠ .suspended := by
    rw [Bool.or_eq_true, decide_eq_true_eq, decide_eq_true_eq] at h
    refine h.resolve_right ?_
    omega
  revert hl hs
  cases v.state <;> decide

/-! ### Every body -/

variable {t : Terms} {clock : Clock} {op : Op} {b : Body σ Unit}

theorem revises_checked {π α : Type} {context : Impl σ → OpContext} {kind : AuditKind}
    {check : Impl σ → Except Status π} {act : π → Body σ α}
    (hact : ∀ plan, check im = .ok plan → Revises t im (act plan im).1) :
    Revises t im (checked (fun im => orRefuse (context im) kind (check im)) act im).1 :=
  fst_checked (p := fun im' : Impl σ => Revises t im im') (.of_virtuals rfl) hact

theorem revises_forget {α : Type} {body : Body σ α} (h : Revises t im (body im).1) :
    Revises t im (body.forget im).1 := h

/-- What an operation that makes no virtual accelerator does to those there are. The commit of a
migration finds its virtual accelerator migrating and binds it to a later generation of its
backing. -/
theorem revises_body (hop : op.commissions = false) (hb : body clock op = some b)
    (hw : im.state.WellKeyed)
    (hmoving : ∀ auth c, op = .commitMigration auth → commitMigrationCheck auth im = .ok c →
      c.record.state = .migrating ∧
        c.record.backingGeneration ≤ c.destinationAssignment.backingGeneration)
    (hmarks : t.marks → im.marks clock.now op = true)
    (howners : t.owners → op.reassigns = false) (hretired : t.retirements → op.retires = false)
    (hcounts : t.counts → op.recounts = false ∧ im.countsAlong op = true)
    (hsizes : t.sizes → op.resizes = false) : Revises t im (b im.beginOp).1 := by
  change Revises t im.beginOp (b im.beginOp).1
  cases op <;> simp only [body, Option.some.injEq, reduceCtorEq] at hb <;> subst hb
  case registerPhysical =>
    refine revises_forget (revises_checked fun _ ho => ?_)
    refine revises_registerPhysicalAct fun hc x v v' => ?_
    exact counts_registerPhysicalAct hw ho (hcounts hc).2
  case physicalLost => exact revises_checked fun _ _ => revises_physicalLostAct
  case setPolicy =>
    refine revises_forget (revises_checked fun _ ho => ?_)
    refine revises_setPolicyAct (fun hc => Bool.noConfusion (hcounts hc).1)
      fun hm x v l₁ l₂ hv hr hkeys => ?_
    exact withdraws_of_marks (hmarks hm) ho hv hr hkeys
  case createTenant =>
    exact revises_forget (revises_checked fun _ _ => revises_createTenantAct)
  -- `marks` says it of every virtual accelerator that the tenant owns
  case fenceTenant =>
    refine revises_checked fun tenant ho => ?_
    refine revises_fenceTenantAct (fun hc => Bool.noConfusion (howners hc))
      (fun hc => Bool.noConfusion (hcounts hc).1)
      fun hm x hx v hv => ?_
    have hall := hmarks hm
    have ho' : fenceTenantCheck _ _ _ im = .ok tenant := ho
    have hv' : im.state.virtuals[x]? = some v := hv
    simp only [marks, ho', List.all_eq_true] at hall
    simpa [hv'] using hall x hx
  case transferOwnership =>
    refine revises_forget (revises_checked fun _ _ => ?_)
    exact revises_transferOwnershipAct fun hc => Bool.noConfusion (howners hc)
  case createVirtual => cases hop
  case updateContract =>
    exact revises_forget (revises_checked fun _ _ => revises_updateContractAct)
  case activate =>
    refine revises_forget (revises_checked fun owned ho => ?_)
    exact revises_transitionAct virtuals_recompute (activateCheck_ok ho).1.virtual
      (fun hl _ => retired_iff_of_legal (by decide) hl) fun _ hc => Bool.noConfusion (hcounts hc).1
  -- what may be drained is counted as active before and after
  case drain =>
    refine revises_forget (revises_checked fun owned ho => ?_)
    refine revises_transitionAct (fun _ => rfl) (drainCheck_ok ho).virtual
      (fun hl _ => retired_iff_of_legal (by decide) hl) fun hl _ => ?_
    revert hl
    cases owned.record.state <;> decide
  case resolveRecovery auth _ =>
    refine revises_forget (revises_checked fun owned ho => ?_)
    refine revises_transitionAct (fun _ => rfl) (resolveRecoveryCheck_ok ho).1.virtual
      (fun hl _ => retired_iff_of_legal (by decide) hl) fun _ hc => ?_
    have hrefused := (hcounts hc).2
    have ho' : resolveRecoveryCheck auth im = .ok owned := ho
    simp [countsAlong, ho', Except.isOk, Except.toBool] at hrefused
  case suspend =>
    refine revises_forget (revises_checked fun owned ho => ?_)
    obtain ⟨hcurrent, hs, -⟩ := suspendCheck_ok ho
    exact revises_suspendAct hcurrent hs fun hc => Bool.noConfusion (hcounts hc).1
  case resume =>
    refine revises_forget (revises_checked fun owned ho => ?_)
    exact revises_transitionAct virtuals_recompute (resumeCheck_ok ho).1.virtual
      (fun hl _ => retired_iff_of_legal (by decide) hl) fun _ hc => Bool.noConfusion (hcounts hc).1
  case fenceVirtual =>
    refine revises_forget (revises_checked fun owned ho => ?_)
    exact revises_fenceVirtualAct (notRetiredCheck_ok ho).1
      fun hc => Bool.noConfusion (hcounts hc).1
  case retireVirtual =>
    refine revises_forget (revises_checked fun owned ho => ?_)
    obtain ⟨hcurrent, hs⟩ := notRetiredCheck_ok ho
    exact revises_retireVirtualAct hcurrent hs (fun hc => Bool.noConfusion (hretired hc))
      fun hc => Bool.noConfusion (hcounts hc).1
  case assignBacking auth backing _ =>
    refine revises_forget (revises_checked fun plan ho => ?_)
    obtain ⟨hcurrent, -, hbind, -⟩ := assignBackingCheck_ok ho
    obtain ⟨hr, hs⟩ := counts_of_bindable hbind
    refine revises_assignBackingAct hcurrent hr fun hc => hs ?_
    have hsuspended := (hcounts hc).2
    have ho' : assignBackingCheck auth backing false im = .ok plan := ho
    simpa [countsAlong, ho'] using hsuspended
  case replaceBacking auth backing _ =>
    refine revises_forget (revises_checked fun plan ho => ?_)
    obtain ⟨hcurrent, -, hbind, -⟩ := assignBackingCheck_ok ho
    obtain ⟨hr, hs⟩ := counts_of_bindable hbind
    refine revises_assignBackingAct hcurrent hr fun hc => hs ?_
    have hsuspended := (hcounts hc).2
    have ho' : assignBackingCheck auth backing true im = .ok plan := ho
    simpa [countsAlong, ho'] using hsuspended
  case attach auth =>
    refine revises_forget (revises_checked fun owned ho => ?_)
    obtain ⟨hcurrent, hattach⟩ := attachCheck_ok ho
    have hs := (checkAttachable_ok hattach).1
    refine revises_attachAct hcurrent hs fun hc => ?_
    have hsuspended := (hcounts hc).2
    have ho' : attachCheck auth im = .ok owned := ho
    simp only [countsAlong, ho', decide_eq_true_eq] at hsuspended
    rw [hs.resolve_right hsuspended]
    rfl
  case renewLease =>
    exact revises_forget (revises_checked fun _ _ => (.of_virtuals rfl))
  case detach auth =>
    refine revises_checked fun held ho => ?_
    refine revises_releaseLeaseAct (resolveLeaseFor_ok ho).owned fun hc => ?_
    have ho' : resolveLeaseFor auth im = .ok held := ho
    have hcount := (hcounts hc).2
    simp only [countsAlong, ho'] at hcount
    exact counts_of_released hcount
  case revokeLease auth _ =>
    refine revises_checked fun held ho => ?_
    refine revises_releaseLeaseAct (resolveLeaseFor_ok ho).owned fun hc => ?_
    have ho' : resolveLeaseFor auth im = .ok held := ho
    have hcount := (hcounts hc).2
    simp only [countsAlong, ho'] at hcount
    exact counts_of_released hcount
  case planMigration =>
    exact revises_forget (revises_checked fun _ _ => revises_planMigrationAct)
  case prepareMigration auth =>
    refine revises_forget (revises_checked fun f ho => ?_)
    refine revises_prepareMigrationAct (prepareMigrationCheck_ok ho).1.owned fun hl hc => ?_
    have ho' : prepareMigrationCheck auth im = .ok f := ho
    have hsuspended := (hcounts hc).2
    simp only [countsAlong, ho', decide_eq_true_eq] at hsuspended
    revert hl hsuspended
    cases f.record.state <;> decide
  case commitMigration auth =>
    refine revises_forget (revises_checked fun c ho => ?_)
    obtain ⟨hs, hg⟩ := hmoving auth c rfl ho
    exact revises_commitMigrationAct (commitMigrationCheck_ok ho).1.owned hs hg
  case completeMigration =>
    exact revises_forget (revises_checked fun _ _ => revises_completeMigrationAct)
  case abortMigration =>
    refine revises_forget (revises_checked fun f ho => ?_)
    exact revises_abortMigrationAct (abortMigrationCheck_ok ho).1.owned
  case reserveAllocation =>
    refine revises_forget (revises_checked fun _ _ => ?_)
    exact revises_reserveAllocationAct fun hc => Bool.noConfusion (hsizes hc)
  case releaseAllocation =>
    refine revises_checked fun _ _ => ?_
    exact revises_releaseAllocationAct fun hc => Bool.noConfusion (hsizes hc)
  case accountKernel =>
    exact revises_checked fun _ _ => revises_accountKernelAct

/-- The terms that an operation keeps. -/
theorem course_body (hb : body clock op = some b) (hw : im.state.WellKeyed)
    (hmoving : ∀ auth c, op = .commitMigration auth → commitMigrationCheck auth im = .ok c →
      c.record.state = .migrating ∧
        c.record.backingGeneration ≤ c.destinationAssignment.backingGeneration)
    (hmarks : t.marks → im.marks clock.now op = true)
    (howners : t.owners → op.reassigns = false) (hretired : t.retirements → op.retires = false)
    (hcounts : t.counts → op.recounts = false ∧ im.countsAlong op = true)
    (hsizes : t.sizes → op.resizes = false) : Course t im (b im.beginOp).1 := by
  cases hop : op.commissions with
  | true =>
    cases op <;> simp only [Op.commissions, Bool.false_eq_true] at hop
    rename_i auth name owner ownerGeneration contract
    simp only [body, Option.some.injEq] at hb
    subst hb
    have hsame : Revises t im.beginOp im.beginOp := .of_virtuals rfl
    have hw' : im.beginOp.state.WellKeyed := hw
    suffices hcourse : Course t im.beginOp (createVirtualBody auth name owner ownerGeneration
        contract clock im.beginOp).1 from ⟨hcourse.kept, hcourse.made⟩
    exact fst_checked (p := Course t im.beginOp) hsame.course
      fun _ _ => course_createVirtualAct hw'
  | false =>
    exact (revises_body hop hb hw hmoving hmarks howners hretired hcounts hsizes).course

end Impl

end AcceleratorVirtualization
