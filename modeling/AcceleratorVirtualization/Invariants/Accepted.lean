import AcceleratorVirtualization.Lib.Refusal
import AcceleratorVirtualization.Runtime.Start

/-!
# What an accepted check says

For every check of an operation, what is known once it has passed: the records it resolved are
the current ones, their states allow the operation, and the limits are not reached. Everything
proved about an operation afterwards starts from these facts and does not look into the check
again.
-/

namespace AcceleratorVirtualization

open Refusal

/-- An identity is valid when it is not zero. -/
theorem valid_iff {id : ℕ} : valid id = true ↔ id ≠ 0 := by
  simp [valid]

/-! ### Authority -/

namespace VirtualizationState

variable {s : VirtualizationState} {auth : Authority}

/-- The tenant that an authority resolves to is in the table. -/
theorem resolveTenant_ok {p : TenantId × TenantRecord} (h : s.resolveTenant auth = .ok p) :
    s.tenants[p.1]? = some p.2 := by
  unfold resolveTenant at h
  split at h
  · simp at h
  · split at h
    · simp at h
    · split at h
      · simp at h
      · split at h
        · simp at h
        · simp only [Except.ok.injEq] at h
          subst h
          assumption

/-- The virtual accelerator that an authority resolves to is in the table. -/
theorem resolveVirtual_ok {p : VirtualAcceleratorId × VirtualAcceleratorRecord}
    (h : s.resolveVirtual auth = .ok p) : s.virtuals[p.1]? = some p.2 := by
  unfold resolveVirtual at h
  split at h
  · simp at h
  · split at h
    · simp at h
    · split at h
      · simp at h
      · split at h
        · simp at h
        · simp only [Except.ok.injEq] at h
          subst h
          assumption

end VirtualizationState

/-- A mutable virtual accelerator is neither retired nor fenced. -/
theorem requireMutable_ok {record : VirtualAcceleratorRecord}
    (h : requireMutable record = .ok ()) : record.state ≠ .retired ∧ record.state ≠ .fenced := by
  simp only [requireMutable, guard_bind_eq_ok, guard_eq_ok, pure_eq_ok] at h
  exact ⟨h.1, h.2.1⟩

/-- The owner is the tenant, in its current generation. -/
theorem requireOwner_ok {record : VirtualAcceleratorRecord} {tenant : TenantRecord}
    (h : requireOwner record tenant = .ok ()) :
    record.owner = tenant.id ∧ record.ownerGeneration = tenant.generation ∧
      tenant.fenced = false := by
  simp only [requireOwner, guard_bind_eq_ok, guard_eq_ok, pure_eq_ok, ne_eq, not_not] at h
  exact ⟨h.1, h.2.1, by simpa using h.2.2.1⟩

/-- The tenant and the virtual accelerator are the current records, and the one owns the
other. -/
structure Owned.Current (o : Owned) (s : VirtualizationState) : Prop where
  tenant : s.tenants[o.tenantId]? = some o.tenant
  virtual : s.virtuals[o.virtualId]? = some o.record
  owner : o.record.owner = o.tenant.id
  generation : o.record.ownerGeneration = o.tenant.generation
  active : o.tenant.fenced = false

/-- What an authority resolves to is current. -/
theorem VirtualizationState.resolveOwned_ok {s : VirtualizationState} {auth : Authority}
    {o : Owned} (h : s.resolveOwned auth = .ok o) : o.Current s := by
  simp only [resolveOwned, bind_eq_ok, pure_eq_ok] at h
  obtain ⟨t, ht, v, hv, _, ho, rfl⟩ := h
  obtain ⟨howner, hgeneration, hactive⟩ := requireOwner_ok ho
  exact ⟨resolveTenant_ok ht, resolveVirtual_ok hv, howner, hgeneration, hactive⟩

/-! ### Backings and plans -/

/-- An exclusive backing that is accepted has no holder, or has this one. -/
theorem validateBackingFor_ok {backing : BackingRecord} {physical : Option PhysicalDeviceRecord}
    {record : VirtualAcceleratorRecord} {policy : VirtualizationPolicy}
    {state : VirtualizationState} {sorting : Sorting}
    (h : validateBackingFor sorting backing physical record policy state = .ok ()) :
    backing.exclusive = true → backing.assignedTo = 0 ∨ backing.assignedTo = record.id := by
  unfold validateBackingFor at h
  simp only [guard_bind_eq_ok] at h
  obtain ⟨-, -, -, -, -, -, -, -, h, -⟩ := h
  intro he
  simpa [he, valid, or_iff_not_imp_left] using h

/-- A plan that is not stale names backings that are there, and before the cutover its source
is the binding. -/
theorem planStaleness_ok {migration : MigrationRecord} {record : VirtualAcceleratorRecord}
    {state : VirtualizationState} (h : planStaleness migration record state = .ok ()) :
    (∃ b, state.backings[migration.plan.sourceBacking]? = some b) ∧
    (∃ b, state.backings[migration.plan.destinationBacking]? = some b) ∧
    (migrationStateAfterCutover migration.state = false →
      migration.plan.sourceBacking = record.backing) ∧
    migration.plan.virtualGeneration = record.generation := by
  unfold planStaleness at h
  simp only [guard_bind_eq_ok] at h
  obtain ⟨-, -, hg, -, hs, h⟩ := h
  refine ⟨?_, ?_, ?_, not_not.mp hg⟩
  · split at h
    · simp [throw, throwThe, MonadExceptOf.throw, bind, Except.bind] at h
    · rename_i b hb
      exact ⟨b, hb⟩
  · split at h
    · simp [throw, throwThe, MonadExceptOf.throw, bind, Except.bind] at h
    · simp only [guard_bind_eq_ok] at h
      replace h := h.2
      split at h
      · simp [throw, throwThe, MonadExceptOf.throw, bind, Except.bind] at h
      · rename_i b hb
        exact ⟨b, hb⟩
  · intro hc
    by_contra hne
    simp [hc, hne] at hs

namespace Impl

variable {σ : Type} {im : Impl σ} {auth : Authority}

/-! ### Devices, policy and tenants -/

/-- An accepted `physical_lost` names a device. -/
theorem physicalLostCheck_ok {id : PhysicalDeviceId} {generation : Generation}
    {device : PhysicalDeviceRecord} (h : physicalLostCheck id generation im = .ok device) :
    im.state.physical[id]? = some device := by
  simp only [physicalLostCheck, bind_eq_ok] at h
  obtain ⟨-, -, h⟩ := h
  split at h
  · simp [throw_ne_ok] at h
  · simp only [guard_bind_eq_ok, pure_eq_ok] at h
    rw [← h.2]
    assumption

/-- An accepted `set_policy` puts a normalised and valid policy in force. -/
theorem setPolicyCheck_ok {policy updated : VirtualizationPolicy}
    (h : setPolicyCheck auth policy im = .ok updated) :
    updated = policy.normalize im.options.sorting ∧ updated.validate = .ok () := by
  simp only [setPolicyCheck, bind_eq_ok, pure_eq_ok] at h
  obtain ⟨-, -, -, -, -, -, -, -, _, hv, rfl⟩ := h
  exact ⟨rfl, hv⟩

/-- An accepted `create_tenant` finds room. -/
theorem createTenantCheck_ok {name externalSubject : Text}
    (h : createTenantCheck auth name externalSubject im = .ok ()) :
    im.state.tenants.size < im.state.policy.maxTenants := by
  simp only [createTenantCheck, bind_eq_ok, guard_bind_eq_ok, guard_eq_ok] at h
  obtain ⟨-, -, -, -, -, -, -, -, -, -, -, hsize, -⟩ := h
  exact Nat.lt_of_not_le hsize

/-- An accepted `fence_tenant` names a tenant. -/
theorem fenceTenantCheck_ok {id : TenantId} {generation : Generation} {tenant : TenantRecord}
    (h : fenceTenantCheck auth id generation im = .ok tenant) :
    im.state.tenants[id]? = some tenant := by
  simp only [fenceTenantCheck, bind_eq_ok] at h
  obtain ⟨-, -, -, -, -, -, h⟩ := h
  split at h
  · simp [throw_ne_ok] at h
  · simp only [guard_bind_eq_ok, pure_eq_ok] at h
    rw [← h.2.2]
    assumption

/-- An accepted `transfer_ownership` names a virtual accelerator and another owner. -/
theorem transferOwnershipCheck_ok {newOwner : TenantId} {newGeneration : Generation}
    {t : Transfer} (h : transferOwnershipCheck auth newOwner newGeneration im = .ok t) :
    t.toOwned.Current im.state ∧ im.state.tenants[newOwner]? = some t.destination ∧
      newOwner ≠ t.record.owner := by
  simp only [transferOwnershipCheck, bind_eq_ok] at h
  obtain ⟨-, -, -, -, -, -, -, -, owned, howned, h⟩ := h
  split at h
  · simp [throw_ne_ok] at h
  · simp only [guard_bind_eq_ok, pure_eq_ok] at h
    obtain ⟨-, -, hne, rfl⟩ := h
    exact ⟨VirtualizationState.resolveOwned_ok howned, by assumption, hne⟩

/-! ### Virtual accelerators -/

/-- An accepted contract is valid and allowed by the policy. -/
theorem checkContract_ok {policy : VirtualizationPolicy} {contract : ResourceContract}
    {reason : Text} (h : checkContract policy contract reason = .ok ()) :
    contract.validate = .ok () := by
  simp only [checkContract, bind_eq_ok] at h
  obtain ⟨_, hv, -⟩ := h
  exact hv

/-- An accepted `create_virtual` names a tenant and finds room. -/
theorem createVirtualCheck_ok {name : Text} {owner : TenantId} {ownerGeneration : Generation}
    {contract : ResourceContract} {tenant : TenantRecord}
    (h : createVirtualCheck auth name owner ownerGeneration contract im = .ok tenant) :
    im.state.tenants[owner]? = some tenant ∧
      (contract.normalize im.options.sorting).validate = .ok () ∧
      im.state.virtuals.size < im.state.policy.maxVirtualAccelerators := by
  simp only [createVirtualCheck, bind_eq_ok] at h
  obtain ⟨-, -, -, -, h⟩ := h
  split at h
  · simp [throw_ne_ok] at h
  · simp only [guard_bind_eq_ok, bind_eq_ok, pure_eq_ok] at h
    obtain ⟨-, -, -, -, _, hc, hsize, rfl⟩ := h
    exact ⟨by assumption, checkContract_ok hc, Nat.lt_of_not_le hsize⟩

/-- An accepted `update_contract` names a virtual accelerator, and its contract is accepted. -/
theorem updateContractCheck_ok {contract : ResourceContract} {owned : Owned}
    (h : updateContractCheck auth contract im = .ok owned) :
    owned.Current im.state ∧ (contract.normalize im.options.sorting).validate = .ok () ∧
      requireMutable owned.record = .ok () := by
  simp only [updateContractCheck, bind_eq_ok, pure_eq_ok] at h
  obtain ⟨-, -, -, -, _, ho, _, hm, _, hc, rfl⟩ := h
  exact ⟨VirtualizationState.resolveOwned_ok ho, checkContract_ok hc, hm⟩

/-- An accepted `activate` finds the virtual accelerator attached. -/
theorem activateCheck_ok {owned : Owned} (h : activateCheck auth im = .ok owned) :
    owned.Current im.state ∧ owned.record.state = .attached := by
  simp only [activateCheck, bind_eq_ok, guard_bind_eq_ok, pure_eq_ok] at h
  obtain ⟨-, -, _, ho, -, -, -, hs, -, -, -, rfl⟩ := h
  exact ⟨VirtualizationState.resolveOwned_ok ho, not_not.mp hs⟩

/-- An accepted `drain` names a virtual accelerator. -/
theorem drainCheck_ok {owned : Owned} (h : drainCheck auth im = .ok owned) :
    owned.Current im.state := by
  simp only [drainCheck, bind_eq_ok, pure_eq_ok] at h
  obtain ⟨-, -, -, -, _, ho, -, -, rfl⟩ := h
  exact VirtualizationState.resolveOwned_ok ho

/-- An accepted `resolve_recovery` finds that recovery is required. -/
theorem resolveRecoveryCheck_ok {owned : Owned} (h : resolveRecoveryCheck auth im = .ok owned) :
    owned.Current im.state ∧ owned.record.state = .recoveryRequired := by
  simp only [resolveRecoveryCheck, bind_eq_ok, guard_bind_eq_ok, pure_eq_ok] at h
  obtain ⟨-, -, _, ho, hs, rfl⟩ := h
  exact ⟨VirtualizationState.resolveOwned_ok ho, not_not.mp hs⟩

/-- An accepted `suspend` finds the virtual accelerator provisioned or draining, and idle. -/
theorem suspendCheck_ok {owned : Owned} (h : suspendCheck auth im = .ok owned) :
    owned.Current im.state ∧
      (owned.record.state = .provisioned ∨ owned.record.state = .draining) ∧
      owned.record.activeAttachments = 0 := by
  simp only [suspendCheck, bind_eq_ok, guard_bind_eq_ok, pure_eq_ok] at h
  obtain ⟨-, -, _, ho, -, -, ha, hs, -, rfl⟩ := h
  exact ⟨VirtualizationState.resolveOwned_ok ho, by simpa [or_iff_not_imp_left] using hs,
    not_not.mp ha⟩

/-- An accepted `resume` finds the virtual accelerator suspended. -/
theorem resumeCheck_ok {owned : Owned} (h : resumeCheck auth im = .ok owned) :
    owned.Current im.state ∧ owned.record.state = .suspended := by
  simp only [resumeCheck, bind_eq_ok, guard_bind_eq_ok, pure_eq_ok] at h
  obtain ⟨-, -, _, ho, hs, rfl⟩ := h
  exact ⟨VirtualizationState.resolveOwned_ok ho, not_not.mp hs⟩

/-- What may be fenced or retired is not retired. -/
theorem notRetiredCheck_ok {reason : String} {owned : Owned}
    (h : notRetiredCheck auth reason im = .ok owned) :
    owned.Current im.state ∧ owned.record.state ≠ .retired := by
  simp only [notRetiredCheck, bind_eq_ok, guard_bind_eq_ok, pure_eq_ok] at h
  obtain ⟨-, -, _, ho, hs, rfl⟩ := h
  exact ⟨VirtualizationState.resolveOwned_ok ho, hs⟩

/-! ### Assignments and leases -/

/-- An accepted `assign_backing` names a virtual accelerator and a backing. -/
theorem assignBackingCheck_ok {backing : BackingId} {replacing : Bool}
    {plan : Owned × BackingRecord} (h : assignBackingCheck auth backing replacing im = .ok plan) :
    plan.1.Current im.state ∧ im.state.backings[backing]? = some plan.2 ∧
      im.checkBindable plan.1.record plan.2 replacing = .ok () ∧
      (plan.2.exclusive = true →
        plan.2.assignedTo = 0 ∨ plan.2.assignedTo = plan.1.record.id) := by
  simp only [assignBackingCheck, bind_eq_ok] at h
  obtain ⟨-, -, -, -, _, ho, -, -, h⟩ := h
  split at h
  · simp [throw_ne_ok] at h
  · simp only [bind_eq_ok, pure_eq_ok] at h
    obtain ⟨_, hb, _, hv, rfl⟩ := h
    exact ⟨VirtualizationState.resolveOwned_ok ho, by assumption, hb, validateBackingFor_ok hv⟩

/-- A backing that is assigned, not replaced, finds the virtual accelerator without an
authoritative assignment. -/
theorem checkBindable_ok {value : VirtualAcceleratorRecord} {backing : BackingRecord}
    {replacing : Bool} (h : im.checkBindable value backing replacing = .ok ()) :
    (replacing = true → value.assignment ≠ 0) ∧
    (replacing = false → ∀ a, im.state.assignments[value.assignment]? = some a →
      value.assignment ≠ 0 → a.authoritative = false) ∧ backing.id ≠ value.backing ∧
    (value.state = .provisioned ∨ value.state = .suspended ∨
      replacing = true ∧ lifecycleRequiresBacking value.state = true) := by
  simp only [checkBindable, guard_bind_eq_ok, guard_eq_ok] at h
  obtain ⟨hs, hr, ha, hb, -⟩ := h
  refine ⟨?_, ?_, hb, ?_⟩
  · rintro rfl
    simpa [valid] using hr
  · rintro rfl a haa h0
    simpa [valid, h0, haa] using ha
  · simp only [Bool.and_eq_true, Bool.not_eq_true', Bool.or_eq_false_iff, decide_eq_false_iff_not,
      Bool.and_eq_false_iff, not_and_or, not_or, not_not] at hs
    grind

/-- An accepted `attach` finds the virtual accelerator attachable. -/
theorem attachCheck_ok {owned : Owned} (h : attachCheck auth im = .ok owned) :
    owned.Current im.state ∧ im.checkAttachable owned.record = .ok () := by
  simp only [attachCheck, bind_eq_ok, pure_eq_ok] at h
  obtain ⟨-, -, -, -, _, ho, -, -, _, ha, rfl⟩ := h
  exact ⟨VirtualizationState.resolveOwned_ok ho, ha⟩

/-- An attachable virtual accelerator is provisioned or suspended, over a backing and an assignment
in force. -/
theorem checkAttachable_ok {value : VirtualAcceleratorRecord}
    (h : im.checkAttachable value = .ok ()) :
    (value.state = .provisioned ∨ value.state = .suspended) ∧ value.backing ≠ 0 ∧
      (∃ a, im.state.assignments[value.assignment]? = some a ∧ a.authoritative = true) ∧
      ∃ b, im.state.backings[value.backing]? = some b := by
  simp only [checkAttachable, guard_bind_eq_ok] at h
  obtain ⟨hs, hb, ha, h⟩ := h
  refine ⟨by simpa [or_iff_not_imp_left] using hs, by simpa [valid] using hb, ?_, ?_⟩
  · simpa [Option.any_eq_true] using ha
  · split at h
    · simp [throw, throwThe, MonadExceptOf.throw, bind, Except.bind] at h
    · exact ⟨_, by assumption⟩

/-- An accepted `renew_lease` names a lease. -/
theorem renewLeaseCheck_ok {target : LeaseId × LeaseRecord}
    (h : renewLeaseCheck auth im = .ok target) :
    im.state.leases[target.1]? = some target.2 := by
  simp only [renewLeaseCheck, bind_eq_ok] at h
  obtain ⟨-, -, -, -, _, -, h⟩ := h
  split at h
  · simp [throw_ne_ok] at h
  · split at h
    · simp [throw_ne_ok] at h
    · split at h
      · simp [throw, throwThe, MonadExceptOf.throw, bind, Except.bind] at h
      · simp only [guard_bind_eq_ok, pure_eq_ok] at h
        obtain ⟨-, -, -, -, -, -, -, rfl⟩ := h
        assumption

/-- The lease is live and belongs to the virtual accelerator. -/
structure Held.Current (held : Held) (s : VirtualizationState) : Prop where
  owned : held.toOwned.Current s
  lease : s.leases[held.leaseId]? = some held.lease
  virtual : held.lease.virtualId = held.record.id
  live : leaseStateIsLive held.lease.state = true

/-- The lease that an authority resolves to is current. -/
theorem resolveLeaseFor_ok {held : Held} (h : resolveLeaseFor auth im = .ok held) :
    held.Current im.state := by
  simp only [resolveLeaseFor, bind_eq_ok] at h
  obtain ⟨-, -, -, -, _, ho, h⟩ := h
  split at h
  · simp [throw_ne_ok] at h
  · split at h
    · simp [throw_ne_ok] at h
    · split at h
      · simp [throw, throwThe, MonadExceptOf.throw, bind, Except.bind] at h
      · simp only [guard_bind_eq_ok, pure_eq_ok] at h
        obtain ⟨-, hv, hl, rfl⟩ := h
        exact ⟨VirtualizationState.resolveOwned_ok ho, by assumption, not_not.mp hv,
          by simpa using hl⟩

/-! ### Migrations -/

/-- What can migrate has an assignment and a backing. -/
theorem checkMigratable_ok {value : VirtualAcceleratorRecord} {destination : BackingId}
    (h : im.checkMigratable value destination = .ok ()) :
    value.assignment ≠ 0 ∧ value.backing ≠ 0 := by
  by_contra hne
  have hv : (!valid value.assignment || !valid value.backing) = true := by
    simpa [valid, or_iff_not_imp_left] using hne
  simp only [checkMigratable, hv, if_true, Except.isOk, Except.toBool, Bool.false_and,
    Bool.false_eq_true, if_false] at h
  split at h
  · simp at h
  · split at h <;> simp at h

/-- An accepted `plan_migration` names a virtual accelerator and a destination. -/
theorem planMigrationCheck_ok {destination : BackingId} {klass : MigrationClass}
    {plan : Owned × BackingRecord} (h : planMigrationCheck auth destination klass im = .ok plan) :
    plan.1.Current im.state ∧ im.state.backings[destination]? = some plan.2 ∧
      plan.1.record.assignment ≠ 0 ∧ plan.1.record.backing ≠ 0 := by
  simp only [planMigrationCheck, bind_eq_ok] at h
  obtain ⟨-, -, -, -, _, ho, -, -, _, hm, -, -, h⟩ := h
  split at h
  · simp [throw_ne_ok] at h
  · simp only [bind_eq_ok, guard_bind_eq_ok, pure_eq_ok] at h
    obtain ⟨-, -, -, rfl⟩ := h
    exact ⟨VirtualizationState.resolveOwned_ok ho, by assumption, checkMigratable_ok hm⟩

/-- The migration is the current record, belongs to the virtual accelerator, and its plan is
not stale. -/
structure InFlight.Current (f : InFlight) (s : VirtualizationState) : Prop where
  owned : f.toOwned.Current s
  migration : s.migrations[f.migrationId]? = some f.migration
  virtual : f.migration.plan.virtualId = f.record.id
  fresh : planStaleness f.migration f.record s = .ok ()

/-- The migration that an authority resolves to is current. -/
theorem migrationPrologue_ok {f : InFlight} (h : migrationPrologue auth im = .ok f) :
    f.Current im.state := by
  simp only [migrationPrologue, bind_eq_ok] at h
  obtain ⟨-, -, -, -, _, ho, h⟩ := h
  split at h
  · simp [throw_ne_ok] at h
  · split at h
    · simp [throw_ne_ok] at h
    · split at h
      · simp [throw_ne_ok] at h
      · simp only [guard_bind_eq_ok, bind_eq_ok, pure_eq_ok] at h
        obtain ⟨-, hv, _, hp, rfl⟩ := h
        exact ⟨VirtualizationState.resolveOwned_ok ho, by assumption, not_not.mp hv, hp⟩

/-- An accepted `prepare_migration` finds the migration planned. -/
theorem prepareMigrationCheck_ok {f : InFlight} (h : prepareMigrationCheck auth im = .ok f) :
    f.Current im.state ∧ f.migration.state = .planned := by
  simp only [prepareMigrationCheck, bind_eq_ok, guard_bind_eq_ok, pure_eq_ok] at h
  obtain ⟨_, hf, hs, rfl⟩ := h
  exact ⟨migrationPrologue_ok hf, not_not.mp hs⟩

/-- An accepted `commit_migration` finds the migration ready, with its destination prepared. -/
theorem commitMigrationCheck_ok {c : Cutover} (h : commitMigrationCheck auth im = .ok c) :
    c.toInFlight.Current im.state ∧ c.migration.state = .commitReady ∧
      (∃ a, im.state.assignments[c.migration.sourceAssignment]? = some a ∧
        a.authoritative = true) ∧
      im.state.assignments[c.migration.destinationAssignment]? = some c.destinationAssignment := by
  simp only [commitMigrationCheck, bind_eq_ok, guard_bind_eq_ok] at h
  obtain ⟨_, hf, hs, ha, h⟩ := h
  split at h
  · simp [throw_ne_ok] at h
  · simp only [pure_eq_ok] at h
    subst h
    exact ⟨migrationPrologue_ok hf, not_not.mp hs, by simpa [Option.any_eq_true] using ha,
      by assumption⟩

/-- An accepted `complete_migration` finds the migration committed. -/
theorem completeMigrationCheck_ok {f : InFlight} (h : completeMigrationCheck auth im = .ok f) :
    f.Current im.state ∧ f.migration.state = .committed := by
  simp only [completeMigrationCheck, bind_eq_ok, guard_bind_eq_ok, pure_eq_ok] at h
  obtain ⟨_, hf, hs, rfl⟩ := h
  exact ⟨migrationPrologue_ok hf, not_not.mp hs⟩

/-- An accepted `abort_migration` finds the migration before its cutover and not at its end. -/
theorem abortMigrationCheck_ok {f : InFlight} (h : abortMigrationCheck auth im = .ok f) :
    f.Current im.state ∧ migrationStateAfterCutover f.migration.state = false ∧
      migrationStateIsTerminal f.migration.state = false := by
  simp only [abortMigrationCheck, bind_eq_ok, guard_bind_eq_ok, pure_eq_ok] at h
  obtain ⟨_, hf, hc, ht, rfl⟩ := h
  exact ⟨migrationPrologue_ok hf, by simpa using hc, by simpa using ht⟩

/-! ### Execution -/

/-- An accepted `reserve_allocation` names a virtual accelerator. -/
theorem reserveAllocationCheck_ok {bytes : ℕ} {plan : Owned × LeaseRecord}
    (h : reserveAllocationCheck auth bytes im = .ok plan) : plan.1.Current im.state := by
  simp only [reserveAllocationCheck, bind_eq_ok] at h
  obtain ⟨-, -, _, ho, _, -, h⟩ := h
  split at h
  · simp only [guard_bind_eq_ok, pure_eq_ok] at h
    obtain ⟨-, -, rfl⟩ := h
    exact VirtualizationState.resolveOwned_ok ho
  · simp only [guard_bind_eq_ok, pure_eq_ok] at h
    obtain ⟨-, rfl⟩ := h
    exact VirtualizationState.resolveOwned_ok ho

/-- An accepted `release_allocation` names a virtual accelerator. -/
theorem releaseAllocationCheck_ok {bytes : ℕ}
    {target : VirtualAcceleratorId × VirtualAcceleratorRecord}
    (h : releaseAllocationCheck auth bytes im = .ok target) :
    im.state.virtuals[target.1]? = some target.2 := by
  simp only [releaseAllocationCheck, bind_eq_ok] at h
  obtain ⟨-, -, -, -, _, -, h⟩ := h
  split at h
  · simp [throw_ne_ok] at h
  · split at h
    · simp [throw_ne_ok] at h
    · simp only [guard_bind_eq_ok, bind_eq_ok, pure_eq_ok] at h
      obtain ⟨-, -, -, rfl⟩ := h
      assumption

/-- An accepted `account_kernel` names a virtual accelerator. -/
theorem accountKernelCheck_ok {plan : Owned × LeaseRecord}
    (h : accountKernelCheck auth im = .ok plan) : plan.1.Current im.state := by
  simp only [accountKernelCheck, bind_eq_ok] at h
  obtain ⟨-, -, -, -, _, ho, h⟩ := h
  split at h
  · simp [throw_ne_ok] at h
  · split at h
    · simp [throw_ne_ok] at h
    · simp only [guard_bind_eq_ok, pure_eq_ok] at h
      obtain ⟨-, -, rfl⟩ := h
      exact VirtualizationState.resolveOwned_ok ho

end Impl

end AcceleratorVirtualization
