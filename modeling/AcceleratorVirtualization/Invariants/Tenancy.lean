import AcceleratorVirtualization.Invariants.Acceptance
import AcceleratorVirtualization.Invariants.Attachments
import AcceleratorVirtualization.Invariants.Homes
import AcceleratorVirtualization.Invariants.Reach

/-!
# What a tenant can change

An operation of a tenant resolves one virtual accelerator, which has to be its own, and reaches
every record through it: the leases the virtual accelerator lists, the assignment it points to and
the migrations that are of it. The estate of a virtual accelerator is the region of all that is of
no other one. An operation that passes its checks is confined to the estate, and what it makes is at
home there, so nothing of another virtual accelerator is changed, lost or made.
-/

namespace AcceleratorVirtualization

open VirtualizationState Refusal

/-- The authority that an operation of a tenant is performed under. -/
def Op.tenancy : Op → Option Authority
  | .updateContract auth _ | .activate auth | .drain auth _ | .suspend auth _ | .resume auth _
  | .resolveRecovery auth _ | .fenceVirtual auth _ | .retireVirtual auth _
  | .assignBacking auth _ _ | .replaceBacking auth _ _ | .attach auth | .renewLease auth
  | .detach auth | .revokeLease auth _ | .planMigration auth _ _ | .prepareMigration auth
  | .commitMigration auth | .completeMigration auth | .abortMigration auth _
  | .reserveAllocation auth _ | .releaseAllocation auth _ | .accountKernel auth _
  | .transferOwnership auth _ _ => some auth
  | _ => none

/-- The tenant that a virtual accelerator is handed over to. -/
def Op.heir : Op → Option TenantId
  | .transferOwnership _ newOwner _ => some newOwner
  | _ => none

/-- The authority names the tenant `A` and a virtual accelerator `x` that is owned by it. The tenant
is not fenced, and the presented epoch and tenant generation are current. -/
structure Authority.Entitles (auth : Authority) (s : VirtualizationState) (A : TenantId)
    (x : VirtualAcceleratorId) : Prop where
  tenant : auth.tenant = some A
  virtualId : auth.virtualId = some x
  epoch : auth.epoch = some s.epoch
  current : ∃ t : TenantRecord, s.tenants[A]? = some t ∧ t.fenced = false ∧
    auth.tenantGeneration = some t.generation
  owner : ∃ v : VirtualAcceleratorRecord, s.virtuals[x]? = some v ∧ v.owner = A

/-! ### What the checks resolve -/

/-- The epoch is current, and the authority resolves to a tenant and what it owns. -/
structure VirtualizationState.Resolves (s : VirtualizationState) (auth : Authority) (o : Owned) :
    Prop where
  epoch : s.checkEpoch auth = .ok ()
  owned : s.resolveOwned auth = .ok o

/-- Who resolves to a virtual accelerator is entitled to it. -/
theorem VirtualizationState.Resolves.entitles {s : VirtualizationState} {auth : Authority}
    {o : Owned} (h : s.Resolves auth o) (hw : s.WellKeyed) :
    auth.Entitles s o.tenantId o.virtualId := by
  have howned := h.owned
  simp only [resolveOwned, bind_eq_ok, pure_eq_ok] at howned
  obtain ⟨⟨A, t⟩, ht, ⟨x, v⟩, hv, _, hrequired, rfl⟩ := howned
  obtain ⟨hA, ht, hgeneration⟩ := resolveTenant_eq_ok.mp ht
  obtain ⟨hx, hv, -⟩ := resolveVirtual_eq_ok.mp hv
  obtain ⟨howner, -, hfenced⟩ := requireOwner_eq_ok.mp hrequired
  have hid : t.id = A := hw.keyed .tenant _ _ ht
  exact ⟨hA, hx, checkEpoch_eq_ok.mp h.epoch, ⟨t, ht, hfenced, hgeneration⟩, v, hv,
    howner.trans hid⟩

namespace Impl

variable {σ : Type} {im : Impl σ} {auth : Authority} {owned : Owned}

section Checks

/-- The two checks that every operation begins with. -/
theorem resolves_of_checkAuthority (ha : im.checkAuthority auth = .ok ())
    (ho : im.state.resolveOwned auth = .ok owned) : im.state.Resolves auth owned := by
  simp only [checkAuthority, bind_eq_ok] at ha
  obtain ⟨-, -, _, he, -⟩ := ha
  exact ⟨he, ho⟩

/-- An accepted `update_contract` resolved its authority. -/
theorem resolves_updateContractCheck {contract : ResourceContract}
    (h : updateContractCheck auth contract im = .ok owned) : im.state.Resolves auth owned := by
  simp only [updateContractCheck, bind_eq_ok, pure_eq_ok] at h
  obtain ⟨_, ha, -, -, _, ho, _, -, _, -, rfl⟩ := h
  exact resolves_of_checkAuthority ha ho

/-- An accepted `activate` resolved its authority. -/
theorem resolves_activateCheck (h : activateCheck auth im = .ok owned) :
    im.state.Resolves auth owned := by
  simp only [activateCheck, bind_eq_ok, guard_bind_eq_ok, pure_eq_ok] at h
  obtain ⟨_, ha, _, ho, -, -, -, -, -, -, -, rfl⟩ := h
  exact resolves_of_checkAuthority ha ho

/-- An accepted `drain` resolved its authority. -/
theorem resolves_drainCheck (h : drainCheck auth im = .ok owned) :
    im.state.Resolves auth owned := by
  simp only [drainCheck, bind_eq_ok, pure_eq_ok] at h
  obtain ⟨_, ha, -, -, _, ho, -, -, rfl⟩ := h
  exact resolves_of_checkAuthority ha ho

/-- An accepted `resolve_recovery` resolved its authority. -/
theorem resolves_resolveRecoveryCheck (h : resolveRecoveryCheck auth im = .ok owned) :
    im.state.Resolves auth owned := by
  simp only [resolveRecoveryCheck, bind_eq_ok, guard_bind_eq_ok, pure_eq_ok] at h
  obtain ⟨_, ha, _, ho, -, rfl⟩ := h
  exact resolves_of_checkAuthority ha ho

/-- An accepted `suspend` resolved its authority. -/
theorem resolves_suspendCheck (h : suspendCheck auth im = .ok owned) :
    im.state.Resolves auth owned := by
  simp only [suspendCheck, bind_eq_ok, guard_bind_eq_ok, pure_eq_ok] at h
  obtain ⟨_, ha, _, ho, -, -, -, -, -, rfl⟩ := h
  exact resolves_of_checkAuthority ha ho

/-- An accepted `resume` resolved its authority. -/
theorem resolves_resumeCheck (h : resumeCheck auth im = .ok owned) :
    im.state.Resolves auth owned := by
  simp only [resumeCheck, bind_eq_ok, guard_bind_eq_ok, pure_eq_ok] at h
  obtain ⟨_, ha, _, ho, -, rfl⟩ := h
  exact resolves_of_checkAuthority ha ho

theorem resolves_notRetiredCheck {reason : String}
    (h : notRetiredCheck auth reason im = .ok owned) : im.state.Resolves auth owned := by
  simp only [notRetiredCheck, bind_eq_ok, guard_bind_eq_ok, pure_eq_ok] at h
  obtain ⟨_, ha, _, ho, -, rfl⟩ := h
  exact resolves_of_checkAuthority ha ho

/-- An accepted `assign_backing` resolved its authority. -/
theorem resolves_assignBackingCheck {backing : BackingId} {replacing : Bool}
    {plan : Owned × BackingRecord} (h : assignBackingCheck auth backing replacing im = .ok plan) :
    im.state.Resolves auth plan.1 := by
  simp only [assignBackingCheck, bind_eq_ok] at h
  obtain ⟨_, ha, -, -, _, ho, -, -, h⟩ := h
  split at h
  · simp [throw_ne_ok] at h
  · simp only [bind_eq_ok, pure_eq_ok] at h
    obtain ⟨-, -, -, -, rfl⟩ := h
    exact resolves_of_checkAuthority ha ho

/-- An accepted `attach` resolved its authority. -/
theorem resolves_attachCheck (h : attachCheck auth im = .ok owned) :
    im.state.Resolves auth owned := by
  simp only [attachCheck, bind_eq_ok, pure_eq_ok] at h
  obtain ⟨_, ha, -, -, _, ho, -, -, -, -, rfl⟩ := h
  exact resolves_of_checkAuthority ha ho

/-- A lease that is renewed is one of the virtual accelerator. -/
theorem resolves_renewLeaseCheck {target : LeaseId × LeaseRecord}
    (h : renewLeaseCheck auth im = .ok target) :
    ∃ o, im.state.Resolves auth o ∧ target.2.virtualId = o.record.id := by
  simp only [renewLeaseCheck, bind_eq_ok] at h
  obtain ⟨_, ha, -, -, o, ho, h⟩ := h
  refine ⟨o, resolves_of_checkAuthority ha ho, ?_⟩
  split at h
  · simp [throw_ne_ok] at h
  · split at h
    · simp [throw_ne_ok] at h
    · split at h
      · simp [throw, throwThe, MonadExceptOf.throw, bind, Except.bind] at h
      · simp only [guard_bind_eq_ok, pure_eq_ok] at h
        obtain ⟨-, hx, -, -, -, -, -, rfl⟩ := h
        exact not_not.mp hx

theorem resolves_resolveLeaseFor {held : Held} (h : resolveLeaseFor auth im = .ok held) :
    im.state.Resolves auth held.toOwned := by
  simp only [resolveLeaseFor, bind_eq_ok] at h
  obtain ⟨_, ha, -, -, _, ho, h⟩ := h
  split at h
  · simp [throw_ne_ok] at h
  · split at h
    · simp [throw_ne_ok] at h
    · split at h
      · simp [throw, throwThe, MonadExceptOf.throw, bind, Except.bind] at h
      · simp only [guard_bind_eq_ok, pure_eq_ok] at h
        obtain ⟨-, -, -, rfl⟩ := h
        exact resolves_of_checkAuthority ha ho

/-- An accepted `plan_migration` resolved its authority. -/
theorem resolves_planMigrationCheck {destination : BackingId} {klass : MigrationClass}
    {plan : Owned × BackingRecord} (h : planMigrationCheck auth destination klass im = .ok plan) :
    im.state.Resolves auth plan.1 := by
  simp only [planMigrationCheck, bind_eq_ok] at h
  obtain ⟨_, ha, -, -, _, ho, -, -, -, -, -, -, h⟩ := h
  split at h
  · simp [throw_ne_ok] at h
  · simp only [bind_eq_ok, guard_bind_eq_ok, pure_eq_ok] at h
    obtain ⟨-, -, -, rfl⟩ := h
    exact resolves_of_checkAuthority ha ho

theorem resolves_migrationPrologue {f : InFlight} (h : migrationPrologue auth im = .ok f) :
    im.state.Resolves auth f.toOwned := by
  simp only [migrationPrologue, bind_eq_ok] at h
  obtain ⟨_, ha, -, -, _, ho, h⟩ := h
  split at h
  · simp [throw_ne_ok] at h
  · split at h
    · simp [throw_ne_ok] at h
    · split at h
      · simp [throw_ne_ok] at h
      · simp only [guard_bind_eq_ok, bind_eq_ok, pure_eq_ok] at h
        obtain ⟨-, -, -, -, rfl⟩ := h
        exact resolves_of_checkAuthority ha ho

/-- An accepted `prepare_migration` resolved its authority. -/
theorem resolves_prepareMigrationCheck {f : InFlight} (h : prepareMigrationCheck auth im = .ok f) :
    im.state.Resolves auth f.toOwned := by
  simp only [prepareMigrationCheck, bind_eq_ok, guard_bind_eq_ok, pure_eq_ok] at h
  obtain ⟨_, hf, -, rfl⟩ := h
  exact resolves_migrationPrologue hf

/-- An accepted `commit_migration` resolved its authority. -/
theorem resolves_commitMigrationCheck {c : Cutover} (h : commitMigrationCheck auth im = .ok c) :
    im.state.Resolves auth c.toOwned := by
  simp only [commitMigrationCheck, bind_eq_ok, guard_bind_eq_ok] at h
  obtain ⟨_, hf, -, -, h⟩ := h
  split at h
  · simp [throw_ne_ok] at h
  · simp only [pure_eq_ok] at h
    subst h
    exact resolves_migrationPrologue hf

/-- An accepted `complete_migration` resolved its authority. -/
theorem resolves_completeMigrationCheck {f : InFlight}
    (h : completeMigrationCheck auth im = .ok f) : im.state.Resolves auth f.toOwned := by
  simp only [completeMigrationCheck, bind_eq_ok, guard_bind_eq_ok, pure_eq_ok] at h
  obtain ⟨_, hf, -, rfl⟩ := h
  exact resolves_migrationPrologue hf

/-- An accepted `abort_migration` resolved its authority. -/
theorem resolves_abortMigrationCheck {f : InFlight} (h : abortMigrationCheck auth im = .ok f) :
    im.state.Resolves auth f.toOwned := by
  simp only [abortMigrationCheck, bind_eq_ok, guard_bind_eq_ok, pure_eq_ok] at h
  obtain ⟨_, hf, -, -, rfl⟩ := h
  exact resolves_migrationPrologue hf

/-- An accepted `reserve_allocation` resolved its authority. -/
theorem resolves_reserveAllocationCheck {bytes : ℕ} {plan : Owned × LeaseRecord}
    (h : reserveAllocationCheck auth bytes im = .ok plan) : im.state.Resolves auth plan.1 := by
  simp only [reserveAllocationCheck, bind_eq_ok] at h
  obtain ⟨_, ha, _, ho, _, -, h⟩ := h
  split at h
  · simp only [guard_bind_eq_ok, pure_eq_ok] at h
    obtain ⟨-, -, rfl⟩ := h
    exact resolves_of_checkAuthority ha ho
  · simp only [guard_bind_eq_ok, pure_eq_ok] at h
    obtain ⟨-, rfl⟩ := h
    exact resolves_of_checkAuthority ha ho

/-- An accepted `account_kernel` resolved its authority. -/
theorem resolves_accountKernelCheck {plan : Owned × LeaseRecord}
    (h : accountKernelCheck auth im = .ok plan) : im.state.Resolves auth plan.1 := by
  simp only [accountKernelCheck, bind_eq_ok] at h
  obtain ⟨-, -, _, he, _, ho, h⟩ := h
  split at h
  · simp [throw_ne_ok] at h
  · split at h
    · simp [throw_ne_ok] at h
    · simp only [guard_bind_eq_ok, pure_eq_ok] at h
      obtain ⟨-, -, rfl⟩ := h
      exact ⟨he, ho⟩

/-- An accepted `transfer_ownership` resolved its authority. -/
theorem resolves_transferOwnershipCheck {newOwner : TenantId} {newGeneration : Generation}
    {t : Transfer} (h : transferOwnershipCheck auth newOwner newGeneration im = .ok t) :
    im.state.Resolves auth t.toOwned := by
  simp only [transferOwnershipCheck, bind_eq_ok] at h
  obtain ⟨-, -, _, he, -, -, -, -, _, ho, h⟩ := h
  split at h
  · simp [throw_ne_ok] at h
  · simp only [guard_bind_eq_ok, pure_eq_ok] at h
    obtain ⟨-, -, -, rfl⟩ := h
    exact ⟨he, ho⟩

/-- A release asks for no generation of the virtual accelerator. -/
theorem entitles_releaseAllocationCheck {bytes : ℕ}
    {target : VirtualAcceleratorId × VirtualAcceleratorRecord} (hw : im.state.WellKeyed)
    (h : releaseAllocationCheck auth bytes im = .ok target) :
    ∃ A, auth.Entitles im.state A target.1 := by
  simp only [releaseAllocationCheck, bind_eq_ok] at h
  obtain ⟨-, -, _, he, ⟨A, t⟩, ht, h⟩ := h
  obtain ⟨hA, ht, hgeneration⟩ := resolveTenant_eq_ok.mp ht
  split at h
  · simp [throw_ne_ok] at h
  · split at h
    · simp [throw_ne_ok] at h
    · simp only [guard_bind_eq_ok, bind_eq_ok, pure_eq_ok] at h
      obtain ⟨_, hrequired, -, rfl⟩ := h
      obtain ⟨howner, -, hfenced⟩ := requireOwner_eq_ok.mp hrequired
      have hid : t.id = A := hw.keyed .tenant _ _ ht
      exact ⟨A, hA, by assumption, checkEpoch_eq_ok.mp he, ⟨t, ht, hfenced, hgeneration⟩, _,
        by assumption, howner.trans hid⟩

end Checks

end Impl

/-! ### The estate of a virtual accelerator -/

namespace VirtualizationState

variable {s : VirtualizationState} {x : VirtualAcceleratorId} {T : Set TenantId}

/-- What belongs to no other virtual accelerator, with the tenants of `T` and those that do not
exist. -/
def estate (s : VirtualizationState) (x : VirtualAcceleratorId) (T : Set TenantId) : Region :=
  fun k => {id | (∀ y, s.Belongs k id y → y = x) ∧
    (k = .tenant → id ∈ T ∨ s.tenants[id]? = none)}

/-- The tenants of an estate are the given ones. -/
theorem tenant_mem_estate {A : TenantId} (h : A ∈ T) : A ∈ s.estate x T .tenant := by
  refine ⟨?_, fun _ => .inl h⟩
  rintro y ⟨r, -, hy⟩
  cases hy

/-- Every backing is in an estate. -/
theorem backing_mem_estate (b : BackingId) : b ∈ s.estate x T .backing := by
  refine ⟨?_, by rintro ⟨⟩⟩
  rintro y ⟨r, -, hy⟩
  cases hy

/-- The virtual accelerator is in its estate. -/
theorem virtual_mem_estate : x ∈ s.estate x T .virtual := by
  refine ⟨?_, by rintro ⟨⟩⟩
  rintro y ⟨r, -, hy⟩
  exact (Option.some.inj hy).symm

/-- Its leases are in its estate. -/
theorem lease_mem_estate {l : LeaseId} {lease : LeaseRecord} (hl : s.leases[l]? = some lease)
    (hx : lease.virtualId = x) : l ∈ s.estate x T .lease := by
  refine ⟨?_, by rintro ⟨⟩⟩
  rintro y ⟨r, hr, hy⟩
  cases hl.symm.trans hr
  exact (Option.some.inj hy).symm.trans hx

/-- Its assignments are in its estate, and the identities nobody has. -/
theorem assignment_mem_estate {g : BackingAssignmentId}
    (hg : ∀ a : BackingAssignment, s.assignments[g]? = some a → a.virtualId = x) :
    g ∈ s.estate x T .assignment := by
  refine ⟨?_, by rintro ⟨⟩⟩
  rintro y ⟨a, ha, hy⟩
  exact (Option.some.inj hy).symm.trans (hg a ha)

/-- Its migrations are in its estate, and the identities nobody has. -/
theorem migration_mem_estate {id : MigrationId}
    (hm : ∀ m : MigrationRecord, s.migrations[id]? = some m → m.plan.virtualId = x) :
    id ∈ s.estate x T .migration := by
  refine ⟨?_, by rintro ⟨⟩⟩
  rintro y ⟨m, hr, hy⟩
  exact (Option.some.inj hy).symm.trans (hm m hr)

/-- What does not exist is in every estate. -/
theorem mem_estate_of_fresh (hw : s.WellKeyed) {k : RecordKind} {id : ℕ}
    (hid : s.nextSequence ≤ id) : id ∈ s.estate x T k := by
  refine ⟨?_, ?_⟩
  · rintro y ⟨r, hr, -⟩
    exact absurd ((hw.fresh k hid).symm.trans hr) (by simp)
  · rintro rfl
    exact .inr (hw.fresh .tenant hid)

/-- The leases that the virtual accelerator lists are its own. -/
theorem closed_estate (hl : s.book.Leased leaseRules) {A : TenantId} (hA : A ∈ T)
    (howner : ∀ v : VirtualAcceleratorRecord, s.virtuals[x]? = some v → v.owner = A) :
    s.Closed (s.estate x T) := by
  intro x' hx' v hv
  obtain rfl : x' = x := hx'.1 x' ⟨v, hv, rfl⟩
  refine ⟨fun l hl' => ?_, ?_⟩
  · obtain ⟨r, hr, hseat⟩ := hl.own x' _ l (Consistent.seat_of_record hv) hl'
    obtain ⟨lease, hlease, rfl⟩ := Option.map_eq_some_iff.mp hr
    exact lease_mem_estate hlease hseat
  · rw [howner v hv]
    exact tenant_mem_estate hA

/-- Fresh identities are in every estate. -/
theorem roomy_estate (hw : s.WellKeyed) : (s.estate x T).Roomy s.nextSequence :=
  fun _ _ _ hid => mem_estate_of_fresh hw hid

/-- The assignment that the virtual accelerator points to is its own. -/
theorem pointed_mem_estate (hw : s.WellKeyed) (hc : s.ledger.Coherent)
    {v : VirtualAcceleratorRecord} (hv : s.virtuals[x]? = some v) :
    v.assignment ∈ s.estate x T .assignment := by
  refine assignment_mem_estate fun a ha => ?_
  have hparty : s.ledger.party x = some v.toPointer := by
    simp only [ledger, hv, Option.map_some]
  have h0 : v.assignment ≠ 0 := by
    intro h0
    rw [h0] at ha
    exact absurd ((hw.zero .assignment).symm.trans ha) (by simp)
  obtain ⟨r, hr, hp, -⟩ := hc.owned x _ v.assignment hparty (ref_of_ne h0)
  have hgrant : s.ledger.grant v.assignment = some a.toGrant := by
    simp only [ledger, ha, Option.map_some]
  cases hgrant.symm.trans hr
  exact hp

/-- The assignments that a migration goes from and to are of its virtual accelerator. -/
theorem sides_mem_estate (hw : s.WellKeyed) (hc : s.ledger.Coherent) {id : MigrationId}
    {m : MigrationRecord} (hm : s.migrations[id]? = some m) (hx : m.plan.virtualId = x) :
    m.sourceAssignment ∈ s.estate x T .assignment ∧
      m.destinationAssignment ∈ s.estate x T .assignment := by
  have hmove : s.ledger.move id = some m.toMove := by
    simp only [ledger, hm, Option.map_some]
  refine ⟨assignment_mem_estate fun a ha => ?_, assignment_mem_estate fun a ha => ?_⟩
  · obtain ⟨r, hr, hp⟩ := hc.source id _ hmove
    have hgrant : s.ledger.grant m.sourceAssignment = some a.toGrant := by
      simp only [ledger, ha, Option.map_some]
    cases hgrant.symm.trans hr
    exact hp.trans hx
  · have h0 : m.destinationAssignment ≠ 0 := by
      intro h0
      rw [h0] at ha
      exact absurd ((hw.zero .assignment).symm.trans ha) (by simp)
    obtain ⟨-, r, hr, hp, -⟩ := hc.target id _ m.destinationAssignment hmove (ref_of_ne h0)
    have hgrant : s.ledger.grant m.destinationAssignment = some a.toGrant := by
      simp only [ledger, ha, Option.map_some]
    cases hgrant.symm.trans hr
    exact hp.trans hx

end VirtualizationState

namespace Impl

variable {σ : Type} {im : Impl σ} {auth : Authority} {clock : Clock} {T : Set TenantId}

/-! ### Operations stay in the estate -/

/-- A check that resolves to a virtual accelerator serves its estate. -/
theorem serves_estate {check : Except Status Owned} {owned : Owned} (h : check = .ok owned) :
    Serves (im.state.estate owned.virtualId T) check := by
  intro o ho
  cases h.symm.trans ho
  exact virtual_mem_estate

/-- What is given up is in the estate. -/
theorem givesUp_estate (hw : im.state.WellKeyed) (hc : im.state.ledger.Coherent) {owned : Owned}
    (h : owned.Current im.state) :
    owned.virtualId ∈ im.state.estate owned.virtualId T .virtual ∧
      GivesUp (im.state.estate owned.virtualId T) owned :=
  ⟨virtual_mem_estate, pointed_mem_estate hw hc h.virtual, backing_mem_estate _⟩

/-- What holds a lease is in the estate. -/
theorem held_estate (hw : im.state.WellKeyed) (hl : im.state.book.Leased leaseRules) {held : Held}
    (h : held.Current im.state) (hA : held.tenantId ∈ T) :
    held.virtualId ∈ im.state.estate held.virtualId T .virtual ∧
      held.leaseId ∈ im.state.estate held.virtualId T .lease ∧
      held.lease.tenant ∈ im.state.estate held.virtualId T .tenant := by
  have hkeyed : held.record.id = held.virtualId := hw.keyed .virtual _ _ h.owned.virtual
  have htenant : held.tenant.id = held.tenantId := hw.keyed .tenant _ _ h.owned.tenant
  have hx : held.lease.virtualId = held.virtualId := h.virtual.trans hkeyed
  have howner := hl.owner _ _ _ (Consistent.lease_of_record h.lease) h.live
    (hx ▸ Consistent.seat_of_record h.owned.virtual)
  refine ⟨virtual_mem_estate, lease_mem_estate h.lease hx, tenant_mem_estate ?_⟩
  change held.lease.tenant = held.record.owner at howner
  rw [howner, h.owned.owner, htenant]
  exact hA

/-- What a migration is about is in the estate. -/
theorem inFlight_estate (hw : im.state.WellKeyed) {f : InFlight} (h : f.Current im.state) :
    f.virtualId ∈ im.state.estate f.virtualId T .virtual ∧
      f.migrationId ∈ im.state.estate f.virtualId T .migration := by
  have hkeyed : f.record.id = f.virtualId := hw.keyed .virtual _ _ h.owned.virtual
  refine ⟨virtual_mem_estate, migration_mem_estate fun m hm => ?_⟩
  cases h.migration.symm.trans hm
  exact h.virtual.trans hkeyed

/-- Nothing was changed, or the authority entitles the caller, and what the operation has to find is
in the estate of the virtual accelerator that the authority names. -/
def Governed (auth : Authority) (op : Op) (im im' : Impl σ) : Prop :=
  im' = im ∨ ∃ A x, auth.Entitles im.state A x ∧ Homely x im im' ∧
    im.Reaches (im.state.estate x {t | t = A ∨ op.heir = some t}) op

/-- An operation is governed when its effect is, given that its checks accept. -/
theorem governed_checked {π α : Type} {op : Op} {context : Impl σ → OpContext} {kind : AuditKind}
    {check : Impl σ → Except Status π} {act : π → Body σ α}
    (hact : ∀ plan, check im = .ok plan → ∃ A x, auth.Entitles im.state A x ∧
      Homely x im (act plan im).1 ∧
      im.Reaches (im.state.estate x {t | t = A ∨ op.heir = some t}) op) :
    Governed auth op im (checked (fun im => orRefuse (context im) kind (check im)) act im).1 :=
  fst_checked (p := Governed auth op im) (.inl rfl) fun plan hok => .inr (hact plan hok)

/-- What an operation answers is of no concern to what governs it. -/
theorem governed_forget {α : Type} {op : Op} {body : Body σ α}
    (h : Governed auth op im (body im).1) : Governed auth op im (body.forget im).1 := h

/-- Every operation of a tenant is governed by its authority. -/
theorem governed_body {op : Op} (hop : op.tenancy = some auth) {b : Body σ Unit}
    (hb : body clock op = some b) (hs : Tracks im ∅ im) (hc : im.state.Consistent) :
    Governed auth op im (b im).1 := by
  have hw := hs.wellKeyed
  -- a virtual accelerator carries the identity it is stored under
  have hkeyed : ∀ {o : Owned}, o.Current im.state → o.record.id = o.virtualId :=
    fun h => hw.keyed .virtual _ _ h.virtual
  cases op <;> simp only [body, Option.some.injEq, reduceCtorEq] at hb <;> subst hb <;>
    simp only [Op.tenancy, Option.some.injEq, reduceCtorEq] at hop <;> subst hop
  case transferOwnership =>
    refine governed_forget (governed_checked fun t hok => ⟨t.tenantId, t.virtualId,
      (resolves_transferOwnershipCheck hok).entitles hw, homely_transferOwnershipAct _,
      fun t' ht' => ?_⟩)
    cases hok.symm.trans ht'
    exact ⟨virtual_mem_estate, tenant_mem_estate (.inl rfl), tenant_mem_estate (.inr rfl)⟩
  case updateContract =>
    exact governed_forget (governed_checked fun o hok => ⟨o.tenantId, o.virtualId,
      (resolves_updateContractCheck hok).entitles hw, homely_updateContractAct _,
      serves_estate hok⟩)
  case activate =>
    exact governed_forget (governed_checked fun o hok => ⟨o.tenantId, o.virtualId,
      (resolves_activateCheck hok).entitles hw,
      Homely.refl.transitionAct _ _ _ _ _ fun _ hi => hi.recomputeDerivedAccounting,
      serves_estate hok⟩)
  case drain =>
    exact governed_forget (governed_checked fun o hok => ⟨o.tenantId, o.virtualId,
      (resolves_drainCheck hok).entitles hw, Homely.refl.transitionAct _ _ _ _ _ fun _ hi => hi,
      serves_estate hok⟩)
  case resolveRecovery =>
    exact governed_forget (governed_checked fun o hok => ⟨o.tenantId, o.virtualId,
      (resolves_resolveRecoveryCheck hok).entitles hw,
      Homely.refl.transitionAct _ _ _ _ _ fun _ hi => hi, serves_estate hok⟩)
  case suspend =>
    refine governed_forget (governed_checked fun o hok => ⟨o.tenantId, o.virtualId,
      (resolves_suspendCheck hok).entitles hw, homely_suspendAct _, fun o' ho' => ?_⟩)
    cases hok.symm.trans ho'
    exact givesUp_estate hw hc.coherent (suspendCheck_ok hok).1
  case resume =>
    exact governed_forget (governed_checked fun o hok => ⟨o.tenantId, o.virtualId,
      (resolves_resumeCheck hok).entitles hw,
      Homely.refl.transitionAct _ _ _ _ _ fun _ hi => hi.recomputeDerivedAccounting,
      serves_estate hok⟩)
  case fenceVirtual =>
    exact governed_forget (governed_checked fun o hok => ⟨o.tenantId, o.virtualId,
      (resolves_notRetiredCheck hok).entitles hw, homely_fenceVirtualAct _, serves_estate hok⟩)
  case retireVirtual =>
    refine governed_forget (governed_checked fun o hok => ⟨o.tenantId, o.virtualId,
      (resolves_notRetiredCheck hok).entitles hw, homely_retireVirtualAct _, fun o' ho' => ?_⟩)
    cases hok.symm.trans ho'
    exact givesUp_estate hw hc.coherent (notRetiredCheck_ok hok).1
  case assignBacking =>
    refine governed_forget (governed_checked fun plan hok => ⟨plan.1.tenantId, plan.1.virtualId,
      (resolves_assignBackingCheck hok).entitles hw,
      homely_assignBackingAct (hkeyed (assignBackingCheck_ok hok).1), fun plan' hp => ?_⟩)
    cases hok.symm.trans hp
    exact ⟨virtual_mem_estate, backing_mem_estate _⟩
  case replaceBacking =>
    refine governed_forget (governed_checked fun plan hok => ⟨plan.1.tenantId, plan.1.virtualId,
      (resolves_assignBackingCheck hok).entitles hw,
      homely_assignBackingAct (hkeyed (assignBackingCheck_ok hok).1), fun plan' hp => ?_⟩)
    cases hok.symm.trans hp
    obtain ⟨hx, hgives⟩ := givesUp_estate hw hc.coherent (assignBackingCheck_ok hok).1
    exact ⟨hx, backing_mem_estate _, hgives⟩
  case attach =>
    refine governed_forget (governed_checked fun o hok => ⟨o.tenantId, o.virtualId,
      (resolves_attachCheck hok).entitles hw, homely_attachAct (hkeyed (attachCheck_ok hok).1),
      fun o' ho' => ?_⟩)
    cases hok.symm.trans ho'
    exact ⟨virtual_mem_estate, tenant_mem_estate (.inl rfl)⟩
  case renewLease =>
    refine governed_forget (governed_checked fun target hok => ?_)
    obtain ⟨o, ho, hx⟩ := resolves_renewLeaseCheck hok
    refine ⟨o.tenantId, o.virtualId, ho.entitles hw, homely_renewLeaseAct, fun target' ht' => ?_⟩
    cases hok.symm.trans ht'
    exact lease_mem_estate (renewLeaseCheck_ok hok) (hx.trans (hkeyed (resolveOwned_ok ho.owned)))
  case detach =>
    refine governed_checked fun held hok => ⟨held.tenantId, held.virtualId,
      (resolves_resolveLeaseFor hok).entitles hw, homely_releaseLeaseAct _ _ _ _, fun h' hh' => ?_⟩
    cases hok.symm.trans hh'
    exact held_estate hw hc.leased (resolveLeaseFor_ok hok) (.inl rfl)
  case revokeLease =>
    refine governed_checked fun held hok => ⟨held.tenantId, held.virtualId,
      (resolves_resolveLeaseFor hok).entitles hw, homely_releaseLeaseAct _ _ _ _, fun h' hh' => ?_⟩
    cases hok.symm.trans hh'
    exact held_estate hw hc.leased (resolveLeaseFor_ok hok) (.inl rfl)
  case planMigration =>
    refine governed_forget (governed_checked fun plan hok => ⟨plan.1.tenantId, plan.1.virtualId,
      (resolves_planMigrationCheck hok).entitles hw,
      homely_planMigrationAct (hkeyed (planMigrationCheck_ok hok).1), fun plan' hp => ?_⟩)
    cases hok.symm.trans hp
    exact ⟨virtual_mem_estate, mem_estate_of_fresh hw le_rfl⟩
  case prepareMigration =>
    refine governed_forget (governed_checked fun f hok => ⟨f.tenantId, f.virtualId,
      (resolves_prepareMigrationCheck hok).entitles hw,
      homely_prepareMigrationAct hs (prepareMigrationCheck_ok hok).1, fun f' hf' => ?_⟩)
    cases hok.symm.trans hf'
    exact inFlight_estate hw (prepareMigrationCheck_ok hok).1
  case commitMigration =>
    refine governed_forget (governed_checked fun c hok => ⟨c.tenantId, c.virtualId,
      (resolves_commitMigrationCheck hok).entitles hw, homely_commitMigrationAct, fun c' hc' => ?_⟩)
    cases hok.symm.trans hc'
    have hcurrent := (commitMigrationCheck_ok hok).1
    obtain ⟨hx, hm⟩ := inFlight_estate hw hcurrent
    obtain ⟨hsource, hdestination⟩ := sides_mem_estate hw hc.coherent hcurrent.migration
      (hcurrent.virtual.trans (hkeyed hcurrent.owned))
    exact ⟨hx, hm, hsource, hdestination, backing_mem_estate _, backing_mem_estate _⟩
  case completeMigration =>
    refine governed_forget (governed_checked fun f hok => ⟨f.tenantId, f.virtualId,
      (resolves_completeMigrationCheck hok).entitles hw, homely_completeMigrationAct,
      fun f' hf' => ?_⟩)
    cases hok.symm.trans hf'
    exact inFlight_estate hw (completeMigrationCheck_ok hok).1
  case abortMigration =>
    refine governed_forget (governed_checked fun f hok => ⟨f.tenantId, f.virtualId,
      (resolves_abortMigrationCheck hok).entitles hw, homely_abortMigrationAct _,
      fun f' hf' => ?_⟩)
    cases hok.symm.trans hf'
    have hcurrent := (abortMigrationCheck_ok hok).1
    obtain ⟨hx, hm⟩ := inFlight_estate hw hcurrent
    exact ⟨hx, hm, (sides_mem_estate hw hc.coherent hcurrent.migration
      (hcurrent.virtual.trans (hkeyed hcurrent.owned))).2⟩
  case reserveAllocation =>
    refine governed_forget (governed_checked fun plan hok => ⟨plan.1.tenantId, plan.1.virtualId,
      (resolves_reserveAllocationCheck hok).entitles hw,
      (((Homely.refl.touch _ _).modify .virtual _ _ fun _ => by rfl).account _).touchHeader,
      fun plan' hp => ?_⟩)
    cases hok.symm.trans hp
    exact virtual_mem_estate
  case releaseAllocation =>
    refine governed_checked fun target hok => ?_
    obtain ⟨A, hA⟩ := entitles_releaseAllocationCheck hw hok
    refine ⟨A, target.1, hA, (((Homely.refl.touch _ _).modify .virtual _ _
      fun _ => by rfl).account _).touchHeader, fun target' ht' => ?_⟩
    cases hok.symm.trans ht'
    exact virtual_mem_estate
  case accountKernel =>
    refine governed_checked fun plan hok => ⟨plan.1.tenantId, plan.1.virtualId,
      (resolves_accountKernelCheck hok).entitles hw,
      (((Homely.refl.touch _ _).modify .virtual _ _ fun _ => by rfl).account _).touchHeader,
      fun plan' hp => ?_⟩
    cases hok.symm.trans hp
    exact virtual_mem_estate

/-! ### Tenants that are saved -/

/-- Fencing leases saves no tenant that was not saved. -/
theorem mem_saved_fenceLeases {x : VirtualAcceleratorId} {reason : Text} {now : UnixMicros}
    {A : TenantId} (h : A ∈ (im.fenceLeases x reason now).undo.saved .tenant) :
    A ∈ im.undo.saved .tenant ∨
      ∃ v : VirtualAcceleratorRecord, im.state.virtuals[x]? = some v ∧ A = v.owner := by
  unfold fenceLeases at h
  split at h
  · exact .inl h
  · rename_i v hv
    -- the leases of the virtual accelerator are saved, and no tenant
    have hleases : ∀ {i : Impl σ} {l : LeaseId},
        (A ∈ i.undo.saved .tenant → A ∈ im.undo.saved .tenant) →
        A ∈ (i.fenceLease reason now l).undo.saved .tenant → A ∈ im.undo.saved .tenant := by
      intro i l hi hl
      unfold fenceLease at hl
      split at hl
      · exact hi hl
      · split at hl
        · obtain ⟨⟨⟩, -⟩ | hl := mem_saved_touch.mp hl
          exact hi hl
        · exact hi hl
    have hfold : A ∈ (v.leases.foldl (fun im l => im.fenceLease reason now l) im).undo.saved
        .tenant → A ∈ im.undo.saved .tenant :=
      List.foldlRecOn (motive := fun i : Impl σ => A ∈ i.undo.saved .tenant →
        A ∈ im.undo.saved .tenant) v.leases _ id fun i hi l _ => hleases hi
    dsimp only at h
    split at h
    · exact .inl (hfold h)
    · generalize v.leases.foldl (fun im l => im.fenceLease reason now l) im = i at h hfold
      split at h
      · obtain ⟨⟨⟩, -⟩ | h := mem_saved_touch.mp h
        exact .inl (hfold h)
      · obtain ⟨-, rfl⟩ | h := mem_saved_touch.mp h
        · exact .inr ⟨v, hv, rfl⟩
        · obtain ⟨⟨⟩, -⟩ | h := mem_saved_touch.mp h
          exact .inl (hfold h)

/-- A transfer saves its two tenants. -/
theorem mem_saved_transferOwnershipAct {newOwner A : TenantId} {t : Transfer}
    (h : A ∈ (transferOwnershipAct auth newOwner clock t im).1.undo.saved .tenant) :
    A ∈ im.undo.saved .tenant ∨ A = t.tenant.id ∨ A = t.destination.id ∨
      ∃ v : VirtualAcceleratorRecord, im.state.virtuals[t.virtualId]? = some v ∧ A = v.owner := by
  simp only [transferOwnershipAct] at h
  obtain ⟨⟨⟩, -⟩ | h := mem_saved_touch.mp h
  obtain ⟨-, hA⟩ | h := mem_saved_touch.mp h
  · exact .inr (.inr (.inl hA))
  obtain ⟨-, hA⟩ | h := mem_saved_touch.mp h
  · exact .inr (.inl hA)
  · obtain h | hv := mem_saved_fenceLeases h
    · exact .inl h
    · exact .inr (.inr (.inr hv))

end Impl

/-! ### Isolation -/

/-- From one state to the next only records of a virtual accelerator were changed that the authority
entitles to; what belongs to the virtual accelerators of other tenants is unchanged, and so are the
other tenants, apart from the heir of a transfer. -/
structure VirtualizationState.Isolated (auth : Authority) (heir : Option TenantId)
    (s s' : VirtualizationState) : Prop where
  entitled : ∀ k id y, s.Belongs k id y ∨ s'.Belongs k id y → s'.find k id ≠ s.find k id →
    ∃ A, auth.Entitles s A y
  others : ∀ y (v : VirtualAcceleratorRecord), s.virtuals[y]? = some v →
    auth.tenant ≠ some v.owner → ∀ k id, s.Belongs k id y ∨ s'.Belongs k id y →
      s'.find k id = s.find k id
  tenants : ∀ A (t : TenantRecord), s.tenants[A]? = some t → auth.tenant ≠ some A →
    heir ≠ some A → s'.tenants[A]? = some t

namespace VirtualizationState.Isolated

variable {auth : Authority} {heir : Option TenantId} {s s' s'' : VirtualizationState}

/-- Isolation is about the tables only. -/
theorem of_entities (h : s.Isolated auth heir s') (he : s''.entities = s'.entities) :
    s.Isolated auth heir s'' := by
  have hfind : ∀ k id, s''.find k id = s'.find k id := fun k id => by rw [find, he, find]
  have hbelongs : ∀ k id y, s''.Belongs k id y ↔ s'.Belongs k id y := fun k id y => by
    simp only [Belongs, hfind]
  refine ⟨fun k id y hy hne => ?_, fun y v hv hA k id hy => ?_, fun A t ht hA hheir => ?_⟩
  · rw [hbelongs] at hy
    exact h.entitled k id y hy (hfind k id ▸ hne)
  · rw [hbelongs] at hy
    exact (hfind k id).trans (h.others y v hv hA k id hy)
  · exact (hfind .tenant A).trans (h.tenants A t ht hA hheir)

/-- A change of tenants that are named. -/
theorem of_tenants (hk : ∀ k, k ≠ .tenant → ∀ id, s'.find k id = s.find k id)
    (ht : ∀ A (t : TenantRecord), s.tenants[A]? = some t → auth.tenant ≠ some A →
      heir ≠ some A → s'.tenants[A]? = some t) : s.Isolated auth heir s' := by
  have hsame : ∀ k id y, s.Belongs k id y ∨ s'.Belongs k id y → s'.find k id = s.find k id := by
    intro k id y hy
    refine hk k ?_ id
    rintro rfl
    rcases hy with ⟨r, -, hy⟩ | ⟨r, -, hy⟩ <;> cases hy
  exact ⟨fun k id y hy hne => absurd (hsame k id y hy) hne, fun y v _ _ k id hy => hsame k id y hy,
    ht⟩

end VirtualizationState.Isolated

namespace Impl

section Bodies

variable {σ : Type} {im : Impl σ} {auth : Authority} {clock : Clock} {op : Op} {b : Body σ Unit}

/-- The body of an operation of a tenant leaves the other tenants alone. -/
theorem isolated_body (hop : op.tenancy = some auth) (hb : body clock op = some b)
    (hs : Tracks im ∅ im) (hc : im.state.Consistent) :
    im.state.Isolated auth op.heir (b im).1.state := by
  obtain h | ⟨A, x, hentitles, hhome, hreaches⟩ := governed_body hop hb hs hc
  · rw [h]
    exact .of_tenants (fun _ _ _ => rfl) fun _ _ ht _ _ => ht
  · obtain ⟨v, hv, howner⟩ := hentitles.owner
    have hconfined := confined_body hb hs (closed_estate hc.leased (.inl rfl) fun v' hv' => by
      rw [hv] at hv'
      cases hv'
      exact howner) (roomy_estate hs.wellKeyed) hreaches
    have hsame : ∀ k id y, y ≠ x →
        im.state.Belongs k id y ∨ (b im).1.state.Belongs k id y →
        (b im).1.state.find k id = im.state.find k id := by
      intro k id y hne hy
      have hbefore : im.state.Belongs k id y := hy.elim (fun h => h) (hhome k id y hne)
      exact hconfined.outside k id fun hmem => hne (hmem.1 y hbefore)
    refine ⟨fun k id y hy hchanged => ?_, fun y w hw hA k id hy => ?_, fun B t ht hB hheir => ?_⟩
    · obtain rfl | hne := eq_or_ne y x
      · exact ⟨A, hentitles⟩
      · exact absurd (hsame k id y hne hy) hchanged
    · refine hsame k id y ?_ hy
      rintro rfl
      rw [hv] at hw
      cases hw
      exact hA (howner.symm ▸ hentitles.tenant)
    · refine (hconfined.outside .tenant B fun hmem => ?_).trans ht
      obtain (rfl | hB') | hnone := hmem.2 rfl
      · exact hB hentitles.tenant
      · exact hheir hB'
      · exact absurd (hnone.symm.trans ht) (by simp)

end Bodies

section Calls

variable {im : Impl Disk} {auth : Authority} {clock : Clock} {op : Op}

/-- What a transfer changed before it was touched are the tenants of the caller and of the heir. -/
theorem saved_of_transfers {b : Body Disk Unit} (hop : op.tenancy = some auth)
    (hb : body clock op = some b) (hw : im.state.WellKeyed) (ht : im.transfers op = true)
    {A : TenantId} (hA : A ∈ (b im.beginOp).1.undo.saved .tenant) :
    auth.tenant = some A ∨ op.heir = some A := by
  cases op <;> simp only [transfers, Bool.false_eq_true] at ht
  rename_i auth' newOwner newGeneration
  simp only [Op.tenancy, Option.some.injEq] at hop
  subst hop
  cases hc : transferOwnershipCheck auth' newOwner newGeneration im with
  | error status => simp [hc, Except.isOk, Except.toBool] at ht
  | ok t =>
    have hact : (b im.beginOp).1 = (transferOwnershipAct auth' newOwner clock t im.beginOp).1 := by
      have hc' : transferOwnershipCheck auth' newOwner newGeneration im.beginOp = .ok t := hc
      simp only [body, Option.some.injEq] at hb
      subst hb
      simp only [Body.forget, transferOwnershipBody, checked, orRefuse, hc', mapError_ok]
    obtain ⟨hcurrent, hdest, -⟩ := transferOwnershipCheck_ok hc
    have hentitles := (resolves_transferOwnershipCheck hc).entitles hw
    have htenant : t.tenant.id = t.tenantId := hw.keyed .tenant _ _ hcurrent.tenant
    have hheir : t.destination.id = newOwner := hw.keyed .tenant _ _ hdest
    rw [hact] at hA
    obtain hA | rfl | rfl | ⟨v, hv, rfl⟩ := mem_saved_transferOwnershipAct hA
    · simp [beginOp] at hA
    · exact .inl (htenant ▸ hentitles.tenant)
    · exact .inr (congrArg some hheir.symm)
    · have hv' : im.state.virtuals[t.virtualId]? = some v := hv
      rw [hcurrent.virtual] at hv'
      cases hv'
      exact .inl (hcurrent.owner.trans htenant ▸ hentitles.tenant)

/-- A call of a tenant leaves the other tenants alone, whatever the store answers. -/
theorem isolated_exec (hop : op.tenancy = some auth) (hw : im.state.WellKeyed)
    (hc : im.state.Consistent) :
    im.state.Isolated auth op.heir (im.exec clock op).1.state := by
  obtain ⟨b, hb, hresolve⟩ : ∃ b : Body Disk Unit, body clock op = some b ∧ im.resolve op = op := by
    cases op <;> simp only [Op.tenancy, reduceCtorEq] at hop <;> exact ⟨_, rfl, rfl⟩
  obtain ⟨m, hm, hmw, hiff, hmt, hms⟩ := tracks_body hb hw
  have halike : (im.withTenants m).state.Alike False im.state := by
    refine ⟨fun k hk => ?_, hms, False.elim, rfl, rfl, rfl, rfl⟩
    cases k <;> first | rfl | exact absurd rfl hk
  have hdisplaced : Displaced im.state (im.withTenants m).state :=
    ⟨rfl, Nat.le_refl _, hmw, halike⟩
  have hwritten : Written im (im.withTenants m) _ (im.operation clock b) :=
    written_operation rfl rfl hdisplaced hm hmt
  rw [exec_of_resolve (hresolve.symm ▸ hb), hwritten.committed]
  obtain ⟨store, -, hcommit⟩ | ⟨store, status, -, hcommit⟩ := commit_cases
    ((b im.beginOp).1.settle clock (recorded (b im.beginOp).2).1
      (recorded (b im.beginOp).2).2.1 (recorded (b im.beginOp).2).2.2)
  · -- the records are the ones of the body
    rw [hcommit]
    have hbegun : im.beginOp.state.Consistent := hc
    have htracks : Tracks im.beginOp ∅ im.beginOp := .beginOp hw
    refine (isolated_body hop hb htracks hbegun).of_entities ?_
    exact (entities_extended _).trans (settles _ clock _ _ _).entities
  · -- the records are the ones that were saved
    rw [hcommit]
    have hundo := hwritten.ready.undoes store status
    refine .of_tenants (fun k hk id => ?_) fun A t ht hA hheir => ?_
    · rw [hundo.find_rollback k id, find, find, halike.entities k hk]
    · refine (hundo.find_rollback .tenant A).trans (Eq.trans ?_ ht)
      cases htransfers : im.transfers op with
      | false =>
        rw [hiff.mpr htransfers]
        rfl
      | true =>
        refine hmt A fun hsaved => ?_
        obtain h | h := saved_of_transfers hop hb hw htransfers hsaved
        · exact hA h
        · exact hheir h

end Calls

end Impl

/-- In every state of every run, an operation of a tenant changes records of the one virtual
accelerator only that its authority names and its tenant owns, and only for a tenant that is not
fenced, under the current epoch and tenant generation; what belongs to other tenants is unchanged,
whatever else the authority names and whatever the store answers. -/
theorem isolated_of_run {options : RuntimeOptions} {stored : Bool} {events : List Event}
    {im : Impl Disk} (h : (Impl.initial options stored).run events = some im) {op : Op}
    {auth : Authority} (hop : op.tenancy = some auth) (clock : Clock) (answer : Check) :
    im.state.Isolated auth op.heir ((im.answering answer).exec clock op).1.state := by
  have hkept := (Impl.consistent_of_run h).answering answer
  exact Impl.isolated_exec hop hkept.state.wellKeyed hkept.state.holds

/-- The preparation of a migration, which changes records of every kind of the one virtual
accelerator and none of the other one of the tenant. -/
theorem isolated_prepared : ∃ im, (Impl.initial {} true).run Sample.planned = some im ∧
    im.state.Isolated (Sample.mover 14 2 28 1) none
      ((im.answering (.ok ())).exec Sample.clock
        (.prepareMigration (Sample.mover 14 2 28 1))).1.state ∧
    (((im.answering (.ok ())).exec Sample.clock
      (.prepareMigration (Sample.mover 14 2 28 1))).1.state.migrations[28]?.any fun m =>
        m.state = .commitReady) = true := by
  have hrun : (((Impl.initial {} true).run Sample.planned).any fun im =>
      ((im.answering (.ok ())).exec Sample.clock
        (.prepareMigration (Sample.mover 14 2 28 1))).1.state.migrations[28]?.any fun m =>
          m.state = .commitReady) = true := by
    decide +kernel
  obtain ⟨im, him, hready⟩ := (Option.any_eq_true _ _).mp hrun
  have hop : Op.tenancy (.prepareMigration (Sample.mover 14 2 28 1)) =
    some (Sample.mover 14 2 28 1) := rfl
  exact ⟨im, him, isolated_of_run him hop Sample.clock (.ok ()), hready⟩

end AcceleratorVirtualization
