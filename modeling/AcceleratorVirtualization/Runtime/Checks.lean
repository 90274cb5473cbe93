import AcceleratorVirtualization.Runtime.Impl

/-!
# What an operation checks

The authority a caller presents is compared with the current generations; a backing is
compared with the policy, the contract and the isolation requirements; a migration plan is
compared with everything it was built from. Every check names the reason it refuses with.
-/

namespace AcceleratorVirtualization

namespace VirtualizationState

/-! ### Authority -/

/-- The authority must present the epoch of the coordinator. -/
def checkEpoch (s : VirtualizationState) (auth : Authority) : Check :=
  match auth.epoch with
  | none => .error (.of .invalidArgument "authority must carry the coordinator epoch")
  | some epoch => do
    if epoch ≠ s.epoch then
      throw ⟨.staleEpoch, txt "presented coordinator epoch " ++ toDecimal epoch ++
        txt " is not the current epoch " ++ toDecimal s.epoch⟩

/-- A policy generation that is presented must be the one in force. -/
def checkPolicy (s : VirtualizationState) (auth : Authority) : Check :=
  match auth.policyGeneration with
  | none => .ok ()
  | some generation => do
    if generation ≠ s.policyGeneration then
      throw ⟨.stalePolicy, txt "presented policy generation " ++ toDecimal generation ++
        txt " is not the current generation " ++ toDecimal s.policyGeneration⟩

/-- A request that the window still remembers is a replay. -/
def checkRequest (s : VirtualizationState) (auth : Authority) : Check :=
  match auth.request with
  | none => .ok ()
  | some request =>
    let session := auth.session.getD 0
    match s.requests.find? fun r => r.request = request && r.session = session with
    | none => .ok ()
    | some r => .error ⟨.duplicateRequest, txt "request " ++ strRequest request ++
        txt " in session " ++ toDecimal session ++ txt " was already processed as '" ++
        r.operation ++ txt "' with outcome " ++ r.outcome.name⟩

/-- The tenant the caller speaks for, with the identity it is stored under. -/
def resolveTenant (s : VirtualizationState) (auth : Authority) :
    Except Status (TenantId × TenantRecord) :=
  match auth.tenant with
  | none => .error (.of .invalidArgument "authority must carry a tenant identity")
  | some id =>
    match s.tenants[id]? with
    | none => .error ⟨.notFound, txt "tenant " ++ strTenant id ++ txt " is not known"⟩
    | some tenant =>
      match auth.tenantGeneration with
      | none => .error (.of .invalidArgument "authority must carry the tenant generation")
      | some generation =>
        if generation ≠ tenant.generation then
          .error ⟨.staleTenant, txt "presented tenant generation " ++ toDecimal generation ++
            txt " is not the current generation " ++ toDecimal tenant.generation ++
            txt " for tenant " ++ strTenant id⟩
        else .ok (id, tenant)

/-- The virtual accelerator the caller acts on, with the identity it is stored under. -/
def resolveVirtual (s : VirtualizationState) (auth : Authority) :
    Except Status (VirtualAcceleratorId × VirtualAcceleratorRecord) :=
  match auth.virtualId with
  | none => .error (.of .invalidArgument "authority must carry a virtual accelerator identity")
  | some id =>
    match s.virtuals[id]? with
    | none => .error ⟨.notFound, txt "virtual accelerator " ++ strVirtual id ++ txt " is not known"⟩
    | some record =>
      match auth.virtualGeneration with
      | none => .error (.of .invalidArgument
          "authority must carry the virtual accelerator generation for this operation")
      | some generation =>
        if generation ≠ record.generation then
          .error ⟨.staleVirtualGeneration, txt "presented virtual generation " ++
            toDecimal generation ++ txt " is not the current generation " ++
            toDecimal record.generation ++ txt " for " ++ strVirtual id⟩
        else .ok (id, record)

end VirtualizationState

/-- Retired and fenced virtual accelerators accept no mutation. -/
def requireMutable (record : VirtualAcceleratorRecord) : Check := do
  if record.state = .retired then
    throw ⟨.virtualRetired, txt "virtual accelerator " ++ strVirtual record.id ++
      txt " is retired"⟩
  if record.state = .fenced then
    throw ⟨.virtualFenced, txt "virtual accelerator " ++ strVirtual record.id ++ txt " is fenced"⟩

/-- The tenant must own the virtual accelerator, in the generation it has, and must not be
fenced. -/
def requireOwner (record : VirtualAcceleratorRecord) (tenant : TenantRecord) : Check := do
  if record.owner ≠ tenant.id then
    throw ⟨.notAuthorized, txt "tenant " ++ strTenant tenant.id ++
      txt " does not own virtual accelerator " ++ strVirtual record.id⟩
  if record.ownerGeneration ≠ tenant.generation then
    throw ⟨.staleTenant, txt "virtual accelerator " ++ strVirtual record.id ++
      txt " is bound to tenant generation " ++ toDecimal record.ownerGeneration ++
      txt " but tenant " ++ strTenant tenant.id ++ txt " is at generation " ++
      toDecimal tenant.generation⟩
  if tenant.fenced then
    throw ⟨.tenantFenced, txt "tenant " ++ strTenant tenant.id ++ txt " is fenced: " ++
      tenant.fenceReason⟩

/-- A tenant and a virtual accelerator it owns, with the identities they are stored under. -/
structure Owned where
  tenantId : TenantId
  tenant : TenantRecord
  virtualId : VirtualAcceleratorId
  record : VirtualAcceleratorRecord

/-- The caller's tenant, its virtual accelerator, and that the one owns the other. -/
def VirtualizationState.resolveOwned (s : VirtualizationState) (auth : Authority) :
    Except Status Owned := do
  let (tenantId, tenant) ← s.resolveTenant auth
  let (virtualId, record) ← s.resolveVirtual auth
  requireOwner record tenant
  return { tenantId, tenant, virtualId, record }

/-! ### Backings -/

/-- The memory ceilings already committed on a backing by other virtual accelerators. The sum
is a 64-bit word. -/
def committedCeilings (state : VirtualizationState) (backing : BackingId)
    (record : VirtualAcceleratorRecord) : ℕ :=
  state.assignments.foldl (fun committed _ assignment =>
    if assignment.backing ≠ backing || !assignment.authoritative ||
        assignment.virtualId = record.id then committed
    else match state.virtuals[assignment.virtualId]? with
      | none => committed
      | some other => (committed + other.contract.memoryCeilingBytes) % 2 ^ 64) 0

/-- The first requirement the profile does not meet, with the reason. -/
def checkIsolation (isolation : IsolationProfile) (requirement : IsolationRequirement) :
    Check := do
  let have_ := isolation.stateOf requirement.dimension
  if have_ = .unknown && requirement.minimum ≠ .unknown then
    throw ⟨.isolationUnknownMandatory, txt "required isolation dimension " ++
      isolationDimensionName requirement.dimension ++
      txt (" is UNKNOWN for this backing; an unproven dimension can never satisfy a " ++
        "requirement")⟩
  if !isolationStateAtLeast have_ requirement.minimum then
    throw ⟨.isolationUnsatisfied, txt "backing provides " ++ isolationStateName have_ ++
      txt " for " ++ isolationDimensionName requirement.dimension ++ txt " but " ++
      isolationStateName requirement.minimum ++ txt " is required"⟩

/-- The truthful reason a candidate backing is refused. -/
def validateBackingFor (sorting : Sorting) (backing : BackingRecord)
    (physical : Option PhysicalDeviceRecord) (record : VirtualAcceleratorRecord)
    (policy : VirtualizationPolicy) (state : VirtualizationState) : Check := do
  if !policy.permitsBackingClass backing.klass then
    throw ⟨.backingClassNotAllowed, txt "policy does not allow backing class " ++
      backingClassName backing.klass⟩
  if !record.contract.permitsBackingClass backing.klass then
    throw ⟨.backingClassNotAllowed, txt "resource contract does not allow backing class " ++
      backingClassName backing.klass⟩
  if !record.contract.permitsMultiplexing backing.multiplexing then
    throw ⟨.contractViolation, txt "resource contract does not allow multiplexing mode " ++
      multiplexingName backing.multiplexing⟩
  if backing.provenance = .synthetic && !policy.syntheticBackingAllowed then
    throw (.of .policyViolation "policy does not allow synthetic backing")
  if backing.provenance = .unsupported then
    throw (.of .backingUnavailable
      "backing provenance is UNSUPPORTED: this mechanism is not available on this host")
  if backing.capabilityRank < record.contract.minimumBackingRank then
    throw ⟨.capabilityProjectionMismatch, txt "backing rank " ++
      toDecimal backing.capabilityRank ++ txt " is below the contract minimum of " ++
      toDecimal record.contract.minimumBackingRank⟩
  if record.contract.exclusivityRequired && !backing.exclusive then
    throw (.of .contractViolation
      "resource contract requires exclusivity but the backing is a shared mechanism")
  if !backing.available then
    throw ⟨.backingUnavailable, txt "backing " ++ strBacking backing.id ++
      txt " is not currently available"⟩
  if backing.exclusive && valid backing.assignedTo && backing.assignedTo ≠ record.id then
    throw ⟨.backingBusy, txt "backing " ++ strBacking backing.id ++
      txt " is an exclusive mechanism already assigned to virtual accelerator " ++
      strVirtual backing.assignedTo⟩
  if policy.tenantSharing = .exclusive && !backing.exclusive then
    throw (.of .policyViolation
      "policy requires exclusive tenancy but the backing is a shared mechanism")
  if let some device := physical then
    if !device.present then
      throw ⟨.backingUnavailable, txt "physical device " ++ strPhysical device.id ++
        txt " is not present according to the latest evidence"⟩
  if !backing.evidenceFresh then
    throw ⟨.backingUnavailable, txt "backing evidence for " ++ strBacking backing.id ++
      txt " is stale; the backing must be revalidated before it can be assigned"⟩
  let requirements := normalizeRequirements sorting
    (record.contract.requiredIsolation ++ policy.requiredIsolation)
  requirements.forM (checkIsolation backing.isolation)
  let ceiling := record.contract.memoryCeilingBytes
  if 0 < ceiling && !record.contract.oversubscriptionAllowed &&
      !policy.oversubscriptionAllowed then
    if ceiling > backing.capacityBytes ||
        (committedCeilings state backing.id record + ceiling) % 2 ^ 64 > backing.capacityBytes then
      throw ⟨.oversubscriptionDenied,
        txt "committed virtual memory ceilings would exceed the physical capacity of backing " ++
        strBacking backing.id ++
        txt " and oversubscription is not enabled by policy or contract"⟩

/-! ### Migration plans -/

/-- Any drift from what the plan was built from invalidates it. -/
def planStaleness (migration : MigrationRecord) (record : VirtualAcceleratorRecord)
    (state : VirtualizationState) : Check := do
  let plan := migration.plan
  if plan.epoch ≠ state.epoch then
    throw ⟨.staleEpoch, txt "migration plan was built under coordinator epoch " ++
      toDecimal plan.epoch ++ txt " but the current epoch is " ++ toDecimal state.epoch⟩
  if plan.policyGeneration ≠ state.policyGeneration then
    throw ⟨.stalePolicy, txt "migration plan was built under policy generation " ++
      toDecimal plan.policyGeneration ++ txt " but the current generation is " ++
      toDecimal state.policyGeneration⟩
  if plan.virtualGeneration ≠ record.generation then
    throw ⟨.staleMigration, txt "migration plan targets virtual generation " ++
      toDecimal plan.virtualGeneration ++ txt " but " ++ strVirtual record.id ++
      txt " is at generation " ++ toDecimal record.generation⟩
  if plan.contractGeneration ≠ record.contract.generation then
    throw ⟨.staleMigration, txt "migration plan targets resource contract generation " ++
      toDecimal plan.contractGeneration ++ txt " but the current generation is " ++
      toDecimal record.contract.generation⟩
  -- before the cutover the source must still be the binding; after it the destination is
  if !migrationStateAfterCutover migration.state &&
      (plan.sourceBacking ≠ record.backing ||
        plan.sourceBackingGeneration ≠ record.backingGeneration) then
    throw (.of .staleBacking "migration plan source binding has changed")
  match state.backings[plan.sourceBacking]? with
  | none => throw (.of .staleBacking "migration plan source backing no longer exists")
  | some source =>
    if source.generation ≠ plan.sourceBackingGeneration then
      throw ⟨.staleBacking, txt "migration plan source backing generation " ++
        toDecimal plan.sourceBackingGeneration ++ txt " is not the current generation " ++
        toDecimal source.generation⟩
  match state.backings[plan.destinationBacking]? with
  | none => throw (.of .staleBacking "migration plan destination backing no longer exists")
  | some destination =>
    if destination.generation ≠ plan.destinationBackingGeneration then
      throw ⟨.staleBacking, txt "migration plan destination backing generation " ++
        toDecimal plan.destinationBackingGeneration ++ txt " is not the current generation " ++
        toDecimal destination.generation⟩
  match state.tenants[plan.tenant]? with
  | none => throw (.of .staleTenant "migration plan tenant no longer exists")
  | some tenant =>
    if tenant.generation ≠ plan.tenantGeneration then
      throw ⟨.staleTenant, txt "migration plan tenant generation " ++
        toDecimal plan.tenantGeneration ++ txt " is not the current generation " ++
        toDecimal tenant.generation⟩

end AcceleratorVirtualization
