import AcceleratorVirtualization.Runtime.Devices

/-!
# Policy and tenancy

A policy change advances the policy generation: live leases are superseded, every virtual
accelerator is revalidated against the new policy, and a backing that no longer satisfies it
is taken away. Tenants are created, fenced, and may hand a virtual accelerator to one another.
-/

namespace AcceleratorVirtualization

namespace Impl

variable {σ : Type} [DurableStore σ]

/-! ### The policy -/

/-- What a new policy is checked for. -/
def setPolicyCheck (auth : Authority) (policy : VirtualizationPolicy) (im : Impl σ) :
    Except Status VirtualizationPolicy := do
  im.guardStore
  im.state.checkEpoch auth
  im.state.checkPolicy auth
  im.state.checkRequest auth
  (policy.normalize im.options.sorting).validate
  return policy.normalize im.options.sorting

/-- A lease granted under the previous policy does not survive it. -/
def supersedeLease (updated : VirtualizationPolicy) (now : UnixMicros) (im : Impl σ)
    (id : LeaseId) : Impl σ :=
  match im.state.leases[id]? with
  | none => im
  | some lease =>
    if leaseStateIsLive lease.state then
      ((im.touchLease lease.id).modify .lease id fun lease =>
        { lease with
          state := .superseded
          revokedAt := now
          reason := txt "policy generation advanced to " ++ toDecimal updated.generation }).account
        fun a => { a with leasesFenced := a.leasesFenced + 1 }
    else im

/-- The virtual accelerator under the new policy, with its attachments released. -/
def detachForPolicy (updated : VirtualizationPolicy) (now : UnixMicros)
    (v : VirtualAcceleratorRecord) : VirtualAcceleratorRecord :=
  let v := { v with activeAttachments := 0 }
  let v := if lifecycleRequiresBacking v.state then
      { v with
        state := .provisioned
        stateGeneration := v.stateGeneration + 1
        stateReason := txt "policy generation advanced; authority must be re-established"
        generation := v.generation + 1
        updatedAt := now }
    else v
  { v with policyGeneration := updated.generation }

/-- Whether the backing a virtual accelerator points to satisfies a policy. -/
def backingSatisfies (sorting : Sorting) (state : VirtualizationState)
    (policy : VirtualizationPolicy) (record : VirtualAcceleratorRecord) : Bool :=
  match state.backings[record.backing]? with
  | none => true
  | some backing =>
    (validateBackingFor sorting backing state.physical[backing.physical]? record policy state).isOk

/-- The current backing no longer satisfies the policy: the binding is taken away. -/
def withdrawBacking (im : Impl σ) (now : UnixMicros) (id : VirtualAcceleratorId)
    (record : VirtualAcceleratorRecord) : Impl σ :=
  let im := if valid record.assignment then
      im.revokeAssignment record.assignment
        (txt "policy generation advanced and the backing no longer satisfies the contract") now
    else im
  let im := (im.touchBacking record.backing).modify .backing record.backing fun b =>
    { b with assignedTo := 0, activeAssignment := 0 }
  im.modify .virtual id fun v =>
    { v with
      assignment := 0
      state := .recoveryRequired
      stateGeneration := v.stateGeneration + 1
      stateReason :=
        txt "policy generation advanced; the current backing no longer satisfies the new policy"
      generation := v.generation + 1
      updatedAt := now }

/-- Revalidate one virtual accelerator against the new policy. -/
def revalidateVirtual (updated : VirtualizationPolicy) (now : UnixMicros) (im : Impl σ)
    (id : VirtualAcceleratorId) : Impl σ :=
  match im.state.virtuals[id]? with
  | none => im
  | some record =>
    if record.state = .retired then im
    else
      let im := (im.touchVirtual record.id).modify .virtual id (detachForPolicy updated now)
      let record := detachForPolicy updated now record
      let im := if backingSatisfies im.options.sorting im.state updated record then im
        else im.withdrawBacking now id record
      im.rebuildProjection id

/-- No attachment survives the policy change. -/
def clearAttachments (now : UnixMicros) (im : Impl σ) (id : TenantId) : Impl σ :=
  match im.state.tenants[id]? with
  | none => im
  | some tenant =>
    if tenant.activeAttachments ≠ 0 then
      (im.touchTenant tenant.id).modify .tenant id fun tenant =>
        { tenant with activeAttachments := 0, updatedAt := now }
    else im

/-- Put the policy in force, and validate everything again. -/
def setPolicyAct (auth : Authority) (clock : Clock) (policy : VirtualizationPolicy) :
    Body σ VirtualizationPolicy :=
  fun im =>
    let now := clock.now
    let im := im.touchHeader
    let updated := { policy with id := im.nextId, generation := im.state.policyGeneration + 1 }
    let im := im.takeId
    let im := { im with
      state.policy := updated
      state.policyGeneration := updated.generation }
    let im := im.account fun a => { a with policyUpdates := a.policyUpdates + 1 }
    let im := im.state.leases.keys.foldl (supersedeLease updated now) im
    let im := im.state.virtuals.keys.foldl (revalidateVirtual updated now) im
    let im := im.state.tenants.keys.foldl (clearAttachments now) im
    let context := { OpContext.ofAuthority "set_policy" auth with
      policyGeneration := updated.generation }
    (im.recomputeDerivedAccounting.touchHeader, .ok { context, result := updated })

/-- The body of a new policy. -/
def setPolicyBody (auth : Authority) (policy : VirtualizationPolicy) (clock : Clock)
    : Body σ VirtualizationPolicy :=
  checked
    (fun im => orRefuse { OpContext.ofAuthority "set_policy" auth with
        policyGeneration := im.state.policyGeneration }
      .authorityRefusal (setPolicyCheck auth policy im))
    (setPolicyAct auth clock)

/-- Put a policy in force. -/
def setPolicy (im : Impl σ) (clock : Clock) (auth : Authority) (policy : VirtualizationPolicy) :
    Impl σ × Except Failure VirtualizationPolicy :=
  im.operation clock (setPolicyBody auth policy clock)

/-! ### Creating a tenant -/

/-- What the creation of a tenant checks. -/
def createTenantCheck (auth : Authority) (name externalSubject : Text) (im : Impl σ) : Check := do
  im.guardStore
  im.state.checkEpoch auth
  im.state.checkPolicy auth
  im.state.checkRequest auth
  if name.isEmpty then throw (.of .invalidArgument "tenant name must not be empty")
  if name.length > 256 then throw (.of .invalidArgument "tenant name is longer than 256 bytes")
  if externalSubject.length > 512 then
    throw (.of .invalidArgument "external subject is longer than 512 bytes")
  if im.state.tenants.size ≥ im.state.policy.maxTenants then
    throw ⟨.limitExceeded, txt "tenant count has reached the policy maximum of " ++
      toDecimal im.state.policy.maxTenants⟩

/-- Enter a tenant that owns nothing. -/
def createTenantAct (auth : Authority) (name externalSubject : Text) (clock : Clock) (_ : Unit) :
    Body σ TenantRecord :=
  fun im =>
    let record : TenantRecord := {
      id := im.nextId, generation := 1, name, externalSubject
      createdAt := clock.now, updatedAt := clock.now }
    let im := (im.takeId.touchTenant record.id).put .tenant record.id record
    (im, .ok {
      context := (OpContext.ofAuthority "create_tenant" auth).adoptTenant record
      result := record })

/-- The body of a creation. -/
def createTenantBody (auth : Authority) (name externalSubject : Text) (clock : Clock)
    : Body σ TenantRecord :=
  checked
    (fun im => orRefuse (.ofAuthority "create_tenant" auth) .authorityRefusal
      (createTenantCheck auth name externalSubject im))
    (createTenantAct auth name externalSubject clock)

/-- Create a tenant. -/
def createTenant (im : Impl σ) (clock : Clock) (auth : Authority) (name externalSubject : Text) :
    Impl σ × Except Failure TenantRecord :=
  im.operation clock (createTenantBody auth name externalSubject clock)

/-! ### Fencing a tenant -/

/-- What the fencing of a tenant checks. -/
def fenceTenantCheck (auth : Authority) (id : TenantId) (generation : Generation) (im : Impl σ) :
    Except Status TenantRecord := do
  im.guardStore
  im.state.checkEpoch auth
  im.state.checkRequest auth
  match im.state.tenants[id]? with
  | none => throw ⟨.notFound, txt "tenant " ++ strTenant id ++ txt " is not known"⟩
  | some tenant =>
    if tenant.generation ≠ generation then
      throw ⟨.staleTenant, txt "presented tenant generation " ++ toDecimal generation ++
        txt " is not the current generation " ++ toDecimal tenant.generation⟩
    if tenant.fenced then
      throw ⟨.tenantFenced, txt "tenant " ++ strTenant id ++ txt " is already fenced"⟩
    return tenant

/-- A fenced tenant keeps no live authority over a virtual accelerator it owns. -/
def fenceOwned (tenant : TenantId) (generation : Generation) (now : UnixMicros) (im : Impl σ)
    (id : VirtualAcceleratorId) : Impl σ :=
  match im.state.virtuals[id]? with
  | none => im
  | some _ =>
    let im := (im.touchVirtual id).modify .virtual id fun v =>
      { v with ownerGeneration := generation }
    let im := im.fenceLeases id (txt "tenant " ++ strTenant tenant ++ txt " was fenced") now
    im.modify .virtual id fun v =>
      if lifecycleRequiresBacking v.state then
        { v with
          state := .fenced
          stateGeneration := v.stateGeneration + 1
          stateReason := txt "owning tenant " ++ strTenant tenant ++ txt " was fenced"
          generation := v.generation + 1
          updatedAt := now }
      else v

/-- Fence the tenant, and what it owns under its new generation. -/
def fenceTenantAct (auth : Authority) (id : TenantId) (reason : Text) (clock : Clock)
    (tenant : TenantRecord) : Body σ Unit :=
  fun im =>
    let now := clock.now
    let generation := tenant.generation + 1
    let im := (im.touchTenant id).modify .tenant id fun t =>
      { t with fenced := true, fenceReason := reason, generation, updatedAt := now }
    let im := tenant.owned.foldl (fenceOwned id generation now) im
    let im := im.modify .tenant id fun t => { t with activeAttachments := 0 }
    let im := im.recomputeDerivedAccounting
    (im, .ok {
      context := (OpContext.ofAuthority "fence_tenant" auth).adoptTenant
        (im.state.tenants[id]?.getD {})
      result := () })

/-- The body of a fencing. -/
def fenceTenantBody (auth : Authority) (id : TenantId) (generation : Generation) (reason : Text)
    (clock : Clock) : Body σ Unit :=
  checked
    (fun im => orRefuse (.ofAuthority "fence_tenant" auth) .authorityRefusal
      (fenceTenantCheck auth id generation im))
    (fenceTenantAct auth id reason clock)

/-- Fence a tenant. -/
def fenceTenant (im : Impl σ) (clock : Clock) (auth : Authority) (id : TenantId)
    (generation : Generation) (reason : Text) : Impl σ × Except Failure Unit :=
  im.operation clock (fenceTenantBody auth id generation reason clock)

/-! ### Handing over a virtual accelerator -/

/-- The parties of a transfer. -/
structure Transfer extends Owned where
  destination : TenantRecord

/-- What a transfer checks. It does not ask whether the virtual accelerator may be changed. -/
def transferOwnershipCheck (auth : Authority) (newOwner : TenantId) (newGeneration : Generation)
    (im : Impl σ) : Except Status Transfer := do
  im.guardStore
  im.state.checkEpoch auth
  im.state.checkPolicy auth
  im.state.checkRequest auth
  let owned ← im.state.resolveOwned auth
  match im.state.tenants[newOwner]? with
  | none => throw ⟨.notFound, txt "destination tenant " ++ strTenant newOwner ++
      txt " is not known"⟩
  | some destination =>
    if destination.generation ≠ newGeneration then
      throw ⟨.staleTenant, txt "presented destination tenant generation " ++
        toDecimal newGeneration ++ txt " is not the current generation " ++
        toDecimal destination.generation⟩
    if destination.fenced then
      throw ⟨.tenantFenced, txt "destination tenant " ++ strTenant newOwner ++ txt " is fenced"⟩
    if newOwner = owned.record.owner then
      throw (.of .conflict "virtual accelerator is already owned by that tenant")
    return { owned with destination }

/-- The two tenants are changed before they are touched. -/
def transferOwnershipAct (auth : Authority) (newOwner : TenantId) (clock : Clock) (t : Transfer) :
    Body σ TenantRecord :=
  fun im =>
    let now := clock.now
    let im := im.fenceLeases t.virtualId
      (txt "ownership transferred to tenant " ++ strTenant newOwner) now
    let im := im.modify .tenant t.tenantId fun source =>
      { source with
        owned := source.owned.filter (· ≠ t.record.id), activeAttachments := 0, updatedAt := now }
    let im := im.touchTenant t.tenant.id
    let im := im.modify .tenant newOwner fun dest =>
      { dest with owned := (dest.owned ++ [t.record.id]).insertionSort (· ≤ ·), updatedAt := now }
    let im := im.touchTenant t.destination.id
    let im := im.touchVirtual t.record.id
    let im := im.modify .virtual t.virtualId fun v =>
      let v := { v with
        owner := t.destination.id, ownerGeneration := t.destination.generation
        activeAttachments := 0 }
      let v := if lifecycleRequiresBacking v.state then
          { v with
            state := .provisioned
            stateGeneration := v.stateGeneration + 1
            stateReason := txt "ownership transferred; attachments were released" }
        else v
      { v with generation := v.generation + 1, updatedAt := now }
    (im, .ok {
      context := (OpContext.ofAuthority "transfer_ownership" auth).adoptVirtual
        (im.state.virtuals[t.virtualId]?.getD {})
      result := im.state.tenants[newOwner]?.getD {} })

/-- The body of a transfer. -/
def transferOwnershipBody (auth : Authority) (newOwner : TenantId) (newGeneration : Generation)
    (clock : Clock) : Body σ TenantRecord :=
  checked
    (fun im => orRefuse (.ofAuthority "transfer_ownership" auth) .authorityRefusal
      (transferOwnershipCheck auth newOwner newGeneration im))
    (transferOwnershipAct auth newOwner clock)

/-- Hand a virtual accelerator over to another tenant. -/
def transferOwnership (im : Impl σ) (clock : Clock) (auth : Authority) (newOwner : TenantId)
    (newGeneration : Generation) : Impl σ × Except Failure TenantRecord :=
  im.operation clock (transferOwnershipBody auth newOwner newGeneration clock)

end Impl

end AcceleratorVirtualization
