import AcceleratorVirtualization.Runtime.Tenants

/-!
# The life of a virtual accelerator

Creating, re-contracting, activating, draining, suspending, resuming, recovering, fencing and
retiring a virtual accelerator. Suspension and retirement release the authoritative binding.
-/

namespace AcceleratorVirtualization

namespace Impl

variable {σ : Type} [DurableStore σ]

/-! ### Shared checks and steps -/

/-- The store, the epoch and the policy generation. -/
def checkAuthority (im : Impl σ) (auth : Authority) : Check := do
  im.guardStore
  im.state.checkEpoch auth
  im.state.checkPolicy auth

/-- A normalized contract is valid and within the maxima of the policy. -/
def checkContract (policy : VirtualizationPolicy) (contract : ResourceContract)
    (ceilingReason : Text) : Check := do
  contract.validate
  if contract.memoryCeilingBytes > policy.maxMemoryCeilingBytes then
    throw ⟨.policyViolation, ceilingReason⟩
  if contract.computeShareMilli > policy.maxComputeShareMilli then
    throw (.of .policyViolation "contract compute share exceeds the policy maximum")

/-- Move the virtual accelerator and then recount, or refuse with what was recorded before. -/
def transitionAct (context : OpContext) (clock : Clock) (id : VirtualAcceleratorId)
    (target : VirtualLifecycleState) (reason : Text) (after : Impl σ → Impl σ) :
    Body σ VirtualAcceleratorRecord :=
  fun im =>
    match im.transition clock id target reason with
    | (im, .error status) => (im, .error ⟨context, status, .authorityRefusal⟩)
    | (im, .ok ()) =>
      let im := after im
      let value := im.state.virtuals[id]?.getD {}
      (im, .ok { context := context.adoptVirtual value, kind := .lifecycleChange, result := value })

/-- Clear the holder of the backing a virtual accelerator points to. -/
def releaseBacking (im : Impl σ) (id : BackingId) : Impl σ :=
  match im.state.backings[id]? with
  | none => im
  | some _ => (im.touchBacking id).modify .backing id fun b =>
      { b with assignedTo := 0, activeAssignment := 0 }

/-- The virtual accelerator without a binding. -/
def unbind (v : VirtualAcceleratorRecord) : VirtualAcceleratorRecord :=
  { v with
    assignment := 0
    backing := 0
    backingClass := .unknown
    multiplexing := .none
    isolationClass := .unknown
    isolation := {} }

/-! ### Creating -/

/-- What the creation of a virtual accelerator checks. -/
def createVirtualCheck (auth : Authority) (name : Text) (owner : TenantId)
    (ownerGeneration : Generation) (contract : ResourceContract) (im : Impl σ) :
    Except Status TenantRecord := do
  im.checkAuthority auth
  im.state.checkRequest auth
  match im.state.tenants[owner]? with
  | none => throw ⟨.notFound, txt "tenant " ++ strTenant owner ++ txt " is not known"⟩
  | some tenant =>
    if tenant.generation ≠ ownerGeneration then
      throw ⟨.staleTenant, txt "presented owner generation " ++ toDecimal ownerGeneration ++
        txt " is not the current generation " ++ toDecimal tenant.generation ++
        txt " for tenant " ++ strTenant owner⟩
    if tenant.fenced then
      throw ⟨.tenantFenced, txt "tenant " ++ strTenant owner ++ txt " is fenced: " ++
        tenant.fenceReason⟩
    if name.isEmpty then
      throw (.of .invalidArgument "virtual accelerator name must not be empty")
    if name.length > 256 then
      throw (.of .invalidArgument "virtual accelerator name is longer than 256 bytes")
    checkContract im.state.policy (contract.normalize im.options.sorting)
      (txt "contract memory ceiling " ++ toDecimal contract.memoryCeilingBytes ++
        txt " exceeds the policy maximum of " ++ toDecimal im.state.policy.maxMemoryCeilingBytes)
    if im.state.virtuals.size ≥ im.state.policy.maxVirtualAccelerators then
      throw ⟨.limitExceeded, txt "virtual accelerator count has reached the policy maximum of " ++
        toDecimal im.state.policy.maxVirtualAccelerators⟩
    return tenant

/-- Enter a virtual accelerator that has no backing, in the roster of its owner. -/
def createVirtualAct (auth : Authority) (name : Text) (owner : TenantId)
    (ownerGeneration : Generation) (contract : ResourceContract) (clock : Clock)
    (tenant : TenantRecord) : Body σ VirtualAcceleratorRecord :=
  fun im =>
    let now := clock.now
    let id := im.nextId
    let im := im.takeId
    let contract := { contract.normalize im.options.sorting with id := im.nextId, generation := 1 }
    let im := im.takeId
    let record : VirtualAcceleratorRecord := {
      id, generation := 1, name, owner, ownerGeneration, contract
      policyGeneration := im.state.policyGeneration
      epoch := im.state.epoch
      createdAt := now, updatedAt := now
      state := .provisioned
      stateGeneration := 1
      stateReason := txt "provisioned with resource contract and capability projection" }
    let im := im.touchVirtual id
    let record := project im.state im.nextId record
    let im := im.takeId.put .virtual id record
    let im := (im.touchTenant tenant.id).modify .tenant owner fun t =>
      { t with owned := (t.owned ++ [id]).insertionSort (· ≤ ·), updatedAt := now }
    let im := (im.account fun a =>
      { a with
        virtualCreated := a.virtualCreated + 1, virtualActive := a.virtualActive + 1 }).touchHeader
    (im, .ok {
      context := (OpContext.ofAuthority "create_virtual" auth).adoptVirtual record
      result := record })

/-- The body of a creation. -/
def createVirtualBody (auth : Authority) (name : Text) (owner : TenantId)
    (ownerGeneration : Generation) (contract : ResourceContract) (clock : Clock)
    : Body σ VirtualAcceleratorRecord :=
  checked
    (fun im => orRefuse (.ofAuthority "create_virtual" auth) .authorityRefusal
      (createVirtualCheck auth name owner ownerGeneration contract im))
    (createVirtualAct auth name owner ownerGeneration contract clock)

/-- Create a virtual accelerator. -/
def createVirtual (im : Impl σ) (clock : Clock) (auth : Authority) (name : Text)
    (owner : TenantId) (ownerGeneration : Generation) (contract : ResourceContract) :
    Impl σ × Except Failure VirtualAcceleratorRecord :=
  im.operation clock (createVirtualBody auth name owner ownerGeneration contract clock)

/-! ### Re-contracting -/

/-- What an update of a contract checks before the contract is probed. -/
def updateContractCheck (auth : Authority) (contract : ResourceContract) (im : Impl σ) :
    Except Status Owned := do
  im.checkAuthority auth
  im.state.checkRequest auth
  let owned ← im.state.resolveOwned auth
  requireMutable owned.record
  checkContract im.state.policy (contract.normalize im.options.sorting)
    (txt "contract memory ceiling exceeds the policy maximum")
  return owned

/-- Whether the backing a virtual accelerator points to can honour a contract. The probe uses
up an identity, also when it is refused. -/
def probeContract (im : Impl σ) (record : VirtualAcceleratorRecord) (contract : ResourceContract) :
    Impl σ × Check :=
  match im.state.backings[record.backing]? with
  | none => (im, .ok ())
  | some backing =>
    let probe := { record with
      contract := { contract with
        id := im.nextId, generation := (record.contract.generation + 1) % 2 ^ 64 } }
    (im.takeId, validateBackingFor im.options.sorting backing
      im.state.physical[backing.physical]? probe im.state.policy im.state)

/-- The new contract continues the generation the caller presents with it, a 64-bit word. -/
def updateContractAct (auth : Authority) (contract : ResourceContract) (clock : Clock)
    (owned : Owned) : Body σ VirtualAcceleratorRecord :=
  fun im =>
    let context := (OpContext.ofAuthority "update_contract" auth).adoptVirtual owned.record
    let contract := contract.normalize im.options.sorting
    match im.probeContract owned.record contract with
    | (im, .error compatible) => (im, .error ⟨context, compatible, .authorityRefusal⟩)
    | (im, .ok ()) =>
      let im := im.touchVirtual owned.record.id
      let contractId := im.nextId
      let im := im.takeId.modify .virtual owned.virtualId fun v =>
        { v with
          contract := { contract with
            id := contractId, generation := (contract.generation + 1) % 2 ^ 64 }
          generation := v.generation + 1
          updatedAt := clock.now }
      let im := im.rebuildProjection owned.virtualId
      let value := im.state.virtuals[owned.virtualId]?.getD {}
      (im, .ok { context := context.adoptVirtual value, result := value })

/-- The body of an update. -/
def updateContractBody (auth : Authority) (contract : ResourceContract) (clock : Clock)
    : Body σ VirtualAcceleratorRecord :=
  checked
    (fun im => orRefuse (.ofAuthority "update_contract" auth) .authorityRefusal
      (updateContractCheck auth contract im))
    (updateContractAct auth contract clock)

/-- Replace the contract of a virtual accelerator. -/
def updateContract (im : Impl σ) (clock : Clock) (auth : Authority) (contract : ResourceContract) :
    Impl σ × Except Failure VirtualAcceleratorRecord :=
  im.operation clock (updateContractBody auth contract clock)

/-! ### Activating and draining -/

/-- What an activation checks. -/
def activateCheck (auth : Authority) (im : Impl σ) : Except Status Owned := do
  im.checkAuthority auth
  let owned ← im.state.resolveOwned auth
  let value := owned.record
  requireMutable value
  if value.state = .active then
    throw ⟨.invalidTransition, txt "virtual accelerator " ++ strVirtual value.id ++
      txt " is already Active"⟩
  if value.state ≠ .attached then
    throw ⟨.notAttached, txt "virtual accelerator " ++ strVirtual value.id ++ txt " is " ++
      lifecycleName value.state ++ txt "; activation requires an attachment"⟩
  if !valid value.backing then
    throw ⟨.backingUnavailable, txt "virtual accelerator " ++ strVirtual value.id ++
      txt " has no authoritative backing"⟩
  if !im.state.assignments[value.assignment]?.any (·.authoritative) then
    throw ⟨.backingUnavailable, txt "virtual accelerator " ++ strVirtual value.id ++
      txt " has no authoritative backing assignment"⟩
  if !im.state.backings[value.backing]?.any (·.available) then
    throw ⟨.backingUnavailable, txt "backing " ++ strBacking value.backing ++
      txt " is not currently available"⟩
  return owned

/-- The body of an activation. -/
def activateBody (auth : Authority) (clock : Clock) : Body σ VirtualAcceleratorRecord :=
  checked
    (fun im => orRefuse (.ofAuthority "activate" auth) .authorityRefusal (activateCheck auth im))
    (fun owned => transitionAct ((OpContext.ofAuthority "activate" auth).adoptVirtual owned.record)
      clock owned.virtualId .active (txt "activated") recomputeDerivedAccounting)

/-- Let an attached virtual accelerator execute. -/
def activate (im : Impl σ) (clock : Clock) (auth : Authority) :
    Impl σ × Except Failure VirtualAcceleratorRecord :=
  im.operation clock (activateBody auth clock)

/-- What draining checks. -/
def drainCheck (auth : Authority) (im : Impl σ) : Except Status Owned := do
  im.checkAuthority auth
  im.state.checkRequest auth
  let owned ← im.state.resolveOwned auth
  requireMutable owned.record
  return owned

/-- The body of draining. -/
def drainBody (auth : Authority) (reason : Text) (clock : Clock)
    : Body σ VirtualAcceleratorRecord :=
  checked
    (fun im => orRefuse (.ofAuthority "drain" auth) .authorityRefusal (drainCheck auth im))
    (fun owned => transitionAct ((OpContext.ofAuthority "drain" auth).adoptVirtual owned.record)
      clock owned.virtualId .draining reason id)

/-- Drain a virtual accelerator. -/
def drain (im : Impl σ) (clock : Clock) (auth : Authority) (reason : Text) :
    Impl σ × Except Failure VirtualAcceleratorRecord :=
  im.operation clock (drainBody auth reason clock)

/-! ### Recovering, suspending and resuming -/

/-- What the resolution of a recovery checks. -/
def resolveRecoveryCheck (auth : Authority) (im : Impl σ) : Except Status Owned := do
  im.checkAuthority auth
  let owned ← im.state.resolveOwned auth
  if owned.record.state ≠ .recoveryRequired then
    throw ⟨.invalidTransition, txt "virtual accelerator is " ++ lifecycleName owned.record.state ++
      txt " and is not in RecoveryRequired"⟩
  return owned

/-- The body of a resolution. -/
def resolveRecoveryBody (auth : Authority) (reason : Text) (clock : Clock)
    : Body σ VirtualAcceleratorRecord :=
  checked
    (fun im => orRefuse (.ofAuthority "resolve_recovery" auth) .authorityRefusal
      (resolveRecoveryCheck auth im))
    (fun owned =>
      transitionAct ((OpContext.ofAuthority "resolve_recovery" auth).adoptVirtual owned.record)
        clock owned.virtualId .suspended reason id)

/-- Provision a virtual accelerator again that was left for recovery. -/
def resolveRecovery (im : Impl σ) (clock : Clock) (auth : Authority) (reason : Text) :
    Impl σ × Except Failure VirtualAcceleratorRecord :=
  im.operation clock (resolveRecoveryBody auth reason clock)

/-- What a suspension checks. -/
def suspendCheck (auth : Authority) (im : Impl σ) : Except Status Owned := do
  im.checkAuthority auth
  let owned ← im.state.resolveOwned auth
  let value := owned.record
  requireMutable value
  if value.activeAttachments ≠ 0 then
    throw ⟨.draining, txt "virtual accelerator " ++ strVirtual value.id ++ txt " still holds " ++
      toDecimal value.activeAttachments ++
      txt " active attachment(s); detach or revoke first"⟩
  if value.state ≠ .provisioned && value.state ≠ .draining then
    throw ⟨.invalidTransition, txt "virtual accelerator " ++ strVirtual value.id ++ txt " is " ++
      lifecycleName value.state ++ txt "; suspend requires Provisioned or Draining"⟩
  if !valid value.assignment && value.state ≠ .draining then
    throw ⟨.invalidTransition, txt "virtual accelerator " ++ strVirtual value.id ++
      txt " holds no authoritative backing assignment to release"⟩
  return owned

/-- Suspension is deliberately the mode without a backing: the assignment is released. -/
def suspendAct (auth : Authority) (reason : Text) (clock : Clock) (owned : Owned) :
    Body σ VirtualAcceleratorRecord :=
  fun im =>
    let value := owned.record
    let im := if valid value.assignment then
        im.revokeAssignment value.assignment (txt "virtual accelerator suspended: " ++ reason)
          clock.now
      else im
    let im := (im.releaseBacking value.backing).touchVirtual value.id
    let im := im.modify .virtual owned.virtualId fun v =>
      unbind { v with
        backingHistory := v.backingHistory.map fun entry => { entry with current := false } }
    transitionAct ((OpContext.ofAuthority "suspend" auth).adoptVirtual value) clock
      owned.virtualId .suspended reason recomputeDerivedAccounting
      (im.rebuildProjection owned.virtualId)

/-- The body of a suspension. -/
def suspendBody (auth : Authority) (reason : Text) (clock : Clock)
    : Body σ VirtualAcceleratorRecord :=
  checked
    (fun im => orRefuse (.ofAuthority "suspend" auth) .authorityRefusal (suspendCheck auth im))
    (suspendAct auth reason clock)

/-- Suspend a virtual accelerator, without its backing. -/
def suspend (im : Impl σ) (clock : Clock) (auth : Authority) (reason : Text) :
    Impl σ × Except Failure VirtualAcceleratorRecord :=
  im.operation clock (suspendBody auth reason clock)

/-- What a resumption checks. -/
def resumeCheck (auth : Authority) (im : Impl σ) : Except Status Owned := do
  im.checkAuthority auth
  let owned ← im.state.resolveOwned auth
  if owned.record.state ≠ .suspended then
    throw (.of .invalidTransition "resume requires the Suspended state")
  return owned

/-- The body of a resumption. -/
def resumeBody (auth : Authority) (reason : Text) (clock : Clock)
    : Body σ VirtualAcceleratorRecord :=
  checked
    (fun im => orRefuse (.ofAuthority "resume" auth) .authorityRefusal (resumeCheck auth im))
    (fun owned => transitionAct ((OpContext.ofAuthority "resume" auth).adoptVirtual owned.record)
      clock owned.virtualId .provisioned reason recomputeDerivedAccounting)

/-- Provision a suspended virtual accelerator again. -/
def resume (im : Impl σ) (clock : Clock) (auth : Authority) (reason : Text) :
    Impl σ × Except Failure VirtualAcceleratorRecord :=
  im.operation clock (resumeBody auth reason clock)

/-! ### Fencing and retiring -/

/-- Everything but a retired virtual accelerator may be fenced or retired by its owner. -/
def notRetiredCheck (auth : Authority) (retiredReason : String) (im : Impl σ) :
    Except Status Owned := do
  im.checkAuthority auth
  let owned ← im.state.resolveOwned auth
  if owned.record.state = .retired then
    throw (.of .virtualRetired retiredReason)
  return owned

/-- Fence the leases of the virtual accelerator, and the virtual accelerator itself. -/
def fenceVirtualAct (auth : Authority) (reason : Text) (clock : Clock) (owned : Owned) :
    Body σ VirtualAcceleratorRecord :=
  fun im =>
    let im := im.fenceLeases owned.virtualId (txt "virtual accelerator fenced: " ++ reason)
      clock.now
    transitionAct ((OpContext.ofAuthority "fence_virtual" auth).adoptVirtual owned.record) clock
      owned.virtualId .fenced reason recomputeDerivedAccounting
      (im.touchVirtual owned.record.id)

/-- The body of a fencing. -/
def fenceVirtualBody (auth : Authority) (reason : Text) (clock : Clock)
    : Body σ VirtualAcceleratorRecord :=
  checked
    (fun im => orRefuse (.ofAuthority "fence_virtual" auth) .authorityRefusal
      (notRetiredCheck auth "retired virtual accelerators cannot be fenced again" im))
    (fenceVirtualAct auth reason clock)

/-- Fence a virtual accelerator. -/
def fenceVirtual (im : Impl σ) (clock : Clock) (auth : Authority) (reason : Text) :
    Impl σ × Except Failure VirtualAcceleratorRecord :=
  im.operation clock (fenceVirtualBody auth reason clock)

/-- `state.tenants[owner]` makes an empty record where there is none. -/
def retireVirtualAct (auth : Authority) (reason : Text) (clock : Clock) (owned : Owned) :
    Body σ VirtualAcceleratorRecord :=
  fun im =>
    let now := clock.now
    let value := owned.record
    let im := im.fenceLeases owned.virtualId (txt "virtual accelerator retired") now
    let im := im.emplace .tenant value.owner {}
    let im := im.touchTenant (im.state.tenants[value.owner]?.getD {}).id
    let im := im.modify .tenant value.owner fun owner =>
      { owner with owned := owner.owned.filter (· ≠ value.id) }
    let im := if valid value.assignment then
        im.revokeAssignment value.assignment (txt "virtual accelerator retired") now
      else im
    let im := (im.releaseBacking value.backing).touchVirtual value.id
    let im := im.modify .virtual owned.virtualId fun v =>
      unbind { v with
        backingHistory := v.backingHistory.map fun entry =>
          { entry with current := false, to_ := if entry.to_ = 0 then now else entry.to_ }
        activeAttachments := 0
        retiredAt := now
        retirementReason := reason }
    transitionAct ((OpContext.ofAuthority "retire_virtual" auth).adoptVirtual value) clock
      owned.virtualId .retired reason
      (fun im => (im.account fun a =>
        { a with virtualRetired := a.virtualRetired + 1 }).recomputeDerivedAccounting)
      (im.rebuildProjection owned.virtualId)

/-- The body of a retirement. -/
def retireVirtualBody (auth : Authority) (reason : Text) (clock : Clock)
    : Body σ VirtualAcceleratorRecord :=
  checked
    (fun im => orRefuse (.ofAuthority "retire_virtual" auth) .authorityRefusal
      (notRetiredCheck auth "virtual accelerator is already retired" im))
    (retireVirtualAct auth reason clock)

/-- Retire a virtual accelerator for good. -/
def retireVirtual (im : Impl σ) (clock : Clock) (auth : Authority) (reason : Text) :
    Impl σ × Except Failure VirtualAcceleratorRecord :=
  im.operation clock (retireVirtualBody auth reason clock)

end Impl

end AcceleratorVirtualization
