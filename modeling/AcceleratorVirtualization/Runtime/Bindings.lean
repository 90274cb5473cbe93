import AcceleratorVirtualization.Runtime.Virtuals

/-!
# Backing assignments and leases

Assigning and replacing the backing of a virtual accelerator, and the leases through which a
tenant uses it: attach, renew, detach, revoke. A replacement stops the previous assignment
being authoritative before the new one is.
-/

namespace AcceleratorVirtualization

namespace Impl

variable {σ : Type} [DurableStore σ]

/-! ### Assigning a backing -/

/-- Where a backing may be assigned or replaced, and what must (not) be there already. -/
def checkBindable (im : Impl σ) (value : VirtualAcceleratorRecord) (backing : BackingRecord)
    (replacing : Bool) : Check := do
  let assignable := value.state = .provisioned || value.state = .suspended
  let drainable := replacing && lifecycleRequiresBacking value.state
  if !assignable && !drainable then
    throw ⟨.invalidTransition, txt "virtual accelerator " ++ strVirtual value.id ++ txt " is " ++
      lifecycleName value.state ++
      (if replacing then
        txt "; a backing can be replaced in Provisioned, Suspended, Attached, Active or Draining"
      else txt "; a backing can be assigned in Provisioned or Suspended")⟩
  if replacing && !valid value.assignment then
    throw (.of .backingUnavailable
      "backing replacement requires an existing authoritative assignment")
  if !replacing && valid value.assignment &&
      im.state.assignments[value.assignment]?.any (·.authoritative) then
    throw ⟨.conflict, txt "virtual accelerator " ++ strVirtual value.id ++
      txt " already holds an authoritative backing assignment; use replace_backing"⟩
  if backing.id = value.backing then
    throw (.of .conflict "the requested backing is already assigned to this virtual accelerator")

/-- What an assignment of a backing checks, and a replacement. -/
def assignBackingCheck (auth : Authority) (backingId : BackingId) (replacing : Bool)
    (im : Impl σ) : Except Status (Owned × BackingRecord) := do
  im.checkAuthority auth
  im.state.checkRequest auth
  let owned ← im.state.resolveOwned auth
  requireMutable owned.record
  match im.state.backings[backingId]? with
  | none => throw ⟨.notFound, txt "backing " ++ strBacking backingId ++ txt " is not known"⟩
  | some backing =>
    im.checkBindable owned.record backing replacing
    validateBackingFor im.options.sorting backing im.state.physical[backing.physical]? owned.record
      im.state.policy im.state
    return (owned, backing)

/-- Close the current entries of a backing history. -/
def closeHistory (now : UnixMicros) (history : List BackingHistoryEntry) :
    List BackingHistoryEntry :=
  history.map fun entry =>
    { entry with current := false, to_ := if entry.to_ = 0 then now else entry.to_ }

/-- Drain the previous binding before the replacement is authoritative. -/
def drainPrevious (im : Impl σ) (id : VirtualAcceleratorId) (value : VirtualAcceleratorRecord)
    (now : UnixMicros) : Impl σ :=
  let im := match im.state.assignments[value.assignment]? with
    | none => im
    | some _ =>
      ((im.touchAssignment value.assignment).modify .assignment value.assignment fun a =>
        { a with
          authoritative := false
          state := .superseded
          revokedAt := now
          reason := txt "replaced by a new authoritative assignment" }).account
        fun a => { a with backingRevocations := a.backingRevocations + 1 }
  let im := (im.releaseBacking value.backing).touchVirtual value.id
  let im := im.modify .virtual id fun v =>
    { v with backingHistory := closeHistory now v.backingHistory }
  im.fenceLeases id
    (txt "backing replaced; the lease was bound to the previous backing generation") now

/-- The virtual accelerator bound to a backing by an assignment. -/
def bindVirtual (assignment : BackingAssignment) (backing : BackingRecord)
    (policyGeneration : Generation) (reason : Text) (now : UnixMicros)
    (v : VirtualAcceleratorRecord) : VirtualAcceleratorRecord :=
  { v with
    assignment := assignment.id
    backing := backing.id
    backingGeneration := assignment.backingGeneration
    physical := backing.physical
    physicalGeneration := backing.physicalGeneration
    backingClass := backing.klass
    multiplexing := backing.multiplexing
    isolationClass := backing.isolationClass
    isolation := backing.isolation
    policyGeneration
    state := .provisioned
    stateGeneration := v.stateGeneration + 1
    stateReason := reason
    generation := v.generation + 1
    updatedAt := now }

/-- The history entry an assignment opens. -/
def historyOf (assignment : BackingAssignment) (backing : BackingRecord) (reason : Text)
    (now : UnixMicros) : BackingHistoryEntry :=
  { assignment := assignment.id
    backing := backing.id
    backingGeneration := assignment.backingGeneration
    physical := backing.physical
    physicalGeneration := backing.physicalGeneration
    klass := backing.klass
    multiplexing := backing.multiplexing
    from_ := now
    current := true
    reason }

/-- Bind the virtual accelerator under a new assignment; a replacement first drains the old one. -/
def assignBackingAct (operation : String) (auth : Authority) (backingId : BackingId)
    (replacing : Bool) (reason : Text) (clock : Clock) (plan : Owned × BackingRecord) :
    Body σ BackingAssignment :=
  fun im =>
    let now := clock.now
    let (owned, backing) := plan
    let value := owned.record
    let context := { (OpContext.ofAuthority operation auth).adoptVirtual value with
      backing := backingId }
    let im := if replacing then im.drainPrevious owned.virtualId value now else im
    let assignment : BackingAssignment := {
      id := im.nextId
      virtualId := value.id
      backing := backing.id
      backingGeneration := value.backingGeneration + 1
      physical := backing.physical
      physicalGeneration := backing.physicalGeneration
      tenant := value.owner
      tenantGeneration := value.ownerGeneration
      policyGeneration := im.state.policyGeneration
      contractGeneration := value.contract.generation
      epoch := im.state.epoch
      state := .active
      authoritative := true
      proposedAt := now
      committedAt := now
      reason }
    let im := im.takeId.touchVirtual value.id
    let stateReason := if replacing then txt "backing replaced; the tenant must re-attach"
      else txt "backing assigned"
    let im := im.modify .virtual owned.virtualId
      (bindVirtual assignment backing im.state.policyGeneration stateReason now)
    let im := im.rebuildProjection owned.virtualId
    let bound := im.state.virtuals[owned.virtualId]?.getD {}
    let assignment := { assignment with
      projectionGeneration := bound.projection.generation
      virtualGeneration := bound.generation }
    let im := im.modify .virtual owned.virtualId fun v =>
      { v with
        backingHistory := v.backingHistory ++ [historyOf assignment backing reason now] }
    let im := (im.touchAssignment assignment.id).put .assignment assignment.id assignment
    let im := (im.touchBacking backingId).modify .backing backingId fun b =>
      { b with
        assignedTo := value.id
        activeAssignment := assignment.id
        assignedGeneration := assignment.backingGeneration }
    let im := (im.account fun a =>
      if replacing then { a with backingReplacements := a.backingReplacements + 1 }
      else { a with backingAssignments := a.backingAssignments + 1 }).touchHeader
    (im, .ok {
      context := { context with
        backing := assignment.backing
        backingGeneration := assignment.backingGeneration
        virtualGeneration := bound.generation
        physical := assignment.physical
        physicalGeneration := assignment.physicalGeneration }
      kind := .backingChange
      result := assignment })

/-- The body of both operations. -/
def assignBackingBody (operation : String) (auth : Authority) (backing : BackingId)
    (replacing : Bool) (reason : Text) (clock : Clock) : Body σ BackingAssignment :=
  checked
    (fun im => orRefuse (.ofAuthority operation auth) .authorityRefusal
      (assignBackingCheck auth backing replacing im))
    (assignBackingAct operation auth backing replacing reason clock)

/-- Shared by `assignBacking` and `replaceBacking`. -/
def doAssignBacking (im : Impl σ) (clock : Clock) (operation : String) (auth : Authority)
    (backing : BackingId) (replacing : Bool) (reason : Text) :
    Impl σ × Except Failure BackingAssignment :=
  im.operation clock (assignBackingBody operation auth backing replacing reason clock)

/-- Bind a virtual accelerator that has no backing. -/
def assignBacking (im : Impl σ) (clock : Clock) (auth : Authority) (backing : BackingId)
    (reason : Text) : Impl σ × Except Failure BackingAssignment :=
  im.doAssignBacking clock "assign_backing" auth backing false reason

/-- Bind a virtual accelerator to another backing. -/
def replaceBacking (im : Impl σ) (clock : Clock) (auth : Authority) (destination : BackingId)
    (reason : Text) : Impl σ × Except Failure BackingAssignment :=
  im.doAssignBacking clock "replace_backing" auth destination true reason

/-! ### Attaching -/

/-- When a lease granted now expires; zero where leases do not expire. -/
def expiryFrom (policy : VirtualizationPolicy) (now : UnixMicros) : UnixMicros :=
  if policy.maxLeaseDurationMicros > 0 then
    now + (BitVec.ofNat 64 policy.maxLeaseDurationMicros).toInt
  else 0

/-- The binding an attachment needs is authoritative, recorded by an exclusive backing, and
usable. -/
def checkAttachable (im : Impl σ) (value : VirtualAcceleratorRecord) : Check := do
  if value.state ≠ .provisioned && value.state ≠ .suspended then
    throw ⟨.invalidTransition, txt "virtual accelerator " ++ strVirtual value.id ++ txt " is " ++
      lifecycleName value.state ++ txt "; an attachment requires Provisioned or Suspended"⟩
  if !valid value.backing then
    throw ⟨.backingUnavailable, txt "virtual accelerator " ++ strVirtual value.id ++
      txt " has no backing assignment"⟩
  if !im.state.assignments[value.assignment]?.any (·.authoritative) then
    throw ⟨.backingUnavailable, txt "virtual accelerator " ++ strVirtual value.id ++
      txt " has no authoritative backing assignment"⟩
  match im.state.backings[value.backing]? with
  | none => throw (.of .staleBacking "the assigned backing no longer exists")
  | some backing =>
    if backing.exclusive && (backing.assignedTo ≠ value.id ||
        backing.activeAssignment ≠ value.assignment) then
      throw ⟨.staleAssignment, txt "backing " ++ strBacking value.backing ++
        txt " no longer records this virtual accelerator as its authoritative holder"⟩
    if !backing.available || !backing.evidenceFresh then
      throw ⟨.backingUnavailable, txt "backing " ++ strBacking value.backing ++
        txt " is not currently available; it must be revalidated before use"⟩
  -- the second limit overrides the reason of the first
  if im.state.leases.size ≥ im.state.policy.maxLeases then
    throw (.of .limitExceeded "lease count has reached the policy maximum")
  let live := (value.leases.filter fun id =>
    im.state.leases[id]?.any fun lease => leaseStateIsLive lease.state).length
  if live ≥ im.state.policy.maxAttachmentsPerVirtual then
    throw ⟨.attachLimitReached, txt "virtual accelerator " ++ strVirtual value.id ++
      txt " has reached the policy attachment limit of " ++
      toDecimal im.state.policy.maxAttachmentsPerVirtual⟩

/-- What an attachment checks. -/
def attachCheck (auth : Authority) (im : Impl σ) : Except Status Owned := do
  im.checkAuthority auth
  im.state.checkRequest auth
  let owned ← im.state.resolveOwned auth
  requireMutable owned.record
  im.checkAttachable owned.record
  return owned

/-- Enter the granted lease, bound to the generation after the transition. -/
def grantLease (im : Impl σ) (lease : LeaseRecord) : Impl σ :=
  (((im.touchLease lease.id).put .lease lease.id lease).account fun a =>
    { a with
      leasesIssued := a.leasesIssued + 1
      attachmentsActive := a.attachmentsActive + 1
      peakAttachmentsActive := max a.peakAttachmentsActive (a.attachmentsActive + 1) }).touchHeader

/-- Grant a lease that is bound to the current generations. -/
def attachAct (auth : Authority) (clock : Clock) (owned : Owned) : Body σ LeaseRecord :=
  fun im =>
    let now := clock.now
    let value := owned.record
    let context := (OpContext.ofAuthority "attach" auth).adoptVirtual value
    let lease : LeaseRecord := {
      id := im.nextId
      generation := 1
      virtualId := value.id
      virtualGeneration := value.generation
      tenant := owned.tenant.id
      tenantGeneration := owned.tenant.generation
      backingGeneration := value.backingGeneration
      physicalGeneration := value.physicalGeneration
      policyGeneration := im.state.policyGeneration
      epoch := im.state.epoch
      grantRequest := context.request
      state := .active
      grantedAt := now
      expiresAt := expiryFrom im.state.policy now }
    let im := im.takeId.touchVirtual value.id
    let im := im.modify .virtual owned.virtualId fun v =>
      { v with
        leases := (v.leases ++ [lease.id]).insertionSort (· ≤ ·)
        activeAttachments := v.activeAttachments + 1
        updatedAt := now }
    let im := (im.touchTenant owned.tenant.id).modify .tenant owned.tenantId fun t =>
      { t with activeAttachments := t.activeAttachments + 1, updatedAt := now }
    match (if lifecycleAllowsLeases value.state then (im, .ok ())
      else im.transition clock owned.virtualId .attached
        (txt "tenant attached under a generation-bound lease")) with
    | (im, .error status) => (im, .error ⟨context, status, .authorityRefusal⟩)
    | (im, .ok ()) =>
      let generation := (im.state.virtuals[owned.virtualId]?.getD {}).generation
      let lease := { lease with virtualGeneration := generation }
      (im.grantLease lease, .ok {
        context := { context.adoptLease lease with virtualGeneration := generation }
        result := lease })

/-- The body of an attachment. -/
def attachBody (auth : Authority) (clock : Clock) : Body σ LeaseRecord :=
  checked
    (fun im => orRefuse (.ofAuthority "attach" auth) .authorityRefusal (attachCheck auth im))
    (attachAct auth clock)

/-- Attach the caller under a new lease. -/
def attach (im : Impl σ) (clock : Clock) (auth : Authority) : Impl σ × Except Failure LeaseRecord :=
  im.operation clock (attachBody auth clock)

/-! ### Renewing -/

/-- What a renewal checks. -/
def renewLeaseCheck (auth : Authority) (im : Impl σ) :
    Except Status (LeaseId × LeaseRecord) := do
  im.checkAuthority auth
  im.state.checkRequest auth
  let owned ← im.state.resolveOwned auth
  match auth.lease with
  | none => throw (.of .invalidArgument "renewal requires the lease identity")
  | some id =>
    match im.state.leases[id]? with
    | none => throw (.of .notFound "lease is not known")
    | some lease =>
      match auth.leaseGeneration with
      | none => throw (.of .invalidArgument "renewal requires the lease generation")
      | some generation =>
        if lease.generation ≠ generation then
          throw ⟨.staleLease, txt "presented lease generation " ++ toDecimal generation ++
            txt " is not the current generation " ++ toDecimal lease.generation⟩
      if lease.virtualId ≠ owned.record.id then
        throw (.of .notAuthorized "the lease does not belong to that virtual accelerator")
      if !leaseStateIsLive lease.state then
        throw ⟨.leaseRevoked, txt "lease is " ++ leaseStateName lease.state ++
          txt " and cannot be renewed"⟩
      if lease.virtualGeneration ≠ owned.record.generation then
        throw (.of .staleLease "the lease was bound to a superseded virtual generation")
      if lease.backingGeneration ≠ owned.record.backingGeneration then
        throw (.of .staleLease "the lease was bound to a superseded backing generation")
      if lease.policyGeneration ≠ im.state.policyGeneration then
        throw (.of .stalePolicy "the lease was granted under a superseded policy generation")
      if lease.epoch ≠ im.state.epoch then
        throw (.of .staleEpoch "the lease was granted under a superseded coordinator epoch")
      return (id, lease)

/-- Extend the lease by the duration that the policy sets. -/
def renewLeaseAct (auth : Authority) (clock : Clock) (target : LeaseId × LeaseRecord) :
    Body σ LeaseRecord :=
  fun im =>
    let im := (im.touchLease target.2.id).modify .lease target.1 fun lease =>
      { lease with
        generation := lease.generation + 1
        renewedAt := clock.now
        renewals := lease.renewals + 1
        expiresAt := expiryFrom im.state.policy clock.now }
    let im := (im.account fun a => { a with leasesRenewed := a.leasesRenewed + 1 }).touchHeader
    let renewed := im.state.leases[target.1]?.getD {}
    (im, .ok {
      context := ((OpContext.ofAuthority "renew_lease" auth).adoptLease target.2).adoptLease renewed
      result := renewed })

/-- The body of a renewal. -/
def renewLeaseBody (auth : Authority) (clock : Clock) : Body σ LeaseRecord :=
  checked
    (fun im => orRefuse (.ofAuthority "renew_lease" auth) .authorityRefusal
      (renewLeaseCheck auth im))
    (renewLeaseAct auth clock)

/-- Renew the lease that is presented. -/
def renewLease (im : Impl σ) (clock : Clock) (auth : Authority) :
    Impl σ × Except Failure LeaseRecord :=
  im.operation clock (renewLeaseBody auth clock)

/-! ### Detaching and revoking -/

/-- A lease and the virtual accelerator it gives access to. -/
structure Held extends Owned where
  leaseId : LeaseId
  lease : LeaseRecord

/-- Shared validation of the two operations that release a lease. -/
def resolveLeaseFor (auth : Authority) (im : Impl σ) : Except Status Held := do
  im.checkAuthority auth
  im.state.checkRequest auth
  let owned ← im.state.resolveOwned auth
  match auth.lease with
  | none => throw (.of .invalidArgument "the lease identity is required")
  | some leaseId =>
    match im.state.leases[leaseId]? with
    | none => throw (.of .notFound "lease is not known")
    | some lease =>
      match auth.leaseGeneration with
      | none => throw (.of .invalidArgument "the lease generation is required")
      | some generation =>
        if lease.generation ≠ generation then
          throw ⟨.staleLease, txt "presented lease generation " ++ toDecimal generation ++
            txt " is not the current generation " ++ toDecimal lease.generation⟩
      if lease.virtualId ≠ owned.record.id then
        throw (.of .notAuthorized "the lease does not belong to that virtual accelerator")
      if !leaseStateIsLive lease.state then
        throw ⟨.leaseRevoked, txt "lease is already " ++ leaseStateName lease.state⟩
      return { owned with leaseId, lease }

/-- Revoke the lease and book the released attachment. -/
def releaseLease (im : Impl σ) (held : Held) (reason : Text) (now : UnixMicros)
    (book : AccountingCounters → AccountingCounters) : Impl σ :=
  let im := (im.touchLease held.lease.id).modify .lease held.leaseId fun lease =>
    { lease with state := .revoked, revokedAt := now, reason }
  let im := (im.touchVirtual held.record.id).modify .virtual held.virtualId fun v =>
    { v with activeAttachments := v.activeAttachments - 1, updatedAt := now }
  let im := match im.state.tenants[held.lease.tenant]? with
    | none => im
    | some _ => (im.touchTenant held.lease.tenant).modify .tenant held.lease.tenant fun t =>
        { t with activeAttachments := t.activeAttachments - 1, updatedAt := now }
  (im.account fun a =>
    { book a with attachmentsActive := a.attachmentsActive - 1 }).touchHeader

/-- Release the lease; with the last attachment the virtual accelerator goes back to
`provisioned`. The transition comes after the lease is revoked. -/
def releaseLeaseAct (operation : String) (auth : Authority) (clock : Clock) (reason : Text)
    (lastReason : String) (book : AccountingCounters → AccountingCounters) (held : Held) :
    Body σ Unit :=
  fun im =>
    let context := (OpContext.ofAuthority operation auth).adoptLease held.lease
    let im := im.releaseLease held reason clock.now book
    match (if held.record.activeAttachments - 1 = 0 then
        im.transition clock held.virtualId .provisioned (txt lastReason)
      else (im, .ok ())) with
    | (im, .error status) => (im, .error ⟨context, status, .authorityRefusal⟩)
    | (im, .ok ()) =>
      (im, .ok {
        context := { context with
          virtualGeneration := (im.state.virtuals[held.virtualId]?.getD {}).generation }
        result := () })

/-- The body of a detachment. -/
def detachBody (auth : Authority) (clock : Clock) : Body σ Unit :=
  checked
    (fun im => orRefuse (.ofAuthority "detach" auth) .authorityRefusal (resolveLeaseFor auth im))
    (releaseLeaseAct "detach" auth clock (txt "detached by the tenant")
      "the last attachment was released" fun a => { a with detaches := a.detaches + 1 })

/-- Give up the lease that is presented. -/
def detach (im : Impl σ) (clock : Clock) (auth : Authority) : Impl σ × Except Failure Unit :=
  im.operation clock (detachBody auth clock)

/-- The body of a revocation. -/
def revokeLeaseBody (auth : Authority) (reason : Text) (clock : Clock) : Body σ Unit :=
  checked
    (fun im => orRefuse (.ofAuthority "revoke" auth) .authorityRefusal (resolveLeaseFor auth im))
    (releaseLeaseAct "revoke" auth clock (if reason.isEmpty then txt "revoked" else reason)
      "the last attachment was revoked" fun a => { a with leasesRevoked := a.leasesRevoked + 1 })

/-- The lease is live after the check, so the attachment is always booked. -/
def revokeLease (im : Impl σ) (clock : Clock) (auth : Authority) (reason : Text) :
    Impl σ × Except Failure Unit :=
  im.operation clock (revokeLeaseBody auth reason clock)

end Impl

end AcceleratorVirtualization
