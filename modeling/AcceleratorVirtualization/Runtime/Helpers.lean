import AcceleratorVirtualization.Runtime.Checks

/-!
# What operations do to records

The steps several operations share: fencing the live leases of a virtual accelerator, moving
it along its life cycle, deriving the projection it advertises, and recomputing the derived
counters. Each touches a record before it changes it.
-/

namespace AcceleratorVirtualization

/-! ### Projections -/

/-- Enter one statement into a surface. -/
def setCapability (surface : CapabilitySurface) (key : CapabilityKey) (verdict : CapabilityVerdict)
    (value : ℕ) (text : Text) (provenance : String) : CapabilitySurface :=
  surface.set { key, verdict, value, text, provenance := txt provenance }

/-- A limit of the contract: constrained where it is specified, unknown otherwise. -/
def setContractLimit (surface : CapabilitySurface) (key : CapabilityKey) (limit : ℕ) :
    CapabilitySurface :=
  setCapability surface key (if limit > 0 then .constrained else .unknown) limit []
    "resource-contract"

/-- What the evidence about the device contributes. -/
def projectPhysical (p : CapabilityProjection) (physical : PhysicalDeviceRecord) :
    CapabilityProjection :=
  let p := if physical.computeCapabilityMajor > 0 then
      let surface := setCapability p.surface .computeCapabilityMajor .supported
        physical.computeCapabilityMajor [] "physical-evidence"
      let surface := setCapability surface .computeCapabilityMinor .supported
        physical.computeCapabilityMinor [] "physical-evidence"
      { p with surface }
    else { p with unknown := p.unknown ++ [.computeCapabilityMajor, .computeCapabilityMinor] }
  if !physical.architecture.isEmpty then
    let surface := setCapability p.surface .architectureFamily .supported 0 physical.architecture
      "physical-evidence"
    { p with surface }
  else { p with unknown := p.unknown ++ [.architectureFamily] }

/-- One capability the backing reports. What it reports as unknown stays unknown. -/
def projectEntry (policy : VirtualizationPolicy) (p : CapabilityProjection)
    (entry : CapabilityEntry) : CapabilityProjection :=
  if policy.forbidsCapability entry.key then { p with hidden := p.hidden ++ [entry.key] }
  else if entry.verdict = .unknown then
    { p with
      unknown := p.unknown ++ [entry.key]
      surface := p.surface.set
        { key := entry.key, text := entry.text, provenance := entry.provenance } }
  else { p with surface := p.surface.set entry }

/-- Withhold a forbidden capability. -/
def withhold (p : CapabilityProjection) (key : CapabilityKey) : CapabilityProjection :=
  if (p.surface.find key).isSome then
    { p with surface := p.surface.without key, hidden := p.hidden ++ [key] }
  else p

/-- What the backing contributes. -/
def projectBacking (policy : VirtualizationPolicy) (backing : BackingRecord)
    (physical : Option PhysicalDeviceRecord) (p : CapabilityProjection) : CapabilityProjection :=
  let surface := setCapability p.surface .memoryTotalBytes .supported backing.capacityBytes []
    "backing-evidence"
  let p := { p with surface }
  let p := if backing.computeUnits > 0 then
      let surface := setCapability p.surface .smCount .supported backing.computeUnits []
        "backing-evidence"
      { p with surface }
    else { p with
      surface := setCapability p.surface .smCount .unknown 0 [] "backing-evidence"
      unknown := p.unknown ++ [.smCount] }
  let p := physical.elim p (projectPhysical p)
  let p := backing.capabilities.entries.foldl (projectEntry policy) p
  policy.forbiddenCapabilities.foldl withhold p

/-- The advertised surface, derived from the contract, the policy and, where there is one, the
evidence-backed backing. A capability that cannot be proven stays unknown. -/
def buildProjection (contract : ResourceContract) (backing : Option BackingRecord)
    (physical : Option PhysicalDeviceRecord) (policy : VirtualizationPolicy) (identity : ℕ)
    (generation : Generation) : CapabilityProjection :=
  let multiplexingText := backing.elim (txt "unassigned") fun b => multiplexingName b.multiplexing
  let surface := setContractLimit {} .memoryBudgetBytes contract.memoryCeilingBytes
  let surface := setContractLimit surface .computeShareMilli contract.computeShareMilli
  let surface := setContractLimit surface .maxStreams contract.maxStreams
  let surface := setContractLimit surface .maxConcurrentKernels contract.maxConcurrency
  let surface := setCapability surface .virtualizationMechanism .supported 0 multiplexingText
    "virtualization-policy"
  let surface := setCapability surface .concurrencyMode .supported 0 multiplexingText
    "virtualization-policy"
  let migrationOk := contract.migrationAllowed && policy.migrationAllowed
  let surface := setCapability surface .migrationSupport
    (if migrationOk then .supported else .unsupported) 0 [] "policy"
  let p : CapabilityProjection := {
    id := identity, generation, surface
    unknown := if migrationOk then [] else [.migrationSupport]
    policyGeneration := policy.generation
    contractGeneration := contract.generation
    backingGeneration := backing.elim 0 (·.generation)
    physicalGeneration := physical.elim 0 (·.generation)
    mechanism := backing.elim (txt "unassigned") (·.mechanism) }
  let p : CapabilityProjection := match backing with
    | some b => projectBacking policy b physical p
    | none => { p with
        surface := setCapability p.surface .memoryTotalBytes .unknown 0 [] "no-backing"
        unknown := p.unknown ++ [.memoryTotalBytes, .architectureFamily, .smCount,
          .computeCapabilityMajor, .computeCapabilityMinor] }
  CapabilityProjection.seal { p with
    surface := setCapability p.surface .vendorVisible
      (if policy.transparency = .opaqueBacking then .unsupported else .supported) 0
      (transparencyName policy.transparency) "virtualization-policy" }

namespace Impl

variable {σ : Type}

/-! ### Leases -/

/-- Fence one lease if it is live. -/
def fenceLease (im : Impl σ) (reason : Text) (now : UnixMicros) (id : LeaseId) : Impl σ :=
  match im.state.leases[id]? with
  | none => im
  | some lease =>
    if leaseStateIsLive lease.state then
      (im.touchLease id).modify .lease id fun lease =>
        { lease with state := .fenced, revokedAt := now, reason := reason }
    else im

/-- How many of the listed leases are live. A lease listed twice is fenced at its first
occurrence. -/
def liveLeases (leases : IdMap LeaseRecord) (ids : List LeaseId) : ℕ :=
  (ids.dedup.filter fun id => (leases[id]?.map fun l => leaseStateIsLive l.state).getD false).length

/-- Fence every live lease of a virtual accelerator and keep the attachment counters of the
virtual accelerator, its tenant and the runtime closed. -/
def fenceLeases (im : Impl σ) (id : VirtualAcceleratorId) (reason : Text) (now : UnixMicros) :
    Impl σ :=
  match im.state.virtuals[id]? with
  | none => im
  | some record =>
    let live := liveLeases im.state.leases record.leases
    let im := record.leases.foldl (fun im lease => im.fenceLease reason now lease) im
    if live = 0 then im
    else
      let im := (im.touchVirtual record.id).modify .virtual id fun record =>
        { record with activeAttachments := 0 }
      let im := match im.state.tenants[record.owner]? with
        | none => im
        | some _ => (im.touchTenant record.owner).modify .tenant record.owner fun tenant =>
            { tenant with
              activeAttachments := tenant.activeAttachments - live, updatedAt := now }
      (im.account fun a =>
        { a with
          leasesFenced := a.leasesFenced + live
          attachmentsActive := a.attachmentsActive - live }).touchHeader

/-! ### Life cycle -/

/-- Carry a live lease forward to the new generation of its virtual accelerator. -/
def carryLease (im : Impl σ) (generation : Generation) (id : LeaseId) : Impl σ :=
  match im.state.leases[id]? with
  | none => im
  | some lease =>
    if leaseStateIsLive lease.state then
      (im.touchLease id).modify .lease id fun lease =>
        { lease with virtualGeneration := generation }
    else im

/-- Move a virtual accelerator along its life cycle, or refuse and leave it alone. Steps that
keep the attachments carry the live leases forward. -/
def transition (im : Impl σ) (clock : Clock) (id : VirtualAcceleratorId)
    (target : VirtualLifecycleState) (reason : Text) : Impl σ × Check :=
  match im.state.virtuals[id]? with
  | none => (im, .ok ())
  | some record =>
    match checkTransition record.state target with
    | .error legal => (im, .error ⟨legal.code, legal.detail ++ txt " for virtual accelerator " ++
        strVirtual record.id⟩)
    | .ok () =>
      let keepsLeases := lifecycleAllowsLeases record.state && lifecycleAllowsLeases target
      let im := (im.touchVirtual record.id).modify .virtual id fun record =>
        { record with
          state := target
          stateGeneration := record.stateGeneration + 1
          stateReason := reason
          generation := record.generation + 1
          updatedAt := clock.transition id }
      (if keepsLeases then
        record.leases.foldl (fun im lease => im.carryLease (record.generation + 1) lease) im
      else im, .ok ())

/-! ### Projections and derived counters -/

/-- The virtual accelerator with its projection derived anew, bound to its binding generations. -/
def project (state : VirtualizationState) (identity : ℕ) (record : VirtualAcceleratorRecord) :
    VirtualAcceleratorRecord :=
  let backing := state.backings[record.backing]?
  let physical := backing.bind fun b => state.physical[b.physical]?
  let generation :=
    if valid record.projection.generation then record.projection.generation + 1 else 1
  let projection :=
    buildProjection record.contract backing physical state.policy identity generation
  { record with
    projection := CapabilityProjection.seal { projection with
      backingGeneration := record.backingGeneration
      physicalGeneration := record.physicalGeneration } }

/-- `rebuild_projection`: the projection is built again under a fresh identity. -/
def rebuildProjection (im : Impl σ) (id : VirtualAcceleratorId) : Impl σ :=
  im.takeId.modify .virtual id (project im.state im.nextId)

/-- Whether a virtual accelerator counts as active. -/
def countsAsActive (record : VirtualAcceleratorRecord) : Bool :=
  record.state ≠ .retired && record.state ≠ .suspended && record.state ≠ .fenced

/-- Recompute the counters that are derived from the records. -/
def recomputeDerivedAccounting (im : Impl σ) : Impl σ :=
  let virtuals := im.state.virtuals.values
  (im.account fun a =>
    { a with
      virtualActive := (virtuals.filter countsAsActive).length
      attachmentsActive := (virtuals.map (·.activeAttachments)).sum
      bytesAllocatedCurrent := (virtuals.map (·.allocatedBytes)).sum % 2 ^ 64 }).touchHeader

end Impl

end AcceleratorVirtualization
