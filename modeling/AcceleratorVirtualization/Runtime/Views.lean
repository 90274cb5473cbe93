import AcceleratorVirtualization.Runtime.Checks

/-!
# Views

What a caller is shown of a virtual accelerator. The policy says how much of the backing is
disclosed: nothing, a summary, or everything. What is copied from the record and its projection is
copied under every transparency.
-/

namespace AcceleratorVirtualization

/-- How many views a listing returns at most. -/
def kMaxListedVirtuals : ℕ := 2 ^ 22

/-- What a caller sees of a virtual accelerator. -/
structure VirtualView where
  id : VirtualAcceleratorId := 0
  generation : Generation := 0
  name : Text := []
  state : VirtualLifecycleState := .created
  stateGeneration : Generation := 0
  stateReason : Text := []
  owner : TenantId := 0
  ownerGeneration : Generation := 0
  ownerIsCaller : Bool := false
  contract : ResourceContract := {}
  projection : CapabilityProjection := {}
  multiplexing : MultiplexingMode := .none
  isolationClass : IsolationClass := .unknown
  transparency : BackingTransparency := .opaqueBacking
  backingDisclosed : Bool := false
  backingClass : BackingClass := .unknown
  backingProvenance : Provenance := .unknown
  backingMechanism : Text := []
  backing : BackingId := 0
  backingGeneration : Generation := 0
  physical : PhysicalDeviceId := 0
  physicalGeneration : Generation := 0
  physicalStableKey : Text := []
  physicalModel : Text := []
  activeAttachments : ℕ := 0
  attachedToCaller : Bool := false
  callerLease : LeaseId := 0
  callerLeaseGeneration : Generation := 0
  migrationClass : MigrationClass := .unknown
  migrationSupported : Bool := false
  hasActiveMigration : Bool := false
  allocatedBytes : ℕ := 0
  createdAt : UnixMicros := 0
  updatedAt : UnixMicros := 0
  deriving DecidableEq

namespace VirtualView

/-- What is shown of the binding, by the transparency of the policy. -/
def disclose (policy : VirtualizationPolicy) (record : VirtualAcceleratorRecord)
    (view : VirtualView) : VirtualView :=
  match policy.transparency with
  | .opaqueBacking => { view with backingDisclosed := false }
  | .summary =>
    { view with
      backingDisclosed := true
      backingGeneration := record.backingGeneration
      physicalGeneration := record.physicalGeneration }
  | .full =>
    { view with
      backingDisclosed := true
      backing := record.backing
      backingGeneration := record.backingGeneration
      physical := record.physical
      physicalGeneration := record.physicalGeneration }

/-- What is shown of the backing record and, under full transparency, of its device. -/
def describeBacking (s : VirtualizationState) (record : VirtualAcceleratorRecord)
    (view : VirtualView) : VirtualView :=
  match s.backings[record.backing]? with
  | none => { view with backingProvenance := .unknown }
  | some backing =>
    let view := { view with
      backingProvenance := backing.provenance, backingMechanism := backing.mechanism }
    if s.policy.transparency = .full then
      match s.physical[backing.physical]? with
      | none => view
      | some physical =>
        { view with physicalStableKey := physical.stableKey, physicalModel := physical.model }
    else view

/-- The lease the caller presents, if it is one of the virtual accelerator. -/
def describeLease (s : VirtualizationState) (record : VirtualAcceleratorRecord) (auth : Authority)
    (view : VirtualView) : VirtualView :=
  match auth.lease.bind (s.leases[·]?) with
  | none => view
  | some lease =>
    if lease.virtualId = record.id then
      { view with
        attachedToCaller := leaseStateIsLive lease.state
        callerLease := lease.id
        callerLeaseGeneration := lease.generation }
    else view

end VirtualView

/-- Show a virtual accelerator, as far as the policy discloses it. -/
def makeView (s : VirtualizationState) (record : VirtualAcceleratorRecord) (auth : Authority) :
    VirtualView :=
  let capability := migrationCapability s.policy record.contract
  let view : VirtualView := {
    id := record.id
    generation := record.generation
    name := record.name
    state := record.state
    stateGeneration := record.stateGeneration
    stateReason := record.stateReason
    owner := record.owner
    ownerGeneration := record.ownerGeneration
    ownerIsCaller := auth.tenant = some record.owner
    contract := record.contract
    projection := record.projection
    multiplexing := record.multiplexing
    isolationClass := record.isolationClass
    transparency := s.policy.transparency
    activeAttachments := record.activeAttachments
    allocatedBytes := record.allocatedBytes
    createdAt := record.createdAt
    updatedAt := record.updatedAt
    backingClass := record.backingClass
    backingMechanism := record.projection.mechanism
    migrationSupported := capability.supported
    migrationClass := if capability.supported then capability.klass else .unsupported
    hasActiveMigration := valid record.migration && s.migrations[record.migration]?.any fun m =>
      !migrationStateIsTerminal m.state }
  let view := view.disclose s.policy record
  let view := view.describeBacking s record
  view.describeLease s record auth

namespace VirtualizationState

/-- Show a virtual accelerator that is known. -/
def queryVirtual (s : VirtualizationState) (auth : Authority) (id : VirtualAcceleratorId) :
    Except Status VirtualView :=
  match s.virtuals[id]? with
  | none => .error ⟨.notFound, txt "virtual accelerator " ++ strVirtual id ++ txt " is not known"⟩
  | some record => .ok (makeView s record auth)

/-- The virtual accelerators of the caller, or all of them if it names no tenant. -/
def listVirtual (s : VirtualizationState) (auth : Authority) : List VirtualView :=
  ((s.virtuals.toList.filter fun entry => auth.tenant.all (· = entry.2.owner)).take
    kMaxListedVirtuals).map fun entry => makeView s entry.2 auth

end VirtualizationState

end AcceleratorVirtualization
