import Std.Data.ExtTreeMap
import Std.Data.ExtTreeSet
import AcceleratorVirtualization.Lifecycle

/-!
# The durable virtualization metadata

The records of the runtime, the state that holds them in maps ordered by identity, and the
generic access to one of the eight maps by the kind of its records. Reading, replacing and
updating a record are one definition for all kinds; what a lemma about them says is said once.
-/

namespace AcceleratorVirtualization

/-- `std::map` keyed by an identity: iteration is in ascending order. -/
abbrev IdMap (α : Type) := Std.ExtTreeMap ℕ α

/-- `std::set` of identities. -/
abbrev IdSet := Std.ExtTreeSet ℕ

/-! ### Records -/

/-- Virtualization accounting. No counter is consulted to decide whether an operation is allowed. -/
structure AccountingCounters where
  coordinatorBoots : ℕ := 0
  agentBoots : ℕ := 0
  physicalRegistered : ℕ := 0
  physicalLost : ℕ := 0
  virtualCreated : ℕ := 0
  virtualRetired : ℕ := 0
  virtualActive : ℕ := 0
  leasesIssued : ℕ := 0
  leasesRenewed : ℕ := 0
  leasesRevoked : ℕ := 0
  leasesFenced : ℕ := 0
  attachmentsActive : ℕ := 0
  peakAttachmentsActive : ℕ := 0
  detaches : ℕ := 0
  backingAssignments : ℕ := 0
  backingReplacements : ℕ := 0
  backingRevocations : ℕ := 0
  migrationsPlanned : ℕ := 0
  migrationsPrepared : ℕ := 0
  migrationsCommitted : ℕ := 0
  migrationsAborted : ℕ := 0
  staleAuthorityRefusals : ℕ := 0
  authorityRefusals : ℕ := 0
  lifecycleRefusals : ℕ := 0
  contractViolationRefusals : ℕ := 0
  isolationRefusals : ℕ := 0
  capabilityRefusals : ℕ := 0
  oversubscriptionDenials : ℕ := 0
  protocolViolations : ℕ := 0
  duplicateRequestRefusals : ℕ := 0
  policyUpdates : ℕ := 0
  evidenceRecords : ℕ := 0
  allocationOperations : ℕ := 0
  kernelOperations : ℕ := 0
  bytesAllocatedCurrent : ℕ := 0
  bytesAllocatedPeak : ℕ := 0
  persistenceWrites : ℕ := 0
  persistenceBytes : ℕ := 0
  persistenceCompactions : ℕ := 0
  deriving DecidableEq

/-- Who produced a statement, on which boot, for which physical generation. -/
structure EvidenceRecord where
  id : EvidenceId := 0
  generation : Generation := 0
  kind : EvidenceKind := .unknown
  provenance : Provenance := .unknown
  agent : AgentId := 0
  boot : AgentBootId := 0
  physical : PhysicalDeviceId := 0
  physicalGeneration : Generation := 0
  backing : BackingId := 0
  backingGeneration : Generation := 0
  producedAt : UnixMicros := 0
  payloadFingerprint : ℕ := 0
  mechanism : Text := []
  detail : Text := []
  deriving DecidableEq

/-- A physical accelerator known through an agent. -/
structure PhysicalDeviceRecord where
  id : PhysicalDeviceId := 0
  generation : Generation := 0
  agent : AgentId := 0
  boot : AgentBootId := 0
  stableKey : Text := []
  vendor : Text := []
  model : Text := []
  driverVersion : Text := []
  architecture : Text := []
  provenance : Provenance := .unknown
  memoryTotalBytes : ℕ := 0
  computeUnits : ℕ := 0
  computeCapabilityMajor : ℕ := 0
  computeCapabilityMinor : ℕ := 0
  mechanism : Text := []
  hardwarePartitionCapable : Bool := false
  virtualFunctionCapable : Bool := false
  migCapable : Bool := false
  registeredAt : UnixMicros := 0
  evidenceAt : UnixMicros := 0
  evidence : EvidenceId := 0
  evidenceGeneration : Generation := 0
  present : Bool := false
  backings : List BackingId := []
  deriving DecidableEq

/-- A backing target: the mechanism through which a virtual accelerator uses a device. -/
structure BackingRecord where
  id : BackingId := 0
  generation : Generation := 0
  physical : PhysicalDeviceId := 0
  physicalGeneration : Generation := 0
  klass : BackingClass := .unknown
  provenance : Provenance := .unknown
  label : Text := []
  mechanism : Text := []
  multiplexing : MultiplexingMode := .none
  isolationClass : IsolationClass := .unknown
  isolation : IsolationProfile := {}
  capabilities : CapabilitySurface := {}
  capacityBytes : ℕ := 0
  computeUnits : ℕ := 0
  capabilityRank : ℕ := 0
  evidence : EvidenceId := 0
  evidenceGeneration : Generation := 0
  evidenceAt : UnixMicros := 0
  evidenceFresh : Bool := true
  available : Bool := false
  exclusive : Bool := true
  externallyLifecycleManaged : Bool := false
  externalPartitionRef : Text := []
  assignedTo : VirtualAcceleratorId := 0
  activeAssignment : BackingAssignmentId := 0
  assignedGeneration : Generation := 0
  deriving DecidableEq

/-- An authoritative life-cycle object binding a virtual accelerator to a backing. -/
structure BackingAssignment where
  id : BackingAssignmentId := 0
  virtualId : VirtualAcceleratorId := 0
  virtualGeneration : Generation := 0
  backing : BackingId := 0
  backingGeneration : Generation := 0
  physical : PhysicalDeviceId := 0
  physicalGeneration : Generation := 0
  tenant : TenantId := 0
  tenantGeneration : Generation := 0
  policyGeneration : Generation := 0
  contractGeneration : Generation := 0
  projectionGeneration : Generation := 0
  epoch : Generation := 0
  state : AssignmentState := .proposed
  authoritative : Bool := false
  proposedAt : UnixMicros := 0
  committedAt : UnixMicros := 0
  revokedAt : UnixMicros := 0
  reason : Text := []
  deriving DecidableEq

/-- Tenancy is explicit and bound to a generation. -/
structure TenantRecord where
  id : TenantId := 0
  generation : Generation := 0
  name : Text := []
  externalSubject : Text := []
  createdAt : UnixMicros := 0
  updatedAt : UnixMicros := 0
  fenced : Bool := false
  fenceReason : Text := []
  activeAttachments : ℕ := 0
  owned : List VirtualAcceleratorId := []
  deriving DecidableEq

/-- Access to a virtual accelerator, invalidated by any generation drift it was bound to. -/
structure LeaseRecord where
  id : LeaseId := 0
  generation : Generation := 0
  virtualId : VirtualAcceleratorId := 0
  virtualGeneration : Generation := 0
  tenant : TenantId := 0
  tenantGeneration : Generation := 0
  backingGeneration : Generation := 0
  physicalGeneration : Generation := 0
  policyGeneration : Generation := 0
  epoch : Generation := 0
  grantRequest : RequestId := 0
  state : LeaseState := .granted
  grantedAt : UnixMicros := 0
  renewedAt : UnixMicros := 0
  expiresAt : UnixMicros := 0
  revokedAt : UnixMicros := 0
  renewals : ℕ := 0
  reason : Text := []
  deriving DecidableEq

/-- One entry per backing that has ever backed a virtual accelerator. -/
structure BackingHistoryEntry where
  assignment : BackingAssignmentId := 0
  backing : BackingId := 0
  backingGeneration : Generation := 0
  physical : PhysicalDeviceId := 0
  physicalGeneration : Generation := 0
  klass : BackingClass := .unknown
  multiplexing : MultiplexingMode := .none
  from_ : UnixMicros := 0
  to_ : UnixMicros := 0
  current : Bool := false
  reason : Text := []
  deriving DecidableEq

/-- A virtual accelerator. Its generation advances on every authoritative mutation. -/
structure VirtualAcceleratorRecord where
  id : VirtualAcceleratorId := 0
  generation : Generation := 0
  name : Text := []
  owner : TenantId := 0
  ownerGeneration : Generation := 0
  state : VirtualLifecycleState := .created
  stateGeneration : Generation := 0
  stateReason : Text := []
  contract : ResourceContract := {}
  projection : CapabilityProjection := {}
  assignment : BackingAssignmentId := 0
  backing : BackingId := 0
  backingGeneration : Generation := 0
  physical : PhysicalDeviceId := 0
  physicalGeneration : Generation := 0
  backingClass : BackingClass := .unknown
  multiplexing : MultiplexingMode := .none
  isolationClass : IsolationClass := .unknown
  isolation : IsolationProfile := {}
  policyGeneration : Generation := 0
  epoch : Generation := 0
  migration : MigrationId := 0
  migrationGeneration : Generation := 0
  createdAt : UnixMicros := 0
  updatedAt : UnixMicros := 0
  retiredAt : UnixMicros := 0
  retirementReason : Text := []
  allocatedBytes : ℕ := 0
  peakAllocatedBytes : ℕ := 0
  allocationOperations : ℕ := 0
  kernelOperations : ℕ := 0
  activeAttachments : ℕ := 0
  leases : List LeaseId := []
  backingHistory : List BackingHistoryEntry := []
  deriving DecidableEq

/-- A plan is bound to every generation that took part in its construction. -/
structure MigrationPlan where
  id : MigrationId := 0
  generation : Generation := 0
  virtualId : VirtualAcceleratorId := 0
  virtualGeneration : Generation := 0
  sourceBacking : BackingId := 0
  sourceBackingGeneration : Generation := 0
  destinationBacking : BackingId := 0
  destinationBackingGeneration : Generation := 0
  sourcePhysical : PhysicalDeviceId := 0
  sourcePhysicalGeneration : Generation := 0
  destinationPhysical : PhysicalDeviceId := 0
  destinationPhysicalGeneration : Generation := 0
  tenant : TenantId := 0
  tenantGeneration : Generation := 0
  contractGeneration : Generation := 0
  projectionGeneration : Generation := 0
  policyGeneration : Generation := 0
  epoch : Generation := 0
  klass : MigrationClass := .unknown
  stateTransferRequired : Bool := false
  liveStateMovement : Bool := false
  rationale : Text := []
  deriving DecidableEq

/-- A migration and how far it got. -/
structure MigrationRecord where
  plan : MigrationPlan := {}
  state : MigrationState := .planned
  sourceAuthoritative : Bool := true
  destinationAuthoritative : Bool := false
  stateTransferPerformed : Bool := false
  sourceAssignment : BackingAssignmentId := 0
  destinationAssignment : BackingAssignmentId := 0
  destinationProjectionGeneration : Generation := 0
  plannedAt : UnixMicros := 0
  preparedAt : UnixMicros := 0
  committedAt : UnixMicros := 0
  completedAt : UnixMicros := 0
  note : Text := []
  deriving DecidableEq

/-- Every authoritative decision names the generations that produced it. -/
structure Decision where
  id : DecisionId := 0
  at_ : UnixMicros := 0
  operation : Text := []
  outcome : StatusCode := .ok
  reason : Text := []
  epoch : Generation := 0
  virtualId : VirtualAcceleratorId := 0
  virtualGeneration : Generation := 0
  tenant : TenantId := 0
  tenantGeneration : Generation := 0
  backing : BackingId := 0
  backingGeneration : Generation := 0
  physical : PhysicalDeviceId := 0
  physicalGeneration : Generation := 0
  lease : LeaseId := 0
  leaseGeneration : Generation := 0
  policyGeneration : Generation := 0
  migration : MigrationId := 0
  migrationGeneration : Generation := 0
  request : RequestId := 0
  deriving DecidableEq

/-- One line of the audit log. -/
structure AuditEntry where
  id : DecisionId := 0
  at_ : UnixMicros := 0
  kind : AuditKind := .decision
  operation : Text := []
  outcome : StatusCode := .ok
  detail : Text := []
  epoch : Generation := 0
  virtualId : VirtualAcceleratorId := 0
  virtualGeneration : Generation := 0
  tenant : TenantId := 0
  tenantGeneration : Generation := 0
  backing : BackingId := 0
  backingGeneration : Generation := 0
  migration : MigrationId := 0
  migrationGeneration : Generation := 0
  deriving DecidableEq

/-- Recorded so that a replayed request is refused, also across a restart. -/
structure RequestOutcomeRecord where
  request : RequestId := 0
  session : ℕ := 0
  operation : Text := []
  outcome : StatusCode := .ok
  at_ : UnixMicros := 0
  deriving DecidableEq

/-! ### The state -/

/-- The schema version the runtime writes. -/
def schemaVersion : ℕ := 1

/-- How many audit entries are kept. -/
def auditCapacity : ℕ := 4096
/-- How many decisions are kept. -/
def decisionCapacity : ℕ := 4096
/-- How many requests are remembered. -/
def requestWindowCapacity : ℕ := 2048

/-- Complete durable virtualization metadata. -/
structure VirtualizationState where
  schema : ℕ := schemaVersion
  nextSequence : ℕ := 1
  epoch : Generation := 0
  policy : VirtualizationPolicy := {}
  policyGeneration : Generation := 0
  tenants : IdMap TenantRecord := ∅
  physical : IdMap PhysicalDeviceRecord := ∅
  backings : IdMap BackingRecord := ∅
  virtuals : IdMap VirtualAcceleratorRecord := ∅
  leases : IdMap LeaseRecord := ∅
  assignments : IdMap BackingAssignment := ∅
  migrations : IdMap MigrationRecord := ∅
  evidence : IdMap EvidenceRecord := ∅
  accounting : AccountingCounters := {}
  /-- Bounded tails, oldest first. -/
  audit : List AuditEntry := []
  decisions : List Decision := []
  requests : List RequestOutcomeRecord := []
  deriving DecidableEq

/-! ### The eight maps by kind -/

/-- The kinds of records that live in a map of their own, in the order they are stored. -/
inductive RecordKind
  | tenant | physical | backing | virtual | lease | assignment | migration | evidence
  deriving DecidableEq, Repr

namespace RecordKind

/-- The order in which change sets and snapshots list the maps. -/
def all : List RecordKind :=
  [.tenant, .physical, .backing, .virtual, .lease, .assignment, .migration, .evidence]

/-- What the map of a kind holds. -/
@[reducible]
def Record : RecordKind → Type
  | .tenant => TenantRecord
  | .physical => PhysicalDeviceRecord
  | .backing => BackingRecord
  | .virtual => VirtualAcceleratorRecord
  | .lease => LeaseRecord
  | .assignment => BackingAssignment
  | .migration => MigrationRecord
  | .evidence => EvidenceRecord

/-- The identity a record carries; a migration carries it in its plan. -/
def idOf : (k : RecordKind) → k.Record → ℕ
  | .tenant, r => r.id
  | .physical, r => r.id
  | .backing, r => r.id
  | .virtual, r => r.id
  | .lease, r => r.id
  | .assignment, r => r.id
  | .migration, r => r.plan.id
  | .evidence, r => r.id

end RecordKind

namespace VirtualizationState

instance : Inhabited VirtualizationState := ⟨{}⟩

/-- The map of the records of a kind. -/
def entities (s : VirtualizationState) : (k : RecordKind) → IdMap k.Record
  | .tenant => s.tenants
  | .physical => s.physical
  | .backing => s.backings
  | .virtual => s.virtuals
  | .lease => s.leases
  | .assignment => s.assignments
  | .migration => s.migrations
  | .evidence => s.evidence

/-- The state with the map of a kind replaced. -/
def setEntities (s : VirtualizationState) : (k : RecordKind) → IdMap k.Record → VirtualizationState
  | .tenant, m => { s with tenants := m }
  | .physical, m => { s with physical := m }
  | .backing, m => { s with backings := m }
  | .virtual, m => { s with virtuals := m }
  | .lease, m => { s with leases := m }
  | .assignment, m => { s with assignments := m }
  | .migration, m => { s with migrations := m }
  | .evidence, m => { s with evidence := m }

/-- The record of a kind under an identity. -/
def find (s : VirtualizationState) (k : RecordKind) (id : ℕ) : Option k.Record :=
  (s.entities k)[id]?

/-- `map[id] = record`. -/
def put (s : VirtualizationState) (k : RecordKind) (id : ℕ) (r : k.Record) : VirtualizationState :=
  s.setEntities k ((s.entities k).insert id r)

/-- Write through the iterator `map.find(id)` points to; nothing happens at `end()`. -/
def modify (s : VirtualizationState) (k : RecordKind) (id : ℕ) (f : k.Record → k.Record) :
    VirtualizationState :=
  s.setEntities k ((s.entities k).modify id f)

/-! ### Reading back -/

section Entities

variable (s : VirtualizationState) (k : RecordKind)

/-- Setting the table of one kind leaves the other tables. -/
theorem entities_setEntities (m : IdMap k.Record) :
    (s.setEntities k m).entities = Function.update s.entities k m := by
  funext k'
  cases k <;> cases k' <;> rfl

/-- Setting a table takes no identity. -/
@[simp]
theorem nextSequence_setEntities (m : IdMap k.Record) :
    (s.setEntities k m).nextSequence = s.nextSequence := by
  cases k <;> rfl

/-- What is found in a table that was set. -/
theorem find_setEntities_self (m : IdMap k.Record) (id : ℕ) :
    (s.setEntities k m).find k id = m[id]? := by
  rw [find, entities_setEntities, Function.update_self]

/-- What is found in the other tables. -/
theorem find_setEntities_of_ne {k' : RecordKind} (h : k' ≠ k) (m : IdMap k.Record) (id : ℕ) :
    (s.setEntities k m).find k' id = s.find k' id := by
  rw [find, entities_setEntities, Function.update_of_ne h, find]

/-- What is found of one kind after a record of that kind was put. -/
theorem find_put_self (id : ℕ) (r : k.Record) (id' : ℕ) :
    (s.put k id r).find k id' = if id = id' then some r else s.find k id' := by
  rw [put, find_setEntities_self, Std.ExtTreeMap.getElem?_insert, find]
  simp only [Nat.compare_eq_eq]

/-- A record of one kind leaves the other kinds as they are. -/
theorem find_put_of_ne {k' : RecordKind} (h : k' ≠ k) (id : ℕ) (r : k.Record) (id' : ℕ) :
    (s.put k id r).find k' id' = s.find k' id' :=
  find_setEntities_of_ne s k h _ id'

/-- What is found of one kind after a record of that kind was changed. -/
theorem find_modify_self (id : ℕ) (f : k.Record → k.Record) (id' : ℕ) :
    (s.modify k id f).find k id' = if id = id' then (s.find k id).map f else s.find k id' := by
  rw [modify, find_setEntities_self, Std.ExtTreeMap.getElem?_modify, find, find]
  simp only [Nat.compare_eq_eq]

/-- A change of one kind leaves the other kinds as they are. -/
theorem find_modify_of_ne {k' : RecordKind} (h : k' ≠ k) (id : ℕ) (f : k.Record → k.Record)
    (id' : ℕ) : (s.modify k id f).find k' id' = s.find k' id' :=
  find_setEntities_of_ne s k h _ id'

end Entities

end VirtualizationState

end AcceleratorVirtualization
