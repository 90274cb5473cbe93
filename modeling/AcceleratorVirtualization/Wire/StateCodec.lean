import AcceleratorVirtualization.Wire.RecordCodec

/-!
# Codecs of the durable state

A snapshot is the header, the eight maps in the order of their identities and the three bounded
tails. The records are laid out field by field in the order of their declaration; a stored
enumerator outside of its domain makes the state corrupt.
-/

namespace AcceleratorVirtualization

open Enumeration (value)

/-- A stored enumerator. -/
def decodeStored {α : Type} [Enumeration α] (maxValue : α) (refusal : String) : Decode α := do
  let raw ← Decoder.u8
  decodeWithin raw maxValue (.of .corruptState refusal)

/-- Identities are stored as they are kept, and come back sorted. -/
def decodeIds : Decode (List ℕ) := do
  let ids ← decodeList (2 ^ 22) Decoder.u64
  return ids.insertionSort (· ≤ ·)

/-! ### The header -/

/-- The counters in the order they are stored in. -/
def AccountingCounters.toList (a : AccountingCounters) : List ℕ :=
  [a.coordinatorBoots, a.agentBoots, a.physicalRegistered, a.physicalLost, a.virtualCreated,
    a.virtualRetired, a.virtualActive, a.leasesIssued, a.leasesRenewed, a.leasesRevoked,
    a.leasesFenced, a.attachmentsActive, a.peakAttachmentsActive, a.detaches,
    a.backingAssignments, a.backingReplacements, a.backingRevocations, a.migrationsPlanned,
    a.migrationsPrepared, a.migrationsCommitted, a.migrationsAborted, a.staleAuthorityRefusals,
    a.authorityRefusals, a.lifecycleRefusals, a.contractViolationRefusals, a.isolationRefusals,
    a.capabilityRefusals, a.oversubscriptionDenials, a.protocolViolations,
    a.duplicateRequestRefusals, a.policyUpdates, a.evidenceRecords, a.allocationOperations,
    a.kernelOperations, a.bytesAllocatedCurrent, a.bytesAllocatedPeak, a.persistenceWrites,
    a.persistenceBytes, a.persistenceCompactions]

/-- The counters a list of stored words is read into, in the order of the pointers the loop of
`decode_header` goes through. -/
def AccountingCounters.ofList (l : List ℕ) : AccountingCounters where
  coordinatorBoots := l.getD 0 0
  agentBoots := l.getD 1 0
  physicalRegistered := l.getD 2 0
  physicalLost := l.getD 3 0
  virtualCreated := l.getD 4 0
  virtualRetired := l.getD 5 0
  virtualActive := l.getD 6 0
  leasesIssued := l.getD 7 0
  leasesRenewed := l.getD 8 0
  leasesRevoked := l.getD 9 0
  leasesFenced := l.getD 10 0
  attachmentsActive := l.getD 11 0
  peakAttachmentsActive := l.getD 12 0
  detaches := l.getD 13 0
  backingAssignments := l.getD 14 0
  backingReplacements := l.getD 15 0
  backingRevocations := l.getD 16 0
  migrationsPlanned := l.getD 17 0
  migrationsPrepared := l.getD 18 0
  migrationsCommitted := l.getD 19 0
  migrationsAborted := l.getD 20 0
  staleAuthorityRefusals := l.getD 21 0
  authorityRefusals := l.getD 22 0
  lifecycleRefusals := l.getD 23 0
  contractViolationRefusals := l.getD 24 0
  isolationRefusals := l.getD 25 0
  capabilityRefusals := l.getD 26 0
  oversubscriptionDenials := l.getD 27 0
  protocolViolations := l.getD 28 0
  duplicateRequestRefusals := l.getD 29 0
  policyUpdates := l.getD 30 0
  evidenceRecords := l.getD 31 0
  allocationOperations := l.getD 32 0
  kernelOperations := l.getD 33 0
  bytesAllocatedCurrent := l.getD 34 0
  bytesAllocatedPeak := l.getD 35 0
  persistenceWrites := l.getD 36 0
  persistenceBytes := l.getD 37 0
  persistenceCompactions := l.getD 38 0

/-- The counters of `encode_header`, in the order of their declaration. -/
def encodeCounters (a : AccountingCounters) : Bytes := a.toList.flatMap Encoder.u64

/-- The counters of `decode_header`. -/
def decodeCounters : Decode AccountingCounters := do
  let counters ← Decoder.u64.times 39
  return .ofList counters

/-- `encode_header`: what the state holds outside of its tables and windows. -/
def encodeHeader (s : VirtualizationState) : Bytes :=
  [Encoder.u32 s.schema,
    Encoder.u64 s.nextSequence,
    Encoder.u64 s.epoch,
    Encoder.u64 s.policyGeneration,
    encodePolicy s.policy,
    encodeCounters s.accounting].flatten

/-- `decode_header`. -/
def decodeHeader : Decode VirtualizationState := do
  let schema ← Decoder.u32
  let nextSequence ← Decoder.u64
  let epoch ← Decoder.u64
  let policyGeneration ← Decoder.u64
  let policy ← decodePolicy
  let accounting ← decodeCounters
  return { schema, nextSequence, epoch, policyGeneration, policy, accounting }

/-! ### Records -/

/-- `encode_tenant`. -/
def encodeTenant (r : TenantRecord) : Bytes :=
  [Encoder.u64 r.id,
    Encoder.u64 r.generation,
    Encoder.str r.name,
    Encoder.str r.externalSubject,
    Encoder.i64 r.createdAt,
    Encoder.i64 r.updatedAt,
    Encoder.boolean r.fenced,
    Encoder.str r.fenceReason,
    Encoder.u32 r.activeAttachments,
    Encoder.list r.owned Encoder.u64].flatten

/-- `decode_tenant`. -/
def decodeTenant : Decode TenantRecord := do
  let id ← Decoder.u64
  let generation ← Decoder.u64
  let name ← Decoder.str
  let externalSubject ← Decoder.str
  let createdAt ← Decoder.i64
  let updatedAt ← Decoder.i64
  let fenced ← Decoder.boolean
  let fenceReason ← Decoder.str
  let activeAttachments ← Decoder.u32
  let owned ← decodeIds
  return { id, generation, name, externalSubject, createdAt, updatedAt, fenced, fenceReason,
           activeAttachments, owned }

/-- `encode_physical`. -/
def encodePhysical (r : PhysicalDeviceRecord) : Bytes :=
  [Encoder.u64 r.id,
    Encoder.u64 r.generation,
    Encoder.u64 r.agent,
    Encoder.u64 r.boot,
    Encoder.str r.stableKey,
    Encoder.str r.vendor,
    Encoder.str r.model,
    Encoder.str r.driverVersion,
    Encoder.str r.architecture,
    encodeEnum r.provenance,
    Encoder.u64 r.memoryTotalBytes,
    Encoder.u32 r.computeUnits,
    Encoder.u32 r.computeCapabilityMajor,
    Encoder.u32 r.computeCapabilityMinor,
    Encoder.str r.mechanism,
    Encoder.boolean r.hardwarePartitionCapable,
    Encoder.boolean r.virtualFunctionCapable,
    Encoder.boolean r.migCapable,
    Encoder.i64 r.registeredAt,
    Encoder.i64 r.evidenceAt,
    Encoder.u64 r.evidence,
    Encoder.u64 r.evidenceGeneration,
    Encoder.boolean r.present,
    Encoder.list r.backings Encoder.u64].flatten

/-- `decode_physical`. -/
def decodePhysical : Decode PhysicalDeviceRecord := do
  let id ← Decoder.u64
  let generation ← Decoder.u64
  let agent ← Decoder.u64
  let boot ← Decoder.u64
  let stableKey ← Decoder.str
  let vendor ← Decoder.str
  let model ← Decoder.str
  let driverVersion ← Decoder.str
  let architecture ← Decoder.str
  let provenance ← decodeStored Provenance.unsupported
    "stored provenance value is outside its domain"
  let memoryTotalBytes ← Decoder.u64
  let computeUnits ← Decoder.u32
  let computeCapabilityMajor ← Decoder.u32
  let computeCapabilityMinor ← Decoder.u32
  let mechanism ← Decoder.str
  let hardwarePartitionCapable ← Decoder.boolean
  let virtualFunctionCapable ← Decoder.boolean
  let migCapable ← Decoder.boolean
  let registeredAt ← Decoder.i64
  let evidenceAt ← Decoder.i64
  let evidence ← Decoder.u64
  let evidenceGeneration ← Decoder.u64
  let present ← Decoder.boolean
  let backings ← decodeIds
  return { id, generation, agent, boot, stableKey, vendor, model, driverVersion, architecture,
           provenance, memoryTotalBytes, computeUnits, computeCapabilityMajor,
           computeCapabilityMinor, mechanism, hardwarePartitionCapable, virtualFunctionCapable,
           migCapable, registeredAt, evidenceAt, evidence, evidenceGeneration, present, backings }

/-- `encode_backing`. -/
def encodeBacking (r : BackingRecord) : Bytes :=
  [Encoder.u64 r.id,
    Encoder.u64 r.generation,
    Encoder.u64 r.physical,
    Encoder.u64 r.physicalGeneration,
    encodeEnum r.klass,
    encodeEnum r.provenance,
    Encoder.str r.label,
    Encoder.str r.mechanism,
    encodeEnum r.multiplexing,
    encodeEnum r.isolationClass,
    encodeIsolationProfile r.isolation,
    encodeCapabilitySurface r.capabilities,
    Encoder.u64 r.capacityBytes,
    Encoder.u32 r.computeUnits,
    Encoder.u32 r.capabilityRank,
    Encoder.u64 r.evidence,
    Encoder.u64 r.evidenceGeneration,
    Encoder.i64 r.evidenceAt,
    Encoder.boolean r.evidenceFresh,
    Encoder.boolean r.available,
    Encoder.boolean r.exclusive,
    Encoder.boolean r.externallyLifecycleManaged,
    Encoder.str r.externalPartitionRef,
    Encoder.u64 r.assignedTo,
    Encoder.u64 r.activeAssignment,
    Encoder.u64 r.assignedGeneration].flatten

/-- `decode_backing`. -/
def decodeBacking : Decode BackingRecord := do
  let id ← Decoder.u64
  let generation ← Decoder.u64
  let physical ← Decoder.u64
  let physicalGeneration ← Decoder.u64
  let klass ← decodeStored BackingClass.syntheticMigratable
    "stored backing class is outside its domain"
  let provenance ← decodeStored Provenance.unsupported "stored provenance is outside its domain"
  let label ← Decoder.str
  let mechanism ← Decoder.str
  let multiplexing ← decodeStored MultiplexingMode.synthetic
    "stored multiplexing mode is outside its domain"
  let isolationClass ← decodeStored IsolationClass.synthetic
    "stored isolation class is outside its domain"
  let isolation ← decodeIsolationProfile
  let capabilities ← decodeCapabilitySurface
  let capacityBytes ← Decoder.u64
  let computeUnits ← Decoder.u32
  let capabilityRank ← Decoder.u32
  let evidence ← Decoder.u64
  let evidenceGeneration ← Decoder.u64
  let evidenceAt ← Decoder.i64
  let evidenceFresh ← Decoder.boolean
  let available ← Decoder.boolean
  let exclusive ← Decoder.boolean
  let externallyLifecycleManaged ← Decoder.boolean
  let externalPartitionRef ← Decoder.str
  let assignedTo ← Decoder.u64
  let activeAssignment ← Decoder.u64
  let assignedGeneration ← Decoder.u64
  return { id, generation, physical, physicalGeneration, klass, provenance, label, mechanism,
           multiplexing, isolationClass, isolation, capabilities, capacityBytes, computeUnits,
           capabilityRank, evidence, evidenceGeneration, evidenceAt, evidenceFresh, available,
           exclusive, externallyLifecycleManaged, externalPartitionRef, assignedTo,
           activeAssignment, assignedGeneration }

/-- One entry of the history of a virtual accelerator. -/
def encodeBackingHistory (entry : BackingHistoryEntry) : Bytes :=
  [Encoder.u64 entry.assignment,
    Encoder.u64 entry.backing,
    Encoder.u64 entry.backingGeneration,
    Encoder.u64 entry.physical,
    Encoder.u64 entry.physicalGeneration,
    encodeEnum entry.klass,
    encodeEnum entry.multiplexing,
    Encoder.i64 entry.from_,
    Encoder.i64 entry.to_,
    Encoder.boolean entry.current,
    Encoder.str entry.reason].flatten

/-- One entry of the history of a virtual accelerator. -/
def decodeBackingHistory : Decode BackingHistoryEntry := do
  let assignment ← Decoder.u64
  let backing ← Decoder.u64
  let backingGeneration ← Decoder.u64
  let physical ← Decoder.u64
  let physicalGeneration ← Decoder.u64
  let klass ← decodeStored BackingClass.syntheticMigratable
    "stored backing history class is outside its domain"
  let multiplexing ← decodeStored MultiplexingMode.synthetic
    "stored backing history multiplexing is outside its domain"
  let from_ ← Decoder.i64
  let to_ ← Decoder.i64
  let current ← Decoder.boolean
  let reason ← Decoder.str
  return { assignment, backing, backingGeneration, physical, physicalGeneration, klass,
           multiplexing, from_, to_, current, reason }

/-- `encode_virtual`. -/
def encodeVirtual (r : VirtualAcceleratorRecord) : Bytes :=
  [Encoder.u64 r.id,
    Encoder.u64 r.generation,
    Encoder.str r.name,
    Encoder.u64 r.owner,
    Encoder.u64 r.ownerGeneration,
    encodeEnum r.state,
    Encoder.u64 r.stateGeneration,
    Encoder.str r.stateReason,
    encodeContract r.contract,
    encodeProjection r.projection,
    Encoder.u64 r.assignment,
    Encoder.u64 r.backing,
    Encoder.u64 r.backingGeneration,
    Encoder.u64 r.physical,
    Encoder.u64 r.physicalGeneration,
    encodeEnum r.backingClass,
    encodeEnum r.multiplexing,
    encodeEnum r.isolationClass,
    encodeIsolationProfile r.isolation,
    Encoder.u64 r.policyGeneration,
    Encoder.u64 r.epoch,
    Encoder.u64 r.migration,
    Encoder.u64 r.migrationGeneration,
    Encoder.i64 r.createdAt,
    Encoder.i64 r.updatedAt,
    Encoder.i64 r.retiredAt,
    Encoder.str r.retirementReason,
    Encoder.u64 r.allocatedBytes,
    Encoder.u64 r.peakAllocatedBytes,
    Encoder.u64 r.allocationOperations,
    Encoder.u64 r.kernelOperations,
    Encoder.u32 r.activeAttachments,
    Encoder.list r.leases Encoder.u64,
    Encoder.list r.backingHistory encodeBackingHistory].flatten

/-- `decode_virtual`. -/
def decodeVirtual : Decode VirtualAcceleratorRecord := do
  let id ← Decoder.u64
  let generation ← Decoder.u64
  let name ← Decoder.str
  let owner ← Decoder.u64
  let ownerGeneration ← Decoder.u64
  let state ← decodeStored VirtualLifecycleState.retired
    "stored lifecycle state is outside its domain"
  let stateGeneration ← Decoder.u64
  let stateReason ← Decoder.str
  let contract ← decodeContract
  let projection ← decodeProjection
  let assignment ← Decoder.u64
  let backing ← Decoder.u64
  let backingGeneration ← Decoder.u64
  let physical ← Decoder.u64
  let physicalGeneration ← Decoder.u64
  let backingClass ← decodeStored BackingClass.syntheticMigratable
    "stored backing class is outside its domain"
  let multiplexing ← decodeStored MultiplexingMode.synthetic
    "stored multiplexing mode is outside its domain"
  let isolationClass ← decodeStored IsolationClass.synthetic
    "stored isolation class is outside its domain"
  let isolation ← decodeIsolationProfile
  let policyGeneration ← Decoder.u64
  let epoch ← Decoder.u64
  let migration ← Decoder.u64
  let migrationGeneration ← Decoder.u64
  let createdAt ← Decoder.i64
  let updatedAt ← Decoder.i64
  let retiredAt ← Decoder.i64
  let retirementReason ← Decoder.str
  let allocatedBytes ← Decoder.u64
  let peakAllocatedBytes ← Decoder.u64
  let allocationOperations ← Decoder.u64
  let kernelOperations ← Decoder.u64
  let activeAttachments ← Decoder.u32
  let leases ← decodeIds
  let backingHistory ← decodeList (2 ^ 22) decodeBackingHistory
  return { id, generation, name, owner, ownerGeneration, state, stateGeneration, stateReason,
           contract, projection, assignment, backing, backingGeneration, physical,
           physicalGeneration, backingClass, multiplexing, isolationClass, isolation,
           policyGeneration, epoch, migration, migrationGeneration, createdAt, updatedAt,
           retiredAt, retirementReason, allocatedBytes, peakAllocatedBytes,
           allocationOperations, kernelOperations, activeAttachments, leases, backingHistory }

/-- `encode_lease`. -/
def encodeLease (r : LeaseRecord) : Bytes :=
  [Encoder.u64 r.id,
    Encoder.u64 r.generation,
    Encoder.u64 r.virtualId,
    Encoder.u64 r.virtualGeneration,
    Encoder.u64 r.tenant,
    Encoder.u64 r.tenantGeneration,
    Encoder.u64 r.backingGeneration,
    Encoder.u64 r.physicalGeneration,
    Encoder.u64 r.policyGeneration,
    Encoder.u64 r.epoch,
    Encoder.u64 r.grantRequest,
    encodeEnum r.state,
    Encoder.i64 r.grantedAt,
    Encoder.i64 r.renewedAt,
    Encoder.i64 r.expiresAt,
    Encoder.i64 r.revokedAt,
    Encoder.u32 r.renewals,
    Encoder.str r.reason].flatten

/-- `decode_lease`. -/
def decodeLease : Decode LeaseRecord := do
  let id ← Decoder.u64
  let generation ← Decoder.u64
  let virtualId ← Decoder.u64
  let virtualGeneration ← Decoder.u64
  let tenant ← Decoder.u64
  let tenantGeneration ← Decoder.u64
  let backingGeneration ← Decoder.u64
  let physicalGeneration ← Decoder.u64
  let policyGeneration ← Decoder.u64
  let epoch ← Decoder.u64
  let grantRequest ← Decoder.u64
  let state ← decodeStored LeaseState.superseded "stored lease state is outside its domain"
  let grantedAt ← Decoder.i64
  let renewedAt ← Decoder.i64
  let expiresAt ← Decoder.i64
  let revokedAt ← Decoder.i64
  let renewals ← Decoder.u32
  let reason ← Decoder.str
  return { id, generation, virtualId, virtualGeneration, tenant, tenantGeneration,
           backingGeneration, physicalGeneration, policyGeneration, epoch, grantRequest, state,
           grantedAt, renewedAt, expiresAt, revokedAt, renewals, reason }

/-- `encode_assignment`. -/
def encodeAssignment (r : BackingAssignment) : Bytes :=
  [Encoder.u64 r.id,
    Encoder.u64 r.virtualId,
    Encoder.u64 r.virtualGeneration,
    Encoder.u64 r.backing,
    Encoder.u64 r.backingGeneration,
    Encoder.u64 r.physical,
    Encoder.u64 r.physicalGeneration,
    Encoder.u64 r.tenant,
    Encoder.u64 r.tenantGeneration,
    Encoder.u64 r.policyGeneration,
    Encoder.u64 r.contractGeneration,
    Encoder.u64 r.projectionGeneration,
    Encoder.u64 r.epoch,
    encodeEnum r.state,
    Encoder.boolean r.authoritative,
    Encoder.i64 r.proposedAt,
    Encoder.i64 r.committedAt,
    Encoder.i64 r.revokedAt,
    Encoder.str r.reason].flatten

/-- `decode_assignment`. -/
def decodeAssignment : Decode BackingAssignment := do
  let id ← Decoder.u64
  let virtualId ← Decoder.u64
  let virtualGeneration ← Decoder.u64
  let backing ← Decoder.u64
  let backingGeneration ← Decoder.u64
  let physical ← Decoder.u64
  let physicalGeneration ← Decoder.u64
  let tenant ← Decoder.u64
  let tenantGeneration ← Decoder.u64
  let policyGeneration ← Decoder.u64
  let contractGeneration ← Decoder.u64
  let projectionGeneration ← Decoder.u64
  let epoch ← Decoder.u64
  let state ← decodeStored AssignmentState.failed "stored assignment state is outside its domain"
  let authoritative ← Decoder.boolean
  let proposedAt ← Decoder.i64
  let committedAt ← Decoder.i64
  let revokedAt ← Decoder.i64
  let reason ← Decoder.str
  return { id, virtualId, virtualGeneration, backing, backingGeneration, physical,
           physicalGeneration, tenant, tenantGeneration, policyGeneration, contractGeneration,
           projectionGeneration, epoch, state, authoritative, proposedAt, committedAt, revokedAt,
           reason }

/-- `encode_migration`. -/
def encodeMigration (r : MigrationRecord) : Bytes :=
  [encodeMigrationPlan r.plan,
    encodeEnum r.state,
    Encoder.boolean r.sourceAuthoritative,
    Encoder.boolean r.destinationAuthoritative,
    Encoder.boolean r.stateTransferPerformed,
    Encoder.u64 r.sourceAssignment,
    Encoder.u64 r.destinationAssignment,
    Encoder.u64 r.destinationProjectionGeneration,
    Encoder.i64 r.plannedAt,
    Encoder.i64 r.preparedAt,
    Encoder.i64 r.committedAt,
    Encoder.i64 r.completedAt,
    Encoder.str r.note].flatten

/-- `decode_migration`. -/
def decodeMigration : Decode MigrationRecord := do
  let plan ← decodeMigrationPlan
  let state ← decodeStored MigrationState.failed "stored migration state is outside its domain"
  let sourceAuthoritative ← Decoder.boolean
  let destinationAuthoritative ← Decoder.boolean
  let stateTransferPerformed ← Decoder.boolean
  let sourceAssignment ← Decoder.u64
  let destinationAssignment ← Decoder.u64
  let destinationProjectionGeneration ← Decoder.u64
  let plannedAt ← Decoder.i64
  let preparedAt ← Decoder.i64
  let committedAt ← Decoder.i64
  let completedAt ← Decoder.i64
  let note ← Decoder.str
  return { plan, state, sourceAuthoritative, destinationAuthoritative, stateTransferPerformed,
           sourceAssignment, destinationAssignment, destinationProjectionGeneration, plannedAt,
           preparedAt, committedAt, completedAt, note }

/-- `encode_evidence`. -/
def encodeEvidence (r : EvidenceRecord) : Bytes :=
  [Encoder.u64 r.id,
    Encoder.u64 r.generation,
    encodeEnum r.kind,
    encodeEnum r.provenance,
    Encoder.u64 r.agent,
    Encoder.u64 r.boot,
    Encoder.u64 r.physical,
    Encoder.u64 r.physicalGeneration,
    Encoder.u64 r.backing,
    Encoder.u64 r.backingGeneration,
    Encoder.i64 r.producedAt,
    Encoder.u64 r.payloadFingerprint,
    Encoder.str r.mechanism,
    Encoder.str r.detail].flatten

/-- `decode_evidence`. -/
def decodeEvidence : Decode EvidenceRecord := do
  let id ← Decoder.u64
  let generation ← Decoder.u64
  let kind ← decodeStored EvidenceKind.recoveryRevalidation
    "stored evidence kind is outside its domain"
  let provenance ← decodeStored Provenance.unsupported
    "stored evidence provenance is outside its domain"
  let agent ← Decoder.u64
  let boot ← Decoder.u64
  let physical ← Decoder.u64
  let physicalGeneration ← Decoder.u64
  let backing ← Decoder.u64
  let backingGeneration ← Decoder.u64
  let producedAt ← Decoder.i64
  let payloadFingerprint ← Decoder.u64
  let mechanism ← Decoder.str
  let detail ← Decoder.str
  return { id, generation, kind, provenance, agent, boot, physical, physicalGeneration, backing,
           backingGeneration, producedAt, payloadFingerprint, mechanism, detail }

/-! ### The tails -/

/-- `encode_audit`. -/
def encodeAudit (entry : AuditEntry) : Bytes :=
  [Encoder.u64 entry.id,
    Encoder.i64 entry.at_,
    encodeEnum entry.kind,
    Encoder.str entry.operation,
    Encoder.u32 entry.outcome.value,
    Encoder.str entry.detail,
    Encoder.u64 entry.epoch,
    Encoder.u64 entry.virtualId,
    Encoder.u64 entry.virtualGeneration,
    Encoder.u64 entry.tenant,
    Encoder.u64 entry.tenantGeneration,
    Encoder.u64 entry.backing,
    Encoder.u64 entry.backingGeneration,
    Encoder.u64 entry.migration,
    Encoder.u64 entry.migrationGeneration].flatten

/-- `decode_audit`. -/
def decodeAudit : Decode AuditEntry := do
  let id ← Decoder.u64
  let at_ ← Decoder.i64
  let kind ← decodeStored AuditKind.persistence "stored audit kind is outside its domain"
  let operation ← Decoder.str
  let outcome ← Decoder.u32
  let detail ← Decoder.str
  let epoch ← Decoder.u64
  let virtualId ← Decoder.u64
  let virtualGeneration ← Decoder.u64
  let tenant ← Decoder.u64
  let tenantGeneration ← Decoder.u64
  let backing ← Decoder.u64
  let backingGeneration ← Decoder.u64
  let migration ← Decoder.u64
  let migrationGeneration ← Decoder.u64
  return { id, at_, kind, operation, outcome := .ofValue outcome, detail, epoch, virtualId,
           virtualGeneration, tenant, tenantGeneration, backing, backingGeneration, migration,
           migrationGeneration }

/-- `encode_decision`. -/
def encodeDecision (decision : Decision) : Bytes :=
  [Encoder.u64 decision.id,
    Encoder.i64 decision.at_,
    Encoder.str decision.operation,
    Encoder.u32 decision.outcome.value,
    Encoder.str decision.reason,
    Encoder.u64 decision.epoch,
    Encoder.u64 decision.virtualId,
    Encoder.u64 decision.virtualGeneration,
    Encoder.u64 decision.tenant,
    Encoder.u64 decision.tenantGeneration,
    Encoder.u64 decision.backing,
    Encoder.u64 decision.backingGeneration,
    Encoder.u64 decision.physical,
    Encoder.u64 decision.physicalGeneration,
    Encoder.u64 decision.lease,
    Encoder.u64 decision.leaseGeneration,
    Encoder.u64 decision.policyGeneration,
    Encoder.u64 decision.migration,
    Encoder.u64 decision.migrationGeneration,
    Encoder.u64 decision.request].flatten

/-- `decode_decision`. -/
def decodeDecision : Decode Decision := do
  let id ← Decoder.u64
  let at_ ← Decoder.i64
  let operation ← Decoder.str
  let outcome ← Decoder.u32
  let reason ← Decoder.str
  let epoch ← Decoder.u64
  let virtualId ← Decoder.u64
  let virtualGeneration ← Decoder.u64
  let tenant ← Decoder.u64
  let tenantGeneration ← Decoder.u64
  let backing ← Decoder.u64
  let backingGeneration ← Decoder.u64
  let physical ← Decoder.u64
  let physicalGeneration ← Decoder.u64
  let lease ← Decoder.u64
  let leaseGeneration ← Decoder.u64
  let policyGeneration ← Decoder.u64
  let migration ← Decoder.u64
  let migrationGeneration ← Decoder.u64
  let request ← Decoder.u64
  return { id, at_, operation, outcome := .ofValue outcome, reason, epoch, virtualId,
           virtualGeneration, tenant, tenantGeneration, backing, backingGeneration, physical,
           physicalGeneration, lease, leaseGeneration, policyGeneration, migration,
           migrationGeneration, request }

/-- `encode_request_outcome`. -/
def encodeRequestOutcome (r : RequestOutcomeRecord) : Bytes :=
  [Encoder.u64 r.request,
    Encoder.u64 r.session,
    Encoder.str r.operation,
    Encoder.u32 r.outcome.value,
    Encoder.i64 r.at_].flatten

/-- `decode_request_outcome`. -/
def decodeRequestOutcome : Decode RequestOutcomeRecord := do
  let request ← Decoder.u64
  let session ← Decoder.u64
  let operation ← Decoder.str
  let outcome ← Decoder.u32
  let at_ ← Decoder.i64
  return { request, session, operation, outcome := .ofValue outcome, at_ }

/-! ### Snapshots -/

/-- The encoder of the records of a kind. -/
def encodeRecord : (k : RecordKind) → k.Record → Bytes
  | .tenant => encodeTenant
  | .physical => encodePhysical
  | .backing => encodeBacking
  | .virtual => encodeVirtual
  | .lease => encodeLease
  | .assignment => encodeAssignment
  | .migration => encodeMigration
  | .evidence => encodeEvidence

/-- The decoder of each kind of record. -/
def decodeRecord : (k : RecordKind) → Decode k.Record
  | .tenant => decodeTenant
  | .physical => decodePhysical
  | .backing => decodeBacking
  | .virtual => decodeVirtual
  | .lease => decodeLease
  | .assignment => decodeAssignment
  | .migration => decodeMigration
  | .evidence => decodeEvidence

/-- The records of a map in the order of their identities, after their number. -/
def encodeEntities (s : VirtualizationState) (k : RecordKind) : Bytes :=
  Encoder.list ((s.entities k).toList.map Prod.snd) (encodeRecord k)

/-- `encode_snapshot`: the header, the eight tables and the three windows. -/
def encodeSnapshot (s : VirtualizationState) : Bytes :=
  [encodeHeader s,
    encodeEntities s .tenant,
    encodeEntities s .physical,
    encodeEntities s .backing,
    encodeEntities s .virtual,
    encodeEntities s .lease,
    encodeEntities s .assignment,
    encodeEntities s .migration,
    encodeEntities s .evidence,
    Encoder.list s.audit encodeAudit,
    Encoder.list s.decisions encodeDecision,
    Encoder.list s.requests encodeRequestOutcome].flatten

/-- `emplace` keeps what is there already. -/
def decodeEntities (k : RecordKind) : Decode (IdMap k.Record) := do
  let records ← decodeList (2 ^ 22) (decodeRecord k)
  return records.foldl (fun entities record => entities.insertIfNew (k.idOf record) record) ∅

/-- The limits under which a snapshot is decoded, wider than those of a message. -/
def snapshotLimits : DecodeLimits :=
  { maxString := 64 * 1024, maxBytes := 1024 * 1024, maxItems := 2 ^ 22, maxDepth := 32 }

/-- The parts of a snapshot in the order they are written. -/
def decodeState : Decode VirtualizationState := do
  let header ← decodeHeader
  let tenants ← decodeEntities .tenant
  let physical ← decodeEntities .physical
  let backings ← decodeEntities .backing
  let virtuals ← decodeEntities .virtual
  let leases ← decodeEntities .lease
  let assignments ← decodeEntities .assignment
  let migrations ← decodeEntities .migration
  let evidence ← decodeEntities .evidence
  let audit ← decodeList (2 ^ 22) decodeAudit
  let decisions ← decodeList (2 ^ 22) decodeDecision
  let requests ← decodeList (2 ^ 22) decodeRequestOutcome
  return { header with tenants, physical, backings, virtuals, leases, assignments, migrations,
                       evidence, audit, decisions, requests }

/-- `decode_snapshot`. -/
def decodeSnapshot (bytes : Bytes) : Except Status VirtualizationState :=
  (decodeWhole decodeState).run' (Decoder.of bytes snapshotLimits)

end AcceleratorVirtualization
