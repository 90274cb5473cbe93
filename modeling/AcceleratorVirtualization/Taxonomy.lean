import AcceleratorVirtualization.Lib.Enumeration
import AcceleratorVirtualization.Text

/-!
# The enumerations of the durable schema

Each enumeration lists its members in the order of their stored values. The names are the
ones that reach recorded reasons, projections and their fingerprints.
-/

namespace AcceleratorVirtualization

/-! ### Physical provenance, sharing and backing classes -/

/-- Whether a statement is about real hardware. Nothing relabels `synthetic` as `real`. -/
inductive Provenance
  | unknown | real | synthetic | unsupported
  deriving DecidableEq, Repr, Inhabited

/-- All provenances, in the order of their values. -/
def Provenance.all : List Provenance :=
  [.unknown, .real, .synthetic, .unsupported]

instance : Enumeration Provenance :=
  .ofList Provenance.all (fun a => by cases a <;> decide)

/-- The name of a provenance. -/
def provenanceName : Provenance → Text
  | .unknown => txt "UNKNOWN"
  | .real => txt "REAL"
  | .synthetic => txt "SYNTHETIC"
  | .unsupported => txt "UNSUPPORTED"

/-- How a physical device is shared between virtual accelerators. -/
inductive MultiplexingMode
  | none | dedicated | hardwarePartitioned | virtualFunction | processIsolated | contextIsolated
  | timeSliced | cooperativeShared | synthetic
  deriving DecidableEq, Repr, Inhabited

/-- All modes, in the order of their values. -/
def MultiplexingMode.all : List MultiplexingMode :=
  [.none, .dedicated, .hardwarePartitioned, .virtualFunction, .processIsolated, .contextIsolated,
   .timeSliced, .cooperativeShared, .synthetic]

instance : Enumeration MultiplexingMode :=
  .ofList MultiplexingMode.all (fun a => by cases a <;> decide)

/-- The name of a mode. -/
def multiplexingName : MultiplexingMode → Text
  | .none => txt "NONE"
  | .dedicated => txt "DEDICATED"
  | .hardwarePartitioned => txt "HARDWARE_PARTITIONED"
  | .virtualFunction => txt "VIRTUAL_FUNCTION"
  | .processIsolated => txt "PROCESS_ISOLATED"
  | .contextIsolated => txt "CONTEXT_ISOLATED"
  | .timeSliced => txt "TIME_SLICED"
  | .cooperativeShared => txt "COOPERATIVE_SHARED"
  | .synthetic => txt "SYNTHETIC"

/-- The mechanism that makes a physical accelerator usable by a virtual one. -/
inductive BackingClass
  | unknown | dedicatedPhysical | hardwarePartition | virtualFunction | processIsolatedShare
  | contextIsolatedShare | timeMultiplexedShare | cooperativeShared | syntheticHardwarePartition
  | syntheticVendorVirtualFunction | syntheticRemote | syntheticMigratable
  deriving DecidableEq, Repr, Inhabited

/-- All classes, in the order of their values. -/
def BackingClass.all : List BackingClass :=
  [.unknown, .dedicatedPhysical, .hardwarePartition, .virtualFunction, .processIsolatedShare,
   .contextIsolatedShare, .timeMultiplexedShare, .cooperativeShared, .syntheticHardwarePartition,
   .syntheticVendorVirtualFunction, .syntheticRemote, .syntheticMigratable]

instance : Enumeration BackingClass :=
  .ofList BackingClass.all (fun a => by cases a <;> decide)

/-- The name of a class of backings. -/
def backingClassName : BackingClass → Text
  | .unknown => txt "UNKNOWN"
  | .dedicatedPhysical => txt "DEDICATED_PHYSICAL"
  | .hardwarePartition => txt "HARDWARE_PARTITION"
  | .virtualFunction => txt "VIRTUAL_FUNCTION"
  | .processIsolatedShare => txt "PROCESS_ISOLATED_SHARE"
  | .contextIsolatedShare => txt "CONTEXT_ISOLATED_SHARE"
  | .timeMultiplexedShare => txt "TIME_MULTIPLEXED_SHARE"
  | .cooperativeShared => txt "COOPERATIVE_SHARED"
  | .syntheticHardwarePartition => txt "SYNTHETIC_HARDWARE_PARTITION"
  | .syntheticVendorVirtualFunction => txt "SYNTHETIC_VENDOR_VIRTUAL_FUNCTION"
  | .syntheticRemote => txt "SYNTHETIC_REMOTE"
  | .syntheticMigratable => txt "SYNTHETIC_MIGRATABLE"

/-- One-line summary of the strongest isolation of a mechanism. -/
inductive IsolationClass
  | unknown | none | logical | process | vendorContext | hardwarePartition | dedicatedHardware
  | synthetic
  deriving DecidableEq, Repr, Inhabited

/-- All classes, in the order of their values. -/
def IsolationClass.all : List IsolationClass :=
  [.unknown, .none, .logical, .process, .vendorContext, .hardwarePartition, .dedicatedHardware,
   .synthetic]

instance : Enumeration IsolationClass :=
  .ofList IsolationClass.all (fun a => by cases a <;> decide)

/-- What a migration moves: identity, execution state, memory state. -/
inductive MigrationClass
  | unknown | unsupported | rebindOnly | drainAndRestart | checkpointRestore
  | stateReconstruction | liveStateTransfer
  deriving DecidableEq, Repr, Inhabited

/-- All classes, in the order of their values. -/
def MigrationClass.all : List MigrationClass :=
  [.unknown, .unsupported, .rebindOnly, .drainAndRestart, .checkpointRestore,
   .stateReconstruction, .liveStateTransfer]

instance : Enumeration MigrationClass :=
  .ofList MigrationClass.all (fun a => by cases a <;> decide)

/-- The name of a class of migrations. -/
def migrationClassName : MigrationClass → Text
  | .unknown => txt "UNKNOWN"
  | .unsupported => txt "UNSUPPORTED"
  | .rebindOnly => txt "REBIND_ONLY"
  | .drainAndRestart => txt "DRAIN_AND_RESTART"
  | .checkpointRestore => txt "CHECKPOINT_RESTORE"
  | .stateReconstruction => txt "STATE_RECONSTRUCTION"
  | .liveStateTransfer => txt "LIVE_STATE_TRANSFER"

/-! ### Isolation -/

/-- Isolation is multidimensional: one claim per dimension. -/
inductive IsolationDimension
  | memory | executionContext | addressSpace | fault | reset | performance | telemetry
  | adminControl | peerVisibility | dma | tenantState
  deriving DecidableEq, Repr, Inhabited

/-- All dimensions, in the order of their values. -/
def IsolationDimension.all : List IsolationDimension :=
  [.memory, .executionContext, .addressSpace, .fault, .reset, .performance, .telemetry,
   .adminControl, .peerVisibility, .dma, .tenantState]

instance : Enumeration IsolationDimension :=
  .ofList IsolationDimension.all (fun a => by cases a <;> decide)

/-- The name of a dimension. -/
def isolationDimensionName : IsolationDimension → Text
  | .memory => txt "MEMORY"
  | .executionContext => txt "EXECUTION_CONTEXT"
  | .addressSpace => txt "ADDRESS_SPACE"
  | .fault => txt "FAULT"
  | .reset => txt "RESET"
  | .performance => txt "PERFORMANCE"
  | .telemetry => txt "TELEMETRY"
  | .adminControl => txt "ADMIN_CONTROL"
  | .peerVisibility => txt "PEER_VISIBILITY"
  | .dma => txt "DMA"
  | .tenantState => txt "TENANT_STATE"

/-- From weakest to strongest; an unproven claim sits below a proven sharing statement. -/
inductive IsolationState
  | unsupported | unknown | shared | partially | isolated
  deriving DecidableEq, Repr, Inhabited

/-- All states, from the weakest to the strongest. -/
def IsolationState.all : List IsolationState :=
  [.unsupported, .unknown, .shared, .partially, .isolated]

instance : Enumeration IsolationState :=
  .ofList IsolationState.all (fun a => by cases a <;> decide)

/-- The name of a state of isolation. -/
def isolationStateName : IsolationState → Text
  | .unsupported => txt "UNSUPPORTED"
  | .unknown => txt "UNKNOWN"
  | .shared => txt "SHARED"
  | .partially => txt "PARTIAL"
  | .isolated => txt "ISOLATED"

/-! ### Capabilities -/

/-- What a virtual accelerator advertises. -/
inductive CapabilityKey
  | unknown | memoryBudgetBytes | memoryTotalBytes | computeShareMilli | maxStreams
  | maxConcurrentKernels | architectureFamily | isaVersion | computeCapabilityMajor
  | computeCapabilityMinor | smCount | precisionFp16 | precisionFp32 | precisionFp64
  | precisionBf16 | precisionInt8 | precisionFp8 | asyncCopy | unifiedMemory | peerAccess
  | peerAccessScope | resetBehavior | migrationSupport | performanceEnvelopeClass
  | virtualizationMechanism | memoryBandwidthBytesPerSecond | concurrencyMode
  | transferCapability | vendorVisible
  deriving DecidableEq, Repr, Inhabited

/-- All keys, in the order of their values. -/
def CapabilityKey.all : List CapabilityKey :=
  [.unknown, .memoryBudgetBytes, .memoryTotalBytes, .computeShareMilli, .maxStreams,
   .maxConcurrentKernels, .architectureFamily, .isaVersion, .computeCapabilityMajor,
   .computeCapabilityMinor, .smCount, .precisionFp16, .precisionFp32, .precisionFp64,
   .precisionBf16, .precisionInt8, .precisionFp8, .asyncCopy, .unifiedMemory, .peerAccess,
   .peerAccessScope, .resetBehavior, .migrationSupport, .performanceEnvelopeClass,
   .virtualizationMechanism, .memoryBandwidthBytesPerSecond, .concurrencyMode,
   .transferCapability, .vendorVisible]

instance : Enumeration CapabilityKey :=
  .ofList CapabilityKey.all (fun a => by cases a <;> decide)

/-- The name of a capability. -/
def capabilityKeyName : CapabilityKey → Text
  | .unknown => txt "UNKNOWN"
  | .memoryBudgetBytes => txt "MEMORY_BUDGET_BYTES"
  | .memoryTotalBytes => txt "MEMORY_TOTAL_BYTES"
  | .computeShareMilli => txt "COMPUTE_SHARE_MILLI"
  | .maxStreams => txt "MAX_STREAMS"
  | .maxConcurrentKernels => txt "MAX_CONCURRENT_KERNELS"
  | .architectureFamily => txt "ARCHITECTURE_FAMILY"
  | .isaVersion => txt "ISA_VERSION"
  | .computeCapabilityMajor => txt "COMPUTE_CAPABILITY_MAJOR"
  | .computeCapabilityMinor => txt "COMPUTE_CAPABILITY_MINOR"
  | .smCount => txt "SM_COUNT"
  | .precisionFp16 => txt "PRECISION_FP16"
  | .precisionFp32 => txt "PRECISION_FP32"
  | .precisionFp64 => txt "PRECISION_FP64"
  | .precisionBf16 => txt "PRECISION_BF16"
  | .precisionInt8 => txt "PRECISION_INT8"
  | .precisionFp8 => txt "PRECISION_FP8"
  | .asyncCopy => txt "ASYNC_COPY"
  | .unifiedMemory => txt "UNIFIED_MEMORY"
  | .peerAccess => txt "PEER_ACCESS"
  | .peerAccessScope => txt "PEER_ACCESS_SCOPE"
  | .resetBehavior => txt "RESET_BEHAVIOR"
  | .migrationSupport => txt "MIGRATION_SUPPORT"
  | .performanceEnvelopeClass => txt "PERFORMANCE_ENVELOPE_CLASS"
  | .virtualizationMechanism => txt "VIRTUALIZATION_MECHANISM"
  | .memoryBandwidthBytesPerSecond => txt "MEMORY_BANDWIDTH_BYTES_PER_SECOND"
  | .concurrencyMode => txt "CONCURRENCY_MODE"
  | .transferCapability => txt "TRANSFER_CAPABILITY"
  | .vendorVisible => txt "VENDOR_VISIBLE"

/-- A capability is proven, refuted, limited or unprovable. -/
inductive CapabilityVerdict
  | unknown | supported | unsupported | constrained
  deriving DecidableEq, Repr, Inhabited

/-- All verdicts, in the order of their values. -/
def CapabilityVerdict.all : List CapabilityVerdict :=
  [.unknown, .supported, .unsupported, .constrained]

instance : Enumeration CapabilityVerdict :=
  .ofList CapabilityVerdict.all (fun a => by cases a <;> decide)

/-- The name of a verdict. -/
def capabilityVerdictName : CapabilityVerdict → Text
  | .unknown => txt "UNKNOWN"
  | .supported => txt "SUPPORTED"
  | .unsupported => txt "UNSUPPORTED"
  | .constrained => txt "CONSTRAINED"

/-! ### Policy -/

/-- How much of the physical backing a consumer may see. -/
inductive BackingTransparency
  | opaqueBacking | summary | full
  deriving DecidableEq, Repr, Inhabited

/-- All transparencies, in the order of their values. -/
def BackingTransparency.all : List BackingTransparency :=
  [.opaqueBacking, .summary, .full]

instance : Enumeration BackingTransparency :=
  .ofList BackingTransparency.all (fun a => by cases a <;> decide)

/-- The name of a transparency. -/
def transparencyName : BackingTransparency → Text
  | .opaqueBacking => txt "OPAQUE"
  | .summary => txt "SUMMARY"
  | .full => txt "FULL"

/-- Whether virtual accelerators may share one physical device. -/
inductive TenantSharingPolicy
  | exclusive | shared
  deriving DecidableEq, Repr, Inhabited

/-- Both policies, in the order of their values. -/
def TenantSharingPolicy.all : List TenantSharingPolicy :=
  [.exclusive, .shared]

instance : Enumeration TenantSharingPolicy :=
  .ofList TenantSharingPolicy.all (fun a => by cases a <;> decide)

/-- Recovery behaviour on restart. -/
inductive RecoveryBehavior
  | conservative | optimistic
  deriving DecidableEq, Repr, Inhabited

/-- Both behaviors, in the order of their values. -/
def RecoveryBehavior.all : List RecoveryBehavior :=
  [.conservative, .optimistic]

instance : Enumeration RecoveryBehavior :=
  .ofList RecoveryBehavior.all (fun a => by cases a <;> decide)

/-! ### Life cycles -/

/-- The states of a virtual accelerator. -/
inductive VirtualLifecycleState
  | created | provisioned | attached | active | draining | suspended | migrating
  | recoveryRequired | fenced | retired
  deriving DecidableEq, Repr, Inhabited

/-- All states of the life cycle, in the order of their values. -/
def VirtualLifecycleState.all : List VirtualLifecycleState :=
  [.created, .provisioned, .attached, .active, .draining, .suspended, .migrating,
   .recoveryRequired, .fenced, .retired]

instance : Enumeration VirtualLifecycleState :=
  .ofList VirtualLifecycleState.all (fun a => by cases a <;> decide)

/-- The name of a state of the life cycle. -/
def lifecycleName : VirtualLifecycleState → Text
  | .created => txt "Created"
  | .provisioned => txt "Provisioned"
  | .attached => txt "Attached"
  | .active => txt "Active"
  | .draining => txt "Draining"
  | .suspended => txt "Suspended"
  | .migrating => txt "Migrating"
  | .recoveryRequired => txt "RecoveryRequired"
  | .fenced => txt "Fenced"
  | .retired => txt "Retired"

/-- The states of a lease. -/
inductive LeaseState
  | granted | active | revoked | expired | fenced | superseded
  deriving DecidableEq, Repr, Inhabited

/-- All states of a lease, in the order of their values. -/
def LeaseState.all : List LeaseState :=
  [.granted, .active, .revoked, .expired, .fenced, .superseded]

instance : Enumeration LeaseState :=
  .ofList LeaseState.all (fun a => by cases a <;> decide)

/-- The name of a state of a lease. -/
def leaseStateName : LeaseState → Text
  | .granted => txt "Granted"
  | .active => txt "Active"
  | .revoked => txt "Revoked"
  | .expired => txt "Expired"
  | .fenced => txt "Fenced"
  | .superseded => txt "Superseded"

/-- The states of a backing assignment. -/
inductive AssignmentState
  | proposed | validated | prepared | committed | active | draining | revoked | superseded
  | failed
  deriving DecidableEq, Repr, Inhabited

/-- All states of an assignment, in the order of their values. -/
def AssignmentState.all : List AssignmentState :=
  [.proposed, .validated, .prepared, .committed, .active, .draining, .revoked, .superseded,
   .failed]

instance : Enumeration AssignmentState :=
  .ofList AssignmentState.all (fun a => by cases a <;> decide)

/-- The states of a migration; authority moves on the edge to `committed`. -/
inductive MigrationState
  | planned | prepared | sourceDraining | destinationPrepared | stateTransferPending
  | stateTransferred | commitReady | committed | sourceRevoked | completed | aborted
  | recoveryRequired | failed
  deriving DecidableEq, Repr, Inhabited

/-- All states of a migration, in the order of their values. -/
def MigrationState.all : List MigrationState :=
  [.planned, .prepared, .sourceDraining, .destinationPrepared, .stateTransferPending,
   .stateTransferred, .commitReady, .committed, .sourceRevoked, .completed, .aborted,
   .recoveryRequired, .failed]

instance : Enumeration MigrationState :=
  .ofList MigrationState.all (fun a => by cases a <;> decide)

/-- The name of a state of a migration. -/
def migrationStateName : MigrationState → Text
  | .planned => txt "Planned"
  | .prepared => txt "Prepared"
  | .sourceDraining => txt "SourceDraining"
  | .destinationPrepared => txt "DestinationPrepared"
  | .stateTransferPending => txt "StateTransferPending"
  | .stateTransferred => txt "StateTransferred"
  | .commitReady => txt "CommitReady"
  | .committed => txt "Committed"
  | .sourceRevoked => txt "SourceRevoked"
  | .completed => txt "Completed"
  | .aborted => txt "Aborted"
  | .recoveryRequired => txt "RecoveryRequired"
  | .failed => txt "Failed"

/-! ### Evidence and audit -/

/-- What produced a piece of evidence. -/
inductive EvidenceKind
  | unknown | deviceDiscovery | capabilityQuery | isolationProbe | backingRefresh
  | syntheticAttestation | migrationProbe | recoveryRevalidation
  deriving DecidableEq, Repr, Inhabited

/-- All kinds of evidence, in the order of their values. -/
def EvidenceKind.all : List EvidenceKind :=
  [.unknown, .deviceDiscovery, .capabilityQuery, .isolationProbe, .backingRefresh,
   .syntheticAttestation, .migrationProbe, .recoveryRevalidation]

instance : Enumeration EvidenceKind :=
  .ofList EvidenceKind.all (fun a => by cases a <;> decide)

/-- What an audit entry is about. -/
inductive AuditKind
  | decision | mutation | authorityRefusal | lifecycleChange | backingChange | migrationChange
  | recovery | protocol | persistence
  deriving DecidableEq, Repr, Inhabited

/-- All kinds of audit entries, in the order of their values. -/
def AuditKind.all : List AuditKind :=
  [.decision, .mutation, .authorityRefusal, .lifecycleChange, .backingChange, .migrationChange,
   .recovery, .protocol, .persistence]

instance : Enumeration AuditKind :=
  .ofList AuditKind.all (fun a => by cases a <;> decide)

end AcceleratorVirtualization
