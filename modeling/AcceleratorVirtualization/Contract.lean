import AcceleratorVirtualization.Surface

/-!
# Resource contracts and the virtualization policy

The contract states what virtualization promises for one virtual accelerator; the policy
states what the deployment allows. Both are normalized (sorted, deduplicated) before they are
validated and stored.
-/

namespace AcceleratorVirtualization

/-- A check that refuses with a status. -/
abbrev Check := Except Status Unit

/-! ### Resource contracts -/

/-- What a virtual accelerator may use and what it requires. -/
structure ResourceContract where
  id : ℕ := 0
  generation : Generation := 0
  /-- Zero leaves a limit unspecified, here and below. -/
  memoryCeilingBytes : ℕ := 0
  /-- Thousandths of one device. -/
  computeShareMilli : ℕ := 0
  maxStreams : ℕ := 0
  maxConcurrency : ℕ := 0
  bandwidthAllowanceBytesPerSecond : ℕ := 0
  exclusivityRequired : Bool := false
  minimumBackingRank : ℕ := 0
  /-- Empty lets the policy decide. -/
  allowedBackingClasses : List BackingClass := []
  allowedMultiplexingModes : List MultiplexingMode := []
  requiredIsolation : List IsolationRequirement := []
  migrationAllowed : Bool := false
  allowedMigrationClasses : List MigrationClass := []
  oversubscriptionAllowed : Bool := false
  burstAllowed : Bool := false
  deriving DecidableEq

namespace ResourceContract

/-- Sort the lists of a contract and drop what is listed twice. -/
def normalize (c : ResourceContract) (sorting : Sorting) : ResourceContract :=
  { c with
    allowedBackingClasses := sortUnique c.allowedBackingClasses
    allowedMultiplexingModes := sortUnique c.allowedMultiplexingModes
    allowedMigrationClasses := sortUnique c.allowedMigrationClasses
    requiredIsolation := normalizeRequirements sorting c.requiredIsolation }

/-- What makes a contract invalid, in the order it is looked at. -/
def validate (c : ResourceContract) : Check := do
  if c.computeShareMilli > 1000 then
    throw ⟨.contractInvalid, txt "compute share " ++ toDecimal c.computeShareMilli ++
      txt " milli exceeds 1000 milli (one device)"⟩
  if c.maxStreams > 65536 then
    throw (.of .contractInvalid "max_streams exceeds the supported bound of 65536")
  if c.maxConcurrency > 65536 then
    throw (.of .contractInvalid "max_concurrency exceeds the supported bound of 65536")
  if c.allowedBackingClasses.contains .unknown then
    throw (.of .contractInvalid "allowed_backing_classes must not contain UNKNOWN")
  if c.allowedMultiplexingModes.contains .none then
    throw (.of .contractInvalid "allowed_multiplexing_modes must not contain NONE")
  match c.allowedMigrationClasses.find? fun k => k = .unknown || k = .unsupported with
  | some .unknown =>
    throw (.of .contractInvalid "allowed_migration_classes must not contain UNKNOWN")
  | some _ =>
    throw (.of .contractInvalid "allowed_migration_classes must not contain UNSUPPORTED")
  | none => pure ()
  if c.exclusivityRequired && c.oversubscriptionAllowed then
    throw (.of .contractInvalid
      "an exclusive contract cannot also allow oversubscription of the same backing")
  if let some r := c.requiredIsolation.find? fun r => r.minimum = .unsupported then
    throw ⟨.contractInvalid, txt "isolation requirement for " ++
      isolationDimensionName r.dimension ++
      txt " asks for UNSUPPORTED, which can never be satisfied"⟩
  if repeatsDimension c.requiredIsolation then
    throw (.of .contractInvalid "required_isolation repeats a dimension")

/-- A contract that lists no class permits every class. -/
def permitsBackingClass (c : ResourceContract) (klass : BackingClass) : Bool :=
  c.allowedBackingClasses.isEmpty || c.allowedBackingClasses.contains klass

/-- A contract that lists no mode permits every mode. -/
def permitsMultiplexing (c : ResourceContract) (mode : MultiplexingMode) : Bool :=
  c.allowedMultiplexingModes.isEmpty || c.allowedMultiplexingModes.contains mode

/-- A contract that lists no class permits every class, if it permits migration at all. -/
def permitsMigrationClass (c : ResourceContract) (klass : MigrationClass) : Bool :=
  c.migrationAllowed &&
    (c.allowedMigrationClasses.isEmpty || c.allowedMigrationClasses.contains klass)

end ResourceContract

/-! ### The policy -/

/-- What the operator permits, and the limits. -/
structure VirtualizationPolicy where
  id : ℕ := 0
  generation : Generation := 0
  allowedBackingClasses : List BackingClass := []
  tenantSharing : TenantSharingPolicy := .shared
  requiredIsolation : List IsolationRequirement := []
  oversubscriptionAllowed : Bool := false
  transparency : BackingTransparency := .summary
  migrationAllowed : Bool := true
  allowedMigrationClasses : List MigrationClass := []
  maxAttachmentsPerVirtual : ℕ := 8
  /-- Zero: leases do not expire by time. -/
  maxLeaseDurationMicros : ℕ := 0
  forbiddenCapabilities : List CapabilityKey := []
  maxMemoryCeilingBytes : ℕ := 2 ^ 40
  maxComputeShareMilli : ℕ := 1000
  syntheticBackingAllowed : Bool := true
  recovery : RecoveryBehavior := .conservative
  /-- Zero: no freshness requirement. -/
  evidenceMaxAgeMicros : ℕ := 0
  maxVirtualAccelerators : ℕ := 100000
  maxTenants : ℕ := 10000
  maxLeases : ℕ := 100000
  maxAssignments : ℕ := 100000
  maxMigrations : ℕ := 4096
  maxEvidenceRecords : ℕ := 65536
  deriving DecidableEq

namespace VirtualizationPolicy

/-- Sort the lists of a policy and drop what is listed twice. -/
def normalize (p : VirtualizationPolicy) (sorting : Sorting) : VirtualizationPolicy :=
  { p with
    allowedBackingClasses := sortUnique p.allowedBackingClasses
    allowedMigrationClasses := sortUnique p.allowedMigrationClasses
    forbiddenCapabilities := sortUnique p.forbiddenCapabilities
    requiredIsolation := normalizeRequirements sorting p.requiredIsolation }

/-- The policy of a coordinator that was given none. -/
def defaultPolicy : VirtualizationPolicy :=
  -- the requirements are of different dimensions, so that every sort leaves the same
  normalize {
    allowedBackingClasses := BackingClass.all.filter (· ≠ .unknown)
    allowedMigrationClasses := [.rebindOnly, .drainAndRestart, .stateReconstruction]
    requiredIsolation := [⟨.tenantState, .partially⟩, ⟨.adminControl, .partially⟩] } .insertion

/-- What makes a policy invalid, in the order it is looked at. -/
def validate (p : VirtualizationPolicy) : Check := do
  if p.allowedBackingClasses.contains .unknown then
    throw (.of .policyViolation "allowed_backing_classes must not contain UNKNOWN")
  if let some k := p.allowedMigrationClasses.find? fun k => k = .unknown || k = .unsupported then
    throw ⟨.policyViolation, txt "allowed_migration_classes must not contain " ++
      migrationClassName k⟩
  if p.maxAttachmentsPerVirtual = 0 || p.maxAttachmentsPerVirtual > 4096 then
    throw (.of .policyViolation "max_attachments_per_virtual must be between 1 and 4096")
  if p.maxComputeShareMilli = 0 || p.maxComputeShareMilli > 1000 then
    throw (.of .policyViolation "max_compute_share_milli must be between 1 and 1000")
  if p.maxVirtualAccelerators = 0 || p.maxVirtualAccelerators > 10000000 then
    throw (.of .policyViolation "max_virtual_accelerators must be between 1 and 10000000")
  if p.maxTenants = 0 || p.maxTenants > 10000000 then
    throw (.of .policyViolation "max_tenants must be between 1 and 10000000")
  if p.maxMemoryCeilingBytes = 0 then
    throw (.of .policyViolation "max_memory_ceiling_bytes must be greater than zero")
  if let some r := p.requiredIsolation.find? fun r => r.minimum = .unsupported then
    throw ⟨.policyViolation, txt "required isolation for " ++
      isolationDimensionName r.dimension ++ txt " is UNSUPPORTED"⟩
  if repeatsDimension p.requiredIsolation then
    throw (.of .policyViolation "required_isolation repeats a dimension")

/-- A policy permits the classes that it lists. -/
def permitsBackingClass (p : VirtualizationPolicy) (klass : BackingClass) : Bool :=
  p.allowedBackingClasses.contains klass

/-- A policy permits the classes that it lists, if it permits migration at all. -/
def permitsMigrationClass (p : VirtualizationPolicy) (klass : MigrationClass) : Bool :=
  p.migrationAllowed && klass ≠ .unsupported && klass ≠ .unknown &&
    p.allowedMigrationClasses.contains klass

/-- A capability that no virtual accelerator may show. -/
def forbidsCapability (p : VirtualizationPolicy) (key : CapabilityKey) : Bool :=
  p.forbiddenCapabilities.contains key

/-- The default policy passes its own check. -/
theorem validate_defaultPolicy : defaultPolicy.validate = .ok () := by decide

end VirtualizationPolicy

/-! ### What a migration may be -/

/-- Whether a migration is possible, of which class, and why (or why not). -/
structure MigrationCapability where
  supported : Bool := false
  klass : MigrationClass := .unsupported
  reason : Text := []

/-- The classes genuinely implemented: identity continuity without state movement. -/
def implementedMigrationClasses : List MigrationClass := [.rebindOnly, .drainAndRestart]

/-- Whether a virtual accelerator can migrate, and how, or why it cannot. -/
def migrationCapability (policy : VirtualizationPolicy) (contract : ResourceContract) :
    MigrationCapability :=
  if !policy.migrationAllowed then
    { reason := txt "migration is disabled by the virtualization policy" }
  else if !contract.migrationAllowed then
    { reason := txt "migration is disabled by the resource contract" }
  else
    -- the loop keeps the last permitted class
    match (implementedMigrationClasses.filter fun k =>
        policy.permitsMigrationClass k && contract.permitsMigrationClass k).getLast? with
    | none =>
      { reason := txt ("no implemented migration class is permitted; this runtime implements " ++
          "REBIND_ONLY and DRAIN_AND_RESTART only and never claims state transfer it does not " ++
          "perform") }
    | some klass =>
      { supported := true, klass := klass
        reason := txt "identity continuity without execution-state or memory-state movement" }

/-- The one class that moves live state. -/
def migrationMovesLiveState (klass : MigrationClass) : Bool := klass = .liveStateTransfer

/-- Whether the class requires the virtual accelerator to stop executing. -/
def migrationRequiresDrain (klass : MigrationClass) : Bool := klass ≠ .rebindOnly

/-! ### Backing classes -/

/-- The multiplexing mode a class implies when nothing overrides it. -/
def defaultMultiplexingFor : BackingClass → MultiplexingMode
  | .dedicatedPhysical => .dedicated
  | .hardwarePartition | .syntheticHardwarePartition => .hardwarePartitioned
  | .virtualFunction | .syntheticVendorVirtualFunction => .virtualFunction
  | .processIsolatedShare => .processIsolated
  | .contextIsolatedShare => .contextIsolated
  | .timeMultiplexedShare => .timeSliced
  | .cooperativeShared => .cooperativeShared
  | .syntheticRemote | .syntheticMigratable => .synthetic
  | .unknown => .none

/-- Physicality of the mechanism, independent of how it is used. -/
def classNativeProvenance : BackingClass → Provenance
  | .dedicatedPhysical | .hardwarePartition | .virtualFunction | .processIsolatedShare
  | .contextIsolatedShare | .timeMultiplexedShare | .cooperativeShared => .real
  | .syntheticHardwarePartition | .syntheticVendorVirtualFunction | .syntheticRemote
  | .syntheticMigratable => .synthetic
  | .unknown => .unknown

/-- Relative strength of the mechanism. -/
def backingClassRank : BackingClass → ℕ
  | .dedicatedPhysical => 100
  | .hardwarePartition => 90
  | .virtualFunction => 80
  | .processIsolatedShare => 60
  | .contextIsolatedShare => 50
  | .timeMultiplexedShare => 30
  | .cooperativeShared => 20
  | .syntheticHardwarePartition | .syntheticVendorVirtualFunction => 12
  | .syntheticRemote | .syntheticMigratable => 10
  | .unknown => 0

end AcceleratorVirtualization
