import AcceleratorVirtualization.Runtime.Migrations

/-!
# The audit of migrations

The section of the invariant audit that judges the migrations of a state against the virtual
accelerators, backings and assignments there are now.
-/

namespace AcceleratorVirtualization

/-- What the audit reports. -/
structure InvariantViolation where
  code : Text
  detail : Text
  virtualId : VirtualAcceleratorId := 0
  tenant : TenantId := 0
  lease : LeaseId := 0
  backing : BackingId := 0
  physical : PhysicalDeviceId := 0
  migration : MigrationId := 0
  deriving DecidableEq

/-! ### The stable names of the invariants -/

/-- A migration names its source and its destination. -/
def kMigrationEndpointsPresent : Text := txt "migration_endpoints_present"
/-- A virtual accelerator has at most one authoritative assignment. -/
def kSingleAuthoritativeBacking : Text := txt "single_authoritative_backing"
/-- The source has no authority after the cutover. -/
def kNoSourceAuthorityAfterCutover : Text := txt "no_source_authority_after_cutover"

namespace VirtualizationState

/-- A violation that concerns a virtual accelerator. -/
def fail (code detail : Text) (record : VirtualAcceleratorRecord) : InvariantViolation where
  code
  detail
  virtualId := record.id
  tenant := record.owner
  backing := record.backing
  physical := record.physical

/-- The endpoints of a migration. -/
def auditEndpoints (s : VirtualizationState) (record : VirtualAcceleratorRecord)
    (migration : MigrationRecord) : List InvariantViolation :=
  let named := txt "migration " ++ strMigration migration.plan.id
  (if migration.plan.sourceBacking ∉ s.backings then
    [fail kMigrationEndpointsPresent (named ++ txt " has no source backing") record] else []) ++
  (if migration.plan.destinationBacking ∉ s.backings then
    [fail kMigrationEndpointsPresent (named ++ txt " has no destination backing") record]
    else []) ++
  if migration.plan.klass = .liveStateTransfer && !migration.plan.liveStateMovement then
    [fail kMigrationEndpointsPresent (named ++
      txt " claims LIVE_STATE_TRANSFER without live state movement being performed") record]
  else []

/-- The authority of a migration after its cutover. -/
def auditCutover (s : VirtualizationState) (record : VirtualAcceleratorRecord)
    (migration : MigrationRecord) : List InvariantViolation :=
  let crossed :=
    txt "migration " ++ strMigration migration.plan.id ++ txt " crossed the cutover but"
  (if migration.sourceAuthoritative then
    [fail kNoSourceAuthorityAfterCutover
      (crossed ++ txt " still marks the source authoritative") record] else []) ++
  (if s.assignments[migration.sourceAssignment]?.any (·.authoritative) then
    [fail kNoSourceAuthorityAfterCutover
      (crossed ++ txt " the source assignment is still authoritative") record] else []) ++
  if s.assignments[migration.destinationAssignment]?.any (!·.authoritative) then
    [fail kSingleAuthoritativeBacking
      (crossed ++ txt " the destination assignment is not authoritative") record] else []

/-- The authority of a migration before its cutover. -/
def auditWaiting (record : VirtualAcceleratorRecord) (migration : MigrationRecord) :
    List InvariantViolation :=
  if !migrationStateAfterCutover migration.state && !migrationStateIsTerminal migration.state &&
      migration.destinationAuthoritative then
    [fail kSingleAuthoritativeBacking (txt "migration " ++ strMigration migration.plan.id ++
      txt " marks the destination authoritative before the cutover") record]
  else []

/-- What the audit reports about one migration. -/
def auditMigration (s : VirtualizationState) (key : MigrationId) (migration : MigrationRecord) :
    List InvariantViolation :=
  if migration.plan.id ≠ key || !valid migration.plan.id then
    [{ code := kMigrationEndpointsPresent
       detail := txt "migration map key does not match the plan identity" }]
  else
    match s.virtuals[migration.plan.virtualId]? with
    | none =>
      [{ code := kMigrationEndpointsPresent
         detail := txt "migration " ++ strMigration migration.plan.id ++
           txt " references missing virtual accelerator"
         migration := migration.plan.id }]
    | some record =>
      s.auditEndpoints record migration ++
      (if migrationStateAfterCutover migration.state then s.auditCutover record migration
        else []) ++ auditWaiting record migration

/-- The migration section of `run_invariant_audit`, in the order of the map. -/
def auditMigrations (s : VirtualizationState) : List InvariantViolation :=
  s.migrations.toList.flatMap fun entry => s.auditMigration entry.1 entry.2

end VirtualizationState

end AcceleratorVirtualization
