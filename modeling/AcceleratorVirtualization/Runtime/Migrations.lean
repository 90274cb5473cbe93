import AcceleratorVirtualization.Runtime.Bindings

/-!
# Migrations

A migration is planned, prepared, committed and completed, or aborted before its cutover. The
plan is bound to every generation that took part in it; preparation drains the leases and
makes a destination assignment that is not yet authoritative; the commit moves authority from
the source to the destination in one change set. After a restart in-flight migrations are
classified by how far they got.
-/

namespace AcceleratorVirtualization

namespace Impl

variable {σ : Type} [DurableStore σ]

/-! ### Planning -/

/-- Whether a migration can start. A life-cycle reason replaces an earlier one. -/
def checkMigratable (im : Impl σ) (value : VirtualAcceleratorRecord) (destination : BackingId) :
    Check :=
  let inProgress : Status := ⟨.migrationInProgress,
    txt "a migration is already in flight for " ++ strVirtual value.id⟩
  let first : Check :=
    if !valid value.assignment || !valid value.backing then
      .error (.of .backingUnavailable
        "migration requires an authoritative source backing assignment")
    else if valid value.migration && im.state.migrations[value.migration]?.any
        (fun inFlight => !migrationStateIsTerminal inFlight.state) then
      .error inProgress
    else .ok ()
  let startable := lifecycleRequiresBacking value.state || value.state = .provisioned ||
    value.state = .suspended
  if first.isOk && value.state = .migrating then .error inProgress
  else if !startable then
    .error ⟨.invalidTransition, txt "virtual accelerator " ++ strVirtual value.id ++ txt " is " ++
      lifecycleName value.state ++ txt " and cannot start a migration"⟩
  else if destination = value.backing then
    .error (.of .conflict "the destination backing is the current backing")
  else first

/-- Only classes that move no state are implemented. -/
def checkMigrationClass (im : Impl σ) (value : VirtualAcceleratorRecord) (klass : MigrationClass) :
    Check := do
  let capability := migrationCapability im.state.policy value.contract
  if !capability.supported then throw ⟨.migrationUnsupported, capability.reason⟩
  if !implementedMigrationClasses.contains klass then
    throw ⟨.migrationUnsupported, txt "migration class " ++ migrationClassName klass ++
      txt (" requires state movement this runtime does not implement; implemented classes are " ++
        "REBIND_ONLY and DRAIN_AND_RESTART")⟩
  if !im.state.policy.permitsMigrationClass klass then
    throw ⟨.migrationClassNotAllowed,
      txt "the virtualization policy does not allow migration class " ++ migrationClassName klass⟩
  if !value.contract.permitsMigrationClass klass then
    throw ⟨.migrationClassNotAllowed,
      txt "the resource contract does not allow migration class " ++ migrationClassName klass⟩

/-- What a plan checks. -/
def planMigrationCheck (auth : Authority) (destination : BackingId) (klass : MigrationClass)
    (im : Impl σ) : Except Status (Owned × BackingRecord) := do
  im.checkAuthority auth
  im.state.checkRequest auth
  let owned ← im.state.resolveOwned auth
  requireMutable owned.record
  im.checkMigratable owned.record destination
  im.checkMigrationClass owned.record klass
  match im.state.backings[destination]? with
  | none => throw ⟨.notFound, txt "destination backing " ++ strBacking destination ++
      txt " is not known"⟩
  | some backing =>
    validateBackingFor im.options.sorting backing im.state.physical[backing.physical]? owned.record
      im.state.policy im.state
    if im.state.migrations.size ≥ im.state.policy.maxMigrations then
      throw (.of .limitExceeded "migration count has reached the policy maximum")
    return (owned, backing)

/-- Enter a migration that is planned under the current generations. -/
def planMigrationAct (auth : Authority) (destination : BackingId) (klass : MigrationClass)
    (clock : Clock) (plan : Owned × BackingRecord) : Body σ MigrationRecord :=
  fun im =>
    let (owned, destinationBacking) := plan
    let value := owned.record
    let context := (OpContext.ofAuthority "migration_plan" auth).adoptVirtual value
    let sourceBacking := im.state.backings[value.backing]?.getD {}
    let migration : MigrationRecord := {
      plan := {
        id := im.nextId
        generation := 1
        virtualId := value.id
        virtualGeneration := value.generation
        sourceBacking := value.backing
        sourceBackingGeneration := sourceBacking.generation
        destinationBacking := destination
        destinationBackingGeneration := destinationBacking.generation
        sourcePhysical := sourceBacking.physical
        sourcePhysicalGeneration := im.state.physical[sourceBacking.physical]?.elim
          sourceBacking.physicalGeneration (·.generation)
        destinationPhysical := destinationBacking.physical
        destinationPhysicalGeneration := destinationBacking.physicalGeneration
        tenant := value.owner
        tenantGeneration := value.ownerGeneration
        contractGeneration := value.contract.generation
        projectionGeneration := value.projection.generation
        policyGeneration := im.state.policyGeneration
        epoch := im.state.epoch
        klass
        rationale := txt ("identity continuity across backing replacement; no execution-state " ++
          "or memory-state movement is claimed") }
      state := .planned
      sourceAssignment := value.assignment
      plannedAt := clock.now
      note := txt ("plan bound to virtual, backing, physical, tenant, contract, projection, " ++
        "policy and epoch generations") }
    let im := im.takeId.touchVirtual value.id
    let im := im.modify .virtual owned.virtualId fun v =>
      { v with migration := migration.plan.id, migrationGeneration := migration.plan.generation }
    let im := (im.touchMigration migration.plan.id).put .migration migration.plan.id migration
    let im := (im.account fun a =>
      { a with migrationsPlanned := a.migrationsPlanned + 1 }).touchHeader
    (im, .ok {
      context := { context with
        migration := migration.plan.id, migrationGeneration := migration.plan.generation }
      kind := .migrationChange
      result := migration })

/-- The body of a plan. -/
def planMigrationBody (auth : Authority) (destination : BackingId) (klass : MigrationClass)
    (clock : Clock) : Body σ MigrationRecord :=
  checked
    (fun im => orRefuse (.ofAuthority "migration_plan" auth) .authorityRefusal
      (planMigrationCheck auth destination klass im))
    (planMigrationAct auth destination klass clock)

/-- Plan a migration. -/
def planMigration (im : Impl σ) (clock : Clock) (auth : Authority) (destination : BackingId)
    (klass : MigrationClass) : Impl σ × Except Failure MigrationRecord :=
  im.operation clock (planMigrationBody auth destination klass clock)

/-! ### The phases after planning -/

/-- A migration with the virtual accelerator it is about. -/
structure InFlight extends Owned where
  migrationId : MigrationId
  migration : MigrationRecord

/-- Shared prologue of the phases after planning. -/
def migrationPrologue (auth : Authority) (im : Impl σ) : Except Status InFlight := do
  im.checkAuthority auth
  im.state.checkRequest auth
  let owned ← im.state.resolveOwned auth
  match auth.migration with
  | none => throw (.of .invalidArgument "migration phase requires the migration identity")
  | some migrationId =>
    match auth.migrationGeneration with
    | none => throw (.of .invalidArgument "migration phase requires the migration generation")
    | some generation =>
      match im.state.migrations[migrationId]? with
      | none => throw ⟨.notFound, txt "migration " ++ strMigration migrationId ++
          txt " is not known"⟩
      | some migration =>
        if migration.plan.generation ≠ generation then
          throw ⟨.staleMigration, txt "presented migration generation " ++ toDecimal generation ++
            txt " is not the current generation " ++ toDecimal migration.plan.generation⟩
        if migration.plan.virtualId ≠ owned.record.id then
          throw (.of .notAuthorized "the migration does not belong to that virtual accelerator")
        planStaleness migration owned.record im.state
        return { owned with migrationId, migration }

/-- The context of a phase names the migration the caller presents. -/
def phaseContext (operation : String) (auth : Authority) : OpContext :=
  { OpContext.ofAuthority operation auth with
    migration := auth.migration.getD 0
    migrationGeneration := auth.migrationGeneration.getD 0 }

/-- The context of an accepted phase. -/
def inFlightContext (operation : String) (auth : Authority) (f : InFlight) : OpContext :=
  { (OpContext.ofAuthority operation auth).adoptVirtual f.record with
    migration := f.migration.plan.id
    migrationGeneration := f.migration.plan.generation }

/-! ### Preparing -/

/-- What a preparation checks. -/
def prepareMigrationCheck (auth : Authority) (im : Impl σ) : Except Status InFlight := do
  let f ← migrationPrologue auth im
  if f.migration.state ≠ .planned then
    throw ⟨.invalidTransition, txt "migration is " ++ migrationStateName f.migration.state ++
      txt "; preparation requires Planned"⟩
  return f

/-- The destination assignment, prepared and not yet authoritative. -/
def prepareDestination (im : Impl σ) (f : InFlight) (now : UnixMicros) : BackingAssignment :=
  let record := im.state.virtuals[f.virtualId]?.getD {}
  let destination := im.state.backings[f.migration.plan.destinationBacking]?.getD {}
  { id := im.nextId
    virtualId := record.id
    virtualGeneration := record.generation
    backing := destination.id
    backingGeneration := record.backingGeneration + 1
    physical := destination.physical
    physicalGeneration := destination.physicalGeneration
    tenant := record.owner
    tenantGeneration := record.ownerGeneration
    policyGeneration := im.state.policyGeneration
    contractGeneration := record.contract.generation
    projectionGeneration := record.projection.generation
    epoch := im.state.epoch
    state := .prepared
    proposedAt := now
    reason := txt "prepared destination for migration " ++ strMigration f.migration.plan.id }

/-- The source stays authoritative throughout; nothing here moves authority. -/
def prepareMigrationAct (auth : Authority) (clock : Clock) (f : InFlight) :
    Body σ MigrationRecord :=
  fun im =>
    let now := clock.now
    let context := inFlightContext "migration_prepare" auth f
    match im.transition clock f.virtualId .migrating
        (txt "migration prepared; leases are drained before cutover") with
    | (im, .error drained) => (im, .error ⟨context, drained, .authorityRefusal⟩)
    | (im, .ok ()) =>
      let im := im.fenceLeases f.virtualId
        (txt "migration drained the source backing; the lease is bound to the source generation")
        now
      let record := im.state.virtuals[f.virtualId]?.getD {}
      let assignment := im.prepareDestination f now
      let im := (im.takeId.touchAssignment assignment.id).put .assignment assignment.id assignment
      let im := (im.touchMigration f.migration.plan.id).modify .migration f.migrationId fun m =>
        { m with
          state := .commitReady
          destinationAssignment := assignment.id
          preparedAt := now
          note := txt "prepared, source drained through SourceDraining and DestinationPrepared"
          plan := { m.plan with
            generation := m.plan.generation + 1
            virtualGeneration := record.generation
            contractGeneration := record.contract.generation
            projectionGeneration := record.projection.generation }
          sourceAuthoritative := true
          destinationAuthoritative := false }
      let im := (im.account fun a =>
        { a with migrationsPrepared := a.migrationsPrepared + 1 }).touchHeader
      (im, .ok {
        context := { context with
          migrationGeneration := f.migration.plan.generation + 1
          backingGeneration := assignment.backingGeneration }
        kind := .migrationChange
        result := im.state.migrations[f.migrationId]?.getD {} })

/-- The body of a preparation. -/
def prepareMigrationBody (auth : Authority) (clock : Clock) : Body σ MigrationRecord :=
  checked
    (fun im => orRefuse (phaseContext "migration_prepare" auth) .authorityRefusal
      (prepareMigrationCheck auth im))
    (prepareMigrationAct auth clock)

/-- Make the assignment of the destination, without authority. -/
def prepareMigration (im : Impl σ) (clock : Clock) (auth : Authority) :
    Impl σ × Except Failure MigrationRecord :=
  im.operation clock (prepareMigrationBody auth clock)

/-! ### Committing -/

/-- What a commit moves authority between. -/
structure Cutover extends InFlight where
  destinationAssignment : BackingAssignment

/-- What a cutover checks. -/
def commitMigrationCheck (auth : Authority) (im : Impl σ) : Except Status Cutover := do
  let f ← migrationPrologue auth im
  if f.migration.state ≠ .commitReady then
    throw ⟨.invalidTransition, txt "migration is " ++ migrationStateName f.migration.state ++
      txt "; commit requires CommitReady"⟩
  if !im.state.assignments[f.migration.sourceAssignment]?.any (·.authoritative) then
    throw (.of .staleAssignment "the source assignment is no longer authoritative")
  match im.state.assignments[f.migration.destinationAssignment]? with
  | none => throw (.of .staleAssignment "the prepared destination assignment has disappeared")
  | some destinationAssignment => return { f with destinationAssignment }

/-- The virtual accelerator bound to the destination. -/
def cutoverVirtual (c : Cutover) (destination : BackingRecord) (policyGeneration : Generation)
    (now : UnixMicros) (v : VirtualAcceleratorRecord) : VirtualAcceleratorRecord :=
  { v with
    backing := c.migration.plan.destinationBacking
    backingGeneration := c.destinationAssignment.backingGeneration
    physical := destination.physical
    physicalGeneration := destination.physicalGeneration
    backingClass := destination.klass
    multiplexing := destination.multiplexing
    isolationClass := destination.isolationClass
    isolation := destination.isolation
    assignment := c.migration.destinationAssignment
    policyGeneration
    state := .provisioned
    stateGeneration := v.stateGeneration + 1
    stateReason := txt "migration committed: the destination backing is authoritative"
    generation := v.generation + 1
    updatedAt := now
    backingHistory := closeHistory now v.backingHistory }

/-- Move the authority between the two assignments and the two backings. -/
def cutoverAuthority (im : Impl σ) (c : Cutover) (record : VirtualAcceleratorRecord)
    (now : UnixMicros) : Impl σ :=
  let source := c.migration.sourceAssignment
  let destination := c.migration.destinationAssignment
  let im := ((im.touchAssignment source).modify .assignment source fun a =>
    { a with
      authoritative := false
      state := .revoked
      revokedAt := now
      reason := txt "migration cutover revoked the source authority" }).account
    fun a => { a with backingRevocations := a.backingRevocations + 1 }
  let im := (im.touchAssignment destination).modify .assignment destination fun a =>
    { a with
      authoritative := true
      state := .active
      committedAt := now
      virtualGeneration := record.generation
      projectionGeneration := record.projection.generation }
  let im := (im.touchBacking c.migration.plan.sourceBacking).modify .backing
    c.migration.plan.sourceBacking fun b => { b with assignedTo := 0, activeAssignment := 0 }
  (im.touchBacking c.migration.plan.destinationBacking).modify .backing
    c.migration.plan.destinationBacking fun b =>
      { b with
        assignedTo := record.id
        activeAssignment := destination
        assignedGeneration := c.destinationAssignment.backingGeneration }

/-- Bind the virtual accelerator to the destination and open a history entry for it. -/
def rebindVirtual (im : Impl σ) (c : Cutover) (now : UnixMicros) : Impl σ :=
  let plan := c.migration.plan
  let destination := im.state.backings[plan.destinationBacking]?.getD {}
  let im := (im.touchVirtual c.record.id).modify .virtual c.virtualId
    (cutoverVirtual c destination im.state.policyGeneration now)
  let im := im.rebuildProjection c.virtualId
  let history : BackingHistoryEntry := {
    assignment := c.migration.destinationAssignment
    backing := plan.destinationBacking
    backingGeneration := c.destinationAssignment.backingGeneration
    physical := destination.physical
    physicalGeneration := destination.physicalGeneration
    klass := destination.klass
    multiplexing := destination.multiplexing
    from_ := now
    current := true
    reason := txt "migration " ++ strMigration plan.id ++ txt " committed" }
  im.modify .virtual c.virtualId fun v =>
    { v with backingHistory := v.backingHistory ++ [history] }

/-- The cutover: before it the source is authoritative, after it the destination is. -/
def commitMigrationAct (auth : Authority) (clock : Clock) (c : Cutover) :
    Body σ MigrationRecord :=
  fun im =>
    let now := clock.now
    let plan := c.migration.plan
    let im := im.rebindVirtual c now
    let record := im.state.virtuals[c.virtualId]?.getD {}
    let im := im.cutoverAuthority c record now
    let im := (im.touchMigration plan.id).modify .migration c.migrationId fun m =>
      { m with
        state := .committed
        plan := { m.plan with
          virtualGeneration := record.generation
          contractGeneration := record.contract.generation
          projectionGeneration := record.projection.generation }
        sourceAuthoritative := false
        destinationAuthoritative := true
        committedAt := now
        note := txt ("cutover performed; the source authority was revoked in the same durable " ++
          "step") }
    let im := (im.account fun a =>
      { a with migrationsCommitted := a.migrationsCommitted + 1 }).touchHeader
    (im, .ok {
      context := { (inFlightContext "migration_commit" auth c.toInFlight).adoptVirtual record with
        migration := plan.id, migrationGeneration := plan.generation }
      kind := .migrationChange
      result := im.state.migrations[c.migrationId]?.getD {} })

/-- The body of a cutover. -/
def commitMigrationBody (auth : Authority) (clock : Clock) : Body σ MigrationRecord :=
  checked
    (fun im => orRefuse (phaseContext "migration_commit" auth) .authorityRefusal
      (commitMigrationCheck auth im))
    (commitMigrationAct auth clock)

/-- Take authority from the source and give it to the destination. -/
def commitMigration (im : Impl σ) (clock : Clock) (auth : Authority) :
    Impl σ × Except Failure MigrationRecord :=
  im.operation clock (commitMigrationBody auth clock)

/-! ### Completing and aborting -/

/-- What a completion checks. -/
def completeMigrationCheck (auth : Authority) (im : Impl σ) : Except Status InFlight := do
  let f ← migrationPrologue auth im
  if f.migration.state ≠ .committed then
    throw ⟨.invalidTransition, txt "migration is " ++ migrationStateName f.migration.state ++
      txt "; completion requires Committed"⟩
  return f

/-- Mark the migration as completed. -/
def completeMigrationAct (auth : Authority) (clock : Clock) (f : InFlight) :
    Body σ MigrationRecord :=
  fun im =>
    let im := (im.touchMigration f.migration.plan.id).modify .migration f.migrationId fun m =>
      { m with
        state := .completed
        completedAt := clock.now
        note := txt ("identity continuity preserved; the tenant must re-establish attachment " ++
          "authority") }
    let im := (im.touchVirtual f.record.id).modify .virtual f.virtualId fun v =>
      { v with migrationGeneration := f.migration.plan.generation }
    (im, .ok {
      context := inFlightContext "migration_complete" auth f
      kind := .migrationChange
      result := im.state.migrations[f.migrationId]?.getD {} })

/-- The body of a completion. -/
def completeMigrationBody (auth : Authority) (clock : Clock) : Body σ MigrationRecord :=
  checked
    (fun im => orRefuse (.ofAuthority "migration_complete" auth) .authorityRefusal
      (completeMigrationCheck auth im))
    (completeMigrationAct auth clock)

/-- Complete a migration after its cutover. -/
def completeMigration (im : Impl σ) (clock : Clock) (auth : Authority) :
    Impl σ × Except Failure MigrationRecord :=
  im.operation clock (completeMigrationBody auth clock)

/-- What an abort checks. There is none after the cutover. -/
def abortMigrationCheck (auth : Authority) (im : Impl σ) : Except Status InFlight := do
  let f ← migrationPrologue auth im
  if migrationStateAfterCutover f.migration.state then
    throw (.of .invalidTransition
      ("migration already crossed the cutover point; the destination is authoritative and the " ++
        "migration cannot be aborted"))
  if migrationStateIsTerminal f.migration.state then
    throw ⟨.invalidTransition, txt "migration is already " ++
      migrationStateName f.migration.state⟩
  return f

/-- Fail a destination assignment that did not become authoritative. -/
def failDestination (im : Impl σ) (id : BackingAssignmentId) (reason : Text) (now : UnixMicros) :
    Impl σ :=
  match im.state.assignments[id]? with
  | none => im
  | some _ => (im.touchAssignment id).modify .assignment id fun a =>
      { a with state := .failed, authoritative := false, revokedAt := now, reason }

/-- Fail the assignment of the destination. The source keeps its authority. -/
def abortMigrationAct (auth : Authority) (reason : Text) (clock : Clock) (f : InFlight) :
    Body σ MigrationRecord :=
  fun im =>
    let now := clock.now
    let context := inFlightContext "migration_abort" auth f
    let im := im.failDestination f.migration.destinationAssignment
      (txt "migration aborted before cutover: " ++ reason) now
    let im := (im.touchMigration f.migration.plan.id).modify .migration f.migrationId fun m =>
      { m with
        state := .aborted
        sourceAuthoritative := true
        destinationAuthoritative := false
        completedAt := now
        note := reason }
    let im := im.account fun a => { a with migrationsAborted := a.migrationsAborted + 1 }
    match (if f.record.state = .migrating then
        im.transition clock f.virtualId .provisioned
          (txt "migration aborted before cutover; the source backing remains authoritative")
      else (im, .ok ())) with
    | (im, .error transitioned) => (im, .error ⟨context, transitioned, .authorityRefusal⟩)
    | (im, .ok ()) =>
      let im := im.touchHeader
      (im, .ok {
        context := { context with
          virtualGeneration := (im.state.virtuals[f.virtualId]?.getD {}).generation }
        kind := .migrationChange
        result := im.state.migrations[f.migrationId]?.getD {} })

/-- The body of an abort. -/
def abortMigrationBody (auth : Authority) (reason : Text) (clock : Clock)
    : Body σ MigrationRecord :=
  checked
    (fun im => orRefuse (.ofAuthority "migration_abort" auth) .authorityRefusal
      (abortMigrationCheck auth im))
    (abortMigrationAct auth reason clock)

/-- Abort a migration before its cutover. -/
def abortMigration (im : Impl σ) (clock : Clock) (auth : Authority) (reason : Text) :
    Impl σ × Except Failure MigrationRecord :=
  im.operation clock (abortMigrationBody auth reason clock)

/-! ### Classification after a restart -/

/-- What is noted about a migration that a restart found before its cutover. -/
def restartNote : Text :=
  txt ("coordinator restart found an in-flight migration before the cutover; the source " ++
    "remains authoritative")

/-- The cutover was durable before the restart: the migration is completed. -/
def completeRecovered (im : Impl σ) (now : UnixMicros) (key : MigrationId)
    (migration : MigrationRecord) : Impl σ :=
  (im.touchMigration migration.plan.id).modify .migration key fun m =>
    { m with
      state := .completed
      completedAt := now
      note := txt "cutover was durable before the restart; the migration is completed" }

/-- The prepared destination failed, unless it has authority. -/
def failRecovered (im : Impl σ) (now : UnixMicros) (id : BackingAssignmentId) : Impl σ :=
  match im.state.assignments[id]? with
  | none => im
  | some assignment =>
    if assignment.authoritative then im
    else (im.touchAssignment id).modify .assignment id fun a =>
      { a with state := .failed, revokedAt := now, reason := restartNote }

/-- The cutover never happened: the migration is aborted and the source stays authoritative. -/
def abortRecovered (im : Impl σ) (now : UnixMicros) (key : MigrationId)
    (migration : MigrationRecord) : Impl σ :=
  let im := (im.touchMigration migration.plan.id).modify .migration key fun m =>
    { m with
      state := .aborted
      sourceAuthoritative := true
      destinationAuthoritative := false
      completedAt := now
      note := restartNote }
  let im := im.account fun a => { a with migrationsAborted := a.migrationsAborted + 1 }
  let im := im.failRecovered now migration.destinationAssignment
  let virtualId := migration.plan.virtualId
  let im := im.touchVirtual (im.state.virtuals[virtualId]?.getD {}).id
  im.modify .virtual virtualId fun v =>
    if v.state = .migrating then
      { v with
        state := .provisioned
        stateGeneration := v.stateGeneration + 1
        stateReason := restartNote
        generation := v.generation + 1
        updatedAt := now }
    else v

/-- Classify one migration; the flag says whether anything was done. -/
def classifyMigration (now : UnixMicros) (acc : Impl σ × Bool) (key : MigrationId) :
    Impl σ × Bool :=
  let im := acc.1
  match im.state.migrations[key]? with
  | none => acc
  | some migration =>
    match im.state.virtuals[migration.plan.virtualId]? with
    | none => acc
    | some _ =>
      if migration.state = .committed then (im.completeRecovered now key migration, true)
      else if migrationStateIsTerminal migration.state || migration.state = .recoveryRequired then
        acc
      else (im.abortRecovered now key migration, true)

/-- Classify the migrations that a restart found, and record that if any is changed. -/
def classifyRecoveredMigrations (im : Impl σ) (clock : Clock) : Impl σ × Except Failure Unit :=
  let im := im.beginOp
  let context : OpContext := {
    operation := txt "classify_recovered_migrations", epoch := im.state.epoch }
  match im.state.migrations.keys.foldl (classifyMigration clock.now) (im, false) with
  | (im, false) => ({ im with changes := {}, undo := {} }, .ok ())
  | (im, true) =>
    match im.touchHeader.finalize clock context {} .recovery with
    | (im, .error status) => (im, .error (.persistence status))
    | (im, .ok ()) => (im, .ok ())

end Impl

end AcceleratorVirtualization
