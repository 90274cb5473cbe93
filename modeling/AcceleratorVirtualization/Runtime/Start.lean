import AcceleratorVirtualization.Runtime.Execution

/-!
# Start and shutdown

A start loads the durable state, advances the epoch, and drops every authority that was local
to the previous process: leases expire, attachments are released, backings and devices must
be revalidated, the replay window is cleared. What is loaded has to pass `validateState`
before it is trusted. A shutdown releases the same authority and compacts the store.
-/

namespace AcceleratorVirtualization

/-! ### Structural validation -/

namespace VirtualizationState

/-- The first failing check over the records of a map, in ascending order of identity. -/
def forRecords {α : Type} (map : IdMap α) (check : α → Check) : Check :=
  map.values.forM check

/-- What is wrong with a tenant that was loaded. -/
def validateTenant (s : VirtualizationState) (r : TenantRecord) : Check := do
  if !valid r.generation then
    throw ⟨.corruptState, txt "tenant " ++ strTenant r.id ++ txt " has no generation"⟩
  if r.owned.length > s.virtuals.size then
    throw ⟨.corruptState, txt "tenant " ++ strTenant r.id ++
      txt " references more virtual accelerators than exist"⟩

/-- What is wrong with a device that was loaded. -/
def validatePhysical (r : PhysicalDeviceRecord) : Check := do
  if !valid r.generation then
    throw ⟨.corruptState, txt "physical device " ++ strPhysical r.id ++ txt " has no generation"⟩

/-- What is wrong with a backing that was loaded. -/
def validateBacking (s : VirtualizationState) (r : BackingRecord) : Check := do
  if !valid r.generation then
    throw ⟨.corruptState, txt "backing " ++ strBacking r.id ++ txt " has no generation"⟩
  if r.physical ∉ s.physical then
    throw ⟨.corruptState, txt "backing " ++ strBacking r.id ++
      txt " references unknown physical device " ++ strPhysical r.physical⟩

/-- What is wrong with a virtual accelerator that was loaded. -/
def validateVirtual (s : VirtualizationState) (r : VirtualAcceleratorRecord) : Check := do
  let name := txt "virtual accelerator " ++ strVirtual r.id
  if !valid r.generation then
    throw ⟨.corruptState, name ++ txt " has no generation"⟩
  if r.owner ∉ s.tenants then
    throw ⟨.corruptState, name ++ txt " references unknown tenant " ++ strTenant r.owner⟩
  if valid r.contract.id then
    if let .error status := r.contract.validate then
      throw ⟨.corruptState, name ++ txt " holds an invalid resource contract: " ++ status.toText⟩
  if lifecycleRequiresBacking r.state then
    if !valid r.backing then
      throw ⟨.corruptState, name ++ txt " is " ++ lifecycleName r.state ++
        txt " without a backing assignment"⟩
    if r.backing ∉ s.backings then
      throw ⟨.corruptState, name ++ txt " references unknown backing " ++ strBacking r.backing⟩
    if !s.assignments[r.assignment]?.any (·.authoritative) then
      throw ⟨.corruptState, name ++ txt " is " ++ lifecycleName r.state ++
        txt " without an authoritative backing assignment"⟩
  if r.activeAttachments > r.leases.length then
    throw ⟨.corruptState, name ++ txt " reports more active attachments than leases"⟩

/-- What is wrong with a lease that was loaded. -/
def validateLease (s : VirtualizationState) (r : LeaseRecord) : Check := do
  if !valid r.generation then
    throw ⟨.corruptState, txt "lease " ++ strLease r.id ++ txt " has no generation"⟩
  if r.virtualId ∉ s.virtuals then
    throw ⟨.corruptState, txt "lease " ++ strLease r.id ++
      txt " references unknown virtual accelerator"⟩
  if r.tenant ∉ s.tenants then
    throw ⟨.corruptState, txt "lease " ++ strLease r.id ++ txt " references unknown tenant"⟩

/-- What is wrong with an assignment that was loaded. -/
def validateAssignment (s : VirtualizationState) (r : BackingAssignment) : Check := do
  if r.virtualId ∉ s.virtuals then
    throw ⟨.corruptState, txt "assignment " ++ renderStrongId "as" r.id ++
      txt " references unknown virtual accelerator"⟩
  if r.backing ∉ s.backings then
    throw ⟨.corruptState, txt "assignment " ++ renderStrongId "as" r.id ++
      txt " references unknown backing"⟩

/-- What is wrong with a migration that was loaded. -/
def validateMigration (s : VirtualizationState) (r : MigrationRecord) : Check := do
  if r.plan.virtualId ∉ s.virtuals then
    throw ⟨.corruptState, txt "migration " ++ strMigration r.plan.id ++
      txt " references unknown virtual accelerator"⟩
  if r.plan.sourceBacking ∉ s.backings then
    throw ⟨.corruptState, txt "migration " ++ strMigration r.plan.id ++
      txt " references unknown source backing"⟩
  if r.plan.destinationBacking ∉ s.backings then
    throw ⟨.corruptState, txt "migration " ++ strMigration r.plan.id ++
      txt " references unknown destination backing"⟩

/-- The scalars every trusted state has. -/
def validateHeader (s : VirtualizationState) : Check := do
  if s.schema ≠ schemaVersion then
    throw ⟨.corruptState, txt "state schema " ++ toDecimal s.schema ++
      txt " is not the supported schema " ++ toDecimal schemaVersion⟩
  if !valid s.epoch then throw (.of .corruptState "coordinator epoch is unset")
  if s.nextSequence = 0 then throw (.of .corruptState "entity sequence is unset")
  if !valid s.policyGeneration then throw (.of .corruptState "policy generation is unset")
  if let .error status := s.policy.validate then
    throw ⟨.corruptState, txt "stored policy is invalid: " ++ status.toText⟩

/-- Structural validation applied before a state is trusted. -/
def validateState (s : VirtualizationState) : Check := do
  s.validateHeader
  forRecords s.tenants s.validateTenant
  forRecords s.physical validatePhysical
  forRecords s.backings s.validateBacking
  forRecords s.virtuals s.validateVirtual
  forRecords s.leases s.validateLease
  forRecords s.assignments s.validateAssignment
  forRecords s.migrations s.validateMigration
  if s.virtuals.size > s.policy.maxVirtualAccelerators then
    throw (.of .corruptState "stored virtual accelerator count exceeds the policy maximum")
  if s.tenants.size > s.policy.maxTenants then
    throw (.of .corruptState "stored tenant count exceeds the policy maximum")

end VirtualizationState

namespace Impl

variable {σ : Type} [DurableStore σ]

/-! ### Dropping process-local authority -/

/-- A live lease ends with the process. -/
def endLease (ended : LeaseState) (reason : Text) (now : UnixMicros) (im : Impl σ)
    (id : LeaseId) : Impl σ :=
  match im.state.leases[id]? with
  | none => im
  | some lease =>
    if leaseStateIsLive lease.state then
      (((im.touchLease lease.id).modify .lease id fun lease =>
        { lease with state := ended, revokedAt := now, reason }).account
        fun a => { a with leasesFenced := a.leasesFenced + 1 }).touchHeader
    else im

/-- The attachments of a virtual accelerator end with the process. -/
def releaseAttachments (reason : Text) (now : UnixMicros) (im : Impl σ)
    (id : VirtualAcceleratorId) : Impl σ :=
  match im.state.virtuals[id]? with
  | none => im
  | some record =>
    let im := if record.activeAttachments ≠ 0 then
        (im.touchVirtual record.id).modify .virtual id fun v => { v with activeAttachments := 0 }
      else im
    if lifecycleRequiresBacking record.state then
      (im.touchVirtual record.id).modify .virtual id fun v =>
        { v with
          state := .provisioned
          stateGeneration := v.stateGeneration + 1
          stateReason := reason
          generation := v.generation + 1
          updatedAt := now }
    else im

/-- The attachment count of a tenant ends with the process; a start also dates the change. -/
def releaseTenant (updated : Option UnixMicros) (im : Impl σ) (id : TenantId) : Impl σ :=
  match im.state.tenants[id]? with
  | none => im
  | some tenant =>
    if tenant.activeAttachments ≠ 0 then
      (im.touchTenant tenant.id).modify .tenant id fun t =>
        { t with activeAttachments := 0, updatedAt := updated.getD t.updatedAt }
    else im

/-- Dynamic backing evidence is refreshed rather than trusted. -/
def distrustBacking (im : Impl σ) (id : BackingId) : Impl σ :=
  match im.state.backings[id]? with
  | none => im
  | some backing => (im.touchBacking backing.id).modify .backing id fun b =>
      { b with available := false, evidenceFresh := false }

/-- A device is not present until its agent registers it again. -/
def distrustPhysical (im : Impl σ) (id : PhysicalDeviceId) : Impl σ :=
  match im.state.physical[id]? with
  | none => im
  | some physical => (im.touchPhysical physical.id).modify .physical id fun p =>
      { p with present := false }

/-- Nothing local to the previous process survives a restart. -/
def dropLocalAuthority (im : Impl σ) (now : UnixMicros) : Impl σ :=
  let im := im.state.leases.keys.foldl (endLease .expired
    (txt ("coordinator restart advanced the epoch; process-local lease authority is not " ++
      "restored")) now) im
  let im := im.state.virtuals.keys.foldl (releaseAttachments
    (txt "coordinator restart invalidated process-local attachment authority") now) im
  let im := im.state.tenants.keys.foldl (releaseTenant (some now)) im
  let im := im.state.backings.keys.foldl distrustBacking im
  let im := im.state.physical.keys.foldl distrustPhysical im
  let im := { im with state.requests := [] }
  im.recomputeDerivedAccounting.touchHeader

/-! ### Start -/

/-- Enter the epoch and the policy the runtime runs under. -/
def enterEpoch (im : Impl σ) (recovered : Bool) : Impl σ :=
  let epoch := if !valid im.state.epoch then 1
    else if recovered then im.state.epoch + 1 else im.state.epoch
  let im := { im with state.epoch := epoch, state.schema := schemaVersion }
  let im := if !valid im.state.policyGeneration then
      let id := im.nextId
      let im := im.takeId
      { im with
        state.policy := { VirtualizationPolicy.defaultPolicy with id, generation := 1 }
        state.policyGeneration := 1 }
    else if im.state.policy.id = 0 then
      let id := im.nextId
      let im := im.takeId
      { im with
        state.policy := { im.state.policy with id, generation := im.state.policyGeneration } }
    else im
  (im.account fun a => { a with coordinatorBoots := a.coordinatorBoots + 1 }).touchHeader

/-- What a start commits first: the epoch, the policy, and no local authority. -/
def startBody (im : Impl σ) (clock : Clock) (recovered : Bool) : Impl σ :=
  let im := im.enterEpoch recovered
  let context : OpContext := { operation := txt "coordinator_start", epoch := im.state.epoch }
  if recovered then
    (im.dropLocalAuthority clock.now).record clock context .ok
      (txt "coordinator restarted under epoch " ++ toDecimal im.state.epoch) .recovery
  else
    im.record clock context .ok (txt "coordinator started with empty durable state") .recovery

/-- Classify what was in flight and validate the recovered state. -/
def startRecovered (im : Impl σ) (clock : Clock) : Impl σ × Check :=
  match im.classifyRecoveredMigrations clock with
  | (im, .error failure) => (im, .error failure.status)
  | (im, .ok ()) =>
    (im, im.state.validateState.mapError fun status =>
      ⟨status.code, txt "recovered state is not trustworthy: " ++ status.toText⟩)

/-- Compact the store, if there is one. -/
def compactStore (im : Impl σ) : Impl σ × Check :=
  match im.store with
  | none => (im, .ok ())
  | some store =>
    let (store, status) := DurableStore.compact store im.state
    ({ im with store := some store }, status)

/-- Commit the start, recover, compact and run. -/
def startCommitted (im : Impl σ) (clock : Clock) (recovered : Bool) : Impl σ × Check :=
  match (im.startBody clock recovered).commit with
  | (im, .error persisted) => (im, .error persisted)
  | (im, .ok ()) =>
    match (if recovered then im.startRecovered clock else (im, .ok ())) with
    | (im, .error status) => (im, .error status)
    | (im, .ok ()) =>
      match im.compactStore with
      | (im, .error compacted) => (im, .error compacted)
      | (im, .ok ()) => ({ im with running := true }, .ok ())

/-- Open and load the store, then start over what was loaded. A load that fails is rolled
back. -/
def start (im : Impl σ) (clock : Clock) : Impl σ × Check :=
  if im.running then (im, .ok ())
  else
    match im.store with
    | none => im.beginOp.startCommitted clock false
    | some store =>
      match DurableStore.open_ store with
      | (store, .error opened) => ({ im with store := some store }, .error opened)
      | (store, .ok ()) =>
        let im := { im with store := some store }.beginOp
        let recovered := DurableStore.present store
        match DurableStore.load store with
        | (store, .error status) =>
          ({ im with store := some store }.rollback,
            .error ⟨status.code, txt "recovery failed: " ++ status.toText⟩)
        | (store, .ok loaded) =>
          { im with store := some store, state := loaded }.startCommitted clock recovered

/-! ### Shutdown -/

/-- Everything local to the process is released. -/
def shutdownBody (im : Impl σ) (clock : Clock) : Impl σ :=
  let context : OpContext := { operation := txt "coordinator_shutdown", epoch := im.state.epoch }
  let now := clock.now
  let im := im.state.leases.keys.foldl (endLease .fenced
    (txt "coordinator shutdown revoked process-local authority") now) im
  let im := im.state.virtuals.keys.foldl (releaseAttachments
    (txt "coordinator shutdown released attachment authority") now) im
  let im := im.state.tenants.keys.foldl (releaseTenant none) im
  im.recomputeDerivedAccounting.touchHeader.record clock context .ok
    (txt "coordinator shut down") .mutation

/-- Compact and close the store. -/
def closeStore (im : Impl σ) : Impl σ × Check :=
  match im.store with
  | none => (im, .ok ())
  | some store =>
    let (store, compacted) := DurableStore.compact store im.state
    let (store, closed) := DurableStore.close store
    ({ im with store := some store }, if compacted.isOk then closed else compacted)

/-- Commit the release, then compact and close the store. -/
def shutdownCommitted (im : Impl σ) (clock : Clock) : Impl σ × Check :=
  match (im.beginOp.shutdownBody clock).commit with
  | (im, .error persisted) => (im, .error persisted)
  | (im, .ok ()) => im.closeStore

/-- Release local authority, write the whole state and close the store. -/
def shutdown (im : Impl σ) (clock : Clock) : Impl σ × Check :=
  if !im.running then (im, .ok ())
  else
    let (im, result) := im.shutdownCommitted clock
    ({ im with agents := ∅, running := false }, result)

/-! ### Flush and compact -/

/-- Flush the store, if there is one. -/
def flush (im : Impl σ) : Impl σ × Check :=
  match im.store with
  | none => (im, .ok ())
  | some store =>
    let (store, status) := DurableStore.flush store
    ({ im with store := some store }, status)

/-- Write the whole state. -/
def compact (im : Impl σ) : Impl σ × Check := im.compactStore

end Impl

end AcceleratorVirtualization
