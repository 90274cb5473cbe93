import AcceleratorVirtualization.Invariants.BookResets
import AcceleratorVirtualization.Invariants.Runs

/-!
# Another store

No operation looks at the store before it commits: over another store it does the same to everything
else, and answers the same, as long as the two stores answer the same to the change set.
-/

namespace AcceleratorVirtualization

open VirtualizationState

namespace Impl

variable {σ τ : Type}

/-- The runtime over another store. -/
def upon (im : Impl σ) (store : Option τ) : Impl τ where
  options := im.options
  store := store
  state := im.state
  changes := im.changes
  undo := im.undo
  agents := im.agents
  running := im.running
  storeFailed := im.storeFailed
  storeFailure := im.storeFailure

variable (im : Impl σ) (store : Option τ)

/-- The state is the same over any store. -/
@[simp] theorem state_upon : (im.upon store).state = im.state := rfl

/-- So are the options. -/
@[simp] theorem options_upon : (im.upon store).options = im.options := rfl

/-- So are the sessions of the agents. -/
@[simp] theorem agents_upon : (im.upon store).agents = im.agents := rfl

/-- And so is the next identity. -/
@[simp] theorem nextId_upon : (im.upon store).nextId = im.nextId := rfl

/-! ### What operations do to records -/

/-- Asking for the header does not look at the store. -/
@[simp] theorem upon_touchHeader : (im.upon store).touchHeader = im.touchHeader.upon store := rfl

/-- Taking an identity does not look at the store. -/
@[simp] theorem upon_takeId : (im.upon store).takeId = im.takeId.upon store := rfl

/-- Touching a record does not look at the store. -/
@[simp] theorem upon_touch (k : RecordKind) (id : ℕ) :
    (im.upon store).touch k id = (im.touch k id).upon store := rfl

@[simp] theorem upon_touchTenant (id : ℕ) :
    (im.upon store).touchTenant id = (im.touchTenant id).upon store := rfl

@[simp] theorem upon_touchPhysical (id : ℕ) :
    (im.upon store).touchPhysical id = (im.touchPhysical id).upon store := rfl

@[simp] theorem upon_touchBacking (id : ℕ) :
    (im.upon store).touchBacking id = (im.touchBacking id).upon store := rfl

@[simp] theorem upon_touchVirtual (id : ℕ) :
    (im.upon store).touchVirtual id = (im.touchVirtual id).upon store := rfl

@[simp] theorem upon_touchLease (id : ℕ) :
    (im.upon store).touchLease id = (im.touchLease id).upon store := rfl

@[simp] theorem upon_touchAssignment (id : ℕ) :
    (im.upon store).touchAssignment id = (im.touchAssignment id).upon store := rfl

@[simp] theorem upon_touchMigration (id : ℕ) :
    (im.upon store).touchMigration id = (im.touchMigration id).upon store := rfl

@[simp] theorem upon_touchEvidence (id : ℕ) :
    (im.upon store).touchEvidence id = (im.touchEvidence id).upon store := rfl

/-- Assigning a record does not look at the store. -/
@[simp] theorem upon_put (k : RecordKind) (id : ℕ) (r : k.Record) :
    (im.upon store).put k id r = (im.put k id r).upon store := rfl

/-- Inserting a record does not look at the store. -/
@[simp] theorem upon_emplace (k : RecordKind) (id : ℕ) (r : k.Record) :
    (im.upon store).emplace k id r = (im.emplace k id r).upon store := rfl

/-- Changing a record does not look at the store. -/
@[simp] theorem upon_modify (k : RecordKind) (id : ℕ) (f : k.Record → k.Record) :
    (im.upon store).modify k id f = (im.modify k id f).upon store := rfl

/-- Counting does not look at the store. -/
@[simp] theorem upon_account (f : AccountingCounters → AccountingCounters) :
    (im.upon store).account f = (im.account f).upon store := rfl

/-- A choice between two runtimes over the same store. -/
@[simp] theorem upon_ite (c : Prop) [Decidable c] (im' : Impl σ) :
    (if c then im.upon store else im'.upon store) = (if c then im else im').upon store :=
  (apply_ite (fun i : Impl σ => i.upon store) c im im').symm

/-- A sweep over another store. -/
theorem upon_foldl {α : Type} {step : Impl σ → α → Impl σ} {step' : Impl τ → α → Impl τ}
    (h : ∀ im a, step' (im.upon store) a = (step im a).upon store) (l : List α) :
    l.foldl step' (im.upon store) = (l.foldl step im).upon store :=
  List.foldl_hom (fun i : Impl σ => i.upon store) h

/-- Fencing a lease does not look at the store. -/
@[simp] theorem upon_fenceLease (reason : Text) (now : UnixMicros) (id : LeaseId) :
    (im.upon store).fenceLease reason now id = (im.fenceLease reason now id).upon store := by
  simp only [fenceLease, state_upon]
  split
  · rfl
  · split <;> rfl

/-- Fencing the leases of a virtual accelerator does not look at the store. -/
@[simp] theorem upon_fenceLeases (id : VirtualAcceleratorId) (reason : Text) (now : UnixMicros) :
    (im.upon store).fenceLeases id reason now = (im.fenceLeases id reason now).upon store := by
  simp only [fenceLeases, state_upon]
  split
  · rfl
  rename_i record hrecord
  rw [upon_foldl _ _ fun im lease => upon_fenceLease im store reason now lease]
  generalize record.leases.foldl _ im = swept
  by_cases hlive : liveLeases im.state.leases record.leases = 0
  · simp only [hlive, if_true]
  simp only [hlive, if_false, upon_touchVirtual, upon_modify]
  generalize modify _ RecordKind.virtual id _ = touched
  rw [state_upon]
  cases touched.state.tenants[record.owner]? <;> rfl

/-- Carrying a lease over to a new generation does not look at the store. -/
@[simp] theorem upon_carryLease (generation : Generation) (id : LeaseId) :
    (im.upon store).carryLease generation id = (im.carryLease generation id).upon store := by
  simp only [carryLease, state_upon]
  split
  · rfl
  · split <;> rfl

/-- What a call leaves and answers, over another store. -/
def ferry {α : Type} (r : Impl σ × α) (store : Option τ) : Impl τ × α := (r.1.upon store, r.2)

/-- A transition of the life cycle does not look at the store. -/
theorem upon_transition (clock : Clock) (id : VirtualAcceleratorId)
    (target : VirtualLifecycleState) (reason : Text) :
    (im.upon store).transition clock id target reason =
      ferry (im.transition clock id target reason) store := by
  simp only [transition, state_upon]
  split
  · rfl
  rename_i record hrecord
  split
  · rfl
  simp only [upon_touchVirtual, upon_modify]
  rw [upon_foldl _ _ fun im lease =>
    upon_carryLease im store (record.generation + 1) lease, upon_ite]
  rfl

/-- What a virtual accelerator shows is rebuilt from the state alone. -/
@[simp] theorem upon_rebuildProjection (id : VirtualAcceleratorId) :
    (im.upon store).rebuildProjection id = (im.rebuildProjection id).upon store := rfl

/-- The counters of what there is are recomputed from the state alone. -/
@[simp] theorem upon_recomputeDerivedAccounting :
    (im.upon store).recomputeDerivedAccounting = im.recomputeDerivedAccounting.upon store := rfl

/-! ### Checks and acts -/

/-- A body does the same over another store if it does so after its check. -/
theorem upon_checked {π α : Type} {check : Impl σ → Except Refusal π}
    {check' : Impl τ → Except Refusal π} {act : π → Body σ α} {act' : π → Body τ α}
    (hcheck : check' (im.upon store) = check im)
    (hact : ∀ plan, act' plan (im.upon store) = ferry (act plan im) store) :
    checked check' act' (im.upon store) = ferry (checked check act im) store := by
  simp only [checked, hcheck]
  cases check im with
  | error refusal => rfl
  | ok plan => exact hact plan

/-- An operation that is one transition does not look at the store. -/
theorem upon_transitionAct (context : OpContext) (clock : Clock) (id : VirtualAcceleratorId)
    (target : VirtualLifecycleState) (reason : Text) {after : Impl σ → Impl σ}
    {after' : Impl τ → Impl τ} (h : ∀ im : Impl σ, after' (im.upon store) = (after im).upon store) :
    transitionAct context clock id target reason after' (im.upon store) =
      ferry (transitionAct context clock id target reason after im) store := by
  simp only [transitionAct, upon_transition]
  rcases im.transition clock id target reason with ⟨im', status | ⟨⟩⟩
  · rfl
  · simp only [ferry, h, state_upon]

/-! ### Devices -/

/-- Revoking an assignment does not look at the store. -/
@[simp] theorem upon_revokeAssignment (id : BackingAssignmentId) (reason : Text)
    (now : UnixMicros) :
    (im.upon store).revokeAssignment id reason now =
      (im.revokeAssignment id reason now).upon store := by
  simp only [revokeAssignment, state_upon]
  split
  · rfl
  · split <;> rfl

/-- A device is located in the state alone. -/
theorem upon_locateDevice (d : PhysicalDeviceDescriptor) :
    (im.upon store).locateDevice d = ferry (im.locateDevice d) store := by
  simp only [locateDevice, findDevice, state_upon]
  split
  · rfl
  · simp only [upon_touchPhysical, upon_modify, upon_ite]
    rfl

/-- Evidence is recorded in the state alone. -/
@[simp] theorem upon_recordEvidence (device : PhysicalDeviceRecord) (changed : Bool)
    (d : PhysicalDeviceDescriptor) (now : UnixMicros) :
    (im.upon store).recordEvidence device changed d now =
      (im.recordEvidence device changed d now).upon store := rfl

/-- A described backing is materialised in the state alone. -/
@[simp] theorem upon_materializeBacking (key : PhysicalDeviceId) (device : PhysicalDeviceRecord)
    (now : UnixMicros) (source : BackingDescriptor) :
    materializeBacking key device now (im.upon store) source =
      (materializeBacking key device now im source).upon store := by
  simp only [materializeBacking, findBacking, state_upon]
  split <;> rfl

/-- A backing is refreshed in the state alone. -/
@[simp] theorem upon_refreshBacking (device : PhysicalDeviceRecord) (now : UnixMicros)
    (id : BackingId) :
    refreshBacking device now (im.upon store) id =
      (refreshBacking device now im id).upon store := by
  simp only [refreshBacking, state_upon]
  split <;> rfl

/-- A holder of an invalidated backing is interrupted in the state alone. -/
@[simp] theorem upon_invalidateHolder (now : UnixMicros) (id : VirtualAcceleratorId) :
    (im.upon store).invalidateHolder now id = (im.invalidateHolder now id).upon store := by
  simp only [invalidateHolder, state_upon]
  split
  · rfl
  · split <;> rfl

/-- A binding to an invalidated backing is revoked in the state alone. -/
@[simp] theorem upon_invalidateBinding (now : UnixMicros) (id : BackingAssignmentId) :
    (im.upon store).invalidateBinding now id = (im.invalidateBinding now id).upon store := by
  simp only [invalidateBinding, state_upon]
  split
  · rfl
  · simp only [upon_revokeAssignment, upon_invalidateHolder, upon_ite]

/-- A backing is invalidated in the state alone. -/
@[simp] theorem upon_invalidateBacking (now : UnixMicros) (id : BackingId) :
    invalidateBacking now (im.upon store) id = (invalidateBacking now im id).upon store := by
  simp only [invalidateBacking, state_upon]
  split
  · rfl
  · simp only [upon_invalidateBinding, upon_touchBacking, upon_modify]

/-- A device is described in the state alone. -/
theorem upon_describeDevice (agent : AgentId) (boot : AgentBootId) (d : PhysicalDeviceDescriptor)
    (now : UnixMicros) :
    (im.upon store).describeDevice agent boot d now =
      ferry (im.describeDevice agent boot d now) store := by
  simp only [describeDevice, upon_locateDevice, ferry, upon_takeId, upon_modify, nextId_upon,
    upon_recordEvidence, state_upon]

/-- The backings of a device are settled in the state alone. -/
@[simp] theorem upon_settleBackings (key : PhysicalDeviceId) (changed : Bool)
    (d : PhysicalDeviceDescriptor) (now : UnixMicros) :
    (im.upon store).settleBackings key changed d now =
      (im.settleBackings key changed d now).upon store := by
  simp only [settleBackings, state_upon]
  rw [upon_foldl _ _ fun im source => upon_materializeBacking im store key _ now source]
  generalize d.backings.foldl _ im = settled
  simp only [state_upon]
  rw [upon_foldl _ _ fun im id => upon_invalidateBacking im store now id,
    upon_foldl _ _ fun im id => upon_refreshBacking im store _ now id, upon_ite]

/-- The holder of a lost backing is interrupted in the state alone. -/
@[simp] theorem upon_interruptHolder (id : VirtualAcceleratorId) (record : VirtualAcceleratorRecord)
    (reason : Text) (now : UnixMicros) :
    (im.upon store).interruptHolder id record reason now =
      (im.interruptHolder id record reason now).upon store := by
  simp only [interruptHolder, upon_touchVirtual, upon_modify, upon_ite]

/-- A backing is lost in the state alone. -/
@[simp] theorem upon_loseBacking (reason : Text) (now : UnixMicros) (id : BackingId) :
    loseBacking reason now (im.upon store) id = (loseBacking reason now im id).upon store := by
  simp only [loseBacking, state_upon]
  split
  · rfl
  rename_i backing hbacking
  simp only [upon_touchBacking, upon_modify, state_upon]
  generalize modify _ RecordKind.backing id _ = lost
  split
  · rfl
  split
  · rfl
  · simp only [upon_interruptHolder, upon_fenceLeases, upon_revokeAssignment, upon_ite, upon_modify]

/-- A tenant's attachments are recounted from the state alone. -/
@[simp] theorem upon_recountTenant (now : UnixMicros) (id : TenantId) :
    recountTenant now (im.upon store) id = (recountTenant now im id).upon store := by
  simp only [recountTenant, state_upon]
  split
  · rfl
  · simp only [upon_touchTenant, upon_modify]
    exact upon_ite _ store _ _

/-- Registering a device, over any store. -/
theorem upon_registerPhysicalBody (auth : Authority) (agent : AgentId) (boot : AgentBootId)
    (d : PhysicalDeviceDescriptor) (clock : Clock) :
    registerPhysicalBody auth agent boot d clock (im.upon store) =
      ferry (registerPhysicalBody auth agent boot d clock im) store :=
  upon_checked im store rfl fun _ => by
    simp only [registerPhysicalAct, upon_describeDevice, ferry, upon_settleBackings, upon_account,
      upon_touchHeader, state_upon]

/-- Losing a device, over any store. -/
theorem upon_physicalLostBody (id : PhysicalDeviceId) (generation : Generation) (reason : Text)
    (clock : Clock) :
    physicalLostBody id generation reason clock (im.upon store) =
      ferry (physicalLostBody id generation reason clock im) store :=
  upon_checked im store rfl fun device => by
    simp only [physicalLostAct, upon_touchPhysical, upon_modify, ferry, state_upon]
    rw [upon_foldl _ _ fun im id => upon_loseBacking im store reason clock.now id]
    generalize device.backings.foldl _ _ = lost
    simp only [state_upon]
    rw [upon_foldl _ _ fun im id => upon_recountTenant im store clock.now id]
    rfl

/-! ### Policy and tenants -/

/-- A lease under an older policy is superseded in the state alone. -/
@[simp] theorem upon_supersedeLease (updated : VirtualizationPolicy) (now : UnixMicros)
    (id : LeaseId) :
    supersedeLease updated now (im.upon store) id =
      (supersedeLease updated now im id).upon store := by
  simp only [supersedeLease, state_upon]
  split
  · rfl
  · split <;> rfl

/-- A backing is withdrawn in the state alone. -/
@[simp] theorem upon_withdrawBacking (now : UnixMicros) (id : VirtualAcceleratorId)
    (record : VirtualAcceleratorRecord) :
    (im.upon store).withdrawBacking now id record =
      (im.withdrawBacking now id record).upon store := by
  simp only [withdrawBacking, upon_revokeAssignment, upon_ite, upon_touchBacking, upon_modify]

/-- A virtual accelerator is validated again from the state alone. -/
@[simp] theorem upon_revalidateVirtual (updated : VirtualizationPolicy) (now : UnixMicros)
    (id : VirtualAcceleratorId) :
    revalidateVirtual updated now (im.upon store) id =
      (revalidateVirtual updated now im id).upon store := by
  simp only [revalidateVirtual, state_upon]
  split
  · rfl
  · simp only [upon_touchVirtual, upon_modify, state_upon, options_upon, upon_withdrawBacking,
      upon_ite, upon_rebuildProjection]

/-- The attachments of a tenant are cleared in the state alone. -/
@[simp] theorem upon_clearAttachments (now : UnixMicros) (id : TenantId) :
    clearAttachments now (im.upon store) id = (clearAttachments now im id).upon store := by
  simp only [clearAttachments, state_upon]
  split
  · rfl
  · simp only [upon_touchTenant, upon_modify, upon_ite]

/-- Everything is judged anew under a policy. -/
def sweepPolicy (im : Impl σ) (updated : VirtualizationPolicy) (now : UnixMicros) : Impl σ :=
  let im := im.state.leases.keys.foldl (supersedeLease updated now) im
  let im := im.state.virtuals.keys.foldl (revalidateVirtual updated now) im
  let im := im.state.tenants.keys.foldl (clearAttachments now) im
  im.recomputeDerivedAccounting.touchHeader

/-- The sweeps after a new policy do not look at the store. -/
theorem upon_sweepPolicy (updated : VirtualizationPolicy) (now : UnixMicros) :
    (im.upon store).sweepPolicy updated now = (im.sweepPolicy updated now).upon store := by
  simp only [sweepPolicy, state_upon]
  rw [upon_foldl _ _ fun im id => upon_supersedeLease im store updated now id]
  generalize im.state.leases.keys.foldl _ im = superseded
  simp only [state_upon]
  rw [upon_foldl _ _ fun im id => upon_revalidateVirtual im store updated now id]
  generalize superseded.state.virtuals.keys.foldl _ superseded = revalidated
  simp only [state_upon]
  rw [upon_foldl _ _ fun im id => upon_clearAttachments im store now id]
  rfl

/-- Setting a policy, over any store. -/
theorem upon_setPolicyBody (auth : Authority) (policy : VirtualizationPolicy) (clock : Clock) :
    setPolicyBody auth policy clock (im.upon store) =
      ferry (setPolicyBody auth policy clock im) store :=
  upon_checked im store rfl fun policy => by
    have heq : ∀ {σ : Type} (im : Impl σ), setPolicyAct auth clock policy im =
        ((im.enterPolicy policy).sweepPolicy (im.nextPolicy policy) clock.now, .ok {
          context := { OpContext.ofAuthority "set_policy" auth with
            policyGeneration := (im.nextPolicy policy).generation }
          result := im.nextPolicy policy }) := fun _ => rfl
    have hnext : (im.upon store).nextPolicy policy = im.nextPolicy policy := rfl
    have henter : (im.upon store).enterPolicy policy = (im.enterPolicy policy).upon store := rfl
    rw [heq, heq, hnext, henter, upon_sweepPolicy]
    rfl

/-- Creating a tenant, over any store. -/
theorem upon_createTenantBody (auth : Authority) (name externalSubject : Text) (clock : Clock) :
    createTenantBody auth name externalSubject clock (im.upon store) =
      ferry (createTenantBody auth name externalSubject clock im) store :=
  upon_checked im store rfl fun _ => rfl

/-- What a fenced tenant owns is fenced in the state alone. -/
@[simp] theorem upon_fenceOwned (tenant : TenantId) (generation : Generation) (now : UnixMicros)
    (id : VirtualAcceleratorId) :
    fenceOwned tenant generation now (im.upon store) id =
      (fenceOwned tenant generation now im id).upon store := by
  simp only [fenceOwned, state_upon]
  split
  · rfl
  · simp only [upon_touchVirtual, upon_modify, upon_fenceLeases]

/-- Fencing a tenant, over any store. -/
theorem upon_fenceTenantBody (auth : Authority) (id : TenantId) (generation : Generation)
    (reason : Text) (clock : Clock) :
    fenceTenantBody auth id generation reason clock (im.upon store) =
      ferry (fenceTenantBody auth id generation reason clock im) store :=
  upon_checked im store rfl fun tenant => by
    simp only [fenceTenantAct, upon_touchTenant, upon_modify, ferry]
    rw [upon_foldl _ _ fun im owned => upon_fenceOwned im store id _ clock.now owned]
    rfl

/-- Transferring a virtual accelerator, over any store. -/
theorem upon_transferOwnershipBody (auth : Authority) (newOwner : TenantId)
    (newGeneration : Generation) (clock : Clock) :
    transferOwnershipBody auth newOwner newGeneration clock (im.upon store) =
      ferry (transferOwnershipBody auth newOwner newGeneration clock im) store :=
  upon_checked im store rfl fun t => by
    simp only [transferOwnershipAct, upon_fenceLeases, upon_modify, upon_touchTenant,
      upon_touchVirtual, state_upon, ferry]

/-! ### Virtual accelerators -/

/-- A backing is released in the state alone. -/
@[simp] theorem upon_releaseBacking (id : BackingId) :
    (im.upon store).releaseBacking id = (im.releaseBacking id).upon store := by
  simp only [releaseBacking, state_upon]
  split <;> rfl

/-- Creating a virtual accelerator, over any store. -/
theorem upon_createVirtualBody (auth : Authority) (name : Text) (owner : TenantId)
    (ownerGeneration : Generation) (contract : ResourceContract) (clock : Clock) :
    createVirtualBody auth name owner ownerGeneration contract clock (im.upon store) =
      ferry (createVirtualBody auth name owner ownerGeneration contract clock im) store :=
  upon_checked im store rfl fun _ => rfl

/-- A contract is probed against the state alone. -/
theorem upon_probeContract (record : VirtualAcceleratorRecord) (contract : ResourceContract) :
    (im.upon store).probeContract record contract =
      ferry (im.probeContract record contract) store := by
  simp only [probeContract, state_upon]
  split <;> rfl

/-- Updating a contract, over any store. -/
theorem upon_updateContractBody (auth : Authority) (contract : ResourceContract) (clock : Clock) :
    updateContractBody auth contract clock (im.upon store) =
      ferry (updateContractBody auth contract clock im) store :=
  upon_checked im store rfl fun owned => by
    simp only [updateContractAct, upon_probeContract, options_upon]
    rcases im.probeContract owned.record (contract.normalize im.options.sorting) with
      ⟨im', status | ⟨⟩⟩ <;> rfl

/-- Activation, over any store. -/
theorem upon_activateBody (auth : Authority) (clock : Clock) :
    activateBody auth clock (im.upon store) = ferry (activateBody auth clock im) store :=
  upon_checked im store rfl fun _ => upon_transitionAct im store _ _ _ _ _ fun _ => rfl

/-- Draining, over any store. -/
theorem upon_drainBody (auth : Authority) (reason : Text) (clock : Clock) :
    drainBody auth reason clock (im.upon store) = ferry (drainBody auth reason clock im) store :=
  upon_checked im store rfl fun _ => upon_transitionAct im store _ _ _ _ _ fun _ => rfl

/-- Resolving a recovery, over any store. -/
theorem upon_resolveRecoveryBody (auth : Authority) (reason : Text) (clock : Clock) :
    resolveRecoveryBody auth reason clock (im.upon store) =
      ferry (resolveRecoveryBody auth reason clock im) store :=
  upon_checked im store rfl fun _ => upon_transitionAct im store _ _ _ _ _ fun _ => rfl

/-- Suspension, over any store. -/
theorem upon_suspendBody (auth : Authority) (reason : Text) (clock : Clock) :
    suspendBody auth reason clock (im.upon store) =
      ferry (suspendBody auth reason clock im) store :=
  upon_checked im store rfl fun owned => by
    simp only [suspendAct, upon_revokeAssignment, upon_ite, upon_releaseBacking, upon_touchVirtual,
      upon_modify, upon_rebuildProjection]
    exact upon_transitionAct _ store _ _ _ _ _ fun _ => rfl

/-- Resumption, over any store. -/
theorem upon_resumeBody (auth : Authority) (reason : Text) (clock : Clock) :
    resumeBody auth reason clock (im.upon store) = ferry (resumeBody auth reason clock im) store :=
  upon_checked im store rfl fun _ => upon_transitionAct im store _ _ _ _ _ fun _ => rfl

/-- Fencing a virtual accelerator, over any store. -/
theorem upon_fenceVirtualBody (auth : Authority) (reason : Text) (clock : Clock) :
    fenceVirtualBody auth reason clock (im.upon store) =
      ferry (fenceVirtualBody auth reason clock im) store :=
  upon_checked im store rfl fun owned => by
    simp only [fenceVirtualAct, upon_fenceLeases, upon_touchVirtual]
    exact upon_transitionAct _ store _ _ _ _ _ fun _ => rfl

/-- Retirement, over any store. -/
theorem upon_retireVirtualBody (auth : Authority) (reason : Text) (clock : Clock) :
    retireVirtualBody auth reason clock (im.upon store) =
      ferry (retireVirtualBody auth reason clock im) store :=
  upon_checked im store rfl fun owned => by
    simp only [retireVirtualAct, upon_fenceLeases, upon_emplace, state_upon, upon_touchTenant,
      upon_modify, upon_revokeAssignment, upon_ite, upon_releaseBacking, upon_touchVirtual,
      upon_rebuildProjection]
    exact upon_transitionAct _ store _ _ _ _ _ fun _ => rfl

/-! ### Bindings -/

/-- The assignment that is replaced is drained in the state alone. -/
@[simp] theorem upon_drainPrevious (id : VirtualAcceleratorId) (value : VirtualAcceleratorRecord)
    (now : UnixMicros) :
    (im.upon store).drainPrevious id value now = (im.drainPrevious id value now).upon store := by
  simp only [drainPrevious, state_upon]
  split <;> simp only [upon_touchAssignment, upon_modify, upon_account, upon_releaseBacking,
    upon_touchVirtual, upon_fenceLeases]

/-- Assigning or replacing a backing, over any store. -/
theorem upon_assignBackingBody (operation : String) (auth : Authority) (backing : BackingId)
    (replacing : Bool) (reason : Text) (clock : Clock) :
    assignBackingBody operation auth backing replacing reason clock (im.upon store) =
      ferry (assignBackingBody operation auth backing replacing reason clock im) store :=
  upon_checked im store rfl fun plan => by
    simp only [assignBackingAct, upon_drainPrevious, upon_ite]
    generalize (if replacing = true then _ else im) = drained
    rfl

/-- Attaching, over any store. -/
theorem upon_attachBody (auth : Authority) (clock : Clock) :
    attachBody auth clock (im.upon store) = ferry (attachBody auth clock im) store :=
  upon_checked im store rfl fun owned => by
    simp only [attachAct, upon_takeId, upon_touchVirtual, upon_modify, upon_touchTenant,
      upon_transition, nextId_upon, state_upon]
    generalize modify _ RecordKind.tenant _ _ = entered
    by_cases hleases : lifecycleAllowsLeases owned.record.state = true
    · simp only [hleases, if_true]
      rfl
    · simp only [hleases, Bool.false_eq_true, if_false]
      rcases transition entered clock _ _ _ with ⟨im', status | ⟨⟩⟩ <;> rfl

/-- Renewing a lease, over any store. -/
theorem upon_renewLeaseBody (auth : Authority) (clock : Clock) :
    renewLeaseBody auth clock (im.upon store) = ferry (renewLeaseBody auth clock im) store :=
  upon_checked im store rfl fun _ => rfl

/-- A lease is released in the state alone. -/
@[simp] theorem upon_releaseLease (held : Held) (reason : Text) (now : UnixMicros)
    (book : AccountingCounters → AccountingCounters) :
    (im.upon store).releaseLease held reason now book =
      (im.releaseLease held reason now book).upon store := by
  simp only [releaseLease, upon_touchLease, upon_modify, upon_touchVirtual]
  generalize modify _ RecordKind.virtual _ _ = released
  simp only [state_upon]
  split <;> rfl

/-- Detaching and revoking act on the state alone. -/
theorem upon_releaseLeaseAct (operation : String) (auth : Authority) (clock : Clock) (reason : Text)
    (lastReason : String) (book : AccountingCounters → AccountingCounters) (held : Held) :
    releaseLeaseAct operation auth clock reason lastReason book held (im.upon store) =
      ferry (releaseLeaseAct operation auth clock reason lastReason book held im) store := by
  simp only [releaseLeaseAct, upon_releaseLease, upon_transition]
  generalize im.releaseLease held reason clock.now book = released
  by_cases hlast : held.record.activeAttachments - 1 = 0
  · simp only [hlast, if_true]
    rcases transition released clock _ _ _ with ⟨im', status | ⟨⟩⟩ <;> rfl
  · simp only [hlast, if_false]
    rfl

/-- Detaching, over any store. -/
theorem upon_detachBody (auth : Authority) (clock : Clock) :
    detachBody auth clock (im.upon store) = ferry (detachBody auth clock im) store :=
  upon_checked im store rfl fun held => upon_releaseLeaseAct im store _ _ _ _ _ _ held

/-- Revoking a lease, over any store. -/
theorem upon_revokeLeaseBody (auth : Authority) (reason : Text) (clock : Clock) :
    revokeLeaseBody auth reason clock (im.upon store) =
      ferry (revokeLeaseBody auth reason clock im) store :=
  upon_checked im store rfl fun held => upon_releaseLeaseAct im store _ _ _ _ _ _ held

/-! ### Migrations -/

/-- Planning a migration, over any store. -/
theorem upon_planMigrationBody (auth : Authority) (destination : BackingId) (klass : MigrationClass)
    (clock : Clock) :
    planMigrationBody auth destination klass clock (im.upon store) =
      ferry (planMigrationBody auth destination klass clock im) store :=
  upon_checked im store rfl fun _ => rfl

/-- Preparing a migration, over any store. -/
theorem upon_prepareMigrationBody (auth : Authority) (clock : Clock) :
    prepareMigrationBody auth clock (im.upon store) =
      ferry (prepareMigrationBody auth clock im) store :=
  upon_checked im store rfl fun f => by
    simp only [prepareMigrationAct, upon_transition]
    rcases transition im clock _ _ _ with ⟨im', status | ⟨⟩⟩
    · rfl
    · simp only [ferry, upon_fenceLeases]
      generalize im'.fenceLeases _ _ _ = drained
      rfl

/-- Committing a migration, over any store. -/
theorem upon_commitMigrationBody (auth : Authority) (clock : Clock) :
    commitMigrationBody auth clock (im.upon store) =
      ferry (commitMigrationBody auth clock im) store :=
  upon_checked im store rfl fun _ => rfl

/-- Completing a migration, over any store. -/
theorem upon_completeMigrationBody (auth : Authority) (clock : Clock) :
    completeMigrationBody auth clock (im.upon store) =
      ferry (completeMigrationBody auth clock im) store :=
  upon_checked im store rfl fun _ => rfl

/-- The assignment of an aborted destination is failed in the state alone. -/
@[simp] theorem upon_failDestination (id : BackingAssignmentId) (reason : Text) (now : UnixMicros) :
    (im.upon store).failDestination id reason now =
      (im.failDestination id reason now).upon store := by
  simp only [failDestination, state_upon]
  split <;> rfl

/-- Aborting a migration, over any store. -/
theorem upon_abortMigrationBody (auth : Authority) (reason : Text) (clock : Clock) :
    abortMigrationBody auth reason clock (im.upon store) =
      ferry (abortMigrationBody auth reason clock im) store :=
  upon_checked im store rfl fun f => by
    simp only [abortMigrationAct, upon_failDestination, upon_touchMigration, upon_modify,
      upon_account, upon_transition]
    generalize account _ _ = aborted
    by_cases hmigrating : f.record.state = .migrating
    · simp only [hmigrating, if_true]
      rcases transition aborted clock _ _ _ with ⟨im', status | ⟨⟩⟩ <;> rfl
    · simp only [hmigrating, if_false]
      rfl

/-- The destination of a migration that a restart found is failed in the state alone. -/
@[simp] theorem upon_failRecovered (now : UnixMicros) (id : BackingAssignmentId) :
    (im.upon store).failRecovered now id = (im.failRecovered now id).upon store := by
  simp only [failRecovered, state_upon]
  split
  · rfl
  · split <;> rfl

/-- A migration that a restart found before its cutover is aborted in the state alone. -/
@[simp] theorem upon_abortRecovered (now : UnixMicros) (key : MigrationId)
    (migration : MigrationRecord) :
    (im.upon store).abortRecovered now key migration =
      (im.abortRecovered now key migration).upon store := by
  simp only [abortRecovered, upon_touchMigration, upon_modify, upon_account, upon_failRecovered,
    state_upon, upon_touchVirtual]

/-- A migration that a restart found is classified from the state alone. -/
theorem upon_classifyMigration (now : UnixMicros) (acc : Impl σ × Bool) (key : MigrationId) :
    classifyMigration now (ferry acc store) key = ferry (classifyMigration now acc key) store := by
  simp only [classifyMigration, ferry, state_upon]
  split
  · rfl
  split
  · rfl
  split
  · rfl
  · split
    · rfl
    · rw [upon_abortRecovered]

/-! ### Execution -/

/-- Reserving memory, over any store. -/
theorem upon_reserveAllocationBody (auth : Authority) (bytes : ℕ) :
    reserveAllocationBody auth bytes (im.upon store) =
      ferry (reserveAllocationBody auth bytes im) store :=
  upon_checked im store rfl fun _ => rfl

/-- Releasing memory, over any store. -/
theorem upon_releaseAllocationBody (auth : Authority) (bytes : ℕ) :
    releaseAllocationBody auth bytes (im.upon store) =
      ferry (releaseAllocationBody auth bytes im) store :=
  upon_checked im store rfl fun _ => rfl

/-- Counting kernels, over any store. -/
theorem upon_accountKernelBody (auth : Authority) (count : ℕ) :
    accountKernelBody auth count (im.upon store) =
      ferry (accountKernelBody auth count im) store :=
  upon_checked im store rfl fun _ => rfl

/-! ### Operations -/

/-- An operation whose result is dropped, over any store. -/
theorem upon_forget {α : Type} {b : Body σ α} {b' : Body τ α}
    (h : b' (im.upon store) = ferry (b im) store) :
    Body.forget b' (im.upon store) = ferry (Body.forget b im) store := by
  simp only [Body.forget, h, ferry]

/-- The body of an operation over another store is that of the operation. -/
theorem upon_body {clock : Clock} {op : Op} {b : Body σ Unit} (hb : body clock op = some b) :
    ∃ b' : Body τ Unit, body clock op = some b' ∧
      ∀ im : Impl σ, b' (im.upon store) = ferry (b im) store := by
  cases op <;> cases hb <;> refine ⟨_, rfl, fun im => ?_⟩
  case registerPhysical => exact upon_forget im store (upon_registerPhysicalBody im store ..)
  case physicalLost => exact upon_physicalLostBody im store ..
  case setPolicy => exact upon_forget im store (upon_setPolicyBody im store ..)
  case createTenant => exact upon_forget im store (upon_createTenantBody im store ..)
  case fenceTenant => exact upon_fenceTenantBody im store ..
  case transferOwnership => exact upon_forget im store (upon_transferOwnershipBody im store ..)
  case createVirtual => exact upon_forget im store (upon_createVirtualBody im store ..)
  case updateContract => exact upon_forget im store (upon_updateContractBody im store ..)
  case activate => exact upon_forget im store (upon_activateBody im store ..)
  case drain => exact upon_forget im store (upon_drainBody im store ..)
  case resolveRecovery => exact upon_forget im store (upon_resolveRecoveryBody im store ..)
  case suspend => exact upon_forget im store (upon_suspendBody im store ..)
  case resume => exact upon_forget im store (upon_resumeBody im store ..)
  case fenceVirtual => exact upon_forget im store (upon_fenceVirtualBody im store ..)
  case retireVirtual => exact upon_forget im store (upon_retireVirtualBody im store ..)
  case assignBacking => exact upon_forget im store (upon_assignBackingBody im store ..)
  case replaceBacking => exact upon_forget im store (upon_assignBackingBody im store ..)
  case attach => exact upon_forget im store (upon_attachBody im store ..)
  case renewLease => exact upon_forget im store (upon_renewLeaseBody im store ..)
  case detach => exact upon_detachBody im store ..
  case revokeLease => exact upon_revokeLeaseBody im store ..
  case planMigration => exact upon_forget im store (upon_planMigrationBody im store ..)
  case prepareMigration => exact upon_forget im store (upon_prepareMigrationBody im store ..)
  case commitMigration => exact upon_forget im store (upon_commitMigrationBody im store ..)
  case completeMigration => exact upon_forget im store (upon_completeMigrationBody im store ..)
  case abortMigration => exact upon_forget im store (upon_abortMigrationBody im store ..)
  case reserveAllocation => exact upon_forget im store (upon_reserveAllocationBody im store ..)
  case releaseAllocation => exact upon_releaseAllocationBody im store ..
  case accountKernel => exact upon_accountKernelBody im store ..

/-- A refresh finds the same device over any store. -/
theorem resolve_upon (op : Op) : (im.upon store).resolve op = im.resolve op := by
  cases op <;> rfl

/-- An outcome is recorded without a look at the store. -/
theorem upon_settle (clock : Clock) (context : OpContext) (status : Status) (kind : AuditKind) :
    (im.upon store).settle clock context status kind =
      (im.settle clock context status kind).upon store := by
  simp only [settle]
  have hrefusal : (im.upon store).accountRefusal status.code =
      (im.accountRefusal status.code).upon store := rfl
  rw [hrefusal, upon_ite]
  generalize (if status.ok then im else im.accountRefusal status.code) = counted
  split <;> rfl

section Operations

variable [DurableStore τ]

/-- An operation begins, runs its body and records the outcome alike over any store. -/
theorem upon_operation (clock : Clock) {b : Body σ Unit} {b' : Body τ Unit}
    (hb : ∀ im : Impl σ, b' (im.upon store) = ferry (b im) store) :
    (im.upon store).operation clock b' =
      ((((b im.beginOp).1.settle clock (recorded (b im.beginOp).2).1
        (recorded (b im.beginOp).2).2.1 (recorded (b im.beginOp).2).2.2).upon store).commit.1,
        answered (b im.beginOp).2 (((b im.beginOp).1.settle clock (recorded (b im.beginOp).2).1
        (recorded (b im.beginOp).2).2.1 (recorded (b im.beginOp).2).2.2).upon store).commit.2) := by
  have hbegin : (im.upon store).beginOp = im.beginOp.upon store := rfl
  simp only [operation_eq, hbegin, hb, ferry, upon_settle]

variable [DurableStore σ] {Q : VirtualizationState → Prop} {clock : Clock} {op : Op} {im}

/-- Two calls over two stores that do the same up to the store: neither writes, or both hand the
same runtime to their stores, and answer what the store answers in the same way. -/
def Abreast (Q : VirtualizationState → Prop) (im : Impl σ) (store : Option τ) (op : Op)
    (r : Impl σ × Except Failure Unit) (r' : Impl τ × Except Failure Unit) : Prop :=
  (Unwritten im r ∧ r' = ferry r store) ∨
  ∃ (s im' : Impl σ) (answer : Check → Except Failure Unit),
    Written im s im' r ∧ Q im'.state ∧ im'.changes.Enters op.reported op.request ∧
    (∀ check status, answer check = .error (.persistence status) ↔ check = .error status) ∧
    r = (im'.commit.1, answer im'.commit.2) ∧
    r' = ((im'.upon store).commit.1, answer (im'.upon store).commit.2)

/-- An operation with a body commits alike over any store. -/
theorem abreast_operation (hq : Respects True Q) {b : Body σ Unit} (hw : im.state.WellKeyed)
    (hb : body clock (im.resolve op) = some b) (hQ : Q (b im.beginOp).1.state) :
    Abreast Q im store op (im.exec clock op) ((im.upon store).exec clock op) := by
  obtain ⟨b', hb', hover⟩ := upon_body store hb
  obtain ⟨s, hwritten, -, -, henters⟩ := written_body hw hb
  have hb'' : body clock ((im.upon store).resolve op) = some b' := resolve_upon im store op ▸ hb'
  rw [exec_of_resolve hb, exec_of_resolve hb'']
  exact .inr ⟨s, _, answered (b im.beginOp).2, hwritten, hq (alike_settle clock _ _ _) hQ, henters,
    fun _ _ => answered_persistence, operation_eq im clock b, upon_operation im store clock hover⟩

/-- So does the registration of an agent. -/
theorem abreast_registerAgent (hq : Respects True Q) {name endpoint : Text} {connectionId : ℕ}
    {requested : AgentId} (hw : im.state.WellKeyed) (hQ : Q im.state) :
    Abreast Q im store (.registerAgent name endpoint connectionId requested)
      (im.exec clock (.registerAgent name endpoint connectionId requested))
      ((im.upon store).exec clock (.registerAgent name endpoint connectionId requested)) := by
  simp only [exec, registerAgent, agents_upon, nextId_upon, upon_takeId, upon_ite]
  split
  · exact .inl ⟨.refl fun status => by simp [Except.map], rfl⟩
  split
  · exact .inl ⟨.refl fun status => by simp [Except.map], rfl⟩
  have hbase : (if valid requested then im else im.takeId) = im ∨
      (if valid requested then im else im.takeId) = im.takeId := by
    split
    · exact .inl rfl
    · exact .inr rfl
  generalize (if valid requested then im else im.takeId) = base at hbase ⊢
  generalize (if valid requested then requested else im.nextId) = id
  split
  · refine .inl ⟨?_, ?_⟩
    · obtain rfl | rfl := hbase
      · exact .refl fun status => by simp [Except.map]
      · exact ⟨rfl, rfl, ⟨_, Nat.le_succ _, rfl⟩, fun status => by simp [forget, Except.map]⟩
    · rfl
  · let session : AgentSession := {
      id, boot := base.nextId, name, endpoint, connected := true
      connectedAt := clock.now, lastSeen := clock.now, connectionId }
    have hopened : ((base.upon store).openSession session).beginOp.touchHeader =
        (base.openSession session).beginOp.touchHeader.upon store := rfl
    have hQ' : Q (base.openSession session).beginOp.touchHeader.state := by
      refine hq ?_ hQ
      obtain rfl | rfl := hbase <;> exact .of_entities rfl rfl rfl rfl rfl
    refine .inr ⟨base.openSession session, (base.openSession session).beginOp.touchHeader,
      fun check => check.mapError .persistence, written_openSession hw hbase ?_ ?_, hQ',
      ⟨rfl, rfl, rfl⟩, fun check _ => by cases check <;> simp, ?_, ?_⟩
    · split <;> rename_i hcommit <;> rw [hcommit] <;> rfl
    · split <;> rename_i hcommit <;> rw [hcommit] <;> simp [forget, Except.map]
    · split <;> rename_i hcommit <;> rw [hcommit] <;> rfl
    · rw [← hopened]
      split <;> rename_i hcommit <;> rw [hcommit] <;> rfl

/-- So does the classification of the migrations after a restart. -/
theorem abreast_classify (hq : Respects True Q) (hw : im.state.WellKeyed)
    (hQ : Q (im.classified clock.now).1.state) :
    Abreast Q im store .classifyRecoveredMigrations (im.exec clock .classifyRecoveredMigrations)
      ((im.upon store).exec clock .classifyRecoveredMigrations) := by
  have ht : Tracks im ∅ (im.classified clock.now).1 :=
    Tracks.classifyMigrations clock.now (Tracks.beginOp hw) _
  have hbegin : (im.upon store).beginOp = im.beginOp.upon store := rfl
  -- the sweep does not look at the store
  have hsweep : im.beginOp.state.migrations.keys.foldl (classifyMigration clock.now)
      (ferry (im.beginOp, false) store) = ferry (im.classified clock.now) store :=
    List.foldl_hom (fun acc : Impl σ × Bool => ferry acc store)
      fun acc key => upon_classifyMigration store clock.now acc key
  simp only [exec, classifyRecoveredMigrations, hbegin, state_upon]
  rw [show (im.beginOp.upon store, false) = ferry (im.beginOp, false) store from rfl, hsweep,
    show im.beginOp.state.migrations.keys.foldl (classifyMigration clock.now) (im.beginOp, false) =
      im.classified clock.now from rfl]
  generalize hacc : im.classified clock.now = acc at ht hQ ⊢
  obtain ⟨im', done⟩ := acc
  cases done with
  | false =>
    obtain rfl : im.beginOp = im' :=
      congrArg Prod.fst ((classifyMigrations_idle (congrArg Prod.snd hacc)).symm.trans hacc)
    exact .inl ⟨⟨rfl, rfl, ⟨_, Nat.le_refl _, rfl⟩, fun status => by simp⟩, rfl⟩
  | true =>
    let context : OpContext := {
      operation := txt "classify_recovered_migrations", epoch := im.beginOp.state.epoch }
    have hgrown := (settles im'.touchHeader clock context {} .recovery).nextSequence
    have hsettle : (im'.upon store).touchHeader.settle clock context {} .recovery =
        (im'.touchHeader.settle clock context {} .recovery).upon store :=
      upon_settle im'.touchHeader store clock context {} .recovery
    simp only [ferry, finalize_eq]
    refine .inr ⟨im, im'.touchHeader.settle clock context {} .recovery,
      fun check => check.mapError .persistence,
      ⟨rfl, rfl, .refl hw, fun _ _ => rfl, ht.touchHeader.ready clock _ _ _, ?_, ?_,
        fun status => ?_⟩, hq (alike_settle clock context {} .recovery) hQ,
      ht.touchHeader.enters clock context _ _, fun check _ => by cases check <;> simp, ?_, ?_⟩
    · rw [hgrown]
      exact Nat.lt_of_le_of_lt ht.advanced (Nat.lt_add_of_pos_right (by decide))
    · split <;> rename_i hcommit <;> rw [hcommit]
    · split <;> rename_i hcommit <;> rw [hcommit] <;> simp
    · split <;> rename_i hcommit <;> rw [hcommit] <;> rfl
    · rw [← hsettle]
      split <;> rename_i hcommit <;> rw [hcommit] <;> rfl

/-- Every operation does the same over another store. -/
theorem abreast_exec (hq : Respects True Q) (hw : im.state.WellKeyed) (h : Does Q im clock op) :
    Abreast Q im store op (im.exec clock op) ((im.upon store).exec clock op) := by
  cases hb : body (σ := σ) clock (im.resolve op) with
  | some b => exact abreast_operation store hq hw hb (h.body b hb)
  | none =>
    cases op
    case registerAgent => exact abreast_registerAgent store hq hw h.idle
    case classifyRecoveredMigrations => exact abreast_classify store hq hw (h.classified rfl)
    case agentHeartbeat =>
      refine .inl ⟨unwritten_agentHeartbeat _ _, ?_⟩
      simp only [exec, agentHeartbeat, agents_upon]
      split
      · rfl
      split
      · rfl
      split <;> rfl
    case agentDisconnected =>
      refine .inl ⟨unwritten_agentDisconnected _ _, ?_⟩
      simp only [exec, agentDisconnected, agents_upon]
      split
      · rfl
      split <;> rfl
    case refreshPhysical auth id generation d =>
      refine .inl ⟨unwritten_refreshPhysical hb, ?_⟩
      simp only [resolve] at hb
      simp only [exec, refreshPhysical, state_upon]
      split
      · rfl
      · rename_i device hd
        split
        · rfl
        · rename_i hg
          simp only [hd, not_not.mp hg, if_true] at hb
          cases hb
    all_goals cases hb

/-- A commit over another store that answers the same. -/
theorem upon_commit {im' : Impl σ}
    (h : (im'.extended.upon store).persistChanges.2 = im'.extended.persistChanges.2) :
    (im'.upon store).commit =
      ferry im'.commit (im'.extended.upon store).persistChanges.1 := by
  have hextended : (im'.upon store).extended = im'.extended.upon store := rfl
  obtain ⟨store', hp, hcommit⟩ | ⟨store', status, hp, hcommit⟩ := commit_cases im' <;>
    obtain ⟨store'', hp', hcommit'⟩ | ⟨store'', status', hp', hcommit'⟩ :=
      commit_cases (im'.upon store) <;>
    rw [hextended] at hp' <;> rw [hp, hp'] at h <;> rw [hcommit, hcommit', hp']
  · rfl
  · cases h
  · cases h
  · obtain rfl := Except.error.inj h
    rfl

end Operations

/-! ### Start and shutdown -/

section Start

variable (im : Impl σ) (store : Option τ)

/-- A lease is ended in the state alone. -/
theorem upon_endLease (ended : LeaseState) (reason : Text) (now : UnixMicros) (id : LeaseId) :
    endLease ended reason now (im.upon store) id =
      (endLease ended reason now im id).upon store := by
  simp only [endLease, state_upon]
  split
  · rfl
  · split <;> rfl

/-- The attachments of a virtual accelerator are released in the state alone. -/
theorem upon_releaseAttachments (reason : Text) (now : UnixMicros) (id : VirtualAcceleratorId) :
    releaseAttachments reason now (im.upon store) id =
      (releaseAttachments reason now im id).upon store := by
  simp only [releaseAttachments, state_upon]
  split
  · rfl
  · simp only [upon_touchVirtual, upon_modify, upon_ite]

/-- The attachments of a tenant are released in the state alone. -/
theorem upon_releaseTenant (updated : Option UnixMicros) (id : TenantId) :
    releaseTenant updated (im.upon store) id = (releaseTenant updated im id).upon store := by
  simp only [releaseTenant, state_upon]
  split
  · rfl
  · simp only [upon_touchTenant, upon_modify, upon_ite]

/-- A backing found after a restart is distrusted in the state alone. -/
theorem upon_distrustBacking (id : BackingId) :
    distrustBacking (im.upon store) id = (distrustBacking im id).upon store := by
  simp only [distrustBacking, state_upon]
  split <;> rfl

/-- So is a device found after a restart. -/
theorem upon_distrustPhysical (id : PhysicalDeviceId) :
    distrustPhysical (im.upon store) id = (distrustPhysical im id).upon store := by
  simp only [distrustPhysical, state_upon]
  split <;> rfl

/-- Local authority is dropped in the state alone. -/
theorem upon_dropLocalAuthority (now : UnixMicros) :
    (im.upon store).dropLocalAuthority now = (im.dropLocalAuthority now).upon store := by
  simp only [dropLocalAuthority, state_upon]
  rw [upon_foldl _ _ fun im id => upon_endLease im store _ _ now id]
  generalize im.state.leases.keys.foldl _ im = im1
  simp only [state_upon]
  rw [upon_foldl _ _ fun im id => upon_releaseAttachments im store _ now id]
  generalize im1.state.virtuals.keys.foldl _ im1 = im2
  simp only [state_upon]
  rw [upon_foldl _ _ fun im id => upon_releaseTenant im store _ id]
  generalize im2.state.tenants.keys.foldl _ im2 = im3
  simp only [state_upon]
  rw [upon_foldl _ _ fun im id => upon_distrustBacking im store id]
  generalize im3.state.backings.keys.foldl _ im3 = im4
  simp only [state_upon]
  rw [upon_foldl _ _ fun im id => upon_distrustPhysical im store id]
  rfl

/-- A decision and an audit entry are made from the state alone. -/
theorem upon_record (clock : Clock) (context : OpContext) (outcome : StatusCode) (reason : Text)
    (kind : AuditKind) :
    (im.upon store).record clock context outcome reason kind =
      (im.record clock context outcome reason kind).upon store := rfl

/-- What a start does after it has loaded, over any store. -/
theorem upon_startBody (clock : Clock) (recovered : Bool) :
    (im.upon store).startBody clock recovered = (im.startBody clock recovered).upon store := by
  have henter : (im.upon store).enterEpoch recovered = (im.enterEpoch recovered).upon store := by
    cases hpolicy : valid im.state.policyGeneration with
    | false =>
      simp only [enterEpoch, state_upon, hpolicy, Bool.not_false, if_true]
      rfl
    | true =>
      simp only [enterEpoch, state_upon, hpolicy, Bool.not_true, Bool.false_eq_true, if_false]
      by_cases hid : im.state.policy.id = 0
      · simp only [hid, if_true]
        rfl
      · simp only [hid, if_false]
        rfl
  simp only [startBody, henter, state_upon]
  generalize im.enterEpoch recovered = im1
  split
  · rw [upon_dropLocalAuthority, upon_record]
  · exact upon_record im1 store _ _ _ _ _

/-- What a shutdown does before it commits, over any store. -/
theorem upon_shutdownBody (clock : Clock) :
    (im.upon store).shutdownBody clock = (im.shutdownBody clock).upon store := by
  simp only [shutdownBody, state_upon]
  rw [upon_foldl _ _ fun im id => upon_endLease im store _ _ clock.now id]
  generalize im.state.leases.keys.foldl _ im = im1
  simp only [state_upon]
  rw [upon_foldl _ _ fun im id => upon_releaseAttachments im store _ clock.now id]
  generalize im1.state.virtuals.keys.foldl _ im1 = im2
  simp only [state_upon]
  rw [upon_foldl _ _ fun im id => upon_releaseTenant im store _ id, upon_recomputeDerivedAccounting,
    upon_touchHeader, upon_record]

end Start

end Impl

end AcceleratorVirtualization
