import AcceleratorVirtualization.Invariants.Authority
import AcceleratorVirtualization.Invariants.Commit

/-!
# All operations

The operations that run in the frame, by their bodies, so that what holds of every body is
stated once: it tracks what it changes, and it keeps the ledger coherent. The five operations
outside the frame either change no record or run one of these bodies.
-/

namespace AcceleratorVirtualization

open VirtualizationState Custody Refusal

/-- The request an operation is recorded under, zero where it has none. -/
def Op.request : Op → RequestId
  | .registerPhysical auth .. | .refreshPhysical auth .. | .setPolicy auth _ | .createTenant auth ..
  | .fenceTenant auth .. | .transferOwnership auth .. | .createVirtual auth ..
  | .updateContract auth _ | .activate auth | .drain auth _ | .resolveRecovery auth _
  | .suspend auth _ | .resume auth _ | .fenceVirtual auth _ | .retireVirtual auth _
  | .assignBacking auth .. | .replaceBacking auth .. | .attach auth | .renewLease auth
  | .detach auth | .revokeLease auth _ | .planMigration auth .. | .prepareMigration auth
  | .commitMigration auth | .completeMigration auth | .abortMigration auth _
  | .reserveAllocation auth _ | .releaseAllocation auth _ | .accountKernel auth _ =>
    auth.request.getD 0
  | .registerAgent .. | .agentHeartbeat .. | .agentDisconnected .. | .physicalLost ..
  | .classifyRecoveredMigrations => 0

/-- Whether an operation that commits reports an outcome; `register_agent` does not. -/
def Op.reported : Op → Bool
  | .registerAgent .. => false
  | _ => true

namespace Impl

variable {σ : Type} {im : Impl σ}

/-! ### Bodies -/

/-- Forget what a body returns. -/
def Body.forget {α : Type} (body : Body σ α) : Body σ Unit := fun im =>
  ((body im).1, (body im).2.map fun a => ⟨a.context, a.kind, ()⟩)

/-- The body of an operation that runs in the frame. -/
def body (clock : Clock) : Op → Option (Body σ Unit)
  | .registerPhysical auth agent boot d =>
    some (Body.forget (registerPhysicalBody auth agent boot d clock))
  | .physicalLost id generation reason => some (physicalLostBody id generation reason clock)
  | .setPolicy auth policy => some (Body.forget (setPolicyBody auth policy clock))
  | .createTenant auth name externalSubject =>
    some (Body.forget (createTenantBody auth name externalSubject clock))
  | .fenceTenant auth id generation reason =>
    some (fenceTenantBody auth id generation reason clock)
  | .transferOwnership auth newOwner newGeneration =>
    some (Body.forget (transferOwnershipBody auth newOwner newGeneration clock))
  | .createVirtual auth name owner ownerGeneration contract =>
    some (Body.forget (createVirtualBody auth name owner ownerGeneration contract clock))
  | .updateContract auth contract => some (Body.forget (updateContractBody auth contract clock))
  | .activate auth => some (Body.forget (activateBody auth clock))
  | .drain auth reason => some (Body.forget (drainBody auth reason clock))
  | .resolveRecovery auth reason => some (Body.forget (resolveRecoveryBody auth reason clock))
  | .suspend auth reason => some (Body.forget (suspendBody auth reason clock))
  | .resume auth reason => some (Body.forget (resumeBody auth reason clock))
  | .fenceVirtual auth reason => some (Body.forget (fenceVirtualBody auth reason clock))
  | .retireVirtual auth reason => some (Body.forget (retireVirtualBody auth reason clock))
  | .assignBacking auth backing reason =>
    some (Body.forget (assignBackingBody "assign_backing" auth backing false reason clock))
  | .replaceBacking auth destination reason =>
    some (Body.forget (assignBackingBody "replace_backing" auth destination true reason clock))
  | .attach auth => some (Body.forget (attachBody auth clock))
  | .renewLease auth => some (Body.forget (renewLeaseBody auth clock))
  | .detach auth => some (detachBody auth clock)
  | .revokeLease auth reason => some (revokeLeaseBody auth reason clock)
  | .planMigration auth destination klass =>
    some (Body.forget (planMigrationBody auth destination klass clock))
  | .prepareMigration auth => some (Body.forget (prepareMigrationBody auth clock))
  | .commitMigration auth => some (Body.forget (commitMigrationBody auth clock))
  | .completeMigration auth => some (Body.forget (completeMigrationBody auth clock))
  | .abortMigration auth reason => some (Body.forget (abortMigrationBody auth reason clock))
  | .reserveAllocation auth bytes => some (Body.forget (reserveAllocationBody auth bytes))
  | .releaseAllocation auth bytes => some (releaseAllocationBody auth bytes)
  | .accountKernel auth count => some (accountKernelBody auth count)
  | .registerAgent .. | .agentHeartbeat .. | .agentDisconnected .. | .refreshPhysical ..
  | .classifyRecoveredMigrations => none

theorem operation_forget [DurableStore σ] {α : Type} (clock : Clock) (body : Body σ α) :
    forget (im.operation clock body) = im.operation clock (Body.forget body) := by
  simp only [operation, Body.forget]
  rcases body im.beginOp with ⟨im', refusal | accepted⟩
  · simp [forget, Except.map]
  · simp only [forget, Except.map]
    rcases im'.finalize clock accepted.context {} accepted.kind with ⟨im'', status | ⟨⟩⟩ <;> rfl

/-- Operations in the frame run their body. -/
theorem exec_of_body [DurableStore σ] {clock : Clock} {op : Op} {b : Body σ Unit}
    (h : body clock op = some b) : im.exec clock op = im.operation clock b := by
  cases op <;> simp only [body, Option.some.injEq, reduceCtorEq] at h <;> subst h <;>
    first | exact operation_forget clock _ | rfl

/-! ### Checks before acts -/

/-- What holds before the check and after the act holds after the body. -/
theorem fst_checked {π α : Type} {p : Impl σ → Prop} {context : Impl σ → OpContext}
    {kind : AuditKind} {check : Impl σ → Except Status π} {act : π → Body σ α} (h : p im)
    (hact : ∀ plan, check im = .ok plan → p (act plan im).1) :
    p (checked (fun im => orRefuse (context im) kind (check im)) act im).1 := by
  unfold checked
  split
  · exact h
  · rename_i plan hplan
    exact hact plan (mapError_eq_ok.mp hplan)

/-- An operation that changes the tenants before it touches them. -/
def transfers (im : Impl σ) : Op → Bool
  | .transferOwnership auth newOwner newGeneration =>
    (transferOwnershipCheck auth newOwner newGeneration im).isOk
  | _ => false

theorem tracks_body_of_not_transfers {clock : Clock} {op : Op} {b : Body σ Unit}
    (hb : body clock op = some b) (hw : im.state.WellKeyed) (hop : im.transfers op = false) :
    Tracks im ∅ (b im.beginOp).1 := by
  have h : Tracks im ∅ im.beginOp := .beginOp hw
  cases op <;> simp only [body, Option.some.injEq, reduceCtorEq] at hb <;> subst hb
  case registerPhysical =>
    exact fst_checked h fun _ _ => h.registerPhysicalAct _ _ _ _ clock
  case physicalLost => exact fst_checked h fun _ _ => h.physicalLostAct _ _ _ clock _
  case setPolicy => exact fst_checked h fun _ _ => h.setPolicyAct _ clock _
  case createTenant => exact fst_checked h fun _ _ => h.createTenantAct _ _ _ clock
  case fenceTenant => exact fst_checked h fun _ _ => h.fenceTenantAct _ _ _ clock _
  case transferOwnership auth newOwner newGeneration =>
    change Tracks im ∅ (transferOwnershipBody auth newOwner newGeneration clock im.beginOp).1
    refine fst_checked h fun t ht => ?_
    -- an accepted transfer is what the hypothesis excludes
    have hc : transferOwnershipCheck auth newOwner newGeneration im = .ok t := ht
    simp [transfers, hc, Except.isOk, Except.toBool] at hop
  case createVirtual =>
    exact fst_checked h fun _ ht => h.createVirtualAct _ _ _ _ clock (createVirtualCheck_ok ht).1
  case updateContract =>
    exact fst_checked h fun _ ho => h.updateContractAct _ _ clock (updateContractCheck_ok ho).1
  case activate =>
    exact fst_checked h fun _ _ => h.transitionAct _ clock _ _ _ fun _ h =>
      h.recomputeDerivedAccounting
  case drain => exact fst_checked h fun _ _ => h.transitionAct _ clock _ _ _ fun _ h => h
  case resolveRecovery =>
    exact fst_checked h fun _ _ => h.transitionAct _ clock _ _ _ fun _ h => h
  case suspend => exact fst_checked h fun _ ho => h.suspendAct _ _ clock (suspendCheck_ok ho).1
  case resume =>
    exact fst_checked h fun _ _ => h.transitionAct _ clock _ _ _ fun _ h =>
      h.recomputeDerivedAccounting
  case fenceVirtual => exact fst_checked h fun _ _ => h.fenceVirtualAct _ _ clock _
  case retireVirtual =>
    exact fst_checked h fun _ ho => h.retireVirtualAct _ _ clock (notRetiredCheck_ok ho).1 rfl
  case assignBacking =>
    exact fst_checked h fun _ ho => h.assignBackingAct _ _ _ _ clock (assignBackingCheck_ok ho).1
  case replaceBacking =>
    exact fst_checked h fun _ ho => h.assignBackingAct _ _ _ _ clock (assignBackingCheck_ok ho).1
  case attach => exact fst_checked h fun _ ho => h.attachAct _ clock (attachCheck_ok ho).1
  case renewLease => exact fst_checked h fun _ hl => h.renewLeaseAct _ clock (renewLeaseCheck_ok hl)
  case detach =>
    exact fst_checked h fun _ hh => h.releaseLeaseAct _ _ clock _ _ _ (resolveLeaseFor_ok hh)
  case revokeLease =>
    exact fst_checked h fun _ hh => h.releaseLeaseAct _ _ clock _ _ _ (resolveLeaseFor_ok hh)
  case planMigration =>
    exact fst_checked h fun _ ho => h.planMigrationAct _ _ _ clock (planMigrationCheck_ok ho).1
  case prepareMigration =>
    exact fst_checked h fun _ hf => h.prepareMigrationAct _ clock (prepareMigrationCheck_ok hf).1
  case commitMigration =>
    exact fst_checked h fun _ hc => h.commitMigrationAct _ clock (commitMigrationCheck_ok hc).1
  case completeMigration =>
    exact fst_checked h fun _ hf => h.completeMigrationAct _ clock (completeMigrationCheck_ok hf).1
  case abortMigration =>
    exact fst_checked h fun _ hf => h.abortMigrationAct _ _ clock (abortMigrationCheck_ok hf).1
  case reserveAllocation =>
    exact fst_checked h fun _ ho => h.reserveAllocationAct _ _ (reserveAllocationCheck_ok ho)
  case releaseAllocation =>
    exact fst_checked h fun _ hv => h.releaseAllocationAct _ _ (releaseAllocationCheck_ok hv)
  case accountKernel =>
    exact fst_checked h fun _ ho => h.accountKernelAct _ _ (accountKernelCheck_ok ho)

/-- Every body tracks what it changes, from the state it began in; an accepted transfer from one
with other tenants. -/
theorem tracks_body {clock : Clock} {op : Op} {b : Body σ Unit} (hb : body clock op = some b)
    (hw : im.state.WellKeyed) :
    ∃ m, Tracks (im.withTenants m) ∅ (b im.beginOp).1 ∧ (im.withTenants m).state.WellKeyed ∧
      (m = im.state.tenants ↔ im.transfers op = false) ∧
      (∀ id, id ∉ (b im.beginOp).1.undo.saved .tenant → m[id]? = im.state.tenants[id]?) ∧
      ∀ id : ℕ, m[id]?.map TenantRecord.standing =
        im.state.tenants[id]?.map TenantRecord.standing := by
  have h : Tracks im ∅ im.beginOp := .beginOp hw
  cases hop : im.transfers op with
  | false =>
    exact ⟨im.state.tenants, tracks_body_of_not_transfers hb hw hop, hw, by simp, fun _ _ => rfl,
      fun _ => rfl⟩
  | true =>
    cases op <;> simp only [transfers, Bool.false_eq_true] at hop
    rename_i auth newOwner newGeneration
    cases hc : transferOwnershipCheck auth newOwner newGeneration im with
    | error status => simp [hc, Except.isOk, Except.toBool] at hop
    | ok t =>
      obtain ⟨ht, hd, hne⟩ := transferOwnershipCheck_ok hc
      obtain ⟨m, hm, hmw, hmd, hmt, hms⟩ := Tracks.transferOwnershipAct
        (.beginOp hw : Tracks im.beginOp ∅ im.beginOp.beginOp) auth clock ht hd hne
          fun id => by simp [beginOp]
      have hact : (b im.beginOp).1 = (transferOwnershipAct auth newOwner clock t im.beginOp).1 := by
        have hc' : transferOwnershipCheck auth newOwner newGeneration im.beginOp = .ok t := hc
        simp only [body, Option.some.injEq] at hb
        subst hb
        simp only [Body.forget, transferOwnershipBody, checked, orRefuse, hc', Refusal.mapError_ok]
      refine ⟨m, hact ▸ { hm with }, hmw, ?_, fun id hid => hmt id (hact ▸ hid), hms⟩
      simp only [Bool.true_eq_false, iff_false]
      -- The destination owns one more.
      rintro rfl
      rw [hd, Option.some.injEq] at hmd
      have hlen := congrArg (fun t : TenantRecord => t.owned.length) hmd
      simp [acquire] at hlen

/-! ### What is recorded -/

theorem request_checked {π α : Type} {context : Impl σ → OpContext} {kind : AuditKind}
    {check : Impl σ → Except Status π} {act : π → Body σ α} {request : RequestId}
    (hcontext : (context im).request = request)
    (hact : ∀ plan, (recorded (act plan im).2).1.request = request) :
    (recorded (checked (fun im => orRefuse (context im) kind (check im)) act im).2).1.request =
      request := by
  simp only [checked, orRefuse]
  cases hc : check im with
  | error status => exact hcontext
  | ok plan => exact hact plan

theorem recorded_forget {α : Type} (body : Body σ α) :
    recorded (Body.forget body im).2 = recorded (body im).2 := by
  simp only [Body.forget]
  cases (body im).2 <;> rfl

theorem request_transitionAct {clock : Clock} {id : VirtualAcceleratorId}
    {target : VirtualLifecycleState} {reason : Text} {after : Impl σ → Impl σ}
    (context : OpContext) :
    (recorded (transitionAct context clock id target reason after im).2).1.request =
      context.request := by
  unfold transitionAct
  split <;> rfl

/-- An outcome is recorded under the request the caller presented. -/
theorem request_body (im : Impl σ) {clock : Clock} {op : Op} {b : Body σ Unit}
    (hb : body clock op = some b) :
    (recorded (b im).2).1.request = op.request := by
  cases op <;> simp only [body, Option.some.injEq, reduceCtorEq] at hb <;> subst hb <;>
    (try rw [recorded_forget]) <;> refine request_checked rfl fun plan => ?_
  case activate | drain | resolveRecovery | resume => exact request_transitionAct _
  case suspend | fenceVirtual | retireVirtual => exact request_transitionAct _
  case updateContract =>
    unfold updateContractAct
    dsimp only
    split <;> rfl
  case attach =>
    unfold attachAct
    dsimp only
    split <;> rfl
  case detach | revokeLease =>
    unfold releaseLeaseAct
    dsimp only
    split <;> rfl
  case prepareMigration =>
    unfold prepareMigrationAct
    dsimp only
    split <;> rfl
  case abortMigration =>
    unfold abortMigrationAct
    dsimp only
    split <;> rfl
  all_goals rfl

/-! ### The ledger -/

/-- The operations that leave the ledger alone. -/
def neutral : Op → Bool
  | .registerPhysical .. | .physicalLost .. | .setPolicy .. | .createVirtual .. | .suspend ..
  | .retireVirtual .. | .assignBacking .. | .replaceBacking .. | .planMigration ..
  | .prepareMigration .. | .commitMigration .. | .abortMigration .. => false
  | _ => true

theorem ledger_checked {π α : Type} {context : Impl σ → OpContext} {kind : AuditKind}
    {check : Impl σ → Except Status π} {act : π → Body σ α}
    (hact : ∀ plan, (act plan im).1.ledger = im.ledger) :
    (checked (fun im => orRefuse (context im) kind (check im)) act im).1.ledger = im.ledger :=
  fst_checked (p := fun im' => im'.ledger = im.ledger) rfl fun plan _ => hact plan

theorem ledger_body {clock : Clock} {op : Op} {b : Body σ Unit} (hb : body clock op = some b)
    (hn : neutral op = true) : (b im.beginOp).1.ledger = im.ledger := by
  cases op <;> simp only [neutral, Bool.false_eq_true] at hn <;>
    simp only [body, Option.some.injEq, reduceCtorEq] at hb <;> subst hb
  case createTenant => exact ledger_checked fun _ => ledger_createTenantAct _ _ _ _ clock
  case fenceTenant => exact ledger_checked fun _ => ledger_fenceTenantAct _ _ _ _ clock _
  case transferOwnership => exact ledger_checked fun _ => ledger_transferOwnershipAct _ _ _ clock _
  case updateContract => exact ledger_checked fun _ => ledger_updateContractAct _ _ _ clock _
  case activate =>
    exact ledger_checked fun _ => ledger_transitionAct _ _ clock _ _ _
      ledger_recomputeDerivedAccounting
  case drain => exact ledger_checked fun _ => ledger_transitionAct _ _ clock _ _ _ fun _ => rfl
  case resolveRecovery =>
    exact ledger_checked fun _ => ledger_transitionAct _ _ clock _ _ _ fun _ => rfl
  case resume =>
    exact ledger_checked fun _ => ledger_transitionAct _ _ clock _ _ _
      ledger_recomputeDerivedAccounting
  case fenceVirtual => exact ledger_checked fun _ => ledger_fenceVirtualAct _ _ _ clock _
  case attach => exact ledger_checked fun _ => ledger_attachAct _ _ clock _
  case renewLease => exact ledger_checked fun _ => ledger_renewLeaseAct _ _ clock _
  case detach => exact ledger_checked fun _ => ledger_releaseLeaseAct _ _ _ clock _ _ _ _
  case revokeLease => exact ledger_checked fun _ => ledger_releaseLeaseAct _ _ _ clock _ _ _ _
  case completeMigration => exact ledger_checked fun _ => ledger_completeMigrationAct _ _ clock _
  case reserveAllocation => exact ledger_checked fun _ => ledger_reserveAllocationAct _ _ _ _
  case releaseAllocation => exact ledger_checked fun _ => ledger_releaseAllocationAct _ _ _ _
  case accountKernel => exact ledger_checked fun _ => ledger_accountKernelAct _ _ _ _

theorem coherent_checked {π α : Type} {context : Impl σ → OpContext} {kind : AuditKind}
    {check : Impl σ → Except Status π} {act : π → Body σ α} (h : im.ledger.Coherent)
    (hact : ∀ plan, check im = .ok plan → (act plan im).1.ledger.Coherent) :
    (checked (fun im => orRefuse (context im) kind (check im)) act im).1.ledger.Coherent :=
  fst_checked (p := fun im => im.ledger.Coherent) h hact

/-- Every body keeps the ledger coherent. -/
theorem coherent_body {clock : Clock} {op : Op} {b : Body σ Unit} (hb : body clock op = some b)
    (hw : im.state.WellKeyed) (hc : im.ledger.Coherent) : (b im.beginOp).1.ledger.Coherent := by
  by_cases hn : neutral op = true
  · rw [ledger_body hb hn]
    exact hc
  have h : Tracks im.beginOp ∅ im.beginOp := .beginOp (show im.beginOp.state.WellKeyed from hw)
  have hc0 : im.beginOp.ledger.Coherent := hc
  cases op <;> simp only [neutral, not_true_eq_false] at hn <;>
    simp only [body, Option.some.injEq] at hb <;> subst hb
  case registerPhysical =>
    exact coherent_checked hc0 fun _ _ => coherent_registerPhysicalAct h hc0 _ _ _ _ clock
  case physicalLost =>
    exact coherent_checked hc0 fun _ _ => coherent_physicalLostAct h hc0 _ _ _ clock _
  case setPolicy => exact coherent_checked hc0 fun _ _ => coherent_setPolicyAct h hc0 _ clock _
  case createVirtual =>
    refine coherent_checked hc0 fun _ _ => ?_
    rw [ledger_createVirtualAct]
    exact coherent_createVirtual h.wellKeyed hc0
  case suspend =>
    refine coherent_checked hc0 fun _ ho => ?_
    rw [ledger_suspendAct h.wellKeyed]
    exact coherent_release hc0 (suspendCheck_ok ho).1.virtual _
  case retireVirtual =>
    refine coherent_checked hc0 fun _ ho => ?_
    rw [ledger_retireVirtualAct h.wellKeyed]
    exact coherent_release hc0 (notRetiredCheck_ok ho).1.virtual _
  case assignBacking =>
    exact coherent_checked hc0 fun _ ho => coherent_assignBackingAct h hc0 _ _ _ clock ho
  case replaceBacking =>
    exact coherent_checked hc0 fun _ ho => coherent_assignBackingAct h hc0 _ _ _ clock ho
  case planMigration =>
    exact coherent_checked hc0 fun _ ho => coherent_planMigrationAct h.wellKeyed hc0 _ clock ho
  case prepareMigration =>
    exact coherent_checked hc0 fun _ hf => coherent_prepareMigrationAct h hc0 _ clock hf
  case commitMigration =>
    exact coherent_checked hc0 fun _ hm => coherent_commitMigrationAct h hc0 _ clock hm
  case abortMigration =>
    refine coherent_checked hc0 fun _ _ => ?_
    rw [ledger_abortMigrationAct]
    exact hc0.revoke _

end Impl

end AcceleratorVirtualization
