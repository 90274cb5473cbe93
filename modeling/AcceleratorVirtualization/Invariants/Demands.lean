import AcceleratorVirtualization.Invariants.Fixtures
import AcceleratorVirtualization.Invariants.RecordOperations

/-!
# What is asked of the runtime

The policy and the contracts of the virtual accelerators. The operations that submit one change it,
and nothing else does: whatever happens to a virtual accelerator, its contract stays, and no
operation but its own sets the policy. The histories of the backings are followed beside it: an
operation that neither binds nor releases a virtual accelerator leaves them alone.
-/

namespace AcceleratorVirtualization

open VirtualizationState

/-! ### The view -/

/-- What the runtime asks of a backing: the policy, its generation, and the contract of each virtual
accelerator. -/
structure Demands where
  policy : VirtualizationPolicy
  generation : Generation
  contract : ℕ → Option ResourceContract

/-- One contract is written. -/
def Demands.write (D : Demands) (id : ℕ) (contract : ResourceContract) : Demands :=
  { D with contract := Function.update D.contract id (some contract) }

/-- The demands of a state. -/
def VirtualizationState.demands (s : VirtualizationState) : Demands where
  policy := s.policy
  generation := s.policyGeneration
  contract id := s.virtuals[id]?.map (·.contract)

/-- What is asked, and the histories of the backings. -/
@[ext]
structure Dossier where
  demands : Demands
  history : ℕ → Option (List BackingHistoryEntry)

/-- One history is revised. -/
def Dossier.revise (D : Dossier) (id : ℕ)
    (f : List BackingHistoryEntry → List BackingHistoryEntry) : Dossier :=
  { D with history := Function.update D.history id ((D.history id).map f) }

theorem Dossier.revise_revise (D : Dossier) (id : ℕ)
    (f g : List BackingHistoryEntry → List BackingHistoryEntry) :
    (D.revise id f).revise id g = D.revise id fun l => g (f l) := by
  simp only [revise, Function.update_self, Function.update_idem, Option.map_map]
  rfl

theorem Dossier.history_revise_of_ne {D : Dossier} {id x : ℕ} (h : x ≠ id)
    (f : List BackingHistoryEntry → List BackingHistoryEntry) :
    (D.revise id f).history x = D.history x := Function.update_of_ne h ..

theorem Dossier.history_revise_self (D : Dossier) (id : ℕ)
    (f : List BackingHistoryEntry → List BackingHistoryEntry) :
    (D.revise id f).history id = (D.history id).map f := Function.update_self ..

/-- The demands of a state, with the history of each virtual accelerator. -/
def VirtualizationState.dossier (s : VirtualizationState) : Dossier where
  demands := s.demands
  history id := s.virtuals[id]?.map (·.backingHistory)

/-- What the dossier says of a virtual accelerator. -/
def VirtualAcceleratorRecord.filed (v : VirtualAcceleratorRecord) :
    ResourceContract × List BackingHistoryEntry :=
  (v.contract, v.backingHistory)

namespace Impl

variable {σ : Type} {im im1 im' : Impl σ}

/-- The demands in memory. -/
def demands (im : Impl σ) : Demands := im.state.demands

/-- The dossier in memory. -/
def dossier (im : Impl σ) : Dossier := im.state.dossier

/-! ### Changes of the view -/

@[simp]
theorem dossier_touch (im : Impl σ) (k : RecordKind) (id : ℕ) :
    (im.touch k id).dossier = im.dossier := rfl

@[simp]
theorem dossier_takeId (im : Impl σ) : im.takeId.dossier = im.dossier := rfl

@[simp]
theorem dossier_touchHeader (im : Impl σ) : im.touchHeader.dossier = im.dossier := rfl

@[simp]
theorem dossier_account (im : Impl σ) (f : AccountingCounters → AccountingCounters) :
    (im.account f).dossier = im.dossier := rfl

@[simp]
theorem dossier_recomputeDerivedAccounting (im : Impl σ) :
    im.recomputeDerivedAccounting.dossier = im.dossier := rfl

/-- Other records say nothing about it. -/
@[simp]
theorem dossier_modify {k : RecordKind} (hk : k ≠ .virtual) {id : ℕ} {f : k.Record → k.Record} :
    (im.modify k id f).dossier = im.dossier := by
  cases k
  case virtual => exact absurd rfl hk
  all_goals rfl

/-- Assigning a record leaves contracts and histories as they are. -/
@[simp]
theorem dossier_put {k : RecordKind} (hk : k ≠ .virtual) {id : ℕ} {r : k.Record} :
    (im.put k id r).dossier = im.dossier := by
  cases k
  case virtual => exact absurd rfl hk
  all_goals rfl

/-- A change of a virtual accelerator that keeps its contract and revises its history. -/
theorem dossier_revise {id : ℕ} {f : VirtualAcceleratorRecord → VirtualAcceleratorRecord}
    {g : List BackingHistoryEntry → List BackingHistoryEntry}
    (h : ∀ v, (f v).filed = (v.contract, g v.backingHistory)) :
    (im.modify .virtual id f).dossier = im.dossier.revise id g := by
  simp only [dossier, VirtualizationState.dossier, VirtualizationState.demands, Dossier.revise,
    modify, VirtualizationState.modify, setEntities, entities]
  congr 1
  · congr 1
    exact funext (map_modify_part fun v => congrArg Prod.fst (h v))
  · exact map_modify _ _ _ _ _ fun v => congrArg Prod.snd (h v)

/-- A change of a virtual accelerator that keeps its contract and its history. -/
theorem dossier_modify_virtual {id : ℕ} {f : VirtualAcceleratorRecord → VirtualAcceleratorRecord}
    (h : ∀ v, (f v).filed = v.filed) : (im.modify .virtual id f).dossier = im.dossier := by
  rw [dossier_revise (g := fun history => history) h]
  simp [Dossier.revise]

/-- An entry is opened. -/
theorem dossier_append {id : ℕ} {entry : BackingHistoryEntry} :
    (im.modify .virtual id fun v =>
      { v with backingHistory := v.backingHistory ++ [entry] }).dossier =
      im.dossier.revise id (· ++ [entry]) := by
  refine dossier_revise ?_
  exact fun _ => rfl

theorem dossier_put_virtual {id : ℕ} {v : VirtualAcceleratorRecord} :
    (im.put .virtual id v).dossier =
      ⟨im.demands.write id v.contract,
        Function.update im.dossier.history id (some v.backingHistory)⟩ := by
  simp only [dossier, VirtualizationState.dossier, demands, VirtualizationState.demands,
    Demands.write, Impl.put, VirtualizationState.put, setEntities, entities]
  congr 1
  · congr 1
    exact map_insert _ _ _ _
  · exact map_insert _ _ _ _

/-- A virtual accelerator that is there gets another contract. -/
theorem dossier_rewrite {id : ℕ} {f : VirtualAcceleratorRecord → VirtualAcceleratorRecord}
    {contract : ResourceContract} (hid : im.state.virtuals[id]?.isSome)
    (h : ∀ v, (f v).filed = (contract, v.backingHistory)) :
    (im.modify .virtual id f).dossier =
      { im.dossier with demands := im.demands.write id contract } := by
  obtain ⟨v, hv⟩ := Option.isSome_iff_exists.mp hid
  simp only [dossier, VirtualizationState.dossier, demands, VirtualizationState.demands,
    Demands.write, modify, VirtualizationState.modify, setEntities, entities]
  congr 1
  · congr 1
    rw [map_modify _ _ _ _ (fun _ => contract) fun w => congrArg Prod.fst (h w), hv]
    rfl
  · exact funext (map_modify_part fun w => congrArg Prod.snd (h w))

/-- Rebuilding what a virtual accelerator shows leaves contracts and histories as they are. -/
@[simp]
theorem dossier_rebuildProjection (im : Impl σ) (id : VirtualAcceleratorId) :
    (im.rebuildProjection id).dossier = im.dossier :=
  dossier_modify_virtual fun _ => rfl

/-! ### Helpers -/

theorem dossier_foldl {α : Type} {step : Impl σ → α → Impl σ}
    (hstep : ∀ im a, (step im a).dossier = im.dossier) (l : List α) (im : Impl σ) :
    (l.foldl step im).dossier = im.dossier :=
  foldl_unchanged (f := fun im : Impl σ => im.dossier) hstep l im

/-- Fencing a lease leaves contracts and histories as they are. -/
@[simp]
theorem dossier_fenceLease (im : Impl σ) (reason : Text) (now : UnixMicros) (id : LeaseId) :
    (im.fenceLease reason now id).dossier = im.dossier := by
  unfold fenceLease
  split
  · rfl
  · split <;> rfl

/-- Fencing the leases of a virtual accelerator leaves contracts and histories as they are. -/
@[simp]
theorem dossier_fenceLeases (im : Impl σ) (id : VirtualAcceleratorId) (reason : Text)
    (now : UnixMicros) : (im.fenceLeases id reason now).dossier = im.dossier := by
  unfold fenceLeases
  split
  · rfl
  · rename_i record hr
    have hl : (record.leases.foldl (fun im lease => im.fenceLease reason now lease) im).dossier =
        im.dossier := dossier_foldl (fun im lease => dossier_fenceLease im reason now lease) _ im
    dsimp only
    split
    · exact hl
    · rw [dossier_touchHeader, dossier_account]
      split
      · refine (dossier_modify_virtual ?_).trans hl
        exact fun _ => rfl
      · rw [dossier_modify (k := .tenant) (by decide), touchTenant, dossier_touch]
        refine (dossier_modify_virtual ?_).trans hl
        exact fun _ => rfl

/-- Carrying a lease over to a new generation leaves contracts and histories as they are. -/
@[simp]
theorem dossier_carryLease (im : Impl σ) (generation : Generation) (id : LeaseId) :
    (im.carryLease generation id).dossier = im.dossier := by
  unfold carryLease
  split
  · rfl
  · split <;> rfl

/-- A transition of the life cycle leaves contracts and histories as they are. -/
@[simp]
theorem dossier_transition (im : Impl σ) (clock : Clock) (id : VirtualAcceleratorId)
    (target : VirtualLifecycleState) (reason : Text) :
    (im.transition clock id target reason).1.dossier = im.dossier := by
  unfold transition
  split
  · rfl
  · split
    · rfl
    · dsimp only
      split
      · rw [dossier_foldl fun im lease => dossier_carryLease im _ lease]
        exact dossier_modify_virtual fun _ => rfl
      · exact dossier_modify_virtual fun _ => rfl

/-- Releasing a backing leaves contracts and histories as they are. -/
@[simp]
theorem dossier_releaseBacking (im : Impl σ) (id : BackingId) :
    (im.releaseBacking id).dossier = im.dossier := by
  unfold releaseBacking
  split <;> rfl

/-- An operation that is one transition leaves contracts and histories as they are. -/
theorem dossier_transitionAct (context : OpContext) (clock : Clock) (id : VirtualAcceleratorId)
    (target : VirtualLifecycleState) (reason : Text) {after : Impl σ → Impl σ}
    (hafter : ∀ im, (after im).dossier = im.dossier) :
    (transitionAct context clock id target reason after im).1.dossier = im.dossier := by
  have ht := dossier_transition im clock id target reason
  unfold transitionAct
  split <;> rename_i him <;> rw [him] at ht
  · exact ht
  · exact (hafter _).trans ht

/-- Revoking an assignment leaves contracts and histories as they are. -/
@[simp]
theorem dossier_revokeAssignment (im : Impl σ) (id : BackingAssignmentId) (reason : Text)
    (now : UnixMicros) : (im.revokeAssignment id reason now).dossier = im.dossier := by
  unfold revokeAssignment
  split
  · rfl
  · split <;> rfl

/-- Revoking the assignment, if there is one, leaves contracts and histories as they are. -/
theorem dossier_revokeValid (im : Impl σ) (id : BackingAssignmentId) (reason : Text)
    (now : UnixMicros) :
    (if valid id then im.revokeAssignment id reason now else im).dossier = im.dossier := by
  split
  · exact dossier_revokeAssignment im id reason now
  · rfl

/-! ### Operations that leave it alone -/

section

variable {auth : Authority} {clock : Clock}

/-- Fencing a virtual accelerator leaves contracts and histories as they are. -/
theorem dossier_fenceVirtualAct (reason : Text) (owned : Owned) :
    (fenceVirtualAct auth reason clock owned im).1.dossier = im.dossier := by
  refine (dossier_transitionAct _ clock _ _ _ dossier_recomputeDerivedAccounting).trans ?_
  exact dossier_fenceLeases im owned.virtualId _ clock.now

/-- A suspension marks the entries of the history as no longer current. -/
theorem dossier_suspendAct (reason : Text) (owned : Owned) :
    (suspendAct auth reason clock owned im).1.dossier =
      im.dossier.revise owned.virtualId fun history =>
        history.map fun entry => { entry with current := false } := by
  simp only [suspendAct]
  refine (dossier_transitionAct _ clock _ _ _ dossier_recomputeDerivedAccounting).trans ?_
  rw [dossier_rebuildProjection, dossier_revise, touchVirtual, dossier_touch,
    dossier_releaseBacking, dossier_revokeValid im _ _ clock.now]
  exact fun _ => rfl

/-- An attachment leaves contracts and histories as they are. -/
theorem dossier_attachAct (owned : Owned) :
    (attachAct auth clock owned im).1.dossier = im.dossier := by
  simp only [attachAct]
  generalize him1 : Impl.modify _ .tenant owned.tenantId _ = im1
  have hsame : im1.dossier = im.dossier := by
    rw [← him1, dossier_modify (k := .tenant) (by decide)]
    exact dossier_modify_virtual fun _ => rfl
  have htransition := (dossier_transition im1 clock owned.virtualId .attached
    (txt "tenant attached under a generation-bound lease")).trans hsame
  split
  · rename_i im2 _ him
    exact ite_fst (p := fun im' => im'.dossier = im.dossier) hsame htransition him
  · rename_i im2 him
    have hgrant : ∀ lease, (im2.grantLease lease).dossier = im2.dossier := fun _ => rfl
    rw [hgrant]
    exact ite_fst (p := fun im' => im'.dossier = im.dossier) hsame htransition him

/-- Releasing a lease leaves contracts and histories as they are. -/
theorem dossier_releaseLease (im : Impl σ) (held : Held) (reason : Text) (now : UnixMicros)
    (book : AccountingCounters → AccountingCounters) :
    (im.releaseLease held reason now book).dossier = im.dossier := by
  simp only [releaseLease, dossier_touchHeader, dossier_account]
  split
  · exact dossier_modify_virtual fun _ => rfl
  · rw [dossier_modify (k := .tenant) (by decide)]
    exact dossier_modify_virtual fun _ => rfl

/-- Detaching or revoking a lease leaves contracts and histories as they are. -/
theorem dossier_releaseLeaseAct (operation : String) (reason : Text) (lastReason : String)
    (book : AccountingCounters → AccountingCounters) (held : Held) :
    (releaseLeaseAct operation auth clock reason lastReason book held im).1.dossier =
      im.dossier := by
  have hr := dossier_releaseLease im held reason clock.now book
  simp only [releaseLeaseAct]
  generalize im.releaseLease held reason clock.now book = im1 at hr ⊢
  have htransition := (dossier_transition im1 clock held.virtualId .provisioned
    (txt lastReason)).trans hr
  split <;> rename_i him
  · exact ite_fst (p := fun im' => im'.dossier = im.dossier) htransition hr him
  · exact ite_fst (p := fun im' => im'.dossier = im.dossier) htransition hr him

/-- The cutover closes the entries of the history and opens one. -/
theorem dossier_rebindVirtual (im : Impl σ) (c : Cutover) (now : UnixMicros) :
    ∃ f, (im.rebindVirtual c now).dossier = im.dossier.revise c.virtualId f := by
  simp only [rebindVirtual]
  rw [dossier_append, dossier_rebuildProjection, dossier_revise (g := closeHistory now),
    touchVirtual, dossier_touch, Dossier.revise_revise]
  · exact ⟨_, rfl⟩
  · exact fun _ => rfl

theorem dossier_commitMigrationAct (c : Cutover) :
    ∃ f, (commitMigrationAct auth clock c im).1.dossier = im.dossier.revise c.virtualId f := by
  obtain ⟨f, hrebind⟩ := dossier_rebindVirtual im c clock.now
  refine ⟨f, ?_⟩
  simp only [commitMigrationAct, dossier_touchHeader, dossier_account]
  generalize im.rebindVirtual c clock.now = im1 at hrebind ⊢
  rw [dossier_modify (k := .migration) (by decide), touchMigration, dossier_touch]
  -- the two backings, then the two assignments
  simp only [cutoverAuthority]
  rw [dossier_modify (k := .backing) (by decide), touchBacking, dossier_touch,
    dossier_modify (k := .backing) (by decide), touchBacking, dossier_touch,
    dossier_modify (k := .assignment) (by decide), touchAssignment, dossier_touch, dossier_account,
    dossier_modify (k := .assignment) (by decide), touchAssignment, dossier_touch, hrebind]

/-- Failing the destination of a migration leaves contracts and histories as they are. -/
theorem dossier_failDestination (im : Impl σ) (id : BackingAssignmentId) (reason : Text)
    (now : UnixMicros) : (im.failDestination id reason now).dossier = im.dossier := by
  unfold failDestination
  split <;> rfl

/-- Aborting a migration leaves contracts and histories as they are. -/
theorem dossier_abortMigrationAct (reason : Text) (f : InFlight) :
    (abortMigrationAct auth reason clock f im).1.dossier = im.dossier := by
  have hfail := dossier_failDestination im f.migration.destinationAssignment
    (txt "migration aborted before cutover: " ++ reason) clock.now
  simp only [abortMigrationAct]
  generalize im.failDestination f.migration.destinationAssignment
    (txt "migration aborted before cutover: " ++ reason) clock.now = im0 at hfail ⊢
  generalize him1 : Impl.account _ _ = im1
  have hsame : im1.dossier = im.dossier := by
    rw [← him1, dossier_account, dossier_modify (k := .migration) (by decide), touchMigration,
      dossier_touch, hfail]
  have htransition := (dossier_transition im1 clock f.virtualId .provisioned
    (txt "migration aborted before cutover; the source backing remains authoritative")).trans hsame
  split
  · rename_i im2 _ him
    exact ite_fst (p := fun im' => im'.dossier = im.dossier) htransition hsame him
  · rename_i im2 him
    exact (dossier_touchHeader im2).trans
      (ite_fst (p := fun im' => im'.dossier = im.dossier) htransition hsame him)

/-- Completing a migration leaves contracts and histories as they are. -/
theorem dossier_completeMigrationAct (f : InFlight) :
    (completeMigrationAct auth clock f im).1.dossier = im.dossier := by
  simp only [completeMigrationAct]
  generalize him1 : Impl.modify _ .migration f.migrationId _ = im1
  have hsame : im1.dossier = im.dossier := by
    rw [← him1]
    rfl
  refine (dossier_modify_virtual ?_).trans hsame
  exact fun _ => rfl

/-- Preparing a migration leaves contracts and histories as they are. -/
theorem dossier_prepareMigrationAct (f : InFlight) :
    (prepareMigrationAct auth clock f im).1.dossier = im.dossier := by
  have hsame := dossier_transition im clock f.virtualId .migrating
    (txt "migration prepared; leases are drained before cutover")
  simp only [prepareMigrationAct]
  split
  · rename_i im1 drained htransition
    rw [htransition] at hsame
    exact hsame
  · rename_i im1 htransition
    rw [htransition] at hsame
    have hfence := (dossier_fenceLeases im1 f.virtualId
      (txt "migration drained the source backing; the lease is bound to the source generation")
      clock.now).trans hsame
    generalize im1.fenceLeases f.virtualId
      (txt "migration drained the source backing; the lease is bound to the source generation")
      clock.now = im2 at hfence ⊢
    exact hfence

theorem dossier_drainPrevious (im : Impl σ) (id : VirtualAcceleratorId)
    (value : VirtualAcceleratorRecord) (now : UnixMicros) :
    (im.drainPrevious id value now).dossier = im.dossier.revise id (closeHistory now) := by
  simp only [drainPrevious, dossier_fenceLeases]
  rw [dossier_revise, touchVirtual, dossier_touch, dossier_releaseBacking]
  · congr 1
    split <;> rfl
  · exact fun _ => rfl

/-- An assignment opens an entry of the history, and a replacement closes the others before. -/
theorem dossier_assignBackingAct {operation : String} {backingId : BackingId} {replacing : Bool}
    {reason : Text} (plan : Owned × BackingRecord) : ∃ f,
    (assignBackingAct operation auth backingId replacing reason clock plan im).1.dossier =
      im.dossier.revise plan.1.virtualId f := by
  obtain ⟨owned, backing⟩ := plan
  simp only [assignBackingAct]
  generalize him1 : (if replacing then im.drainPrevious owned.virtualId owned.record clock.now
    else im) = im1
  have hdrained : ∃ f, im1.dossier = im.dossier.revise owned.virtualId f := by
    rw [← him1]
    split
    · exact ⟨_, dossier_drainPrevious ..⟩
    · exact ⟨id, by simp [Dossier.revise]⟩
  obtain ⟨f, hf⟩ := hdrained
  rw [dossier_touchHeader, dossier_account, dossier_modify (k := .backing) (by decide),
    touchBacking, dossier_touch, dossier_put (k := .assignment) (by decide), touchAssignment,
    dossier_touch, dossier_append, dossier_rebuildProjection, dossier_modify_virtual, touchVirtual,
    dossier_touch, dossier_takeId, hf, Dossier.revise_revise]
  · exact ⟨_, rfl⟩
  · exact fun _ => rfl

/-- A retirement closes the entries of the history. -/
theorem dossier_retireVirtualAct (owned : Owned) (reason : Text) :
    (retireVirtualAct auth reason clock owned im).1.dossier =
      im.dossier.revise owned.virtualId (closeHistory clock.now) := by
  simp only [retireVirtualAct]
  have hfence := dossier_fenceLeases im owned.virtualId (txt "virtual accelerator retired")
    clock.now
  generalize im.fenceLeases owned.virtualId (txt "virtual accelerator retired") clock.now = im1
    at hfence ⊢
  generalize him3 : Impl.modify _ .tenant owned.record.owner _ = im3
  have hstrike : im3.dossier = im.dossier := by
    rw [← him3, dossier_modify (k := .tenant) (by decide), touchTenant, dossier_touch]
    exact hfence
  have hrevoke := (dossier_revokeValid im3 owned.record.assignment
    (txt "virtual accelerator retired") clock.now).trans hstrike
  generalize (if valid owned.record.assignment then im3.revokeAssignment owned.record.assignment
    (txt "virtual accelerator retired") clock.now else im3) = im4 at hrevoke ⊢
  have hrelease := (dossier_releaseBacking im4 owned.record.backing).trans hrevoke
  generalize im4.releaseBacking owned.record.backing = im5 at hrelease ⊢
  refine (dossier_transitionAct _ clock _ _ _ fun im6 => ?_).trans ?_
  · rw [dossier_recomputeDerivedAccounting, dossier_account]
  · rw [dossier_rebuildProjection, dossier_revise, touchVirtual, dossier_touch, hrelease]
    exact fun _ => rfl

/-- The book-keeping of a virtual accelerator. -/
theorem dossier_use {id x : VirtualAcceleratorId}
    {f : VirtualAcceleratorRecord → VirtualAcceleratorRecord}
    (h : ∀ v, (f v).filed = v.filed) {g : AccountingCounters → AccountingCounters} :
    (((im.touchVirtual id).modify .virtual x f).account g).touchHeader.dossier = im.dossier := by
  rw [dossier_touchHeader, dossier_account, dossier_modify_virtual h]
  rfl

/-- Reserving memory leaves contracts and histories as they are. -/
theorem dossier_reserveAllocationAct {bytes : ℕ} (plan : Owned × LeaseRecord) :
    (reserveAllocationAct auth bytes plan im).1.dossier = im.dossier := by
  simp only [reserveAllocationAct]
  refine dossier_use ?_
  exact fun _ => rfl

/-- Releasing memory leaves contracts and histories as they are. -/
theorem dossier_releaseAllocationAct {bytes : ℕ}
    (target : VirtualAcceleratorId × VirtualAcceleratorRecord) :
    (releaseAllocationAct auth bytes target im).1.dossier = im.dossier := by
  simp only [releaseAllocationAct]
  refine dossier_use ?_
  exact fun _ => rfl

/-- Counting kernels leaves contracts and histories as they are. -/
theorem dossier_accountKernelAct {count : ℕ} (plan : Owned × LeaseRecord) :
    (accountKernelAct auth count plan im).1.dossier = im.dossier := by
  simp only [accountKernelAct]
  refine dossier_use ?_
  exact fun _ => rfl

/-- Planning a migration leaves contracts and histories as they are. -/
theorem dossier_planMigrationAct {destination : BackingId} {klass : MigrationClass}
    (plan : Owned × BackingRecord) :
    (planMigrationAct auth destination klass clock plan im).1.dossier = im.dossier := by
  obtain ⟨owned, backing⟩ := plan
  simp only [planMigrationAct]
  rw [dossier_touchHeader, dossier_account, dossier_put (k := .migration) (by decide),
    touchMigration, dossier_touch, dossier_modify_virtual]
  · rfl
  · exact fun _ => rfl

/-! ### Tenants -/

/-- Fencing what a tenant owns leaves contracts and histories as they are. -/
theorem dossier_fenceOwned (im : Impl σ) (tenant : TenantId) (generation : Generation)
    (now : UnixMicros) (id : VirtualAcceleratorId) :
    (im.fenceOwned tenant generation now id).dossier = im.dossier := by
  unfold fenceOwned
  split
  · rfl
  · dsimp only
    rw [dossier_modify_virtual fun v => ?_, dossier_fenceLeases, dossier_modify_virtual,
      touchVirtual, dossier_touch]
    · exact fun _ => rfl
    · split <;> rfl

/-- Fencing a tenant leaves contracts and histories as they are. -/
theorem dossier_fenceTenantAct (id : TenantId) (reason : Text) (tenant : TenantRecord) :
    (fenceTenantAct auth id reason clock tenant im).1.dossier = im.dossier := by
  simp only [fenceTenantAct, dossier_recomputeDerivedAccounting]
  rw [dossier_modify (k := .tenant) (by decide),
    dossier_foldl fun im1 x => dossier_fenceOwned im1 id _ _ x]
  rfl

/-- A transfer leaves contracts and histories as they are. -/
theorem dossier_transferOwnershipAct (newOwner : TenantId) (t : Transfer) :
    (transferOwnershipAct auth newOwner clock t im).1.dossier = im.dossier := by
  simp only [transferOwnershipAct]
  rw [dossier_modify_virtual fun v => ?_, touchVirtual, dossier_touch, touchTenant, dossier_touch,
    dossier_modify (k := .tenant) (by decide), touchTenant, dossier_touch,
    dossier_modify (k := .tenant) (by decide), dossier_fenceLeases]
  split <;> rfl

/-! ### Devices -/

/-- Describing a device leaves contracts and histories as they are. -/
theorem dossier_describeDevice (im : Impl σ) (agent : AgentId) (boot : AgentBootId)
    (d : PhysicalDeviceDescriptor) (now : UnixMicros) :
    (im.describeDevice agent boot d now).1.dossier = im.dossier := by
  have hlocate : (im.locateDevice d).1.dossier = im.dossier := by
    unfold locateDevice
    split
    · rfl
    · dsimp only
      split <;> rfl
  simp only [describeDevice]
  generalize im.locateDevice d = located at hlocate ⊢
  exact hlocate

/-- Materialising a backing leaves contracts and histories as they are. -/
theorem dossier_materializeBacking (key : PhysicalDeviceId) (device : PhysicalDeviceRecord)
    (now : UnixMicros) (im : Impl σ) (source : BackingDescriptor) :
    (im.materializeBacking key device now source).dossier = im.dossier := by
  unfold materializeBacking
  split <;> rfl

/-- Refreshing a backing leaves contracts and histories as they are. -/
theorem dossier_refreshBacking (device : PhysicalDeviceRecord) (now : UnixMicros) (im : Impl σ)
    (id : BackingId) : (im.refreshBacking device now id).dossier = im.dossier := by
  unfold refreshBacking
  split <;> rfl

/-- Invalidating a backing leaves contracts and histories as they are. -/
theorem dossier_invalidateBacking (now : UnixMicros) (im : Impl σ) (id : BackingId) :
    (im.invalidateBacking now id).dossier = im.dossier := by
  have hholder : ∀ (im1 : Impl σ) x, (im1.invalidateHolder now x).dossier = im1.dossier := by
    intro im1 x
    unfold invalidateHolder
    split
    · rfl
    · split
      · exact dossier_modify_virtual fun _ => rfl
      · rfl
  have hbinding : ∀ g, (im.invalidateBinding now g).dossier = im.dossier := by
    intro g
    unfold invalidateBinding
    split
    · rfl
    · split
      · rw [hholder, dossier_revokeAssignment]
      · rfl
  unfold invalidateBacking
  split
  · rfl
  · rw [dossier_modify (k := .backing) (by decide), touchBacking, dossier_touch, hbinding]

/-- Registering a device leaves contracts and histories as they are. -/
theorem dossier_registerPhysicalAct {agent : AgentId} {boot : AgentBootId}
    {d : PhysicalDeviceDescriptor} :
    (registerPhysicalAct auth agent boot d clock () im).1.dossier = im.dossier := by
  have hdescribed := dossier_describeDevice im agent boot d clock.now
  simp only [registerPhysicalAct, settleBackings, dossier_touchHeader, dossier_account]
  generalize im.describeDevice agent boot d clock.now = described at hdescribed ⊢
  obtain ⟨im1, key, changed⟩ := described
  rw [← hdescribed]
  split
  · rw [dossier_foldl fun im1 id => dossier_invalidateBacking clock.now im1 id,
      dossier_foldl (dossier_materializeBacking key _ clock.now)]
  · rw [dossier_foldl (dossier_refreshBacking _ clock.now),
      dossier_foldl (dossier_materializeBacking key _ clock.now)]

/-- Losing a backing leaves contracts and histories as they are. -/
theorem dossier_loseBacking (im : Impl σ) (reason : Text) (now : UnixMicros) (id : BackingId) :
    (im.loseBacking reason now id).dossier = im.dossier := by
  unfold loseBacking
  split
  · rfl
  · rename_i b hb
    dsimp only
    split
    · rfl
    · split
      · rfl
      · rename_i v hv
        rw [dossier_modify (k := .backing) (by decide), dossier_revokeValid, dossier_fenceLeases]
        unfold interruptHolder
        dsimp only
        split
        · refine (dossier_modify_virtual ?_).trans rfl
          exact fun _ => rfl
        · rfl

/-- Recounting the attachments of a tenant leaves contracts and histories as they are. -/
theorem dossier_recountTenant (im : Impl σ) (now : UnixMicros) (id : TenantId) :
    (im.recountTenant now id).dossier = im.dossier := by
  unfold recountTenant
  split
  · rfl
  · dsimp only
    split <;> rfl

/-- Losing a device leaves contracts and histories as they are. -/
theorem dossier_physicalLostAct {id : PhysicalDeviceId} {generation : Generation} {reason : Text}
    {device : PhysicalDeviceRecord} :
    (physicalLostAct id generation reason clock device im).1.dossier = im.dossier := by
  simp only [physicalLostAct, dossier_touchHeader, dossier_recomputeDerivedAccounting,
    dossier_account]
  rw [dossier_foldl fun im1 t => dossier_recountTenant im1 clock.now t,
    dossier_foldl fun im1 b => dossier_loseBacking im1 reason clock.now b]
  rfl

/-! ### What submits something -/

/-- A policy is set, and the contracts stay. -/
theorem dossier_setPolicyAct (policy : VirtualizationPolicy) :
    (setPolicyAct auth clock policy im).1.dossier =
      { im.dossier with
        demands := { im.demands with
          policy := im.nextPolicy policy
          generation := im.state.policyGeneration + 1 } } := by
  -- none of the sweeps touches what is filed
  have hlease : ∀ (updated : VirtualizationPolicy) (im1 : Impl σ) (id : LeaseId),
      (im1.supersedeLease updated clock.now id).dossier = im1.dossier := by
    intro updated im1 id
    unfold supersedeLease
    split
    · rfl
    · split <;> rfl
  have hvirtual : ∀ (updated : VirtualizationPolicy) (im1 : Impl σ) (id : VirtualAcceleratorId),
      (im1.revalidateVirtual updated clock.now id).dossier = im1.dossier := by
    intro updated im1 id
    unfold revalidateVirtual
    split
    · rfl
    · split
      · rfl
      · have hdetach : ∀ v : VirtualAcceleratorRecord,
            (detachForPolicy updated clock.now v).filed = v.filed := by
          intro v
          simp only [detachForPolicy]
          split <;> rfl
        dsimp only
        rw [dossier_rebuildProjection]
        split
        · exact dossier_modify_virtual hdetach
        · simp only [withdrawBacking]
          rw [dossier_modify_virtual, dossier_modify (k := .backing) (by decide), touchBacking,
            dossier_touch, dossier_revokeValid]
          · exact dossier_modify_virtual hdetach
          · exact fun _ => rfl
  have htenant : ∀ (im1 : Impl σ) (id : TenantId),
      (im1.clearAttachments clock.now id).dossier = im1.dossier := by
    intro im1 id
    unfold clearAttachments
    split
    · rfl
    · split <;> rfl
  rw [setPolicyAct_eq]
  dsimp only
  rw [dossier_touchHeader, dossier_recomputeDerivedAccounting, dossier_foldl htenant,
    dossier_foldl (hvirtual _), superseded, dossier_foldl (hlease _)]
  rfl

/-- A virtual accelerator comes with its contract, and with no history. -/
theorem dossier_createVirtualAct (name : Text) (owner : TenantId) (ownerGeneration : Generation)
    (contract : ResourceContract) (tenant : TenantRecord) :
    (createVirtualAct auth name owner ownerGeneration contract clock tenant im).1.dossier =
      ⟨im.demands.write im.nextId
        { contract.normalize im.options.sorting with id := im.takeId.nextId, generation := 1 },
        Function.update im.dossier.history im.nextId (some [])⟩ := by
  simp only [createVirtualAct, dossier_touchHeader, dossier_account]
  rw [dossier_modify (k := .tenant) (by decide), touchTenant, dossier_touch]
  exact dossier_put_virtual

/-- A new contract is refused, or it replaces the one there is. -/
theorem dossier_updateContractAct {contract : ResourceContract} {owned : Owned}
    (h : owned.Current im.state) :
    ((∃ refusal, (updateContractAct auth contract clock owned im).2 = .error refusal) ∧
      (updateContractAct auth contract clock owned im).1.dossier = im.dossier) ∨
    ∃ accepted id,
      (updateContractAct auth contract clock owned im).2 = .ok accepted ∧
      (updateContractAct auth contract clock owned im).1.dossier =
        { im.dossier with
          demands := im.demands.write owned.virtualId { contract.normalize im.options.sorting with
            id, generation := (contract.generation + 1) % 2 ^ 64 } } := by
  have hprobe :
    (im.probeContract owned.record (contract.normalize im.options.sorting)).1.state.dossier =
        im.state.dossier ∧
      (im.probeContract owned.record (contract.normalize im.options.sorting)).1.state.virtuals =
        im.state.virtuals := by
    unfold probeContract
    split <;> exact ⟨rfl, rfl⟩
  simp only [updateContractAct]
  split
  · rename_i im1 status him
    rw [him] at hprobe
    exact .inl ⟨⟨_, rfl⟩, hprobe.1⟩
  · rename_i im1 him
    rw [him] at hprobe
    obtain ⟨hsame, hvirtuals⟩ := hprobe
    refine .inr ⟨_, im1.nextId, rfl, ?_⟩
    rw [dossier_rebuildProjection]
    refine (dossier_rewrite ?_ fun _ => rfl).trans (congrArg₂ Dossier.mk ?_ ?_)
    · change (im1.state.virtuals[owned.virtualId]?).isSome
      rw [hvirtuals, h.virtual]
      rfl
    · exact congrArg (Demands.write · owned.virtualId _) (congrArg Dossier.demands hsame)
    · exact congrArg Dossier.history hsame

/-! ### Recovery and restart -/

/-- Classifying a migration after a restart leaves contracts and histories as they are. -/
theorem dossier_classifyMigration (now : UnixMicros) (acc : Impl σ × Bool) (key : MigrationId) :
    (classifyMigration now acc key).1.dossier = acc.1.dossier := by
  have hfail : ∀ (im1 : Impl σ) g, (im1.failRecovered now g).dossier = im1.dossier := by
    intro im1 g
    unfold failRecovered
    split
    · rfl
    · split <;> rfl
  simp only [classifyMigration]
  split
  · rfl
  · split
    · rfl
    · split
      · rfl
      · split
        · rfl
        · unfold abortRecovered
          refine (dossier_modify_virtual ?_).trans (hfail _ _)
          exact fun v => by split <;> rfl

/-- Classifying the migrations after a restart leaves contracts and histories as they are. -/
theorem dossier_classified (im : Impl σ) (now : UnixMicros) :
    (im.classified now).1.dossier = im.dossier := by
  unfold classified
  exact foldl_unchanged (f := fun acc : Impl σ × Bool => acc.1.dossier)
    (dossier_classifyMigration now) _ _

/-- Ending a lease leaves contracts and histories as they are. -/
theorem dossier_endLease (ended : LeaseState) (reason : Text) (now : UnixMicros) (im : Impl σ)
    (id : LeaseId) : (im.endLease ended reason now id).dossier = im.dossier := by
  unfold endLease
  split
  · rfl
  · split <;> rfl

/-- Releasing the attachments of a virtual accelerator leaves contracts and histories as they
are. -/
theorem dossier_releaseAttachments (reason : Text) (now : UnixMicros) (im : Impl σ)
    (id : VirtualAcceleratorId) :
    (im.releaseAttachments reason now id).dossier = im.dossier := by
  unfold releaseAttachments
  split
  · rfl
  · rename_i v hv
    have hcount : (if v.activeAttachments ≠ 0 then
        (im.touchVirtual v.id).modify .virtual id fun v => { v with activeAttachments := 0 }
      else im).dossier = im.dossier := by
      split
      · exact dossier_modify_virtual fun _ => rfl
      · rfl
    dsimp only
    split
    · refine (dossier_modify_virtual ?_).trans hcount
      exact fun _ => rfl
    · exact hcount

/-- Releasing the attachments of a tenant leaves contracts and histories as they are. -/
theorem dossier_releaseTenant (updated : Option UnixMicros) (im : Impl σ) (id : TenantId) :
    (im.releaseTenant updated id).dossier = im.dossier := by
  unfold releaseTenant
  split
  · rfl
  · split <;> rfl

/-- Distrusting a backing after a restart leaves contracts and histories as they are. -/
theorem dossier_distrustBacking (im : Impl σ) (id : BackingId) :
    (im.distrustBacking id).dossier = im.dossier := by
  unfold distrustBacking
  split <;> rfl

/-- Distrusting a device after a restart leaves contracts and histories as they are. -/
theorem dossier_distrustPhysical (im : Impl σ) (id : PhysicalDeviceId) :
    (im.distrustPhysical id).dossier = im.dossier := by
  unfold distrustPhysical
  split <;> rfl

/-- Dropping local authority leaves contracts and histories as they are. -/
theorem dossier_dropLocalAuthority (im : Impl σ) (now : UnixMicros) :
    (im.dropLocalAuthority now).dossier = im.dossier := by
  rw [dropLocalAuthority, dossier_touchHeader, dossier_recomputeDerivedAccounting]
  generalize h1 : im.state.leases.keys.foldl _ im = i1
  generalize h2 : i1.state.virtuals.keys.foldl _ i1 = i2
  generalize h3 : i2.state.tenants.keys.foldl _ i2 = i3
  generalize h4 : i3.state.backings.keys.foldl _ i3 = i4
  change (i4.state.physical.keys.foldl distrustPhysical i4).dossier = im.dossier
  rw [dossier_foldl dossier_distrustPhysical, ← h4, dossier_foldl dossier_distrustBacking, ← h3,
    dossier_foldl (dossier_releaseTenant _), ← h2,
    dossier_foldl (dossier_releaseAttachments _ _), ← h1, dossier_foldl (dossier_endLease _ _ _)]

theorem dossier_record (im : Impl σ) (clock : Clock) (context : OpContext) (outcome : StatusCode)
    (reason : Text) (kind : AuditKind) :
    (im.record clock context outcome reason kind).dossier = im.dossier := rfl

/-- A shutdown, before it commits, leaves contracts and histories as they are. -/
theorem dossier_shutdownBody (clock : Clock) : (im.shutdownBody clock).dossier = im.dossier := by
  rw [shutdownBody, dossier_record, dossier_touchHeader, dossier_recomputeDerivedAccounting,
    dossier_foldl (dossier_releaseTenant _), dossier_foldl (dossier_releaseAttachments _ _),
    dossier_foldl (dossier_endLease _ _ _)]

theorem dossier_startBody (clock : Clock) (recovered : Bool) :
    (im.startBody clock recovered).dossier = (im.enterEpoch recovered).dossier := by
  simp only [startBody]
  generalize im.enterEpoch recovered = i
  split
  · rw [dossier_record, dossier_dropLocalAuthority]
  · exact dossier_record ..

/-- A start leaves the histories alone. -/
theorem history_startBody (clock : Clock) (recovered : Bool) :
    (im.startBody clock recovered).dossier.history = im.dossier.history := by
  rw [dossier_startBody]
  simp only [enterEpoch]
  split
  · rfl
  · split <;> rfl

/-! ### What is asked, by itself -/

/-- A transition of the life cycle leaves what is demanded as it is. -/
theorem demands_transition (im : Impl σ) (clock : Clock) (id : VirtualAcceleratorId)
    (target : VirtualLifecycleState) (reason : Text) :
    (im.transition clock id target reason).1.demands = im.demands :=
  congrArg Dossier.demands (dossier_transition im clock id target reason)

/-- Fencing the leases of a virtual accelerator leaves what is demanded as it is. -/
theorem demands_fenceLeases (im : Impl σ) (id : VirtualAcceleratorId) (reason : Text)
    (now : UnixMicros) : (im.fenceLeases id reason now).demands = im.demands :=
  congrArg Dossier.demands (dossier_fenceLeases im id reason now)

/-- Rebinding a virtual accelerator leaves what is demanded as it is. -/
theorem demands_rebindVirtual (im : Impl σ) (c : Cutover) (now : UnixMicros) :
    (im.rebindVirtual c now).demands = im.demands := by
  obtain ⟨f, hf⟩ := dossier_rebindVirtual im c now
  exact congrArg Dossier.demands hf

/-- A policy is set, and the contracts stay. -/
theorem demands_setPolicyAct (policy : VirtualizationPolicy) :
    (setPolicyAct auth clock policy im).1.demands =
      { im.demands with
        policy := im.nextPolicy policy
        generation := im.state.policyGeneration + 1 } :=
  congrArg Dossier.demands (dossier_setPolicyAct policy)

/-- A virtual accelerator comes with its contract. -/
theorem demands_createVirtualAct (name : Text) (owner : TenantId) (ownerGeneration : Generation)
    (contract : ResourceContract) (tenant : TenantRecord) :
    ∃ id generation,
      (createVirtualAct auth name owner ownerGeneration contract clock tenant im).1.demands =
        im.demands.write im.nextId { contract.normalize im.options.sorting with id, generation } :=
  ⟨_, _, congrArg Dossier.demands (dossier_createVirtualAct name owner ownerGeneration contract
    tenant)⟩

/-- A new contract is refused, or it replaces the one there is. -/
theorem demands_updateContractAct {contract : ResourceContract} {owned : Owned}
    (h : owned.Current im.state) :
    ((∃ refusal, (updateContractAct auth contract clock owned im).2 = .error refusal) ∧
      (updateContractAct auth contract clock owned im).1.demands = im.demands) ∨
    ∃ accepted id,
      (updateContractAct auth contract clock owned im).2 = .ok accepted ∧
      (updateContractAct auth contract clock owned im).1.demands =
        im.demands.write owned.virtualId { contract.normalize im.options.sorting with
          id, generation := (contract.generation + 1) % 2 ^ 64 } := by
  obtain ⟨hrefused, hsame⟩ | ⟨accepted, id, hok, hwritten⟩ :=
    @dossier_updateContractAct _ im auth clock contract owned h
  · exact .inl ⟨hrefused, congrArg Dossier.demands hsame⟩
  · exact .inr ⟨accepted, id, hok, congrArg Dossier.demands hwritten⟩

/-- Classifying a migration after a restart leaves what is demanded as it is. -/
theorem demands_classifyMigration (now : UnixMicros) (acc : Impl σ × Bool) (key : MigrationId) :
    (classifyMigration now acc key).1.demands = acc.1.demands :=
  congrArg Dossier.demands (dossier_classifyMigration now acc key)

/-- Classifying the migrations after a restart leaves what is demanded as it is. -/
theorem demands_classified (im : Impl σ) (now : UnixMicros) :
    (im.classified now).1.demands = im.demands :=
  congrArg Dossier.demands (dossier_classified im now)

/-- A shutdown, before it commits, leaves what is demanded as it is. -/
theorem demands_shutdownBody (clock : Clock) : (im.shutdownBody clock).demands = im.demands :=
  congrArg Dossier.demands (dossier_shutdownBody clock)

/-- A start sets the default policy if there is none. -/
theorem demands_startBody (clock : Clock) (recovered : Bool) :
    (im.startBody clock recovered).demands.contract = im.demands.contract ∧
      (valid im.state.policyGeneration = true →
        (im.startBody clock recovered).demands.generation = im.demands.generation ∧
        (im.startBody clock recovered).demands.policy.requiredIsolation =
          im.demands.policy.requiredIsolation) := by
  have hsame : (im.startBody clock recovered).demands = (im.enterEpoch recovered).demands :=
    congrArg Dossier.demands (dossier_startBody clock recovered)
  rw [hsame]
  simp only [enterEpoch]
  split
  · rename_i hinvalid
    exact ⟨rfl, fun hvalid => by simp [hvalid] at hinvalid⟩
  · split
    · exact ⟨rfl, fun _ => ⟨rfl, rfl⟩⟩
    · exact ⟨rfl, fun _ => ⟨rfl, rfl⟩⟩

end

end Impl

/-! ### Every body -/

/-- Whether an operation submits a policy or a contract. -/
def Op.submits : Op → Bool
  | .setPolicy .. | .createVirtual .. | .updateContract .. => true
  | _ => false

/-- Whether an operation revises the history of a virtual accelerator. -/
def Op.revises : Op → Bool
  | .suspend .. | .retireVirtual .. | .assignBacking .. | .replaceBacking ..
  | .commitMigration .. =>
    true
  | _ => false

namespace Impl

variable {σ : Type} {im : Impl σ} {clock : Clock} {op : Op} {b : Body σ Unit}

theorem dossier_checked {π α : Type} {context : Impl σ → OpContext} {kind : AuditKind}
    {check : Impl σ → Except Status π} {act : π → Body σ α}
    (hact : ∀ plan, (act plan im).1.dossier = im.dossier) :
    (checked (fun im => orRefuse (context im) kind (check im)) act im).1.dossier = im.dossier :=
  fst_checked (p := fun im' : Impl σ => im'.dossier = im.dossier) rfl fun plan _ => hact plan

theorem dossier_forget {α : Type} {body : Body σ α} (h : (body im).1.dossier = im.dossier) :
    (body.forget im).1.dossier = im.dossier := h

/-- The operations that submit nothing and revise no history leave both alone. -/
theorem dossier_body (hb : body clock op = some b) (hs : op.submits = false)
    (hr : op.revises = false) : (b im).1.dossier = im.dossier := by
  cases op <;> simp only [body, Option.some.injEq, reduceCtorEq, Op.submits, Op.revises]
    at hb hs hr <;> subst hb
  case registerPhysical =>
    exact dossier_forget (dossier_checked fun _ => dossier_registerPhysicalAct)
  case physicalLost => exact dossier_checked fun _ => dossier_physicalLostAct
  case createTenant => exact dossier_forget (dossier_checked fun _ => rfl)
  case fenceTenant => exact dossier_checked fun _ => dossier_fenceTenantAct ..
  case transferOwnership =>
    exact dossier_forget (dossier_checked fun _ => dossier_transferOwnershipAct ..)
  case activate | resume =>
    exact dossier_forget (dossier_checked fun _ =>
      dossier_transitionAct _ _ _ _ _ dossier_recomputeDerivedAccounting)
  case drain | resolveRecovery =>
    exact dossier_forget (dossier_checked fun _ => dossier_transitionAct _ _ _ _ _ fun _ => rfl)
  case fenceVirtual => exact dossier_forget (dossier_checked fun _ => dossier_fenceVirtualAct ..)
  case attach => exact dossier_forget (dossier_checked fun _ => dossier_attachAct _)
  case renewLease => exact dossier_forget (dossier_checked fun _ => rfl)
  case detach | revokeLease => exact dossier_checked fun _ => dossier_releaseLeaseAct ..
  case planMigration =>
    exact dossier_forget (dossier_checked fun plan => dossier_planMigrationAct plan)
  case prepareMigration =>
    exact dossier_forget (dossier_checked fun _ => dossier_prepareMigrationAct _)
  case completeMigration =>
    exact dossier_forget (dossier_checked fun _ => dossier_completeMigrationAct _)
  case abortMigration =>
    exact dossier_forget (dossier_checked fun _ => dossier_abortMigrationAct ..)
  case reserveAllocation =>
    exact dossier_forget (dossier_checked fun plan => dossier_reserveAllocationAct plan)
  case releaseAllocation => exact dossier_checked fun target => dossier_releaseAllocationAct target
  case accountKernel => exact dossier_checked fun plan => dossier_accountKernelAct plan

/-- A suspension, a retirement, a binding or a cutover revises one history at most. -/
theorem dossier_body_of_revises (hb : body clock op = some b) (hr : op.revises = true) :
    ∃ id f, (b im).1.dossier = im.dossier.revise id f := by
  have hsame : ∃ id f, im.dossier = im.dossier.revise id f := ⟨0, id, by simp [Dossier.revise]⟩
  have hchecked : ∀ {π α : Type} {context : Impl σ → OpContext} {kind : AuditKind}
      {check : Impl σ → Except Status π} {act : π → Body σ α},
      (∀ plan, ∃ id f, (act plan im).1.dossier = im.dossier.revise id f) → ∃ id f,
      (checked (fun im => orRefuse (context im) kind (check im)) act im).1.dossier =
        im.dossier.revise id f := fun hact =>
    fst_checked (p := fun im' : Impl σ => ∃ id f, im'.dossier = im.dossier.revise id f) hsame
      fun plan _ => hact plan
  cases op <;> simp only [body, Option.some.injEq, reduceCtorEq, Op.revises] at hb hr <;> subst hb
  case suspend => exact hchecked fun owned => ⟨_, _, dossier_suspendAct _ owned⟩
  case retireVirtual => exact hchecked fun owned => ⟨_, _, dossier_retireVirtualAct owned _⟩
  case assignBacking | replaceBacking =>
    exact hchecked fun plan => ⟨_, dossier_assignBackingAct plan⟩
  case commitMigration => exact hchecked fun c => ⟨_, dossier_commitMigrationAct c⟩

/-- Only the operations that submit something change what is asked. -/
theorem demands_body (hb : body clock op = some b) (hop : op.submits = false) :
    (b im).1.demands = im.demands := by
  cases hr : op.revises with
  | false => exact congrArg Dossier.demands (dossier_body hb hop hr)
  | true =>
    obtain ⟨id, f, hf⟩ := dossier_body_of_revises hb hr
    exact congrArg Dossier.demands hf

end Impl

end AcceleratorVirtualization
