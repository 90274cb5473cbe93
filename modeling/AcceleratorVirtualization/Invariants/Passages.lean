import AcceleratorVirtualization.Lib.Handover
import AcceleratorVirtualization.Invariants.BookResets

/-!
# Assignments and migrations as hand-overs

An assignment is prepared for a migration, active while it has authority, and ended after that.
The states of a migration that its protocol visits are the stages of a hand-over. Every operation
is a run of steps of the library, and most are none; an operation that finds a migration whose
plan is current finds its virtual accelerator migrating, which is why a commit ends no lease.
-/

namespace AcceleratorVirtualization

open VirtualizationState Handover

/-! ### The view -/

/-- How far an assignment has come. -/
def BackingAssignment.stage (a : BackingAssignment) : Stage :=
  if a.authoritative then .active else if a.state = .prepared then .prepared else .ended

/-- How far a migration has come. -/
def MigrationState.progress : MigrationState → Progress
  | .planned => .planned
  | .commitReady => .ready
  | .committed => .done
  | .completed => .completed
  | .aborted => .aborted
  | _ => .stray

/-- What a migration is to the library of passages. -/
def MigrationRecord.toPassage (m : MigrationRecord) : Passage ℕ ℕ :=
  ⟨m.plan.virtualId, m.sourceAssignment, ref m.destinationAssignment, m.plan.virtualGeneration,
    m.state.progress⟩

/-- How far assignments and migrations have come. -/
def VirtualizationState.register (s : VirtualizationState) : Register ℕ ℕ ℕ where
  stage id := s.assignments[id]?.map (·.stage)
  passage id := s.migrations[id]?.map (·.toPassage)

namespace Impl

variable {σ : Type} (im : Impl σ)

/-- The register of the state of a runtime. -/
def register : Register ℕ ℕ ℕ := im.state.register

/-- A run of steps of the register. -/
abbrev Passes (enters leaves : Passage ℕ ℕ → Prop) (im im' : Impl σ) : Prop :=
  Register.Steps enters leaves im.register im'.register

variable {im} {im1 im' : Impl σ} {enters leaves : Passage ℕ ℕ → Prop}

theorem Passes.of_register (h : im'.register = im.register) : Passes enters leaves im im' := by
  rw [Passes, h]

theorem Passes.congr {j : Impl σ} (h : Passes enters leaves im j) (hr : im'.register = j.register) :
    Passes enters leaves im im' := by
  rw [Passes, hr]
  exact h

/-- The maps that decide the register. -/
theorem register_congr (ha : im'.state.assignments = im.state.assignments)
    (hm : im'.state.migrations = im.state.migrations) : im'.register = im.register := by
  simp only [register, VirtualizationState.register, ha, hm]

theorem stage_of_assignment {id : ℕ} {a : BackingAssignment}
    (h : im.state.assignments[id]? = some a) : im.register.stage id = some a.stage := by
  simp [register, VirtualizationState.register, h]

theorem passage_of_migration {id : ℕ} {m : MigrationRecord}
    (h : im.state.migrations[id]? = some m) : im.register.passage id = some m.toPassage := by
  simp [register, VirtualizationState.register, h]

/-! ### Changes of the view -/

@[simp]
theorem register_touch (im : Impl σ) (k : RecordKind) (id : ℕ) :
    (im.touch k id).register = im.register := rfl

@[simp]
theorem register_takeId (im : Impl σ) : im.takeId.register = im.register := rfl

@[simp]
theorem register_touchHeader (im : Impl σ) : im.touchHeader.register = im.register := rfl

@[simp]
theorem register_account (im : Impl σ) (f : AccountingCounters → AccountingCounters) :
    (im.account f).register = im.register := rfl

@[simp]
theorem register_modify_virtual {id : ℕ} {f : VirtualAcceleratorRecord → VirtualAcceleratorRecord} :
    (im.modify .virtual id f).register = im.register := rfl

@[simp]
theorem register_modify_backing {id : ℕ} {f : BackingRecord → BackingRecord} :
    (im.modify .backing id f).register = im.register := rfl

@[simp]
theorem register_modify_tenant {id : ℕ} {f : TenantRecord → TenantRecord} :
    (im.modify .tenant id f).register = im.register := rfl

@[simp]
theorem register_modify_lease {id : ℕ} {f : LeaseRecord → LeaseRecord} :
    (im.modify .lease id f).register = im.register := rfl

@[simp]
theorem register_modify_physical {id : ℕ} {f : PhysicalDeviceRecord → PhysicalDeviceRecord} :
    (im.modify .physical id f).register = im.register := rfl

@[simp]
theorem register_put_lease {id : ℕ} {l : LeaseRecord} :
    (im.put .lease id l).register = im.register := rfl

@[simp]
theorem register_put_virtual {id : ℕ} {v : VirtualAcceleratorRecord} :
    (im.put .virtual id v).register = im.register := rfl

@[simp]
theorem register_put_evidence {id : ℕ} {e : EvidenceRecord} :
    (im.put .evidence id e).register = im.register := rfl

@[simp]
theorem register_emplace_tenant {id : ℕ} {t : TenantRecord} :
    (im.emplace .tenant id t).register = im.register := rfl

@[simp]
theorem register_emplace_physical {id : ℕ} {p : PhysicalDeviceRecord} :
    (im.emplace .physical id p).register = im.register := rfl

@[simp]
theorem register_emplace_backing {id : ℕ} {b : BackingRecord} :
    (im.emplace .backing id b).register = im.register := rfl

@[simp]
theorem register_rebuildProjection (im : Impl σ) (id : VirtualAcceleratorId) :
    (im.rebuildProjection id).register = im.register := rfl

@[simp]
theorem register_recomputeDerivedAccounting (im : Impl σ) :
    im.recomputeDerivedAccounting.register = im.register := rfl

/-- A change of an assignment. -/
theorem register_modify_assignment {i : Impl σ} {id : ℕ} {a : BackingAssignment}
    (h : i.state.assignments[id]? = some a) (f : BackingAssignment → BackingAssignment) :
    (i.modify .assignment id f).register = i.register.put id (f a).stage := by
  simp only [register, VirtualizationState.register, Impl.modify, VirtualizationState.modify,
    setEntities, entities, Register.put]
  congr 1
  funext id'
  rw [Std.ExtTreeMap.getElem?_modify]
  by_cases hid : id' = id
  · subst hid
    simp [h]
  · rw [Function.update_of_ne hid, if_neg (by simpa using Ne.symm hid)]

/-- A change of an assignment to a stage, as the view sees it. -/
theorem register_restage {id : ℕ} {s t : Stage} {f : BackingAssignment → BackingAssignment}
    (hs : im.register.stage id = some s) (h : ∀ a, (f a).stage = t) :
    (im.modify .assignment id f).register = im.register.put id t := by
  obtain ⟨a, ha, -⟩ := Option.map_eq_some_iff.mp hs
  rw [register_modify_assignment ha, h]

/-- A new assignment. -/
theorem register_put_assignment {id : ℕ} {a : BackingAssignment} :
    (im.put .assignment id a).register = im.register.put id a.stage := by
  simp only [register, VirtualizationState.register, Impl.put, VirtualizationState.put,
    setEntities, entities, Register.put]
  congr 1
  funext id'
  rw [Std.ExtTreeMap.getElem?_insert]
  by_cases hid : id' = id
  · subst hid
    simp
  · rw [Function.update_of_ne hid, if_neg (by simpa using Ne.symm hid)]

/-- A change of a migration. -/
theorem register_modify_migration {id : ℕ} {m : MigrationRecord}
    (h : im.state.migrations[id]? = some m) (f : MigrationRecord → MigrationRecord) :
    (im.modify .migration id f).register = im.register.enter id (f m).toPassage := by
  simp only [register, VirtualizationState.register, Impl.modify, VirtualizationState.modify,
    setEntities, entities, Register.enter]
  congr 1
  funext id'
  rw [Std.ExtTreeMap.getElem?_modify]
  by_cases hid : id' = id
  · subst hid
    simp [h]
  · rw [Function.update_of_ne hid, if_neg (by simpa using Ne.symm hid)]

/-- A change of a migration, as the view sees it. -/
theorem register_advance {id : ℕ} {v w : Passage ℕ ℕ} {f : MigrationRecord → MigrationRecord}
    (hv : im.register.passage id = some v) (h : ∀ m, m.toPassage = v → (f m).toPassage = w) :
    (im.modify .migration id f).register = im.register.enter id w := by
  obtain ⟨m, hm, rfl⟩ := Option.map_eq_some_iff.mp hv
  rw [register_modify_migration hm, h m rfl]

/-- A new migration. -/
theorem register_put_migration {id : ℕ} {m : MigrationRecord} :
    (im.put .migration id m).register = im.register.enter id m.toPassage := by
  simp only [register, VirtualizationState.register, Impl.put, VirtualizationState.put,
    setEntities, entities, Register.enter]
  congr 1
  funext id'
  rw [Std.ExtTreeMap.getElem?_insert]
  by_cases hid : id' = id
  · subst hid
    simp
  · rw [Function.update_of_ne hid, if_neg (by simpa using Ne.symm hid)]

/-! ### Helpers -/

/-- Fencing a lease leaves the register as it is. -/
@[simp]
theorem register_fenceLease (im : Impl σ) (reason : Text) (now : UnixMicros) (id : LeaseId) :
    (im.fenceLease reason now id).register = im.register := by
  unfold fenceLease
  split
  · rfl
  · split <;> rfl

/-- Fencing the leases of a virtual accelerator leaves the register as it is. -/
@[simp]
theorem register_fenceLeases (im : Impl σ) (id : VirtualAcceleratorId) (reason : Text)
    (now : UnixMicros) : (im.fenceLeases id reason now).register = im.register := by
  unfold fenceLeases
  split
  · rfl
  · rename_i record hr
    have hl : (record.leases.foldl (fun im lease => im.fenceLease reason now lease) im).register =
        im.register := foldl_unchanged (f := fun im : Impl σ => im.register)
      (fun im lease => register_fenceLease im reason now lease) record.leases im
    dsimp only
    split
    · exact hl
    · rw [register_touchHeader, register_account]
      split <;> simpa [touchVirtual, touchTenant] using hl

/-- Carrying a lease over to a new generation leaves the register as it is. -/
@[simp]
theorem register_carryLease (im : Impl σ) (generation : Generation) (id : LeaseId) :
    (im.carryLease generation id).register = im.register := by
  unfold carryLease
  split
  · rfl
  · split <;> rfl

/-- A transition of the life cycle leaves the register as it is. -/
@[simp]
theorem register_transition (im : Impl σ) (clock : Clock) (id : VirtualAcceleratorId)
    (target : VirtualLifecycleState) (reason : Text) :
    (im.transition clock id target reason).1.register = im.register := by
  unfold transition
  split
  · rfl
  · split
    · rfl
    · dsimp only
      split
      · rw [foldl_unchanged (f := fun im : Impl σ => im.register)
          (fun im lease => register_carryLease im _ lease)]
        simp [touchVirtual]
      · simp [touchVirtual]

/-- Releasing a backing leaves the register as it is. -/
@[simp]
theorem register_releaseBacking (im : Impl σ) (id : BackingId) :
    (im.releaseBacking id).register = im.register := by
  unfold releaseBacking
  split <;> rfl

/-- An operation that is one transition leaves the register as it is. -/
theorem register_transitionAct (context : OpContext) (clock : Clock) (id : VirtualAcceleratorId)
    (target : VirtualLifecycleState) (reason : Text) {after : Impl σ → Impl σ}
    (hafter : ∀ im, (after im).register = im.register) :
    (transitionAct context clock id target reason after im).1.register = im.register := by
  have ht := register_transition im clock id target reason
  unfold transitionAct
  split <;> rename_i him <;> rw [him] at ht
  · exact ht
  · exact (hafter _).trans ht

/-- An assignment ends that is not prepared for a migration. -/
theorem passes_finish {id : BackingAssignmentId} {a : BackingAssignment}
    (ha : im.state.assignments[id]? = some a) (hs : a.stage ≠ .prepared)
    (hr : im'.register = im.register.put id .ended) : Passes enters leaves im im' := by
  rw [Passes, hr]
  exact .single (.finish (stage_of_assignment ha) hs)

/-- An assignment that loses its authority ends. -/
theorem passes_revokeAssignment (im : Impl σ) (id : BackingAssignmentId) (reason : Text)
    (now : UnixMicros) : Passes enters leaves im (im.revokeAssignment id reason now) := by
  unfold revokeAssignment
  split
  · exact .refl
  · rename_i a ha
    split
    · rename_i hauth
      refine passes_finish ha ?_ (register_modify_assignment (i := im.touchAssignment id) ha _)
      simp [BackingAssignment.stage, hauth]
    · exact .refl

/-- Revoking the assignment, if there is one, is a run of steps of the register. -/
theorem passes_revokeValid {e l : Passage ℕ ℕ → Prop} (im : Impl σ) (id : BackingAssignmentId)
    (reason : Text) (now : UnixMicros) :
    Passes e l im (if valid id then im.revokeAssignment id reason now else im) := by
  split
  · exact passes_revokeAssignment im id reason now
  · exact .refl

/-! ### Operations that leave it alone -/

section

variable {auth : Authority} {clock : Clock}

/-- Fencing what a tenant owns leaves the register as it is. -/
theorem register_fenceOwned (im : Impl σ) (tenant : TenantId) (generation : Generation)
    (now : UnixMicros) (id : VirtualAcceleratorId) :
    (im.fenceOwned tenant generation now id).register = im.register := by
  unfold fenceOwned
  split
  · rfl
  · simp [touchVirtual]

/-- Fencing a tenant leaves the register as it is. -/
theorem register_fenceTenantAct (id : TenantId) (reason : Text) (tenant : TenantRecord) :
    (fenceTenantAct auth id reason clock tenant im).1.register = im.register := by
  simp only [fenceTenantAct, register_recomputeDerivedAccounting, register_modify_tenant]
  rw [foldl_unchanged (f := fun im : Impl σ => im.register)
    (fun im owned => register_fenceOwned im id _ clock.now owned)]
  simp [touchTenant]

/-- A transfer leaves the register as it is. -/
theorem register_transferOwnershipAct (newOwner : TenantId) (t : Transfer) :
    (transferOwnershipAct auth newOwner clock t im).1.register = im.register := by
  simp [transferOwnershipAct, touchVirtual, touchTenant]

/-- A new contract leaves the register as it is. -/
theorem register_updateContractAct (contract : ResourceContract) (owned : Owned) :
    (updateContractAct auth contract clock owned im).1.register = im.register := by
  have hp : (im.probeContract owned.record (contract.normalize im.options.sorting)).1.register =
      im.register := by
    unfold probeContract
    split <;> rfl
  simp only [updateContractAct]
  split <;> rename_i him <;> rw [him] at hp
  · exact hp
  · simpa [touchVirtual] using hp

/-- Fencing a virtual accelerator leaves the register as it is. -/
theorem register_fenceVirtualAct (reason : Text) (owned : Owned) :
    (fenceVirtualAct auth reason clock owned im).1.register = im.register := by
  refine (register_transitionAct _ clock _ _ _ register_recomputeDerivedAccounting).trans ?_
  exact register_fenceLeases im owned.virtualId _ clock.now

/-- Granting a lease leaves the register as it is. -/
theorem register_grantLease (im : Impl σ) (lease : LeaseRecord) :
    (im.grantLease lease).register = im.register := by
  simp [grantLease, touchLease]

/-- An attachment leaves the register as it is. -/
theorem register_attachAct (owned : Owned) :
    (attachAct auth clock owned im).1.register = im.register := by
  simp only [attachAct]
  split <;> rename_i him
  · refine ite_fst (p := fun im' => im'.register = im.register) ?_ ?_ him
    · simp [touchVirtual, touchTenant]
    · simp [touchVirtual, touchTenant]
  · rw [register_grantLease]
    refine ite_fst (p := fun im' => im'.register = im.register) ?_ ?_ him
    · simp [touchVirtual, touchTenant]
    · simp [touchVirtual, touchTenant]

/-- Releasing a lease leaves the register as it is. -/
theorem register_releaseLease (im : Impl σ) (held : Held) (reason : Text) (now : UnixMicros)
    (book : AccountingCounters → AccountingCounters) :
    (im.releaseLease held reason now book).register = im.register := by
  simp only [releaseLease, register_touchHeader, register_account]
  split <;> simp [touchVirtual, touchTenant, touchLease]

/-- Detaching or revoking a lease leaves the register as it is. -/
theorem register_releaseLeaseAct (operation : String) (reason : Text) (lastReason : String)
    (book : AccountingCounters → AccountingCounters) (held : Held) :
    (releaseLeaseAct operation auth clock reason lastReason book held im).1.register =
      im.register := by
  have hr := register_releaseLease im held reason clock.now book
  simp only [releaseLeaseAct]
  generalize im.releaseLease held reason clock.now book = im1 at hr ⊢
  have htransition := (register_transition im1 clock held.virtualId .provisioned
    (txt lastReason)).trans hr
  split <;> rename_i him
  · exact ite_fst (p := fun im' => im'.register = im.register) htransition hr him
  · exact ite_fst (p := fun im' => im'.register = im.register) htransition hr him

/-- Creating a virtual accelerator leaves the register as it is. -/
theorem register_createVirtualAct (name : Text) (owner : TenantId) (ownerGeneration : Generation)
    (contract : ResourceContract) (tenant : TenantRecord) :
    (createVirtualAct auth name owner ownerGeneration contract clock tenant im).1.register =
      im.register := by
  simp only [createVirtualAct, register_touchHeader, register_account, register_modify_tenant,
    touchTenant, register_touch, register_put_virtual, register_takeId, touchVirtual]

/-! ### Operations that end an assignment -/

/-- A suspension is a run of steps of the register. -/
theorem passes_suspendAct (reason : Text) (owned : Owned) :
    Passes enters leaves im (suspendAct auth reason clock owned im).1 := by
  refine Passes.congr (passes_revokeValid im owned.record.assignment
    (txt "virtual accelerator suspended: " ++ reason) clock.now) ?_
  simp only [suspendAct]
  refine (register_transitionAct _ clock _ _ _ register_recomputeDerivedAccounting).trans ?_
  simp [touchVirtual]

/-- A retirement is a run of steps of the register. -/
theorem passes_retireVirtualAct (reason : Text) (owned : Owned) :
    Passes enters leaves im (retireVirtualAct auth reason clock owned im).1 := by
  simp only [retireVirtualAct]
  generalize him1 : Impl.modify _ .tenant owned.record.owner _ = im1
  have hregister : im1.register = im.register := by
    simp [← him1, touchTenant]
  have hrevoke := passes_revokeValid (e := enters) (l := leaves) im1
    owned.record.assignment (txt "virtual accelerator retired") clock.now
  rw [Passes, hregister] at hrevoke
  refine Passes.congr hrevoke ((register_transitionAct _ clock _ _ _ fun im => ?_).trans ?_)
  · simp
  · simp [touchVirtual]

/-- Draining the assignment that is replaced is a run of steps of the register. -/
theorem passes_drainPrevious {id : VirtualAcceleratorId} {value : VirtualAcceleratorRecord}
    {now : UnixMicros} (hs : im.register.stage value.assignment ≠ some .prepared) :
    Passes enters leaves im (im.drainPrevious id value now) := by
  simp only [drainPrevious, Passes, register_fenceLeases, register_modify_virtual, touchVirtual,
    register_touch, register_releaseBacking]
  split
  · exact .refl
  · rename_i a ha
    refine passes_finish ha (fun hc => hs ?_)
      (register_modify_assignment (i := im.touchAssignment value.assignment) ha _)
    rw [stage_of_assignment ha, hc]

theorem stage_fresh (hw : im.state.WellKeyed) {id : ℕ} (h : im.nextId ≤ id) :
    im.register.stage id = none := by
  have hnone : im.state.assignments[id]? = none := hw.fresh .assignment h
  simp [register, VirtualizationState.register, hnone]

theorem passage_fresh (hw : im.state.WellKeyed) {id : ℕ} (h : im.nextId ≤ id) :
    im.register.passage id = none := by
  have hnone : im.state.migrations[id]? = none := hw.fresh .migration h
  simp [register, VirtualizationState.register, hnone]

/-- Assigning a backing is a run of steps of the register. -/
theorem passes_assignBackingAct (h : Tracks im ∅ im) {operation : String} {backingId : BackingId}
    {replacing : Bool} {reason : Text} {plan : Owned × BackingRecord}
    (ho : plan.1.Current im.state)
    (hs : im.register.stage plan.1.record.assignment ≠ some .prepared) :
    Passes enters leaves im
      (assignBackingAct operation auth backingId replacing reason clock plan im).1 := by
  obtain ⟨owned, backing⟩ := plan
  have hid : owned.record.id = owned.virtualId := h.idOf_eq (k := .virtual) ho.virtual
  simp only [assignBackingAct]
  generalize him1 : (if replacing then im.drainPrevious owned.virtualId owned.record clock.now
    else im) = im1
  have hpasses : Passes enters leaves im im1 := by
    rw [← him1]
    split
    · exact passes_drainPrevious hs
    · exact .refl
  have hw1 : im1.state.WellKeyed := by
    rw [← him1]
    split
    · exact (h.drainPrevious hid clock.now).wellKeyed
    · exact h.wellKeyed
  refine hpasses.trans (.single (?_ : Register.Step enters leaves im1.register _))
  simp only [register_touchHeader, register_account, register_modify_backing, touchBacking,
    register_touch, register_put_assignment, touchAssignment, register_modify_virtual]
  exact .issue (stage_fresh hw1 (Nat.le_refl _))

/-! ### Migrations -/

/-- Planning a migration is a run of steps of the register. -/
theorem passes_planMigrationAct (hw : im.state.WellKeyed) {destination : BackingId}
    {klass : MigrationClass} {plan : Owned × BackingRecord}
    (hs : im.register.stage plan.1.record.assignment ≠ none) :
    Passes enters leaves im (planMigrationAct auth destination klass clock plan im).1 := by
  obtain ⟨owned, backing⟩ := plan
  simp only [planMigrationAct, Passes, register_touchHeader, register_account,
    register_put_migration, touchMigration, register_touch, register_modify_virtual, touchVirtual,
    register_takeId]
  exact .single (.plan (passage_fresh hw (Nat.le_refl _)) rfl rfl hs)

/-- A preparation that is refused changes nothing; the other one prepares an assignment, for the
virtual accelerator as it is then. -/
theorem register_prepareMigrationAct (h : Tracks im ∅ im) (hl : im.book.Leased leaseRules)
    {f : InFlight} (hf : f.Current im.state) :
    ((prepareMigrationAct auth clock f im).1.register = im.register ∧
      (prepareMigrationAct auth clock f im).1.book = im.book) ∨
    ∃ g q, im.register.stage g = none ∧
      (prepareMigrationAct auth clock f im).1.book =
        (im.book.assign f.virtualId (moved f.record.toSeat .migrating)).shut f.virtualId
          (moved f.record.toSeat .migrating) ∧
      (prepareMigrationAct auth clock f im).1.book.seat f.virtualId = some q ∧
      q.phase.state = .migrating ∧
      (∃ a, (prepareMigrationAct auth clock f im).1.state.assignments[g]? = some a ∧
        a.backingGeneration = q.phase.backingGeneration + 1) ∧
      (prepareMigrationAct auth clock f im).1.register = (im.register.put g .prepared).enter
        f.migrationId { f.migration.toPassage with
          target := some g, stamp := q.phase.generation, progress := .ready } := by
  have ht := h.transition clock f.virtualId .migrating
    (txt "migration prepared; leases are drained before cutover")
  have hr := register_transition im clock f.virtualId .migrating
    (txt "migration prepared; leases are drained before cutover")
  have hcases := transition_unoccupied (c := clock) (seat_of_virtual hf.owned.virtual)
    .migrating rfl (txt "migration prepared; leases are drained before cutover")
  have hpassage := passage_of_migration hf.migration
  simp only [prepareMigrationAct]
  cases htransition : im.transition clock f.virtualId .migrating
    (txt "migration prepared; leases are drained before cutover") with
  | mk im1 status =>
    rw [htransition] at ht hr hcases
    cases status with
    | error drained =>
      obtain ⟨_, hc, -⟩ | ⟨hok, -⟩ := hcases
      · exact .inl ⟨hr, congrArg (fun r => r.1.book) hc⟩
      · cases hok
    | ok u =>
      obtain ⟨status, hc, -⟩ | ⟨-, -, hbook1⟩ := hcases
      · cases hc
      have hseat1 : im1.book.seat f.virtualId = some (moved f.record.toSeat .migrating) :=
        hbook1 ▸ Leasing.Book.seat_assign_self
      have hnodup : (moved f.record.toSeat .migrating).leases.Nodup :=
        hl.nodup f.virtualId f.record.toSeat (seat_of_virtual hf.owned.virtual)
      have hbook2 := book_fenceLeases_seat hseat1 hnodup
        (txt "migration drained the source backing; the lease is bound to the source generation")
        clock.now
      have ht2 := ht.fenceLeases f.virtualId
        (txt "migration drained the source backing; the lease is bound to the source generation")
        clock.now
      have hr2 := (register_fenceLeases im1 f.virtualId
        (txt "migration drained the source backing; the lease is bound to the source generation")
        clock.now).trans hr
      rw [hbook1] at hbook2
      dsimp only
      generalize im1.fenceLeases f.virtualId
        (txt "migration drained the source backing; the lease is bound to the source generation")
        clock.now = im2 at hbook2 ht2 hr2 ⊢
      -- the virtual accelerator the plan is adjusted to
      have hseat2 : ∃ q, im2.book.seat f.virtualId = some q ∧ q.phase.state = .migrating := by
        rw [hbook2]
        exact ⟨_, Leasing.Book.seat_assign_self, rfl⟩
      obtain ⟨q, hq, hstate⟩ := hseat2
      obtain ⟨v, hv, rfl⟩ := virtual_of_seat hq
      have hfresh := stage_fresh ht2.wellKeyed (Nat.le_refl im2.nextId)
      have hn : im2.nextId ≠ 0 := Nat.ne_of_gt ht2.wellKeyed.started
      rw [hr2] at hfresh
      have hput : (((im2.takeId.touchAssignment im2.nextId).put .assignment im2.nextId
          (im2.prepareDestination f clock.now)).touchMigration f.migration.plan.id).register =
          im.register.put im2.nextId .prepared := by
        simp only [touchMigration, register_touch, register_put_assignment, touchAssignment,
          register_takeId, hr2]
        rfl
      refine .inr ⟨im2.nextId, v.toSeat, hfresh, hbook2, seat_of_virtual hv, hstate,
        ⟨im2.prepareDestination f clock.now, Std.ExtTreeMap.getElem?_insert_self, ?_⟩, ?_⟩
      · simp only [prepareDestination, hv, Option.getD_some]
        rfl
      rw [register_touchHeader, register_account,
        register_advance (v := f.migration.toPassage)
          (w := { f.migration.toPassage with
            target := some im2.nextId, stamp := v.generation, progress := .ready })]
      · rw [show (im2.prepareDestination f clock.now).id = im2.nextId from rfl, hput]
        rfl
      · rw [show (im2.prepareDestination f clock.now).id = im2.nextId from rfl, hput]
        exact hpassage
      · intro m hm
        have hid : (im2.prepareDestination f clock.now).id = im2.nextId := rfl
        simp only [MigrationRecord.toPassage, hid, ref_of_ne hn, hv, Option.getD_some,
          MigrationState.progress, Passage.mk.injEq] at hm ⊢
        exact ⟨hm.1, hm.2.1, trivial, trivial, trivial⟩

/-- Preparing a migration is a run of steps of the register. -/
theorem passes_prepareMigrationAct (h : Tracks im ∅ im) (hl : im.book.Leased leaseRules)
    {f : InFlight} (hf : f.Current im.state) (hp : f.migration.state = .planned)
    (he : ∀ q g a, (prepareMigrationAct auth clock f im).1.book.seat f.virtualId = some q →
      q.phase.state = .migrating →
      (prepareMigrationAct auth clock f im).1.state.assignments[g]? = some a →
      a.backingGeneration = q.phase.backingGeneration + 1 → enters { f.migration.toPassage with
        target := some g, stamp := q.phase.generation, progress := .ready }) :
    Passes enters leaves im (prepareMigrationAct auth clock f im).1 := by
  obtain ⟨hr, -⟩ | ⟨g, q, hg, -, hq, hstate, ⟨a, ha, hgeneration⟩, hr⟩ :=
    register_prepareMigrationAct h hl hf
  · exact .of_register hr
  · rw [Passes, hr]
    exact .single (.prepare (passage_of_migration hf.migration)
      (by simp [MigrationRecord.toPassage, hp, MigrationState.progress]) hg
      (he q g a hq hstate ha hgeneration))

/-- The cutover ends the source and makes the destination active. -/
theorem passes_commitMigrationAct (ho : im.register.Orderly) {c : Cutover}
    (hc : c.toInFlight.Current im.state) (hready : c.migration.state = .commitReady)
    (hsource : ∃ a, im.state.assignments[c.migration.sourceAssignment]? = some a ∧
      a.authoritative = true)
    (hl : leaves c.migration.toPassage) :
    Passes enters leaves im (commitMigrationAct auth clock c im).1 := by
  have hpassage := passage_of_migration hc.migration
  have hprogress : c.migration.toPassage.progress = .ready := by
    simp [MigrationRecord.toPassage, hready, MigrationState.progress]
  obtain ⟨g, htarget, hg⟩ := ho.ready _ _ hpassage hprogress
  have hdestination : c.migration.destinationAssignment = g := (ref_eq_some.mp htarget).1
  obtain ⟨a, ha, hauth⟩ := hsource
  have hactive : im.register.stage c.migration.sourceAssignment = some .active := by
    rw [stage_of_assignment ha]
    simp [BackingAssignment.stage, hauth]
  have hrebind : (im.rebindVirtual c clock.now).register = im.register := rfl
  simp only [commitMigrationAct, cutoverAuthority, hdestination]
  generalize (im.rebindVirtual c clock.now).state.virtuals[c.virtualId]?.getD {} = record
  generalize im.rebindVirtual c clock.now = im1 at hrebind
  have hne : c.migration.sourceAssignment ≠ g := by
    rintro rfl
    rw [hactive] at hg
    cases hg
  -- the two assignments one after the other
  have hfirst : ((im1.touchAssignment c.migration.sourceAssignment).modify .assignment
      c.migration.sourceAssignment fun a =>
        { a with
          authoritative := false
          state := .revoked
          revokedAt := clock.now
          reason := txt "migration cutover revoked the source authority" }).register =
      im.register.put c.migration.sourceAssignment .ended := by
    rw [register_restage (s := .active) (t := .ended), touchAssignment, register_touch, hrebind]
    · rw [touchAssignment, register_touch, hrebind]
      exact hactive
    · exact fun _ => rfl
  rw [Passes, register_touchHeader, register_account,
    register_advance (v := c.migration.toPassage)
      (w := { c.migration.toPassage with stamp := record.generation, progress := .done })]
  · refine .single ?_
    simp only [touchMigration, register_touch, register_modify_backing, touchBacking]
    rw [register_restage (s := .prepared) (t := .active), touchAssignment, register_touch,
      register_account, hfirst]
    · exact .commit hpassage hprogress htarget hactive hl
    · rw [touchAssignment, register_touch, register_account, hfirst,
        Register.stage_put_of_ne (Ne.symm hne)]
      exact hg
    · exact fun _ => rfl
  · simp only [touchMigration, register_touch, register_modify_backing, touchBacking]
    rw [register_restage (s := .prepared) (t := .active), touchAssignment, register_touch,
      register_account, hfirst]
    · exact hpassage
    · rw [touchAssignment, register_touch, register_account, hfirst,
        Register.stage_put_of_ne (Ne.symm hne)]
      exact hg
    · exact fun _ => rfl
  · intro m hm
    simp only [MigrationRecord.toPassage, MigrationState.progress, Passage.mk.injEq] at hm ⊢
    exact ⟨hm.1, hm.2.1, hm.2.2.1, trivial, trivial⟩

/-- Completing a migration is a run of steps of the register. -/
theorem passes_completeMigrationAct {f : InFlight} (hf : f.Current im.state)
    (hc : f.migration.state = .committed) :
    Passes enters leaves im (completeMigrationAct auth clock f im).1 := by
  have hpassage := passage_of_migration hf.migration
  simp only [completeMigrationAct, Passes, register_modify_virtual, touchVirtual, register_touch]
  rw [register_advance (v := f.migration.toPassage)
    (w := { f.migration.toPassage with progress := .completed })]
  · refine .single (.complete hpassage ?_)
    simp [MigrationRecord.toPassage, hc, MigrationState.progress]
  · exact hpassage
  · intro m hm
    simp only [MigrationRecord.toPassage, MigrationState.progress, Passage.mk.injEq] at hm ⊢
    exact ⟨hm.1, hm.2.1, hm.2.2.1, hm.2.2.2.1, trivial⟩

/-- The states of a migration before its cutover. -/
theorem progress_of_open {state : MigrationState} (h : migrationStateAfterCutover state = false)
    (h' : migrationStateIsTerminal state = false) (hk : state.progress ≠ .stray) :
    state.progress = .planned ∨ state.progress = .ready := by
  revert h h' hk
  cases state <;> simp [migrationStateAfterCutover, migrationStateIsTerminal,
    MigrationState.progress]

/-- An assignment that is dropped, if it is one. -/
theorem register_drop (hw : im.state.WellKeyed) {id : BackingAssignmentId}
    (hr : ∀ a, im.state.assignments[id]? = some a → im'.register = im.register.put id .ended)
    (hn : im.state.assignments[id]? = none → im'.register = im.register)
    (ht : id ≠ 0 → im.register.stage id ≠ none) : im'.register = im.register.drop (ref id) := by
  by_cases h0 : id = 0
  · subst h0
    rw [ref_zero]
    exact hn (hw.zero .assignment)
  · rw [ref_of_ne h0]
    obtain ⟨s, hs⟩ := Option.ne_none_iff_exists'.mp (ht h0)
    obtain ⟨a, ha, -⟩ := Option.map_eq_some_iff.mp hs
    exact hr a ha

/-- Aborting a migration is a run of steps of the register. -/
theorem passes_abortMigrationAct (hw : im.state.WellKeyed) (ho : im.register.Orderly)
    {f : InFlight} (hf : f.Current im.state)
    (hopen : migrationStateAfterCutover f.migration.state = false)
    (hterminal : migrationStateIsTerminal f.migration.state = false) (reason : Text)
    (hl : leaves f.migration.toPassage) :
    Passes enters leaves im (abortMigrationAct auth reason clock f im).1 := by
  have hpassage := passage_of_migration hf.migration
  have hprogress := progress_of_open hopen hterminal (ho.known _ _ hpassage)
  have hdrop : (im.failDestination f.migration.destinationAssignment
      (txt "migration aborted before cutover: " ++ reason) clock.now).register =
      im.register.drop (ref f.migration.destinationAssignment) := by
    refine register_drop hw (fun a ha => ?_) (fun hn => ?_) fun h0 => ?_
    · simp only [failDestination, ha]
      exact register_modify_assignment (i := im.touchAssignment _) ha _
    · simp only [failDestination, hn]
    · exact ho.target _ _ _ hpassage (ref_of_ne h0)
  have habort : ∀ im1 : Impl σ, im1.register = im.register.drop
      (ref f.migration.destinationAssignment) → Passes enters leaves im
      (((im1.touchMigration f.migration.plan.id).modify .migration f.migrationId fun m =>
        { m with
          state := .aborted
          sourceAuthoritative := true
          destinationAuthoritative := false
          completedAt := clock.now
          note := reason }).account fun a =>
        { a with migrationsAborted := a.migrationsAborted + 1 }) := by
    intro im1 him1
    rw [Passes, register_account, register_advance (v := f.migration.toPassage)
      (w := { f.migration.toPassage with progress := .aborted })]
    · rw [touchMigration, register_touch, him1]
      exact .single (.abort hpassage hprogress hl)
    · rw [touchMigration, register_touch, him1, Register.passage_drop]
      exact hpassage
    · intro m hm
      simp only [MigrationRecord.toPassage, MigrationState.progress, Passage.mk.injEq] at hm ⊢
      exact ⟨hm.1, hm.2.1, hm.2.2.1, hm.2.2.2.1, trivial⟩
  have hpasses := habort _ hdrop
  simp only [abortMigrationAct]
  generalize Impl.account _ _ = im1 at hpasses ⊢
  have htransition := Passes.congr hpasses (register_transition im1 clock f.virtualId .provisioned
    (txt "migration aborted before cutover; the source backing remains authoritative"))
  split <;> rename_i him
  · exact ite_fst (p := Passes enters leaves im) htransition hpasses him
  · exact Passes.congr (ite_fst (p := Passes enters leaves im) htransition hpasses him) rfl

/-! ### Classification -/

/-- Classifying a migration after a restart is a run of steps of the register. -/
theorem passes_classifyMigration (hw : im.state.WellKeyed) (ho : im.register.Orderly)
    (now : UnixMicros) (done : Bool) {key : MigrationId}
    (hl : ∀ v, im.register.passage key = some v → v.progress = .planned ∨ v.progress = .ready →
      leaves v) :
    Passes enters leaves im (classifyMigration now (im, done) key).1 := by
  simp only [classifyMigration]
  split
  · exact .refl
  · rename_i m hm
    have hpassage := passage_of_migration hm
    split
    · exact .refl
    · split
      · rename_i hcommitted
        simp only [completeRecovered]
        rw [Passes, register_advance (v := m.toPassage)
          (w := { m.toPassage with progress := .completed })]
        · refine .single (.complete hpassage ?_)
          simp [MigrationRecord.toPassage, hcommitted, MigrationState.progress]
        · exact hpassage
        · intro m hm
          simp only [MigrationRecord.toPassage, MigrationState.progress, Passage.mk.injEq] at hm ⊢
          exact ⟨hm.1, hm.2.1, hm.2.2.1, hm.2.2.2.1, trivial⟩
      · rename_i hcommitted
        split
        · exact .refl
        · rename_i hopen
          have hprogress : m.toPassage.progress = .planned ∨ m.toPassage.progress = .ready := by
            have hk := ho.known _ _ hpassage
            revert hk hopen hcommitted
            simp only [MigrationRecord.toPassage]
            cases m.state <;> simp [migrationStateIsTerminal, MigrationState.progress]
          simp only [abortRecovered, Passes, register_modify_virtual, touchVirtual,
            register_touch]
          generalize him1 : Impl.account _ _ = im1
          have hregister1 : im1.register = im.register.enter key
              { m.toPassage with progress := .aborted } := by
            rw [← him1, register_account, register_advance (v := m.toPassage)
              (w := { m.toPassage with progress := .aborted })]
            · rfl
            · exact hpassage
            · intro m hm
              simp only [MigrationRecord.toPassage, MigrationState.progress,
                Passage.mk.injEq] at hm ⊢
              exact ⟨hm.1, hm.2.1, hm.2.2.1, hm.2.2.2.1, trivial⟩
          have hassignments : im1.state.assignments = im.state.assignments := by
            rw [← him1]
            rfl
          have hzero : im1.state.assignments[0]? = none := by
            rw [hassignments]
            exact hw.zero .assignment
          -- what is dropped was prepared, so it has no authority
          have hdrop : (im1.failRecovered now m.destinationAssignment).register =
              im1.register.drop (ref m.destinationAssignment) := by
            by_cases h0 : m.destinationAssignment = 0
            · rw [h0, ref_zero]
              simp only [failRecovered, hzero]
              rfl
            · have htarget : m.toPassage.target = some m.destinationAssignment := ref_of_ne h0
              have hready := hprogress.resolve_left fun hp => by
                rw [ho.planned _ _ hpassage hp] at htarget
                cases htarget
              obtain ⟨g, hg, hprepared⟩ := ho.ready _ _ hpassage hready
              rw [htarget] at hg
              cases hg
              obtain ⟨a, ha, hstage⟩ := Option.map_eq_some_iff.mp hprepared
              have hauth : a.authoritative = false := by
                cases hc : a.authoritative with
                | false => rfl
                | true => simp [BackingAssignment.stage, hc] at hstage
              rw [← hassignments] at ha
              rw [ref_of_ne h0]
              simp only [failRecovered, ha, hauth, Bool.false_eq_true, if_false]
              rw [register_modify_assignment (i := im1.touchAssignment _) ha]
              simp [BackingAssignment.stage, hauth, Register.drop, touchAssignment]
          have hcomm : (im.register.enter key { m.toPassage with progress := .aborted }).drop
              (ref m.destinationAssignment) = (im.register.drop m.toPassage.target).enter key
              { m.toPassage with progress := .aborted } := by
            simp only [MigrationRecord.toPassage]
            cases ref m.destinationAssignment <;> rfl
          rw [hdrop, hregister1, hcomm]
          exact .single (.abort hpassage hprogress (hl _ hpassage hprogress))

/-! ### Devices -/

/-- Describing a device leaves the register as it is. -/
theorem register_describeDevice (im : Impl σ) (agent : AgentId) (boot : AgentBootId)
    (d : PhysicalDeviceDescriptor) (now : UnixMicros) :
    (im.describeDevice agent boot d now).1.register = im.register := by
  have hlocate : (im.locateDevice d).1.register = im.register := by
    unfold locateDevice
    split
    · rfl
    · dsimp only
      split <;> rfl
  simp only [describeDevice]
  generalize im.locateDevice d = located at hlocate ⊢
  exact hlocate

/-- Invalidating a backing is a run of steps of the register. -/
theorem passes_invalidateBacking (im : Impl σ) (now : UnixMicros) (id : BackingId) :
    Passes enters leaves im (im.invalidateBacking now id) := by
  have hholder : ∀ (im1 : Impl σ) x, (im1.invalidateHolder now x).register = im1.register := by
    intro im1 x
    unfold invalidateHolder
    split
    · rfl
    · split <;> rfl
  unfold invalidateBacking
  split
  · exact .refl
  · refine Passes.congr (j := im.invalidateBinding now _) ?_ rfl
    unfold invalidateBinding
    split
    · exact .refl
    · split
      · exact Passes.congr (passes_revokeAssignment im _ _ now) (hholder _ _)
      · exact .refl

/-- Registering a device is a run of steps of the register. -/
theorem passes_registerPhysicalAct {agent : AgentId} {boot : AgentBootId}
    {d : PhysicalDeviceDescriptor} :
    Passes enters leaves im (registerPhysicalAct auth agent boot d clock () im).1 := by
  have hdescribed := register_describeDevice im agent boot d clock.now
  simp only [registerPhysicalAct, settleBackings]
  generalize im.describeDevice agent boot d clock.now = described at hdescribed ⊢
  obtain ⟨im1, key, changed⟩ := described
  generalize him2 : d.backings.foldl _ im1 = im2
  have hr2 : im2.register = im.register := by
    rw [← him2, ← hdescribed]
    refine foldl_unchanged (f := fun im : Impl σ => im.register) (fun im source => ?_) _ _
    unfold materializeBacking
    split <;> rfl
  dsimp only
  split
  · refine Passes.congr (j := (im2.state.physical[key]?.getD {}).backings.foldl
      (invalidateBacking clock.now) im2) ?_ rfl
    refine List.foldlRecOn _ _ (motive := fun im3 => Passes enters leaves im im3)
      (Passes.of_register hr2) fun im3 h3 id _ =>
        h3.trans (passes_invalidateBacking im3 clock.now id)
  · refine Passes.of_register (Eq.trans (foldl_unchanged (f := fun im : Impl σ => im.register)
      (fun im id => ?_) _ _) hr2)
    unfold refreshBacking
    split <;> rfl

/-- Losing a backing is a run of steps of the register. -/
theorem passes_loseBacking (im : Impl σ) (reason : Text) (now : UnixMicros) (id : BackingId) :
    Passes enters leaves im (im.loseBacking reason now id) := by
  unfold loseBacking
  split
  · exact .refl
  · rename_i b hb
    dsimp only
    split
    · exact Passes.of_register register_modify_backing
    · split
      · exact Passes.of_register register_modify_backing
      · rename_i v hv
        generalize him1 : Impl.fenceLeases _ b.assignedTo _ now = im1
        have hr1 : im1.register = im.register := by
          rw [← him1, register_fenceLeases]
          unfold interruptHolder
          dsimp only
          split <;> simp [touchVirtual, touchBacking]
        have hrevoke := passes_revokeValid (e := enters) (l := leaves) im1 v.assignment
          (txt "physical device disappeared") now
        rw [Passes, hr1] at hrevoke
        exact Passes.congr hrevoke register_modify_backing

/-- Recounting the attachments of a tenant leaves the register as it is. -/
theorem register_recountTenant (im : Impl σ) (now : UnixMicros) (id : TenantId) :
    (im.recountTenant now id).register = im.register := by
  unfold recountTenant
  split
  · rfl
  · dsimp only
    split <;> rfl

/-- Losing a device is a run of steps of the register. -/
theorem passes_physicalLostAct {id : PhysicalDeviceId} {generation : Generation} {reason : Text}
    {device : PhysicalDeviceRecord} :
    Passes enters leaves im (physicalLostAct id generation reason clock device im).1 := by
  simp only [physicalLostAct]
  generalize him1 : device.backings.foldl _ _ = im1
  have h1 : Passes enters leaves im im1 := by
    rw [← him1]
    exact List.foldlRecOn device.backings _ (motive := fun im2 => Passes enters leaves im im2)
      (Passes.of_register rfl) fun im2 h2 b _ =>
        h2.trans (passes_loseBacking im2 reason clock.now b)
  refine Passes.congr h1 ?_
  rw [register_touchHeader, register_recomputeDerivedAccounting, register_account]
  exact foldl_unchanged (f := fun im : Impl σ => im.register)
    (fun im t => register_recountTenant im clock.now t) _ im1

/-! ### The policy -/

/-- Validating a virtual accelerator again is a run of steps of the register. -/
theorem passes_revalidateVirtual (im : Impl σ) (updated : VirtualizationPolicy) (now : UnixMicros)
    (id : VirtualAcceleratorId) :
    Passes enters leaves im (im.revalidateVirtual updated now id) := by
  unfold revalidateVirtual
  split
  · exact .refl
  · split
    · exact .refl
    · rename_i record hr _
      refine Passes.congr (j := if backingSatisfies im.options.sorting
        ((im.touchVirtual record.id).modify .virtual id (detachForPolicy updated now)).state updated
        (detachForPolicy updated now record) then
        (im.touchVirtual record.id).modify .virtual id (detachForPolicy updated now)
        else ((im.touchVirtual record.id).modify .virtual id
        (detachForPolicy updated now)).withdrawBacking now id (detachForPolicy updated now record))
        ?_ rfl
      split
      · exact Passes.of_register rfl
      · generalize him1 : Impl.modify (im.touchVirtual record.id) .virtual id _ = im1
        have hr1 : im1.register = im.register := by
          rw [← him1]
          rfl
        simp only [withdrawBacking]
        have hrevoke := passes_revokeValid (e := enters) (l := leaves) im1
          (detachForPolicy updated now record).assignment
          (txt "policy generation advanced and the backing no longer satisfies the contract") now
        rw [Passes, hr1] at hrevoke
        refine Passes.congr hrevoke ?_
        rw [register_modify_virtual, register_modify_backing, touchBacking, register_touch]

/-- A new policy is a run of steps of the register. -/
theorem passes_setPolicyAct {policy : VirtualizationPolicy} :
    Passes enters leaves im (setPolicyAct auth clock policy im).1 := by
  have hact : (setPolicyAct auth clock policy im).1 =
      (let im1 := im.superseded policy clock.now
       let im2 := im1.state.virtuals.keys.foldl (revalidateVirtual (im.nextPolicy policy)
        clock.now) im1
       (im2.state.tenants.keys.foldl (clearAttachments clock.now) im2)
        ).recomputeDerivedAccounting.touchHeader := rfl
  have h1 : (im.superseded policy clock.now).register = im.register := by
    refine foldl_unchanged (f := fun im : Impl σ => im.register) (fun im id => ?_) _ _
    unfold supersedeLease
    split
    · rfl
    · split <;> rfl
  rw [hact]
  dsimp only
  generalize im.superseded policy clock.now = im1 at h1 ⊢
  generalize him2 : im1.state.virtuals.keys.foldl _ im1 = im2
  have h2 : Passes enters leaves im im2 := by
    rw [← him2]
    exact List.foldlRecOn _ _ (motive := fun im2 => Passes enters leaves im im2)
      (Passes.of_register h1) fun im2 h2 x _ =>
        h2.trans (passes_revalidateVirtual im2 _ clock.now x)
  refine Passes.congr h2 ?_
  rw [register_touchHeader, register_recomputeDerivedAccounting]
  refine foldl_unchanged (f := fun im : Impl σ => im.register) (fun im t => ?_) _ im2
  unfold clearAttachments
  split
  · rfl
  · split <;> rfl

end

end Impl

end AcceleratorVirtualization

