import AcceleratorVirtualization.Invariants.Ledger

/-!
# What every operation does to the ledger

Most operations leave the ledger alone: they change attachments, leases, contracts, the life
cycle. Assigning, replacing, suspending, retiring and the phases of a migration are each one
expression in the steps of the library. Registering and losing a device and changing the
policy are loops; their steps are given here.
-/

namespace AcceleratorVirtualization

open VirtualizationState Custody

namespace Impl

variable {σ : Type} (im : Impl σ)

theorem ledger_fst_ite {α : Type} {L : Ledger ℕ ℕ ℕ ℕ} {c : Prop} [Decidable c]
    {x y : Impl σ × α} {im' : Impl σ} {a : α} (hx : x.1.ledger = L) (hy : y.1.ledger = L)
    (hr : (if c then x else y) = (im', a)) : im'.ledger = L :=
  ite_fst (p := fun im => im.ledger = L) hx hy hr

/-! ### Operations that leave it alone -/

theorem ledger_createTenantAct (auth : Authority) (name externalSubject : Text) (clock : Clock) :
    (createTenantAct auth name externalSubject clock () im).1.ledger = im.ledger := rfl

/-- Fencing what a tenant owns leaves the ledger as it is. -/
@[simp]
theorem ledger_fenceOwned (tenant : TenantId) (generation : Generation) (now : UnixMicros)
    (id : VirtualAcceleratorId) :
    (im.fenceOwned tenant generation now id).ledger = im.ledger := by
  unfold fenceOwned
  split
  · rfl
  · rw [ledger_modify_virtual, ledger_fenceLeases, ledger_modify_virtual]
    · rfl
    · exact fun _ => rfl
    · intro v
      split <;> rfl

/-- Fencing a tenant leaves the ledger as it is. -/
theorem ledger_fenceTenantAct (auth : Authority) (id : TenantId) (reason : Text) (clock : Clock)
    (tenant : TenantRecord) :
    (fenceTenantAct auth id reason clock tenant im).1.ledger = im.ledger := by
  simp only [fenceTenantAct, ledger_recomputeDerivedAccounting, ledger_modify_tenant]
  rw [ledger_foldl _ fun im owned => im.ledger_fenceOwned id _ clock.now owned]
  rfl

/-- A transfer leaves the ledger as it is. -/
theorem ledger_transferOwnershipAct (auth : Authority) (newOwner : TenantId) (clock : Clock)
    (t : Transfer) : (transferOwnershipAct auth newOwner clock t im).1.ledger = im.ledger := by
  simp only [transferOwnershipAct]
  rw [ledger_modify_virtual]
  · simp only [touchVirtual, touchTenant, ledger_touch, ledger_modify_tenant, ledger_fenceLeases]
  · intro v
    split <;> rfl

/-- A transition, and what comes after it, where that leaves the ledger alone too. -/
theorem ledger_transitionAct (context : OpContext) (clock : Clock) (id : VirtualAcceleratorId)
    (target : VirtualLifecycleState) (reason : Text) {after : Impl σ → Impl σ}
    (hafter : ∀ im, (after im).ledger = im.ledger) :
    (transitionAct context clock id target reason after im).1.ledger = im.ledger := by
  have ht := im.ledger_transition clock id target reason
  unfold transitionAct
  split <;> rename_i him <;> rw [him] at ht
  · exact ht
  · exact (hafter _).trans ht

/-- A new contract leaves the ledger as it is. -/
theorem ledger_updateContractAct (auth : Authority) (contract : ResourceContract) (clock : Clock)
    (owned : Owned) : (updateContractAct auth contract clock owned im).1.ledger = im.ledger := by
  have hp : (im.probeContract owned.record (contract.normalize im.options.sorting)).1.ledger =
      im.ledger := by
    unfold probeContract
    split <;> rfl
  simp only [updateContractAct]
  split <;> rename_i him <;> rw [him] at hp
  · exact hp
  · rw [ledger_rebuildProjection, ledger_modify_virtual]
    · exact hp
    · exact fun _ => rfl

/-- Fencing a virtual accelerator leaves the ledger as it is. -/
theorem ledger_fenceVirtualAct (auth : Authority) (reason : Text) (clock : Clock)
    (owned : Owned) : (fenceVirtualAct auth reason clock owned im).1.ledger = im.ledger := by
  refine (ledger_transitionAct _ _ clock _ _ _ ledger_recomputeDerivedAccounting).trans ?_
  exact im.ledger_fenceLeases owned.virtualId _ clock.now

@[simp]
theorem ledger_grantLease (lease : LeaseRecord) : (im.grantLease lease).ledger = im.ledger := rfl

/-- An attachment leaves the ledger as it is. -/
theorem ledger_attachAct (auth : Authority) (clock : Clock) (owned : Owned) :
    (attachAct auth clock owned im).1.ledger = im.ledger := by
  have he : (((im.takeId.touchVirtual owned.record.id).modify .virtual owned.virtualId fun v =>
      { v with
        leases := (v.leases ++ [im.nextId]).insertionSort (· ≤ ·)
        activeAttachments := v.activeAttachments + 1
        updatedAt := clock.now }).touchTenant owned.tenant.id).ledger = im.ledger :=
    @ledger_modify_virtual _ (im.takeId.touchVirtual owned.record.id) _ _ fun _ => rfl
  simp only [attachAct]
  split <;> rename_i him
  · refine ledger_fst_ite ?_ ?_ him
    · rw [ledger_modify_tenant]
      exact he
    · rw [ledger_transition, ledger_modify_tenant]
      exact he
  · rw [ledger_grantLease]
    refine ledger_fst_ite ?_ ?_ him
    · rw [ledger_modify_tenant]
      exact he
    · rw [ledger_transition, ledger_modify_tenant]
      exact he

theorem ledger_renewLeaseAct (auth : Authority) (clock : Clock) (target : LeaseId × LeaseRecord) :
    (renewLeaseAct auth clock target im).1.ledger = im.ledger := rfl

/-- Releasing a lease leaves the ledger as it is. -/
theorem ledger_releaseLease (held : Held) (reason : Text) (now : UnixMicros)
    (book : AccountingCounters → AccountingCounters) :
    (im.releaseLease held reason now book).ledger = im.ledger := by
  simp only [releaseLease, ledger_touchHeader, ledger_account]
  split
  · rw [ledger_modify_virtual, touchVirtual, ledger_touch, ledger_modify_lease, touchLease,
      ledger_touch]
    exact fun _ => rfl
  · rw [ledger_modify_tenant, touchTenant, ledger_touch, ledger_modify_virtual, touchVirtual,
      ledger_touch, ledger_modify_lease, touchLease, ledger_touch]
    exact fun _ => rfl

/-- Detaching or revoking a lease leaves the ledger as it is. -/
theorem ledger_releaseLeaseAct (operation : String) (auth : Authority) (clock : Clock)
    (reason : Text) (lastReason : String) (book : AccountingCounters → AccountingCounters)
    (held : Held) :
    (releaseLeaseAct operation auth clock reason lastReason book held im).1.ledger =
      im.ledger := by
  have hr := im.ledger_releaseLease held reason clock.now book
  simp only [releaseLeaseAct]
  generalize im.releaseLease held reason clock.now book = im1 at hr ⊢
  have htransition := (ledger_transition im1 clock held.virtualId .provisioned
    (txt lastReason)).trans hr
  split <;> rename_i him
  · exact ledger_fst_ite htransition hr him
  · exact ledger_fst_ite htransition hr him

/-- Completing a migration leaves the ledger as it is. -/
theorem ledger_completeMigrationAct (auth : Authority) (clock : Clock) (f : InFlight) :
    (completeMigrationAct auth clock f im).1.ledger = im.ledger := by
  simp only [completeMigrationAct]
  rw [ledger_modify_virtual]
  · exact ledger_modify_migration fun _ => rfl
  · exact fun _ => rfl

/-- Reserving memory leaves the ledger as it is. -/
theorem ledger_reserveAllocationAct (auth : Authority) (bytes : ℕ) (plan : Owned × LeaseRecord) :
    (reserveAllocationAct auth bytes plan im).1.ledger = im.ledger := by
  simp only [reserveAllocationAct, ledger_touchHeader, ledger_account]
  exact ledger_modify_virtual fun _ => rfl

/-- Releasing memory leaves the ledger as it is. -/
theorem ledger_releaseAllocationAct (auth : Authority) (bytes : ℕ)
    (target : VirtualAcceleratorId × VirtualAcceleratorRecord) :
    (releaseAllocationAct auth bytes target im).1.ledger = im.ledger := by
  simp only [releaseAllocationAct, ledger_touchHeader, ledger_account]
  exact ledger_modify_virtual fun _ => rfl

/-- Counting kernels leaves the ledger as it is. -/
theorem ledger_accountKernelAct (auth : Authority) (count : ℕ) (plan : Owned × LeaseRecord) :
    (accountKernelAct auth count plan im).1.ledger = im.ledger := by
  simp only [accountKernelAct, ledger_touchHeader, ledger_account]
  exact ledger_modify_virtual fun _ => rfl

/-- Failing a destination after a restart leaves the ledger as it is. -/
@[simp]
theorem ledger_failRecovered (now : UnixMicros) (id : BackingAssignmentId) :
    (im.failRecovered now id).ledger = im.ledger := by
  unfold failRecovered
  split
  · rfl
  · split
    · rfl
    · exact ledger_modify_assignment fun _ _ => rfl

/-- Classifying a migration after a restart leaves the ledger as it is. -/
theorem ledger_classifyMigration (now : UnixMicros) (acc : Impl σ × Bool) (key : MigrationId) :
    (classifyMigration now acc key).1.ledger = acc.1.ledger := by
  simp only [classifyMigration]
  split
  · rfl
  · split
    · rfl
    · split
      · exact ledger_modify_migration fun _ => rfl
      · split
        · rfl
        · simp only [abortRecovered]
          rw [ledger_modify_virtual]
          · rw [touchVirtual, ledger_touch, ledger_failRecovered, ledger_account]
            exact ledger_modify_migration fun _ => rfl
          · intro v
            split <;> rfl

/-- Classifying the migrations after a restart leaves the ledger as it is. -/
theorem ledger_classifyMigrations (now : UnixMicros) (acc : Impl σ × Bool)
    (keys : List MigrationId) :
    (keys.foldl (classifyMigration now) acc).1.ledger = acc.1.ledger :=
  foldl_unchanged (f := fun acc : Impl σ × Bool => acc.1.ledger)
    (ledger_classifyMigration now) keys acc

/-! ### Operations that act on it -/

variable {im}

/-- The unset identity is no grant. -/
theorem grant_zero (h : im.state.WellKeyed) : im.ledger.grant 0 = none := by
  have h0 : im.state.assignments[0]? = none := h.zero .assignment
  simp [ledger, VirtualizationState.ledger, h0]

/-- Revoking the assignment of a record, where it has one. -/
theorem ledger_revokeValid (h : im.ledger.grant 0 = none) (id : BackingAssignmentId)
    (reason : Text) (now : UnixMicros) :
    (if valid id then im.revokeAssignment id reason now else im).ledger = im.ledger.revoke id := by
  split
  · exact im.ledger_revokeAssignment id reason now
  · rename_i hv
    have h0 : id = 0 := by simpa [valid] using hv
    rw [h0, revoke_of_not_authoritative]
    simp [h]

theorem ledger_createVirtualAct (auth : Authority) (name : Text) (owner : TenantId)
    (ownerGeneration : Generation) (contract : ResourceContract) (clock : Clock)
    (tenant : TenantRecord) :
    (createVirtualAct auth name owner ownerGeneration contract clock tenant im).1.ledger =
      im.ledger.enroll im.nextId := by
  simp only [createVirtualAct, ledger_touchHeader, ledger_account, ledger_modify_tenant]
  exact @ledger_put_virtual _ (im.takeId.takeId.touchVirtual im.nextId).takeId _ _ rfl

/-- The pointer of a party that was released. -/
def released : Pointer ℕ ℕ := ⟨none, none⟩

theorem ledger_suspendAct (h : im.state.WellKeyed) (auth : Authority) (reason : Text)
    (clock : Clock) (owned : Owned) :
    (suspendAct auth reason clock owned im).1.ledger =
      ((im.ledger.revoke owned.record.assignment).mark owned.record.backing vacate).point
        owned.virtualId fun _ => released := by
  simp only [suspendAct]
  refine (ledger_transitionAct _ _ clock _ _ _ ledger_recomputeDerivedAccounting).trans ?_
  rw [ledger_rebuildProjection, ledger_point (q := fun _ => released), touchVirtual, ledger_touch,
    ledger_releaseBacking, ledger_revokeValid (grant_zero h)]
  exact fun _ => rfl

theorem ledger_retireVirtualAct (h : im.state.WellKeyed) (auth : Authority) (reason : Text)
    (clock : Clock) (owned : Owned) :
    (retireVirtualAct auth reason clock owned im).1.ledger =
      ((im.ledger.revoke owned.record.assignment).mark owned.record.backing vacate).point
        owned.virtualId fun _ => released := by
  simp only [retireVirtualAct]
  refine (ledger_transitionAct _ _ clock _ _ _ ?_).trans ?_
  · exact fun _ => rfl
  · rw [ledger_rebuildProjection, ledger_point (q := fun _ => released), touchVirtual,
      ledger_touch, ledger_releaseBacking, ledger_revokeValid]
    · simp only [touchTenant, ledger_touch, ledger_modify_tenant, ledger_emplace_tenant,
        ledger_fenceLeases]
    · simp only [touchTenant, ledger_touch, ledger_modify_tenant, ledger_emplace_tenant,
        ledger_fenceLeases]
      exact grant_zero h
    · exact fun _ => rfl

theorem ledger_drainPrevious (id : VirtualAcceleratorId) (value : VirtualAcceleratorRecord)
    (now : UnixMicros) :
    (im.drainPrevious id value now).ledger =
      (im.ledger.revoke value.assignment).mark value.backing vacate := by
  simp only [drainPrevious, ledger_fenceLeases]
  rw [ledger_modify_virtual, touchVirtual, ledger_touch, ledger_releaseBacking]
  · split
    · rename_i ha
      rw [revoke_of_not_authoritative]
      simp [ledger, VirtualizationState.ledger, ha]
    · congr 1
      exact ledger_revoke fun _ => rfl
  · exact fun _ => rfl

/-- What an assignment does after the previous binding is drained. -/
def bound (L : Ledger ℕ ℕ ℕ ℕ) (virtual backing assignment : ℕ) : Ledger ℕ ℕ ℕ ℕ :=
  ((L.issue assignment ⟨virtual, backing, true⟩).point virtual fun _ =>
    ⟨some assignment, some backing⟩).mark backing fun s =>
      { s with holder := some virtual, active := some assignment }

/-- The new assignment has a fresh identity. -/
theorem ledger_assignBackingAct (h : Tracks im ∅ im) (operation : String)
    (auth : Authority) {backing : BackingId} (replacing : Bool) (reason : Text) (clock : Clock)
    {plan : Owned × BackingRecord} (ho : plan.1.Current im.state)
    (hb : im.state.backings[backing]? = some plan.2) :
    ∃ n, im.state.nextSequence ≤ n ∧
      (assignBackingAct operation auth backing replacing reason clock plan im).1.ledger =
        bound (if replacing then (im.ledger.revoke plan.1.record.assignment).mark
          plan.1.record.backing vacate else im.ledger) plan.1.virtualId backing n := by
  obtain ⟨owned, record⟩ := plan
  have hid : owned.record.id = owned.virtualId := h.idOf_eq (k := .virtual) ho.virtual
  have hbid : record.id = backing := h.idOf_eq (k := .backing) hb
  have hv : backing ≠ 0 := Nat.ne_of_gt (h.wellKeyed.issued .backing _ _ hb).1
  -- a replacement ends the old assignment and vacates the old backing
  have hdrain : (if replacing then im.drainPrevious owned.virtualId owned.record clock.now
      else im).ledger = if replacing then (im.ledger.revoke owned.record.assignment).mark
        owned.record.backing vacate else im.ledger := by
    split
    · exact ledger_drainPrevious _ _ _
    · rfl
  have hfresh : im.state.nextSequence ≤ (if replacing then
      im.drainPrevious owned.virtualId owned.record clock.now else im).state.nextSequence := by
    split
    · exact (h.drainPrevious hid clock.now).advanced
    · exact Nat.le_refl _
  simp only [assignBackingAct, hid, hbid]
  generalize (if replacing then im.drainPrevious owned.virtualId owned.record clock.now
    else im) = im' at hdrain hfresh
  have hn : im'.nextId ≠ 0 := Nat.ne_of_gt (Nat.lt_of_lt_of_le h.wellKeyed.started hfresh)
  refine ⟨im'.nextId, hfresh, ?_⟩
  rw [← hdrain, ledger_touchHeader, ledger_account,
    ledger_mark
      (g := fun s => { s with holder := some owned.virtualId, active := some im'.nextId }),
    touchBacking, ledger_touch, ledger_put_assignment, touchAssignment, ledger_touch,
    ledger_modify_virtual, ledger_rebuildProjection,
    ledger_point (q := fun _ => ⟨some im'.nextId, some backing⟩)]
  · rfl
  · intro v
    simp [bindVirtual, VirtualAcceleratorRecord.toPointer, hbid, ref_of_ne hn, ref_of_ne hv]
  · exact fun _ => rfl
  · intro b
    have hid0 : owned.virtualId ≠ 0 :=
      Nat.ne_of_gt (h.wellKeyed.issued .virtual _ _ ho.virtual).1
    simp [BackingRecord.toSlot, ref_of_ne hn, ref_of_ne hid0]

/-! ### Migrations -/

theorem ledger_planMigrationAct (h : im.state.WellKeyed) (auth : Authority)
    (destination : BackingId) (klass : MigrationClass) (clock : Clock)
    {plan : Owned × BackingRecord} (ho : plan.1.Current im.state) :
    (planMigrationAct auth destination klass clock plan im).1.ledger =
      im.ledger.plan im.nextId
        ⟨plan.1.virtualId, destination, plan.1.record.assignment, none⟩ := by
  obtain ⟨owned, record⟩ := plan
  have hid : owned.record.id = owned.virtualId := h.keyed .virtual _ _ ho.virtual
  simp only [planMigrationAct, hid, ledger_touchHeader, ledger_account, ledger_put_migration]
  rw [touchMigration, ledger_touch, ledger_modify_virtual]
  · rfl
  · exact fun _ => rfl

theorem ledger_abortMigrationAct (auth : Authority) (reason : Text) (clock : Clock)
    (f : InFlight) :
    (abortMigrationAct auth reason clock f im).1.ledger =
      im.ledger.revoke f.migration.destinationAssignment := by
  have hd : (im.failDestination f.migration.destinationAssignment
      (txt "migration aborted before cutover: " ++ reason) clock.now).ledger =
      im.ledger.revoke f.migration.destinationAssignment := by
    unfold failDestination
    split
    · rename_i ha
      rw [revoke_of_not_authoritative]
      simp [ledger, VirtualizationState.ledger, ha]
    · exact ledger_revoke fun _ => rfl
  have he : ∀ im' : Impl σ, (((im'.touchMigration f.migration.plan.id).modify .migration
      f.migrationId fun m =>
        { m with
          state := .aborted
          sourceAuthoritative := true
          destinationAuthoritative := false
          completedAt := clock.now
          note := reason }).account fun a =>
        { a with migrationsAborted := a.migrationsAborted + 1 }).ledger = im'.ledger :=
    fun im' => @ledger_modify_migration _ (im'.touchMigration f.migration.plan.id) _ _ fun _ => rfl
  simp only [abortMigrationAct]
  split <;> rename_i him
  · refine ledger_fst_ite ?_ ?_ him
    · rw [ledger_transition, he, hd]
    · rw [he, hd]
  · rw [ledger_touchHeader]
    refine ledger_fst_ite ?_ ?_ him
    · rw [ledger_transition, he, hd]
    · rw [he, hd]

/-- The prepared assignment is for the virtual accelerator and the destination of the move. -/
theorem toGrant_prepareDestination {T : Set (RecordKind × ℕ)} {s : Impl σ}
    (h : Tracks s T im) {f : InFlight} (hf : f.Current s.state) (now : UnixMicros) :
    (im.prepareDestination f now).toGrant =
      ⟨f.virtualId, f.migration.plan.destinationBacking, false⟩ := by
  obtain ⟨b, hb⟩ := (planStaleness_ok hf.fresh).2.1
  obtain ⟨v', hv'⟩ := Option.isSome_iff_exists.mp
    (h.kept .virtual f.virtualId (Option.isSome_iff_exists.mpr ⟨_, hf.owned.virtual⟩))
  obtain ⟨b', hb'⟩ := Option.isSome_iff_exists.mp
    (h.kept .backing f.migration.plan.destinationBacking (Option.isSome_iff_exists.mpr ⟨_, hb⟩))
  have hvid : v'.id = f.virtualId := h.idOf_eq (k := .virtual) hv'
  have hbid : b'.id = f.migration.plan.destinationBacking := h.idOf_eq (k := .backing) hb'
  simp only [prepareDestination, BackingAssignment.toGrant]
  rw [show im.state.virtuals[f.virtualId]? = some v' from hv',
    show im.state.backings[f.migration.plan.destinationBacking]? = some b' from hb']
  simp only [Option.getD_some, hvid, hbid]

/-- A preparation that is refused changes nothing; the other one prepares the move. -/
theorem ledger_prepareMigrationAct (h : Tracks im ∅ im) (auth : Authority) (clock : Clock)
    {f : InFlight} (hf : f.Current im.state) :
    (prepareMigrationAct auth clock f im).1.ledger = im.ledger ∨
    ∃ n, im.state.nextSequence ≤ n ∧
      (prepareMigrationAct auth clock f im).1.ledger =
        (im.ledger.issue n ⟨f.virtualId, f.migration.plan.destinationBacking, false⟩).aim
          f.migrationId n := by
  have ht := h.transition clock f.virtualId .migrating
    (txt "migration prepared; leases are drained before cutover")
  have hl := im.ledger_transition clock f.virtualId .migrating
    (txt "migration prepared; leases are drained before cutover")
  simp only [prepareMigrationAct]
  split <;> rename_i him <;> rw [him] at ht hl
  · exact .inl hl
  · rename_i im1
    have hfence := ht.fenceLeases f.virtualId
      (txt "migration drained the source backing; the lease is bound to the source generation")
      clock.now
    have hledger := (im1.ledger_fenceLeases f.virtualId
      (txt "migration drained the source backing; the lease is bound to the source generation")
      clock.now).trans hl
    generalize im1.fenceLeases f.virtualId
      (txt "migration drained the source backing; the lease is bound to the source generation")
      clock.now = im2 at hfence hledger
    have hn : im2.nextId ≠ 0 := Nat.ne_of_gt hfence.wellKeyed.started
    refine .inr ⟨im2.nextId, hfence.advanced, ?_⟩
    rw [ledger_touchHeader, ledger_account, ledger_aim (g := im2.nextId), touchMigration,
      ledger_touch, ledger_put_assignment, toGrant_prepareDestination hfence hf, touchAssignment,
      ledger_touch, ledger_takeId, hledger]
    · rfl
    · intro m
      simp [MigrationRecord.toMove, prepareDestination, ref_of_ne hn]

theorem ledger_cutoverAuthority (c : Cutover) {record : VirtualAcceleratorRecord}
    (hr : record.id ≠ 0) (hd : c.migration.destinationAssignment ≠ 0) (now : UnixMicros) :
    (im.cutoverAuthority c record now).ledger =
      ((((im.ledger.revoke c.migration.sourceAssignment).empower
        c.migration.destinationAssignment).mark c.migration.plan.sourceBacking vacate).mark
        c.migration.plan.destinationBacking fun s =>
          { s with
            holder := some record.id, active := some c.migration.destinationAssignment }) := by
  simp only [cutoverAuthority]
  rw [ledger_mark (g := fun s =>
      { s with holder := some record.id, active := some c.migration.destinationAssignment }),
    touchBacking, ledger_touch, ledger_mark (g := vacate), touchBacking, ledger_touch,
    ledger_empower, touchAssignment, ledger_touch, ledger_account, ledger_revoke, touchAssignment,
    ledger_touch]
  · exact fun _ => rfl
  · exact fun _ => rfl
  · exact fun _ => rfl
  · intro b
    simp [BackingRecord.toSlot, ref_of_ne hr, ref_of_ne hd]

/-- The ledger after a commit: the cutover of the move, and what the two backings record. -/
def switched (L : Ledger ℕ ℕ ℕ ℕ) (v : Move ℕ ℕ ℕ) (target source : ℕ) : Ledger ℕ ℕ ℕ ℕ :=
  ((L.cutover v target).mark source vacate).mark v.destination fun s =>
    { s with holder := some v.party, active := some target }

theorem ledger_rebindVirtual (c : Cutover) (hb : c.migration.plan.destinationBacking ≠ 0)
    (hd : c.migration.destinationAssignment ≠ 0) (now : UnixMicros) :
    (im.rebindVirtual c now).ledger = im.ledger.point c.virtualId fun _ =>
      ⟨some c.migration.destinationAssignment, some c.migration.plan.destinationBacking⟩ := by
  simp only [rebindVirtual]
  rw [ledger_modify_virtual, ledger_rebuildProjection,
    ledger_point (q := fun _ =>
      ⟨some c.migration.destinationAssignment, some c.migration.plan.destinationBacking⟩)]
  · rfl
  · intro v
    simp [cutoverVirtual, VirtualAcceleratorRecord.toPointer, ref_of_ne hb, ref_of_ne hd]
  · exact fun _ => rfl

theorem ledger_commitMigrationAct (h : Tracks im ∅ im) (auth : Authority) (clock : Clock)
    {c : Cutover} (hc : c.toInFlight.Current im.state)
    (hd : im.state.assignments[c.migration.destinationAssignment]? =
      some c.destinationAssignment) :
    (commitMigrationAct auth clock c im).1.ledger =
      switched im.ledger c.migration.toMove c.migration.destinationAssignment
        c.migration.plan.sourceBacking := by
  have hid : c.record.id = c.virtualId := h.idOf_eq (k := .virtual) hc.owned.virtual
  have hparty : c.migration.plan.virtualId = c.virtualId := hc.virtual.trans hid
  have hd0 : c.migration.destinationAssignment ≠ 0 :=
    Nat.ne_of_gt (h.wellKeyed.issued .assignment _ _ hd).1
  obtain ⟨b, hb⟩ := (planStaleness_ok hc.fresh).2.1
  have hb0 : c.migration.plan.destinationBacking ≠ 0 :=
    Nat.ne_of_gt (h.wellKeyed.issued .backing _ _ hb).1
  have hv0 : c.virtualId ≠ 0 := Nat.ne_of_gt (h.wellKeyed.issued .virtual _ _ hc.owned.virtual).1
  have hrebind := h.rebindVirtual hid clock.now
  obtain ⟨v, hv⟩ := Option.isSome_iff_exists.mp
    (hrebind.kept .virtual c.virtualId (Option.isSome_iff_exists.mpr ⟨_, hc.owned.virtual⟩))
  have hvid : v.id = c.virtualId := hrebind.idOf_eq (k := .virtual) hv
  simp only [commitMigrationAct, ledger_touchHeader, ledger_account]
  rw [ledger_modify_migration, touchMigration, ledger_touch,
    show (im.rebindVirtual c clock.now).state.virtuals[c.virtualId]? = some v from hv,
    Option.getD_some, ledger_cutoverAuthority c (by rwa [hvid]) hd0,
    ledger_rebindVirtual c hb0 hd0, hvid]
  · simp only [switched, Ledger.cutover, MigrationRecord.toMove, hparty]
    rfl
  · exact fun _ => rfl

/-! ### Devices -/

/-- Locating a device leaves the ledger as it is. -/
theorem ledger_locateDevice (im : Impl σ) (d : PhysicalDeviceDescriptor) :
    (im.locateDevice d).1.ledger = im.ledger := by
  unfold locateDevice
  split
  · rfl
  · simp only
    split <;> rfl

theorem ledger_recordEvidence (device : PhysicalDeviceRecord) (changed : Bool)
    (d : PhysicalDeviceDescriptor) (now : UnixMicros) :
    (im.recordEvidence device changed d now).ledger = im.ledger := rfl

/-- Describing a device leaves the ledger as it is. -/
theorem ledger_describeDevice (agent : AgentId) (boot : AgentBootId)
    (d : PhysicalDeviceDescriptor) (now : UnixMicros) :
    (im.describeDevice agent boot d now).1.ledger = im.ledger := by
  have hlocate := ledger_locateDevice im d
  simp only [describeDevice]
  generalize im.locateDevice d = located at hlocate ⊢
  exact hlocate

/-- Refreshing a backing leaves the ledger as it is. -/
theorem ledger_refreshBacking (device : PhysicalDeviceRecord) (now : UnixMicros)
    (id : BackingId) : (im.refreshBacking device now id).ledger = im.ledger := by
  unfold refreshBacking
  split
  · rfl
  · exact ledger_modify_backing fun _ => rfl

/-- A slot as it is described. -/
def described (exclusive : Bool) (s : Slot ℕ ℕ) : Slot ℕ ℕ := { s with exclusive }

/-- A backing that is described is new, or the known one of the device under the label. -/
theorem ledger_materializeBacking (h : im.state.WellKeyed) (key : PhysicalDeviceId)
    (device : PhysicalDeviceRecord) (now : UnixMicros) (source : BackingDescriptor) :
    (im.materializeBacking key device now source).ledger =
      (im.ledger.found im.nextId true).mark im.nextId (described source.exclusive) ∨
    ∃ id b, im.state.backings[id]? = some b ∧ b.physical = device.id ∧ b.label = source.label ∧
      (im.materializeBacking key device now source).ledger =
        im.ledger.mark id (described source.exclusive) := by
  unfold materializeBacking
  split
  · left
    have hfresh : im.state.backings[im.nextId]? = none := h.fresh .backing (Nat.le_refl _)
    simp only
    rw [ledger_mark (g := described source.exclusive), ledger_modify_physical,
      ledger_emplace_backing, touchBacking, ledger_touch, ledger_takeId]
    · exact hfresh
    · rfl
    · exact fun _ => rfl
  · rename_i id b hf
    right
    have hb := List.find?_some hf
    simp only [Bool.and_eq_true, decide_eq_true_eq] at hb
    refine ⟨id, b, findBacking_some hf, hb.1, hb.2, ?_⟩
    exact ledger_mark fun _ => rfl

/-- Interrupting the holder of an invalidated backing leaves the ledger as it is. -/
theorem ledger_invalidateHolder (now : UnixMicros) (id : VirtualAcceleratorId) :
    (im.invalidateHolder now id).ledger = im.ledger := by
  unfold invalidateHolder
  split
  · rfl
  · split
    · exact ledger_modify_virtual fun _ => rfl
    · rfl

theorem ledger_invalidateBinding (now : UnixMicros) (id : BackingAssignmentId) :
    (im.invalidateBinding now id).ledger = im.ledger.revoke id := by
  unfold invalidateBinding
  split
  · rename_i ha
    rw [revoke_of_not_authoritative]
    simp [ledger, VirtualizationState.ledger, ha]
  · rename_i a ha
    split
    · rw [ledger_invalidateHolder, ledger_revokeAssignment]
    · rename_i hn
      rw [revoke_of_not_authoritative]
      intro r hr
      simp only [ledger, VirtualizationState.ledger, ha, Option.map_some, Option.some.injEq] at hr
      subst hr
      exact Bool.eq_false_iff.mpr hn

/-- The binding a backing records is revoked. -/
theorem ledger_invalidateBacking (im : Impl σ) (now : UnixMicros) (id : BackingId) :
    (im.invalidateBacking now id).ledger = im.ledger ∨
    ∃ b, im.state.backings[id]? = some b ∧
      (im.invalidateBacking now id).ledger =
        (im.ledger.revoke b.activeAssignment).mark id vacate := by
  unfold invalidateBacking
  split
  · exact .inl rfl
  · rename_i b hb
    refine .inr ⟨b, hb, ?_⟩
    rw [ledger_mark (g := vacate), touchBacking, ledger_touch, ledger_invalidateBinding]
    exact fun _ => rfl

/-- Interrupting the holder of a lost backing leaves the ledger as it is. -/
theorem ledger_interruptHolder (id : VirtualAcceleratorId) (record : VirtualAcceleratorRecord)
    (reason : Text) (now : UnixMicros) :
    (im.interruptHolder id record reason now).ledger = im.ledger := by
  simp only [interruptHolder]
  split
  · exact ledger_modify_virtual fun _ => rfl
  · rfl

/-- The binding of the holder a backing records is revoked. -/
theorem ledger_loseBacking (h : im.state.WellKeyed) (reason : Text) (now : UnixMicros)
    (id : BackingId) :
    (im.loseBacking reason now id).ledger = im.ledger ∨
    ∃ b v, im.state.backings[id]? = some b ∧ im.state.virtuals[b.assignedTo]? = some v ∧
      (im.loseBacking reason now id).ledger = (im.ledger.revoke v.assignment).mark id vacate := by
  have hlost : ((im.touchBacking id).modify .backing id fun b =>
      { b with available := false, evidenceFresh := false }).ledger = im.ledger :=
    ledger_modify_backing fun _ => rfl
  unfold loseBacking
  split
  · exact .inl rfl
  · rename_i b hb
    simp only
    split
    · exact .inl hlost
    · split
      · exact .inl hlost
      · rename_i v hv
        refine .inr ⟨b, v, hb, hv, ?_⟩
        rw [ledger_mark (g := vacate), ledger_revokeValid, ledger_fenceLeases,
          ledger_interruptHolder, hlost]
        · rw [ledger_fenceLeases, ledger_interruptHolder, hlost]
          exact grant_zero h
        · exact fun _ => rfl

/-- Recounting the attachments of a tenant leaves the ledger as it is. -/
theorem ledger_recountTenant (now : UnixMicros) (id : TenantId) :
    (im.recountTenant now id).ledger = im.ledger := by
  unfold recountTenant
  split
  · rfl
  · simp only
    split <;> rfl

/-! ### The policy -/

/-- Superseding a lease leaves the ledger as it is. -/
theorem ledger_supersedeLease (updated : VirtualizationPolicy) (now : UnixMicros) (id : LeaseId) :
    (im.supersedeLease updated now id).ledger = im.ledger := by
  unfold supersedeLease
  split
  · rfl
  · split <;> rfl

/-- Clearing the attachments of a tenant leaves the ledger as it is. -/
theorem ledger_clearAttachments (now : UnixMicros) (id : TenantId) :
    (im.clearAttachments now id).ledger = im.ledger := by
  unfold clearAttachments
  split
  · rfl
  · split <;> rfl

theorem toPointer_detachForPolicy (updated : VirtualizationPolicy) (now : UnixMicros)
    (v : VirtualAcceleratorRecord) : (detachForPolicy updated now v).toPointer = v.toPointer := by
  simp only [detachForPolicy]
  split <;> rfl

/-- A pointer that forgets its grant and keeps its resource. -/
def withdrawn (p : Pointer ℕ ℕ) : Pointer ℕ ℕ := { p with grant := none }

/-- A virtual accelerator keeps its binding, or it is withdrawn. -/
theorem ledger_revalidateVirtual (h : im.state.WellKeyed) (updated : VirtualizationPolicy)
    (now : UnixMicros) (id : VirtualAcceleratorId) :
    (im.revalidateVirtual updated now id).ledger = im.ledger ∨
    ∃ v, im.state.virtuals[id]? = some v ∧ v.state ≠ .retired ∧
      (im.revalidateVirtual updated now id).ledger =
        ((im.ledger.revoke v.assignment).mark v.backing vacate).point id withdrawn := by
  unfold revalidateVirtual
  split
  · exact .inl rfl
  · rename_i v hv
    split
    · exact .inl rfl
    · rename_i hstate
      have hd : ((im.touchVirtual v.id).modify .virtual id (detachForPolicy updated now)).ledger =
          im.ledger := ledger_modify_virtual (toPointer_detachForPolicy updated now)
      simp only [ledger_rebuildProjection]
      split
      · exact .inl hd
      · refine .inr ⟨v, hv, hstate, ?_⟩
        have ha : (detachForPolicy updated now v).assignment = v.assignment := by
          simp only [detachForPolicy]
          split <;> rfl
        have hb : (detachForPolicy updated now v).backing = v.backing := by
          simp only [detachForPolicy]
          split <;> rfl
        simp only [withdrawBacking, ha, hb]
        rw [ledger_point (q := withdrawn), ledger_mark (g := vacate), touchBacking, ledger_touch,
          ledger_revokeValid, hd]
        · rw [hd]
          exact grant_zero h
        · exact fun _ => rfl
        · exact fun _ => rfl

end Impl

end AcceleratorVirtualization
