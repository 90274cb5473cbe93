import AcceleratorVirtualization.Invariants.Consistency

/-!
# What an operation leaves alone

Devices, what backings offer, the charters of tenants and the terms of assignments change in few
operations: a registration and the loss of a device, a start, the operations on ownership, and the
two operations that make an assignment. Everything else moves authority, counts and dates, which
this view leaves out, so that for most helpers of the runtime it is the same before and after.
-/

namespace AcceleratorVirtualization

open VirtualizationState

/-! ### The view -/

/-- A backing without its holder. -/
def BackingRecord.offer (b : BackingRecord) : BackingRecord :=
  { b with assignedTo := 0, activeAssignment := 0, assignedGeneration := 0 }

/-- A tenant without its attachments. -/
def TenantRecord.charter (t : TenantRecord) : TenantRecord :=
  { t with activeAttachments := 0, updatedAt := 0 }

/-- An assignment without its life cycle. -/
def BackingAssignment.grade (a : BackingAssignment) : BackingAssignment :=
  { a with
    state := .proposed, authoritative := false, committedAt := 0, revokedAt := 0, reason := []
    virtualGeneration := 0, projectionGeneration := 0 }

/-- The parts of a state that only a few operations change: devices, what backings offer, the
charters of tenants and the grades of assignments. -/
@[ext]
structure Fixtures where
  device : ℕ → Option PhysicalDeviceRecord
  offer : ℕ → Option BackingRecord
  charter : ℕ → Option TenantRecord
  grade : ℕ → Option BackingAssignment

/-- Tenants and assignments, which no device changes. -/
def Fixtures.roles (F : Fixtures) := (F.charter, F.grade)

/-- A tenant changes. -/
def Fixtures.amend (F : Fixtures) (id : ℕ) (f : TenantRecord → TenantRecord) : Fixtures :=
  { F with charter := Function.update F.charter id ((F.charter id).map f) }

/-- A virtual accelerator is listed under a tenant. -/
def TenantRecord.enrol (id : VirtualAcceleratorId) (t : TenantRecord) : TenantRecord :=
  { t with owned := (t.owned ++ [id]).insertionSort (· ≤ ·) }

/-- A virtual accelerator is no longer listed under a tenant. -/
def TenantRecord.strike (id : VirtualAcceleratorId) (t : TenantRecord) : TenantRecord :=
  { t with owned := t.owned.filter (· ≠ id) }

/-- The fixtures of a state. -/
def VirtualizationState.fixtures (s : VirtualizationState) : Fixtures where
  device id := s.physical[id]?
  offer id := s.backings[id]?.map (·.offer)
  charter id := s.tenants[id]?.map (·.charter)
  grade id := s.assignments[id]?.map (·.grade)

namespace Impl

variable {σ : Type} {im im1 im' : Impl σ}

/-- The fixtures of the state of a runtime. -/
def fixtures (im : Impl σ) : Fixtures := im.state.fixtures

/-- The maps that decide the fixtures. -/
theorem fixtures_congr (hp : im'.state.physical = im.state.physical)
    (hb : im'.state.backings = im.state.backings) (ht : im'.state.tenants = im.state.tenants)
    (ha : im'.state.assignments = im.state.assignments) : im'.fixtures = im.fixtures := by
  simp only [fixtures, VirtualizationState.fixtures, hp, hb, ht, ha]

/-! ### Changes of the view -/

@[simp]
theorem fixtures_touch (im : Impl σ) (k : RecordKind) (id : ℕ) :
    (im.touch k id).fixtures = im.fixtures := rfl

@[simp]
theorem fixtures_takeId (im : Impl σ) : im.takeId.fixtures = im.fixtures := rfl

@[simp]
theorem fixtures_touchHeader (im : Impl σ) : im.touchHeader.fixtures = im.fixtures := rfl

@[simp]
theorem fixtures_account (im : Impl σ) (f : AccountingCounters → AccountingCounters) :
    (im.account f).fixtures = im.fixtures := rfl

@[simp]
theorem fixtures_modify_virtual {id : ℕ} {f : VirtualAcceleratorRecord → VirtualAcceleratorRecord} :
    (im.modify .virtual id f).fixtures = im.fixtures := rfl

@[simp]
theorem fixtures_modify_lease {id : ℕ} {f : LeaseRecord → LeaseRecord} :
    (im.modify .lease id f).fixtures = im.fixtures := rfl

@[simp]
theorem fixtures_modify_migration {id : ℕ} {f : MigrationRecord → MigrationRecord} :
    (im.modify .migration id f).fixtures = im.fixtures := rfl

@[simp]
theorem fixtures_put_lease {id : ℕ} {l : LeaseRecord} :
    (im.put .lease id l).fixtures = im.fixtures := rfl

@[simp]
theorem fixtures_put_evidence {id : ℕ} {e : EvidenceRecord} :
    (im.put .evidence id e).fixtures = im.fixtures := rfl

@[simp]
theorem fixtures_put_migration {id : ℕ} {m : MigrationRecord} :
    (im.put .migration id m).fixtures = im.fixtures := rfl

@[simp]
theorem fixtures_put_virtual {id : ℕ} {v : VirtualAcceleratorRecord} :
    (im.put .virtual id v).fixtures = im.fixtures := rfl

@[simp]
theorem fixtures_rebuildProjection (im : Impl σ) (id : VirtualAcceleratorId) :
    (im.rebuildProjection id).fixtures = im.fixtures := rfl

@[simp]
theorem fixtures_recomputeDerivedAccounting (im : Impl σ) :
    im.recomputeDerivedAccounting.fixtures = im.fixtures := rfl

/-- A part of the records of a map, before and after a change of one of them. -/
theorem map_modify_part {α β : Type} {map : IdMap α} {id : ℕ} {f : α → α} {part : α → β}
    (h : ∀ r, part (f r) = part r) (j : ℕ) :
    (map.modify id f)[j]?.map part = map[j]?.map part := by
  rw [Std.ExtTreeMap.getElem?_modify]
  split
  · rename_i hj
    rw [Nat.compare_eq_eq.mp hj, Option.map_map]
    exact congrArg (Option.map · _) (funext h)
  · rfl

/-- A change of the holder of a backing. -/
theorem fixtures_modify_backing {id : ℕ} {f : BackingRecord → BackingRecord}
    (h : ∀ b, (f b).offer = b.offer) : (im.modify .backing id f).fixtures = im.fixtures := by
  simp only [fixtures, VirtualizationState.fixtures, modify, VirtualizationState.modify,
    setEntities, entities]
  congr 1
  exact funext (map_modify_part h)

/-- A change of the attachments of a tenant. -/
theorem fixtures_modify_tenant {id : ℕ} {f : TenantRecord → TenantRecord}
    (h : ∀ t, (f t).charter = t.charter) : (im.modify .tenant id f).fixtures = im.fixtures := by
  simp only [fixtures, VirtualizationState.fixtures, modify, VirtualizationState.modify,
    setEntities, entities]
  congr 1
  exact funext (map_modify_part h)

/-- A step of the life cycle of an assignment. -/
theorem fixtures_modify_assignment {id : ℕ} {f : BackingAssignment → BackingAssignment}
    (h : ∀ a, (f a).grade = a.grade) : (im.modify .assignment id f).fixtures = im.fixtures := by
  simp only [fixtures, VirtualizationState.fixtures, modify, VirtualizationState.modify,
    setEntities, entities]
  congr 1
  exact funext (map_modify_part h)

/-- Any other change of a tenant. -/
theorem fixtures_amend {id : ℕ} {f g : TenantRecord → TenantRecord}
    (h : ∀ t, (f t).charter = g t.charter) :
    (im.modify .tenant id f).fixtures = im.fixtures.amend id g := by
  simp only [fixtures, VirtualizationState.fixtures, modify, VirtualizationState.modify,
    setEntities, entities, Fixtures.amend]
  congr 1
  funext j
  rw [Std.ExtTreeMap.getElem?_modify]
  by_cases hj : j = id
  · subst hj
    rw [if_pos (by simp), Function.update_self, Option.map_map, Option.map_map]
    exact congrArg (Option.map · _) (funext h)
  · rw [if_neg (by simpa using Ne.symm hj), Function.update_of_ne hj]

theorem fixtures_put_tenant {id : ℕ} {t : TenantRecord} :
    (im.put .tenant id t).fixtures =
      { im.fixtures with charter := Function.update im.fixtures.charter id (some t.charter) } := by
  simp only [fixtures, VirtualizationState.fixtures, Impl.put, VirtualizationState.put,
    setEntities, entities]
  congr 1
  funext j
  rw [Std.ExtTreeMap.getElem?_insert]
  by_cases hj : j = id
  · subst hj
    simp
  · rw [Function.update_of_ne hj, if_neg (by simpa using Ne.symm hj)]

theorem fixtures_put_assignment {id : ℕ} {a : BackingAssignment} :
    (im.put .assignment id a).fixtures =
      { im.fixtures with grade := Function.update im.fixtures.grade id (some a.grade) } := by
  simp only [fixtures, VirtualizationState.fixtures, Impl.put, VirtualizationState.put,
    setEntities, entities]
  congr 1
  funext j
  rw [Std.ExtTreeMap.getElem?_insert]
  by_cases hj : j = id
  · subst hj
    simp
  · rw [Function.update_of_ne hj, if_neg (by simpa using Ne.symm hj)]

/-- A tenant that is there stays. -/
theorem fixtures_emplace_tenant {id : ℕ} {t : TenantRecord}
    (h : (im.fixtures.charter id).isSome) : (im.emplace .tenant id t).fixtures = im.fixtures := by
  have hmem : id ∈ im.state.tenants := by
    simpa [fixtures, VirtualizationState.fixtures] using h
  simp only [fixtures, VirtualizationState.fixtures, emplace, setEntities, entities]
  congr 1
  funext j
  rw [Std.ExtTreeMap.getElem?_insertIfNew, if_neg]
  rintro ⟨hj, hnot⟩
  exact hnot hmem

/-! ### Helpers -/

theorem fixtures_foldl {α : Type} {step : Impl σ → α → Impl σ}
    (hstep : ∀ im a, (step im a).fixtures = im.fixtures) (l : List α) (im : Impl σ) :
    (l.foldl step im).fixtures = im.fixtures :=
  foldl_unchanged (f := fun im : Impl σ => im.fixtures) hstep l im

/-- Fencing a lease leaves the fixtures as they are. -/
@[simp]
theorem fixtures_fenceLease (im : Impl σ) (reason : Text) (now : UnixMicros) (id : LeaseId) :
    (im.fenceLease reason now id).fixtures = im.fixtures := by
  unfold fenceLease
  split
  · rfl
  · split <;> rfl

/-- Fencing the leases of a virtual accelerator leaves the fixtures as they are. -/
@[simp]
theorem fixtures_fenceLeases (im : Impl σ) (id : VirtualAcceleratorId) (reason : Text)
    (now : UnixMicros) : (im.fenceLeases id reason now).fixtures = im.fixtures := by
  unfold fenceLeases
  split
  · rfl
  · rename_i record hr
    have hl : (record.leases.foldl (fun im lease => im.fenceLease reason now lease) im).fixtures =
        im.fixtures := fixtures_foldl (fun im lease => fixtures_fenceLease im reason now lease) _ im
    dsimp only
    split
    · exact hl
    · rw [fixtures_touchHeader, fixtures_account]
      split
      · exact hl
      · rw [fixtures_modify_tenant]
        · exact hl
        · exact fun _ => rfl

/-- Carrying a lease over to a new generation leaves the fixtures as they are. -/
@[simp]
theorem fixtures_carryLease (im : Impl σ) (generation : Generation) (id : LeaseId) :
    (im.carryLease generation id).fixtures = im.fixtures := by
  unfold carryLease
  split
  · rfl
  · split <;> rfl

/-- A transition of the life cycle leaves the fixtures as they are. -/
@[simp]
theorem fixtures_transition (im : Impl σ) (clock : Clock) (id : VirtualAcceleratorId)
    (target : VirtualLifecycleState) (reason : Text) :
    (im.transition clock id target reason).1.fixtures = im.fixtures := by
  unfold transition
  split
  · rfl
  · split
    · rfl
    · dsimp only
      split
      · rw [fixtures_foldl fun im lease => fixtures_carryLease im _ lease]
        rfl
      · rfl

/-- Releasing a backing leaves the fixtures as they are. -/
@[simp]
theorem fixtures_releaseBacking (im : Impl σ) (id : BackingId) :
    (im.releaseBacking id).fixtures = im.fixtures := by
  unfold releaseBacking
  split
  · rfl
  · exact fixtures_modify_backing fun _ => rfl

/-- An operation that is one transition leaves the fixtures as they are. -/
theorem fixtures_transitionAct (context : OpContext) (clock : Clock) (id : VirtualAcceleratorId)
    (target : VirtualLifecycleState) (reason : Text) {after : Impl σ → Impl σ}
    (hafter : ∀ im, (after im).fixtures = im.fixtures) :
    (transitionAct context clock id target reason after im).1.fixtures = im.fixtures := by
  have ht := fixtures_transition im clock id target reason
  unfold transitionAct
  split <;> rename_i him <;> rw [him] at ht
  · exact ht
  · exact (hafter _).trans ht

/-- Revoking an assignment leaves the fixtures as they are. -/
@[simp]
theorem fixtures_revokeAssignment (im : Impl σ) (id : BackingAssignmentId) (reason : Text)
    (now : UnixMicros) : (im.revokeAssignment id reason now).fixtures = im.fixtures := by
  unfold revokeAssignment
  split
  · rfl
  · split
    · rw [fixtures_account, fixtures_modify_assignment]
      · rfl
      · exact fun _ => rfl
    · rfl

/-- Revoking the assignment, if there is one, leaves the fixtures as they are. -/
theorem fixtures_revokeValid (im : Impl σ) (id : BackingAssignmentId) (reason : Text)
    (now : UnixMicros) :
    (if valid id then im.revokeAssignment id reason now else im).fixtures = im.fixtures := by
  split
  · exact fixtures_revokeAssignment im id reason now
  · rfl

/-! ### Operations that leave it alone -/

section

variable {auth : Authority} {clock : Clock}

/-- A new contract leaves the fixtures as they are. -/
theorem fixtures_updateContractAct (contract : ResourceContract) (owned : Owned) :
    (updateContractAct auth contract clock owned im).1.fixtures = im.fixtures := by
  have hp : (im.probeContract owned.record (contract.normalize im.options.sorting)).1.fixtures =
      im.fixtures := by
    unfold probeContract
    split <;> rfl
  simp only [updateContractAct]
  split <;> rename_i him <;> rw [him] at hp
  · exact hp
  · exact hp

/-- Fencing a virtual accelerator leaves the fixtures as they are. -/
theorem fixtures_fenceVirtualAct (reason : Text) (owned : Owned) :
    (fenceVirtualAct auth reason clock owned im).1.fixtures = im.fixtures := by
  refine (fixtures_transitionAct _ clock _ _ _ fixtures_recomputeDerivedAccounting).trans ?_
  exact fixtures_fenceLeases im owned.virtualId _ clock.now

/-- A suspension leaves the fixtures as they are. -/
theorem fixtures_suspendAct (reason : Text) (owned : Owned) :
    (suspendAct auth reason clock owned im).1.fixtures = im.fixtures := by
  simp only [suspendAct]
  refine (fixtures_transitionAct _ clock _ _ _ fixtures_recomputeDerivedAccounting).trans ?_
  simp only [fixtures_rebuildProjection, fixtures_modify_virtual, touchVirtual, fixtures_touch,
    fixtures_releaseBacking]
  exact fixtures_revokeValid im _ _ clock.now

/-- An attachment leaves the fixtures as they are. -/
theorem fixtures_attachAct (owned : Owned) :
    (attachAct auth clock owned im).1.fixtures = im.fixtures := by
  simp only [attachAct]
  generalize him1 : Impl.modify _ .tenant owned.tenantId _ = im1
  have hsame : im1.fixtures = im.fixtures := by
    rw [← him1, fixtures_modify_tenant]
    · rfl
    · exact fun _ => rfl
  have htransition := (fixtures_transition im1 clock owned.virtualId .attached
    (txt "tenant attached under a generation-bound lease")).trans hsame
  split
  · rename_i im2 _ him
    exact ite_fst (p := fun im' => im'.fixtures = im.fixtures) hsame htransition him
  · rename_i im2 him
    have hgrant : ∀ lease, (im2.grantLease lease).fixtures = im2.fixtures := fun _ => rfl
    rw [hgrant]
    exact ite_fst (p := fun im' => im'.fixtures = im.fixtures) hsame htransition him

/-- Releasing a lease leaves the fixtures as they are. -/
theorem fixtures_releaseLease (im : Impl σ) (held : Held) (reason : Text) (now : UnixMicros)
    (book : AccountingCounters → AccountingCounters) :
    (im.releaseLease held reason now book).fixtures = im.fixtures := by
  simp only [releaseLease, fixtures_touchHeader, fixtures_account]
  split
  · rfl
  · rw [fixtures_modify_tenant]
    · rfl
    · exact fun _ => rfl

/-- Detaching or revoking a lease leaves the fixtures as they are. -/
theorem fixtures_releaseLeaseAct (operation : String) (reason : Text) (lastReason : String)
    (book : AccountingCounters → AccountingCounters) (held : Held) :
    (releaseLeaseAct operation auth clock reason lastReason book held im).1.fixtures =
      im.fixtures := by
  have hr := fixtures_releaseLease im held reason clock.now book
  simp only [releaseLeaseAct]
  generalize im.releaseLease held reason clock.now book = im1 at hr ⊢
  have htransition := (fixtures_transition im1 clock held.virtualId .provisioned
    (txt lastReason)).trans hr
  split <;> rename_i him
  · exact ite_fst (p := fun im' => im'.fixtures = im.fixtures) htransition hr him
  · exact ite_fst (p := fun im' => im'.fixtures = im.fixtures) htransition hr him

/-- A cutover leaves the fixtures as they are. -/
theorem fixtures_commitMigrationAct (c : Cutover) :
    (commitMigrationAct auth clock c im).1.fixtures = im.fixtures := by
  have hrebind : (im.rebindVirtual c clock.now).fixtures = im.fixtures := rfl
  simp only [commitMigrationAct, fixtures_touchHeader, fixtures_account,
    fixtures_modify_migration, touchMigration, fixtures_touch]
  generalize im.rebindVirtual c clock.now = im1 at hrebind ⊢
  -- the two backings, then the two assignments
  simp only [cutoverAuthority]
  rw [fixtures_modify_backing, touchBacking, fixtures_touch, fixtures_modify_backing, touchBacking,
    fixtures_touch, fixtures_modify_assignment, touchAssignment, fixtures_touch, fixtures_account,
    fixtures_modify_assignment, touchAssignment, fixtures_touch]
  · exact hrebind
  all_goals exact fun _ => rfl

/-- Failing the destination of a migration leaves the fixtures as they are. -/
theorem fixtures_failDestination (im : Impl σ) (id : BackingAssignmentId) (reason : Text)
    (now : UnixMicros) : (im.failDestination id reason now).fixtures = im.fixtures := by
  unfold failDestination
  split
  · rfl
  · exact fixtures_modify_assignment fun _ => rfl

/-- Aborting a migration leaves the fixtures as they are. -/
theorem fixtures_abortMigrationAct (reason : Text) (f : InFlight) :
    (abortMigrationAct auth reason clock f im).1.fixtures = im.fixtures := by
  have hfail := fixtures_failDestination im f.migration.destinationAssignment
    (txt "migration aborted before cutover: " ++ reason) clock.now
  simp only [abortMigrationAct]
  generalize him1 : Impl.account _ _ = im1
  have hsame : im1.fixtures = im.fixtures := by
    rw [← him1]
    exact hfail
  have htransition := (fixtures_transition im1 clock f.virtualId .provisioned
    (txt "migration aborted before cutover; the source backing remains authoritative")).trans hsame
  split
  · rename_i im2 _ him
    exact ite_fst (p := fun im' => im'.fixtures = im.fixtures) htransition hsame him
  · rename_i im2 him
    exact (fixtures_touchHeader im2).trans
      (ite_fst (p := fun im' => im'.fixtures = im.fixtures) htransition hsame him)

/-- Validating a virtual accelerator again leaves the fixtures as they are. -/
theorem fixtures_revalidateVirtual (im : Impl σ) (updated : VirtualizationPolicy)
    (now : UnixMicros) (id : VirtualAcceleratorId) :
    (im.revalidateVirtual updated now id).fixtures = im.fixtures := by
  unfold revalidateVirtual
  split
  · rfl
  · split
    · rfl
    · dsimp only
      rw [fixtures_rebuildProjection]
      split
      · rfl
      · simp only [withdrawBacking, fixtures_modify_virtual]
        rw [fixtures_modify_backing, touchBacking, fixtures_touch]
        · exact fixtures_revokeValid _ _ _ now
        · exact fun _ => rfl

/-- A new policy leaves the fixtures as they are. -/
theorem fixtures_setPolicyAct (policy : VirtualizationPolicy) :
    (setPolicyAct auth clock policy im).1.fixtures = im.fixtures := by
  have hlease : ∀ (updated : VirtualizationPolicy) (im1 : Impl σ) (id : LeaseId),
      (im1.supersedeLease updated clock.now id).fixtures = im1.fixtures := by
    intro updated im1 id
    unfold supersedeLease
    split
    · rfl
    · split <;> rfl
  have htenant : ∀ (im1 : Impl σ) (id : TenantId),
      (im1.clearAttachments clock.now id).fixtures = im1.fixtures := by
    intro im1 id
    unfold clearAttachments
    split
    · rfl
    · split
      · exact fixtures_modify_tenant fun _ => rfl
      · rfl
  simp only [setPolicyAct, fixtures_touchHeader, fixtures_recomputeDerivedAccounting]
  rw [fixtures_foldl htenant, fixtures_foldl fun im1 x => fixtures_revalidateVirtual im1 _ _ x,
    fixtures_foldl (hlease _)]
  rfl

/-! ### Tenants -/

theorem fixtures_createTenantAct (name externalSubject : Text) :
    (createTenantAct auth name externalSubject clock () im).1.fixtures =
      { im.fixtures with charter := Function.update im.fixtures.charter im.nextId (some {
        id := im.nextId, generation := 1, name, externalSubject, createdAt := clock.now }) } :=
  fixtures_put_tenant

/-- Fencing what a tenant owns leaves the fixtures as they are. -/
theorem fixtures_fenceOwned (im : Impl σ) (tenant : TenantId) (generation : Generation)
    (now : UnixMicros) (id : VirtualAcceleratorId) :
    (im.fenceOwned tenant generation now id).fixtures = im.fixtures := by
  unfold fenceOwned
  split
  · rfl
  · exact fixtures_fenceLeases _ id _ now

theorem fixtures_fenceTenantAct (id : TenantId) (reason : Text) (tenant : TenantRecord) :
    (fenceTenantAct auth id reason clock tenant im).1.fixtures = im.fixtures.amend id fun t =>
      { t with fenced := true, fenceReason := reason, generation := tenant.generation + 1 } := by
  simp only [fenceTenantAct, fixtures_recomputeDerivedAccounting]
  rw [fixtures_modify_tenant, fixtures_foldl fun im1 x => fixtures_fenceOwned im1 id _ _ x,
    fixtures_amend, touchTenant, fixtures_touch]
  all_goals exact fun _ => rfl

theorem fixtures_transferOwnershipAct (newOwner : TenantId) (t : Transfer) :
    (transferOwnershipAct auth newOwner clock t im).1.fixtures =
      (im.fixtures.amend t.tenantId (.strike t.record.id)).amend newOwner
        (.enrol t.record.id) := by
  simp only [transferOwnershipAct, fixtures_modify_virtual, touchVirtual, touchTenant,
    fixtures_touch]
  rw [fixtures_amend, fixtures_touch, fixtures_amend, fixtures_fenceLeases]
  all_goals exact fun _ => rfl

theorem fixtures_createVirtualAct (name : Text) (owner : TenantId) (ownerGeneration : Generation)
    (contract : ResourceContract) (tenant : TenantRecord) :
    (createVirtualAct auth name owner ownerGeneration contract clock tenant im).1.fixtures =
      im.fixtures.amend owner (.enrol im.nextId) := by
  simp only [createVirtualAct, fixtures_touchHeader, fixtures_account]
  rw [fixtures_amend]
  · rfl
  · exact fun _ => rfl

theorem fixtures_retireVirtualAct {owned : Owned} {tenant : TenantRecord}
    (ht : im.state.tenants[owned.record.owner]? = some tenant) (reason : Text) :
    (retireVirtualAct auth reason clock owned im).1.fixtures =
      im.fixtures.amend owned.record.owner (.strike owned.record.id) := by
  simp only [retireVirtualAct]
  have hfence := fixtures_fenceLeases im owned.virtualId (txt "virtual accelerator retired")
    clock.now
  generalize im.fenceLeases owned.virtualId (txt "virtual accelerator retired") clock.now = im1
    at hfence ⊢
  have hemplace : (im1.emplace .tenant owned.record.owner {}).fixtures = im.fixtures := by
    refine (fixtures_emplace_tenant ?_).trans hfence
    rw [hfence]
    simp [fixtures, VirtualizationState.fixtures, ht]
  generalize im1.emplace .tenant owned.record.owner {} = im2 at hemplace ⊢
  generalize him3 : Impl.modify _ .tenant owned.record.owner _ = im3
  have hstrike : im3.fixtures = im.fixtures.amend owned.record.owner (.strike owned.record.id) := by
    rw [← him3, fixtures_amend, touchTenant, fixtures_touch, hemplace]
    exact fun _ => rfl
  have hrevoke := (fixtures_revokeValid im3 owned.record.assignment
    (txt "virtual accelerator retired") clock.now).trans hstrike
  generalize (if valid owned.record.assignment then im3.revokeAssignment owned.record.assignment
    (txt "virtual accelerator retired") clock.now else im3) = im4 at hrevoke ⊢
  have hrelease := (fixtures_releaseBacking im4 owned.record.backing).trans hrevoke
  generalize im4.releaseBacking owned.record.backing = im5 at hrelease ⊢
  refine (fixtures_transitionAct _ clock _ _ _ fun im6 => ?_).trans ?_
  · rw [fixtures_recomputeDerivedAccounting, fixtures_account]
  · rw [fixtures_rebuildProjection, fixtures_modify_virtual, touchVirtual, fixtures_touch]
    exact hrelease

/-! ### New assignments -/

/-- Draining the assignment that is replaced leaves the fixtures as they are. -/
theorem fixtures_drainPrevious (im : Impl σ) (id : VirtualAcceleratorId)
    (value : VirtualAcceleratorRecord) (now : UnixMicros) :
    (im.drainPrevious id value now).fixtures = im.fixtures := by
  simp only [drainPrevious, fixtures_fenceLeases, fixtures_modify_virtual, touchVirtual,
    fixtures_touch, fixtures_releaseBacking]
  split
  · rfl
  · rw [fixtures_account, fixtures_modify_assignment]
    · rfl
    · exact fun _ => rfl

/-- A new assignment. -/
theorem grade_fresh (hw : im.state.WellKeyed) : im.fixtures.grade im.nextId = none :=
  Option.map_eq_none_iff.mpr (hw.fresh .assignment le_rfl)

theorem fixtures_assignBackingAct (h : Tracks im ∅ im) {operation : String} {backingId : BackingId}
    {replacing : Bool} {reason : Text} {plan : Owned × BackingRecord}
    (ho : plan.1.Current im.state) :
    ∃ (g : BackingAssignmentId) (a : BackingAssignment), im.fixtures.grade g = none ∧
      (assignBackingAct operation auth backingId replacing reason clock plan im).1.fixtures =
        { im.fixtures with grade := Function.update im.fixtures.grade g (some a) } := by
  obtain ⟨owned, backing⟩ := plan
  have hid : owned.record.id = owned.virtualId := h.idOf_eq (k := .virtual) ho.virtual
  simp only [assignBackingAct]
  generalize him1 : (if replacing then im.drainPrevious owned.virtualId owned.record clock.now
    else im) = im1
  have hsame : im1.fixtures = im.fixtures ∧ im1.state.WellKeyed := by
    rw [← him1]
    split
    · exact ⟨fixtures_drainPrevious .., (h.drainPrevious hid clock.now).wellKeyed⟩
    · exact ⟨rfl, h.wellKeyed⟩
  obtain ⟨hsame, hw⟩ := hsame
  have hgrade := grade_fresh hw
  rw [hsame] at hgrade
  rw [fixtures_touchHeader, fixtures_account, fixtures_modify_backing, touchBacking,
    fixtures_touch, fixtures_put_assignment]
  · simp only [touchAssignment, fixtures_touch, fixtures_modify_virtual, fixtures_rebuildProjection,
      touchVirtual, fixtures_takeId, hsame]
    exact ⟨_, _, hgrade, rfl⟩
  · exact fun _ => rfl

theorem fixtures_prepareMigrationAct (h : Tracks im ∅ im) {f : InFlight} :
    (prepareMigrationAct auth clock f im).1.fixtures = im.fixtures ∨
      ∃ (g : BackingAssignmentId) (a : BackingAssignment), im.fixtures.grade g = none ∧
        (prepareMigrationAct auth clock f im).1.fixtures =
          { im.fixtures with grade := Function.update im.fixtures.grade g (some a) } := by
  have hsame := fixtures_transition im clock f.virtualId .migrating
    (txt "migration prepared; leases are drained before cutover")
  have ht := h.transition clock f.virtualId .migrating
    (txt "migration prepared; leases are drained before cutover")
  simp only [prepareMigrationAct]
  split
  · rename_i im1 drained htransition
    rw [htransition] at hsame
    exact .inl hsame
  · rename_i im1 htransition
    rw [htransition] at hsame ht
    have hfence := (fixtures_fenceLeases im1 f.virtualId
      (txt "migration drained the source backing; the lease is bound to the source generation")
      clock.now).trans hsame
    have ht2 := ht.fenceLeases f.virtualId
      (txt "migration drained the source backing; the lease is bound to the source generation")
      clock.now
    generalize im1.fenceLeases f.virtualId
      (txt "migration drained the source backing; the lease is bound to the source generation")
      clock.now = im2 at hfence ht2 ⊢
    refine .inr ⟨im2.nextId, (im2.prepareDestination f clock.now).grade, ?_, ?_⟩
    · rw [← hfence]
      exact grade_fresh ht2.wellKeyed
    · rw [fixtures_touchHeader, fixtures_account, fixtures_modify_migration, touchMigration,
        fixtures_touch, fixtures_put_assignment, ← hfence]
      rfl

/-! ### Devices -/

theorem roles_foldl {α : Type} {step : Impl σ → α → Impl σ}
    (hstep : ∀ im a, (step im a).fixtures.roles = im.fixtures.roles) (l : List α) (im : Impl σ) :
    (l.foldl step im).fixtures.roles = im.fixtures.roles :=
  foldl_unchanged (f := fun im : Impl σ => im.fixtures.roles) hstep l im

/-- Describing a device leaves tenants and assignments as they are. -/
theorem roles_describeDevice (im : Impl σ) (agent : AgentId) (boot : AgentBootId)
    (d : PhysicalDeviceDescriptor) (now : UnixMicros) :
    (im.describeDevice agent boot d now).1.fixtures.roles = im.fixtures.roles := by
  have hlocate : (im.locateDevice d).1.fixtures.roles = im.fixtures.roles := by
    unfold locateDevice
    split
    · rfl
    · dsimp only
      split <;> rfl
  simp only [describeDevice]
  generalize im.locateDevice d = located at hlocate ⊢
  exact hlocate

/-- Materialising a backing leaves tenants and assignments as they are. -/
theorem roles_materializeBacking (key : PhysicalDeviceId) (device : PhysicalDeviceRecord)
    (now : UnixMicros) (im : Impl σ) (source : BackingDescriptor) :
    (im.materializeBacking key device now source).fixtures.roles = im.fixtures.roles := by
  unfold materializeBacking
  split <;> rfl

/-- Refreshing a backing leaves tenants and assignments as they are. -/
theorem roles_refreshBacking (device : PhysicalDeviceRecord) (now : UnixMicros) (im : Impl σ)
    (id : BackingId) : (im.refreshBacking device now id).fixtures.roles = im.fixtures.roles := by
  unfold refreshBacking
  split <;> rfl

/-- Invalidating a backing leaves the fixtures as they are. -/
theorem fixtures_invalidateBacking (now : UnixMicros) (im : Impl σ) (id : BackingId) :
    (im.invalidateBacking now id).fixtures = im.fixtures := by
  have hholder : ∀ (im1 : Impl σ) x, (im1.invalidateHolder now x).fixtures = im1.fixtures := by
    intro im1 x
    unfold invalidateHolder
    split
    · rfl
    · split <;> rfl
  have hbinding : ∀ g, (im.invalidateBinding now g).fixtures = im.fixtures := by
    intro g
    unfold invalidateBinding
    split
    · rfl
    · split
      · rw [hholder, fixtures_revokeAssignment]
      · rfl
  unfold invalidateBacking
  split
  · rfl
  · rw [fixtures_modify_backing, touchBacking, fixtures_touch, hbinding]
    exact fun _ => rfl

/-- Registering a device leaves tenants and assignments as they are. -/
theorem roles_registerPhysicalAct {agent : AgentId} {boot : AgentBootId}
    {d : PhysicalDeviceDescriptor} :
    (registerPhysicalAct auth agent boot d clock () im).1.fixtures.roles = im.fixtures.roles := by
  have hdescribed := roles_describeDevice im agent boot d clock.now
  simp only [registerPhysicalAct, settleBackings, fixtures_touchHeader, fixtures_account]
  generalize im.describeDevice agent boot d clock.now = described at hdescribed ⊢
  obtain ⟨im1, key, changed⟩ := described
  rw [← hdescribed]
  split
  · rw [roles_foldl fun im1 id => congrArg _ (fixtures_invalidateBacking clock.now im1 id),
      roles_foldl (roles_materializeBacking key _ clock.now)]
  · rw [roles_foldl (roles_refreshBacking _ clock.now),
      roles_foldl (roles_materializeBacking key _ clock.now)]

/-- Losing a backing leaves tenants and assignments as they are. -/
theorem roles_loseBacking (im : Impl σ) (reason : Text) (now : UnixMicros) (id : BackingId) :
    (im.loseBacking reason now id).fixtures.roles = im.fixtures.roles := by
  unfold loseBacking
  split
  · rfl
  · rename_i b hb
    dsimp only
    split
    · rfl
    · split
      · rfl
      · rename_i v hv
        rw [fixtures_modify_backing, fixtures_revokeValid, fixtures_fenceLeases]
        · unfold interruptHolder
          dsimp only
          split <;> rfl
        · exact fun _ => rfl

/-- Recounting the attachments of a tenant leaves the fixtures as they are. -/
theorem fixtures_recountTenant (im : Impl σ) (now : UnixMicros) (id : TenantId) :
    (im.recountTenant now id).fixtures = im.fixtures := by
  unfold recountTenant
  split
  · rfl
  · dsimp only
    split
    · exact fixtures_modify_tenant fun _ => rfl
    · rfl

/-- Losing a device leaves tenants and assignments as they are. -/
theorem roles_physicalLostAct {id : PhysicalDeviceId} {generation : Generation} {reason : Text}
    {device : PhysicalDeviceRecord} :
    (physicalLostAct id generation reason clock device im).1.fixtures.roles =
      im.fixtures.roles := by
  simp only [physicalLostAct, fixtures_touchHeader, fixtures_recomputeDerivedAccounting,
    fixtures_account]
  rw [fixtures_foldl fun im1 t => fixtures_recountTenant im1 clock.now t,
    roles_foldl fun im1 b => roles_loseBacking im1 reason clock.now b]
  rfl

/-! ### Recovery and restart -/

/-- Classifying a migration after a restart leaves the fixtures as they are. -/
theorem fixtures_classifyMigration (now : UnixMicros) (acc : Impl σ × Bool) (key : MigrationId) :
    (classifyMigration now acc key).1.fixtures = acc.1.fixtures := by
  have hfail : ∀ (im1 : Impl σ) g, (im1.failRecovered now g).fixtures = im1.fixtures := by
    intro im1 g
    unfold failRecovered
    split
    · rfl
    · split
      · rfl
      · exact fixtures_modify_assignment fun _ => rfl
  simp only [classifyMigration]
  split
  · rfl
  · split
    · rfl
    · split
      · rfl
      · split
        · rfl
        · exact hfail _ _

/-- Classifying the migrations after a restart leaves the fixtures as they are. -/
theorem fixtures_classified (im : Impl σ) (now : UnixMicros) :
    (im.classified now).1.fixtures = im.fixtures := by
  unfold classified
  exact foldl_unchanged (f := fun acc : Impl σ × Bool => acc.1.fixtures)
    (fixtures_classifyMigration now) _ _

/-- Ending a lease leaves the fixtures as they are. -/
theorem fixtures_endLease (ended : LeaseState) (reason : Text) (now : UnixMicros) (im : Impl σ)
    (id : LeaseId) : (im.endLease ended reason now id).fixtures = im.fixtures := by
  unfold endLease
  split
  · rfl
  · split <;> rfl

/-- Releasing the attachments of a virtual accelerator leaves the fixtures as they are. -/
theorem fixtures_releaseAttachments (reason : Text) (now : UnixMicros) (im : Impl σ)
    (id : VirtualAcceleratorId) :
    (im.releaseAttachments reason now id).fixtures = im.fixtures := by
  unfold releaseAttachments
  split
  · rfl
  · dsimp only
    split <;> split <;> rfl

/-- Releasing the attachments of a tenant leaves the fixtures as they are. -/
theorem fixtures_releaseTenant (updated : Option UnixMicros) (im : Impl σ) (id : TenantId) :
    (im.releaseTenant updated id).fixtures = im.fixtures := by
  unfold releaseTenant
  split
  · rfl
  · split
    · exact fixtures_modify_tenant fun _ => rfl
    · rfl

/-- Distrusting a backing after a restart leaves tenants and assignments as they are. -/
theorem roles_distrustBacking (im : Impl σ) (id : BackingId) :
    (im.distrustBacking id).fixtures.roles = im.fixtures.roles := by
  unfold distrustBacking
  split <;> rfl

/-- Distrusting a device after a restart leaves tenants and assignments as they are. -/
theorem roles_distrustPhysical (im : Impl σ) (id : PhysicalDeviceId) :
    (im.distrustPhysical id).fixtures.roles = im.fixtures.roles := by
  unfold distrustPhysical
  split <;> rfl

/-- Recording an outcome leaves the fixtures as they are. -/
theorem fixtures_record (im : Impl σ) (clock : Clock) (context : OpContext) (outcome : StatusCode)
    (reason : Text) (kind : AuditKind) :
    (im.record clock context outcome reason kind).fixtures = im.fixtures :=
  rfl

/-- A shutdown, before it commits, leaves the fixtures as they are. -/
theorem fixtures_shutdownBody (clock : Clock) :
    (im.shutdownBody clock).fixtures = im.fixtures := by
  rw [shutdownBody, fixtures_record, fixtures_touchHeader, fixtures_recomputeDerivedAccounting,
    fixtures_foldl (fixtures_releaseTenant _), fixtures_foldl (fixtures_releaseAttachments _ _),
    fixtures_foldl (fixtures_endLease _ _ _)]

/-- Entering a new epoch leaves the fixtures as they are. -/
theorem fixtures_enterEpoch (im : Impl σ) (recovered : Bool) :
    (im.enterEpoch recovered).fixtures = im.fixtures := by
  simp only [enterEpoch]
  split
  · exact fixtures_congr rfl rfl rfl rfl
  · split <;> exact fixtures_congr rfl rfl rfl rfl

/-- A start, after it has loaded, leaves tenants and assignments as they are. -/
theorem roles_startBody (clock : Clock) (recovered : Bool) :
    (im.startBody clock recovered).fixtures.roles = im.fixtures.roles := by
  refine Eq.trans ?_ (congrArg _ (im.fixtures_enterEpoch recovered))
  simp only [startBody]
  generalize im.enterEpoch recovered = i
  split
  · rw [fixtures_record, dropLocalAuthority, fixtures_touchHeader,
      fixtures_recomputeDerivedAccounting]
    generalize h1 : i.state.leases.keys.foldl _ i = i1
    generalize h2 : i1.state.virtuals.keys.foldl _ i1 = i2
    generalize h3 : i2.state.tenants.keys.foldl _ i2 = i3
    generalize h4 : i3.state.backings.keys.foldl _ i3 = i4
    change (i4.state.physical.keys.foldl distrustPhysical i4).fixtures.roles = i.fixtures.roles
    rw [roles_foldl roles_distrustPhysical, ← h4, roles_foldl roles_distrustBacking, ← h3,
      fixtures_foldl (fixtures_releaseTenant _), ← h2,
      fixtures_foldl (fixtures_releaseAttachments _ _), ← h1,
        fixtures_foldl (fixtures_endLease _ _ _)]
  · rfl

end

end Impl

/-! ### Every body -/

/-- Whether an operation changes a tenant besides its attachments. -/
def Op.enlists : Op → Bool
  | .createTenant .. | .fenceTenant .. | .transferOwnership .. | .createVirtual ..
  | .retireVirtual .. => true
  | _ => false

/-- Whether an operation changes devices and what their backings offer. -/
def Op.reequips : Op → Bool
  | .registerPhysical .. | .physicalLost .. => true
  | _ => false

/-- What an operation leaves alone. -/
structure Fixtures.Fixed (op : Op) (F F' : Fixtures) : Prop where
  device : op.reequips = false → F'.device = F.device
  offer : op.reequips = false → F'.offer = F.offer
  charter : op.enlists = false → F'.charter = F.charter
  grade : ∀ g a, F.grade g = some a → F'.grade g = some a

namespace Fixtures.Fixed

variable {F F' : Fixtures} {op : Op}

theorem of_eq (h : F' = F) : Fixed op F F' := by
  subst h
  exact ⟨fun _ => rfl, fun _ => rfl, fun _ => rfl, fun _ _ h => h⟩

theorem of_roles (hop : op.reequips = true) (h : F'.roles = F.roles) : Fixed op F F' := by
  obtain ⟨hcharter, hgrade⟩ := Prod.mk.inj h
  refine ⟨fun hc => ?_, fun hc => ?_, fun _ => hcharter, fun _ _ ha => hgrade ▸ ha⟩
  · exact absurd (hop.symm.trans hc) nofun
  · exact absurd (hop.symm.trans hc) nofun

theorem of_charter {c : ℕ → Option TenantRecord} (hop : op.enlists = true)
    (h : F' = { F with charter := c }) : Fixed op F F' := by
  subst h
  refine ⟨fun _ => rfl, fun _ => rfl, fun hc => ?_, fun _ _ h => h⟩
  exact absurd (hop.symm.trans hc) nofun

theorem of_grade {g : BackingAssignmentId} {a : BackingAssignment} (hg : F.grade g = none)
    (h : F' = { F with grade := Function.update F.grade g (some a) }) : Fixed op F F' := by
  subst h
  refine ⟨fun _ => rfl, fun _ => rfl, fun _ => rfl, fun g' a' h => ?_⟩
  refine (Function.update_of_ne ?_ _ _).trans h
  rintro rfl
  exact absurd (hg.symm.trans h) nofun

end Fixtures.Fixed

namespace Impl

variable {σ : Type} {im im' : Impl σ} {clock : Clock} {op : Op} {b : Body σ Unit}

theorem fixed_checked {π α : Type} {context : Impl σ → OpContext} {kind : AuditKind}
    {check : Impl σ → Except Status π} {act : π → Body σ α}
    (hact : ∀ plan, check im = .ok plan → im.fixtures.Fixed op (act plan im).1.fixtures) :
    im.fixtures.Fixed op
      (checked (fun im => orRefuse (context im) kind (check im)) act im).1.fixtures :=
  fst_checked (p := fun im' => im.fixtures.Fixed op im'.fixtures) (.of_eq rfl) hact

theorem fixed_forget {α : Type} {body : Body σ α} (h : im.fixtures.Fixed op (body im).1.fixtures) :
    im.fixtures.Fixed op (body.forget im).1.fixtures := h

/-- What every operation leaves alone. -/
theorem fixed_body (hb : body clock op = some b) (hw : im.state.WellKeyed) :
    im.fixtures.Fixed op (b im.beginOp).1.fixtures := by
  change im.beginOp.fixtures.Fixed op (b im.beginOp).1.fixtures
  have ht : Tracks im.beginOp ∅ im.beginOp := .beginOp (show im.beginOp.state.WellKeyed from hw)
  generalize im.beginOp = i at ht ⊢
  cases op <;> simp only [body, Option.some.injEq, reduceCtorEq] at hb <;> subst hb
  case registerPhysical =>
    exact fixed_forget (fixed_checked fun _ _ => .of_roles rfl roles_registerPhysicalAct)
  case physicalLost => exact fixed_checked fun _ _ => .of_roles rfl roles_physicalLostAct
  case setPolicy => exact fixed_forget (fixed_checked fun _ _ => .of_eq (fixtures_setPolicyAct _))
  case createTenant =>
    exact fixed_forget (fixed_checked fun _ _ => .of_charter rfl (fixtures_createTenantAct _ _))
  case fenceTenant => exact fixed_checked fun _ _ => .of_charter rfl (fixtures_fenceTenantAct ..)
  case transferOwnership =>
    exact fixed_forget (fixed_checked fun _ _ => .of_charter rfl (fixtures_transferOwnershipAct ..))
  case createVirtual =>
    exact fixed_forget (fixed_checked fun _ _ => .of_charter rfl (fixtures_createVirtualAct ..))
  case updateContract =>
    exact fixed_forget (fixed_checked fun _ _ => .of_eq (fixtures_updateContractAct ..))
  case activate | resume =>
    exact fixed_forget (fixed_checked fun _ _ => .of_eq
      (fixtures_transitionAct _ _ _ _ _ fixtures_recomputeDerivedAccounting))
  case drain | resolveRecovery =>
    exact fixed_forget (fixed_checked fun _ _ => .of_eq
      (fixtures_transitionAct _ _ _ _ _ fun _ => rfl))
  case suspend => exact fixed_forget (fixed_checked fun _ _ => .of_eq (fixtures_suspendAct ..))
  case fenceVirtual =>
    exact fixed_forget (fixed_checked fun _ _ => .of_eq (fixtures_fenceVirtualAct ..))
  case retireVirtual =>
    refine fixed_forget (fixed_checked fun owned hs => ?_)
    have ho := (notRetiredCheck_ok hs).1
    -- the owner that the record names is the tenant of the check
    have hid : owned.tenant.id = owned.tenantId := ht.idOf_eq (k := .tenant) ho.tenant
    have htenant : i.state.tenants[owned.record.owner]? = some owned.tenant := by
      rw [ho.owner, hid]
      exact ho.tenant
    exact .of_charter rfl (fixtures_retireVirtualAct htenant _)
  case assignBacking | replaceBacking =>
    refine fixed_forget (fixed_checked fun plan hs => ?_)
    obtain ⟨g, a, hg, h⟩ := fixtures_assignBackingAct ht (assignBackingCheck_ok hs).1
    exact .of_grade hg h
  case attach => exact fixed_forget (fixed_checked fun _ _ => .of_eq (fixtures_attachAct _))
  case renewLease => exact fixed_forget (fixed_checked fun _ _ => .of_eq rfl)
  case detach | revokeLease =>
    exact fixed_checked fun _ _ => .of_eq (fixtures_releaseLeaseAct ..)
  case planMigration => exact fixed_forget (fixed_checked fun _ _ => .of_eq rfl)
  case prepareMigration =>
    refine fixed_forget (fixed_checked fun f _ => ?_)
    obtain h | ⟨g, a, hg, h⟩ := fixtures_prepareMigrationAct ht
    · exact .of_eq h
    · exact .of_grade hg h
  case commitMigration =>
    exact fixed_forget (fixed_checked fun _ _ => .of_eq (fixtures_commitMigrationAct _))
  case completeMigration => exact fixed_forget (fixed_checked fun _ _ => .of_eq rfl)
  case abortMigration =>
    exact fixed_forget (fixed_checked fun _ _ => .of_eq (fixtures_abortMigrationAct ..))
  case reserveAllocation => exact fixed_forget (fixed_checked fun _ _ => .of_eq rfl)
  case releaseAllocation => exact fixed_checked fun _ _ => .of_eq rfl
  case accountKernel => exact fixed_checked fun _ _ => .of_eq rfl

end Impl

end AcceleratorVirtualization
