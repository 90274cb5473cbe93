import AcceleratorVirtualization.Invariants.Fixtures

/-!
# How many records there are

Records are never deleted, and an operation makes at most one record of a kind that the policy
limits. The census counts the records of these kinds, next to the limits; an operation leaves it
alone, or adds one to the count of a single kind, or sets the limits.
-/

namespace AcceleratorVirtualization

open VirtualizationState

/-! ### Counting -/

/-- How many records of a kind a policy permits. Devices and backings have no limit. -/
def VirtualizationPolicy.limit (p : VirtualizationPolicy) : RecordKind → ℕ
  | .tenant => p.maxTenants
  | .virtual => p.maxVirtualAccelerators
  | .lease => p.maxLeases
  | .assignment => p.maxAssignments
  | .migration => p.maxMigrations
  | .evidence => p.maxEvidenceRecords
  | .physical | .backing => 0

/-- How many records there are of the kinds that have a limit, the limits, and whether there is a
policy to set them. -/
structure Census where
  count : RecordKind → ℕ
  limit : RecordKind → ℕ
  governed : Bool

namespace Census

variable {c c' c'' : Census} {k : RecordKind} {K : Set RecordKind}

/-- At most one record of a kind is new. -/
structure Grown (k : RecordKind) (c c' : Census) : Prop where
  limit : c'.limit = c.limit
  governed : c'.governed = c.governed
  count : c'.count ≤ c.count + Pi.single k 1

/-- No limit of these kinds is exceeded; as long as there is no policy, the limits are the default
ones. -/
structure Within (K : Set RecordKind) (c : Census) : Prop where
  count : ∀ k ∈ K, c.count k ≤ c.limit k
  default : c.governed = false → c.limit = VirtualizationPolicy.defaultPolicy.limit

theorem Within.grown (h : c.Within K) (hg : Grown k c c')
    (hroom : k ∈ K → c.count k < c.limit k) : c'.Within K := by
  refine ⟨fun k' hk' => ?_, fun hnone => hg.limit.trans (h.default (hg.governed ▸ hnone))⟩
  have hcount := hg.count k'
  rw [hg.limit]
  obtain rfl | hk := eq_or_ne k' k
  · rw [Pi.add_apply, Pi.single_eq_same] at hcount
    exact hcount.trans (hroom hk')
  · rw [Pi.add_apply, Pi.single_eq_of_ne hk] at hcount
    exact hcount.trans (h.count k' hk')

theorem Within.of_eq (h : c.Within K) (he : c' = c) : c'.Within K := he ▸ h

theorem Grown.refl (c : Census) : Grown k c c := ⟨rfl, rfl, fun _ => Nat.le_add_right _ _⟩

end Census

namespace VirtualizationState

variable {s t : VirtualizationState}

/-- How many records each kind has and how many the policy allows; devices and backings are counted
in the inventory. -/
def census (s : VirtualizationState) : Census where
  count
    | .physical | .backing => 0
    | k => (s.entities k).size
  limit := s.policy.limit
  governed := valid s.policyGeneration

theorem census_congr (h : ∀ k, (s.entities k).size = (t.entities k).size)
    (hp : s.policy = t.policy) (hg : s.policyGeneration = t.policyGeneration) :
    s.census = t.census := by
  simp only [census, hp, hg, Census.mk.injEq, and_true]
  funext k
  cases k <;> first | rfl | exact h _

theorem policy_setEntities (s : VirtualizationState) (k : RecordKind) (m : IdMap k.Record) :
    (s.setEntities k m).policy = s.policy ∧
      (s.setEntities k m).policyGeneration = s.policyGeneration := by
  cases k <;> exact ⟨rfl, rfl⟩

theorem census_setEntities {k : RecordKind} {m : IdMap k.Record}
    (h : m.size = (s.entities k).size) : (s.setEntities k m).census = s.census := by
  obtain ⟨hp, hg⟩ := policy_setEntities s k m
  refine census_congr (fun k' => ?_) hp hg
  rw [entities_setEntities]
  obtain rfl | hk := eq_or_ne k' k
  · rw [Function.update_self, h]
  · rw [Function.update_of_ne hk]

theorem grown_put (s : VirtualizationState) (k : RecordKind) (id : ℕ) (r : k.Record) :
    s.census.Grown k (s.put k id r).census where
  limit := congrArg VirtualizationPolicy.limit (policy_setEntities s k _).1
  governed := congrArg valid (policy_setEntities s k _).2
  count := by
    have hsize : ∀ k', ((s.put k id r).entities k').size ≤
        (s.entities k').size + (Pi.single k 1 : RecordKind → ℕ) k' := by
      intro k'
      rw [put, entities_setEntities]
      obtain rfl | hk := eq_or_ne k' k
      · rw [Function.update_self, Pi.single_eq_same]
        exact Std.ExtTreeMap.size_insert_le
      · rw [Function.update_of_ne hk]
        exact Nat.le_add_right _ _
    intro k'
    cases k' <;> first | exact Nat.zero_le _ | exact hsize _

end VirtualizationState

namespace Impl

variable {σ : Type} {im im' : Impl σ}

/-- The census of the state of a runtime. -/
def census (im : Impl σ) : Census := im.state.census

/-- Changing a record leaves the counts and the limits as they are. -/
@[simp]
theorem census_modify (im : Impl σ) (k : RecordKind) (id : ℕ) (f : k.Record → k.Record) :
    (im.modify k id f).census = im.census :=
  census_setEntities Std.ExtTreeMap.size_modify

@[simp]
theorem census_touch (im : Impl σ) (k : RecordKind) (id : ℕ) :
    (im.touch k id).census = im.census := rfl

@[simp]
theorem census_takeId (im : Impl σ) : im.takeId.census = im.census :=
  census_congr (fun k => by cases k <;> rfl) rfl rfl

@[simp]
theorem census_touchHeader (im : Impl σ) : im.touchHeader.census = im.census := rfl

@[simp]
theorem census_account (im : Impl σ) (f : AccountingCounters → AccountingCounters) :
    (im.account f).census = im.census :=
  census_congr (fun k => by cases k <;> rfl) rfl rfl

/-- Rebuilding what a virtual accelerator shows leaves the counts and the limits as they are. -/
@[simp]
theorem census_rebuildProjection (im : Impl σ) (id : VirtualAcceleratorId) :
    (im.rebuildProjection id).census = im.census := by
  rw [rebuildProjection, census_modify, census_takeId]

/-- Recomputing the derived counters leaves the counts and the limits as they are. -/
@[simp]
theorem census_recomputeDerivedAccounting (im : Impl σ) :
    im.recomputeDerivedAccounting.census = im.census := by
  rw [recomputeDerivedAccounting, census_touchHeader, census_account]

/-- A record is entered. -/
theorem grown_put {k : RecordKind} {id : ℕ} {r : k.Record} (h : im'.census = im.census) :
    im.census.Grown k (im'.put k id r).census := by
  rw [← h]
  exact VirtualizationState.grown_put im'.state k id r

/-- Devices and backings are not counted. -/
theorem census_emplace_physical (im : Impl σ) (id : ℕ) (r : PhysicalDeviceRecord) :
    (im.emplace .physical id r).census = im.census := by
  simp only [census, VirtualizationState.census, Census.mk.injEq]
  exact ⟨funext fun k => by cases k <;> rfl, rfl, rfl⟩

theorem census_emplace_backing (im : Impl σ) (id : ℕ) (r : BackingRecord) :
    (im.emplace .backing id r).census = im.census := by
  simp only [census, VirtualizationState.census, Census.mk.injEq]
  exact ⟨funext fun k => by cases k <;> rfl, rfl, rfl⟩

/-- A record that is there stays. -/
theorem census_emplace {k : RecordKind} {id : ℕ} (r : k.Record) (h : id ∈ im.state.entities k) :
    (im.emplace k id r).census = im.census := by
  refine census_setEntities ?_
  rw [Std.ExtTreeMap.size_insertIfNew, if_pos h]

/-! ### Helpers -/

theorem census_foldl {α : Type} {step : Impl σ → α → Impl σ}
    (hstep : ∀ im a, (step im a).census = im.census) (l : List α) (im : Impl σ) :
    (l.foldl step im).census = im.census :=
  foldl_unchanged (f := fun im : Impl σ => im.census) hstep l im

/-- Fencing a lease leaves the counts and the limits as they are. -/
@[simp]
theorem census_fenceLease (im : Impl σ) (reason : Text) (now : UnixMicros) (id : LeaseId) :
    (im.fenceLease reason now id).census = im.census := by
  unfold fenceLease
  split
  · rfl
  · split <;> simp [touchLease]

/-- Fencing the leases of a virtual accelerator leaves the counts and the limits as they are. -/
@[simp]
theorem census_fenceLeases (im : Impl σ) (id : VirtualAcceleratorId) (reason : Text)
    (now : UnixMicros) : (im.fenceLeases id reason now).census = im.census := by
  unfold fenceLeases
  split
  · rfl
  · dsimp only
    split
    · exact census_foldl (fun im lease => census_fenceLease im reason now lease) _ im
    · rw [census_touchHeader, census_account]
      split <;> simp [touchTenant, touchVirtual,
        census_foldl (fun im lease => census_fenceLease im reason now lease) _ im]

/-- Carrying a lease over to a new generation leaves the counts and the limits as they are. -/
@[simp]
theorem census_carryLease (im : Impl σ) (generation : Generation) (id : LeaseId) :
    (im.carryLease generation id).census = im.census := by
  unfold carryLease
  split
  · rfl
  · split <;> simp [touchLease]

/-- A transition of the life cycle leaves the counts and the limits as they are. -/
@[simp]
theorem census_transition (im : Impl σ) (clock : Clock) (id : VirtualAcceleratorId)
    (target : VirtualLifecycleState) (reason : Text) :
    (im.transition clock id target reason).1.census = im.census := by
  unfold transition
  split
  · rfl
  · split
    · rfl
    · dsimp only
      split
      · rw [census_foldl fun im lease => census_carryLease im _ lease]
        simp [touchVirtual]
      · simp [touchVirtual]

/-- Releasing a backing leaves the counts and the limits as they are. -/
@[simp]
theorem census_releaseBacking (im : Impl σ) (id : BackingId) :
    (im.releaseBacking id).census = im.census := by
  unfold releaseBacking
  split <;> simp [touchBacking]

/-- An operation that is one transition leaves the counts and the limits as they are. -/
theorem census_transitionAct (context : OpContext) (clock : Clock) (id : VirtualAcceleratorId)
    (target : VirtualLifecycleState) (reason : Text) {after : Impl σ → Impl σ}
    (hafter : ∀ im, (after im).census = im.census) :
    (transitionAct context clock id target reason after im).1.census = im.census := by
  have ht := census_transition im clock id target reason
  unfold transitionAct
  split <;> rename_i him <;> rw [him] at ht
  · exact ht
  · exact (hafter _).trans ht

/-- Revoking an assignment leaves the counts and the limits as they are. -/
@[simp]
theorem census_revokeAssignment (im : Impl σ) (id : BackingAssignmentId) (reason : Text)
    (now : UnixMicros) : (im.revokeAssignment id reason now).census = im.census := by
  unfold revokeAssignment
  split
  · rfl
  · split <;> simp [touchAssignment]

/-- Revoking the assignment, if there is one, leaves the counts and the limits as they are. -/
@[simp]
theorem census_revokeValid (im : Impl σ) (id : BackingAssignmentId) (reason : Text)
    (now : UnixMicros) :
    (if valid id then im.revokeAssignment id reason now else im).census = im.census := by
  split <;> simp

/-! ### Operations that make nothing -/

section

variable {auth : Authority} {clock : Clock}

/-- A new contract leaves the counts and the limits as they are. -/
theorem census_updateContractAct (contract : ResourceContract) (owned : Owned) :
    (updateContractAct auth contract clock owned im).1.census = im.census := by
  have hp : (im.probeContract owned.record (contract.normalize im.options.sorting)).1.census =
      im.census := by
    unfold probeContract
    split <;> simp
  simp only [updateContractAct]
  split <;> rename_i him <;> rw [him] at hp
  · exact hp
  · simpa [touchVirtual] using hp

/-- Fencing a virtual accelerator leaves the counts and the limits as they are. -/
theorem census_fenceVirtualAct (reason : Text) (owned : Owned) :
    (fenceVirtualAct auth reason clock owned im).1.census = im.census := by
  refine (census_transitionAct _ clock _ _ _ census_recomputeDerivedAccounting).trans ?_
  rw [touchVirtual, census_touch, census_fenceLeases]

/-- A suspension leaves the counts and the limits as they are. -/
theorem census_suspendAct (reason : Text) (owned : Owned) :
    (suspendAct auth reason clock owned im).1.census = im.census := by
  simp only [suspendAct]
  refine (census_transitionAct _ clock _ _ _ census_recomputeDerivedAccounting).trans ?_
  simp [touchVirtual]

/-- A retirement leaves the counts and the limits as they are. -/
theorem census_retireVirtualAct {owned : Owned} (reason : Text)
    (ht : owned.record.owner ∈ im.state.tenants) :
    (retireVirtualAct auth reason clock owned im).1.census = im.census := by
  have hsame := census_fenceLeases im owned.virtualId (txt "virtual accelerator retired") clock.now
  have hfixtures := fixtures_fenceLeases im owned.virtualId (txt "virtual accelerator retired")
    clock.now
  simp only [retireVirtualAct]
  refine (census_transitionAct _ clock _ _ _ fun _ => by simp).trans ?_
  generalize im.fenceLeases owned.virtualId (txt "virtual accelerator retired") clock.now = im1
    at hsame hfixtures ⊢
  have hin : owned.record.owner ∈ im1.state.entities .tenant := by
    have hsome := congrArg (fun F => (F.charter owned.record.owner).isSome) hfixtures
    simp only [fixtures, VirtualizationState.fixtures, Option.isSome_map] at hsome
    rw [Std.ExtTreeMap.mem_iff_isSome_getElem?] at ht ⊢
    exact hsome.trans ht
  simp [touchVirtual, touchTenant, census_emplace (k := .tenant) _ hin, hsame]

/-- Detaching or revoking a lease leaves the counts and the limits as they are. -/
theorem census_releaseLeaseAct (operation : String) (reason : Text) (lastReason : String)
    (book : AccountingCounters → AccountingCounters) (held : Held) :
    (releaseLeaseAct operation auth clock reason lastReason book held im).1.census =
      im.census := by
  have hr : (im.releaseLease held reason clock.now book).census = im.census := by
    simp only [releaseLease, census_touchHeader, census_account]
    split <;> simp [touchLease, touchVirtual, touchTenant]
  simp only [releaseLeaseAct]
  generalize im.releaseLease held reason clock.now book = im1 at hr ⊢
  have htransition := (census_transition im1 clock held.virtualId .provisioned
    (txt lastReason)).trans hr
  split <;> rename_i him
  · exact ite_fst (p := fun im' => im'.census = im.census) htransition hr him
  · exact ite_fst (p := fun im' => im'.census = im.census) htransition hr him

/-- A cutover leaves the counts and the limits as they are. -/
theorem census_commitMigrationAct (c : Cutover) :
    (commitMigrationAct auth clock c im).1.census = im.census := by
  have hrebind : (im.rebindVirtual c clock.now).census = im.census := by
    simp [rebindVirtual, touchVirtual]
  have hcutover : ∀ (im1 : Impl σ) record,
      (im1.cutoverAuthority c record clock.now).census = im1.census := by
    intro im1 record
    simp [cutoverAuthority, touchAssignment, touchBacking]
  simp only [commitMigrationAct, census_touchHeader, census_account, census_modify, touchMigration,
    census_touch]
  rw [hcutover, hrebind]

/-- Aborting a migration leaves the counts and the limits as they are. -/
theorem census_abortMigrationAct (reason : Text) (f : InFlight) :
    (abortMigrationAct auth reason clock f im).1.census = im.census := by
  have hfail : (im.failDestination f.migration.destinationAssignment
      (txt "migration aborted before cutover: " ++ reason) clock.now).census = im.census := by
    unfold failDestination
    split <;> simp [touchAssignment]
  simp only [abortMigrationAct]
  generalize him1 : Impl.account _ _ = im1
  have hsame : im1.census = im.census := by
    rw [← him1]
    simpa [touchMigration] using hfail
  have htransition := (census_transition im1 clock f.virtualId .provisioned
    (txt "migration aborted before cutover; the source backing remains authoritative")).trans hsame
  split
  · rename_i im2 _ him
    exact ite_fst (p := fun im' => im'.census = im.census) htransition hsame him
  · rename_i im2 him
    exact (census_touchHeader im2).trans
      (ite_fst (p := fun im' => im'.census = im.census) htransition hsame him)

/-- Validating a virtual accelerator again leaves the counts and the limits as they are. -/
theorem census_revalidateVirtual (im : Impl σ) (updated : VirtualizationPolicy)
    (now : UnixMicros) (id : VirtualAcceleratorId) :
    (im.revalidateVirtual updated now id).census = im.census := by
  unfold revalidateVirtual
  split
  · rfl
  · split
    · rfl
    · dsimp only
      rw [census_rebuildProjection]
      split <;> simp [withdrawBacking, touchVirtual, touchBacking]

theorem census_setPolicyAct (policy : VirtualizationPolicy) :
    (setPolicyAct auth clock policy im).1.census =
      ⟨im.census.count, policy.limit, true⟩ := by
  have hlease : ∀ (updated : VirtualizationPolicy) (im1 : Impl σ) (id : LeaseId),
      (im1.supersedeLease updated clock.now id).census = im1.census := by
    intro updated im1 id
    unfold supersedeLease
    split
    · rfl
    · split <;> simp [touchLease]
  have htenant : ∀ (im1 : Impl σ) (id : TenantId),
      (im1.clearAttachments clock.now id).census = im1.census := by
    intro im1 id
    unfold clearAttachments
    split
    · rfl
    · split <;> simp [touchTenant]
  simp only [setPolicyAct, census_touchHeader, census_recomputeDerivedAccounting]
  rw [census_foldl htenant, census_foldl fun im1 x => census_revalidateVirtual im1 _ _ x,
    census_foldl (hlease _), census_account]
  simp only [census, VirtualizationState.census, Census.mk.injEq]
  refine ⟨?_, rfl, ?_⟩
  · funext k
    cases k <;> rfl
  · simp [valid]

/-- Fencing a tenant leaves the counts and the limits as they are. -/
theorem census_fenceTenantAct (id : TenantId) (reason : Text) (tenant : TenantRecord) :
    (fenceTenantAct auth id reason clock tenant im).1.census = im.census := by
  have howned : ∀ (im1 : Impl σ) (x : VirtualAcceleratorId),
      (im1.fenceOwned id (tenant.generation + 1) clock.now x).census = im1.census := by
    intro im1 x
    unfold fenceOwned
    split <;> simp [touchVirtual]
  simp [fenceTenantAct, census_foldl howned, touchTenant]

/-- A transfer leaves the counts and the limits as they are. -/
theorem census_transferOwnershipAct (newOwner : TenantId) (t : Transfer) :
    (transferOwnershipAct auth newOwner clock t im).1.census = im.census := by
  simp [transferOwnershipAct, touchTenant, touchVirtual]

/-- Losing a device leaves the counts and the limits as they are. -/
theorem census_physicalLostAct {id : PhysicalDeviceId} {generation : Generation} {reason : Text}
    {device : PhysicalDeviceRecord} :
    (physicalLostAct id generation reason clock device im).1.census = im.census := by
  have hlose : ∀ (im1 : Impl σ) (b : BackingId),
      (im1.loseBacking reason clock.now b).census = im1.census := by
    intro im1 b
    unfold loseBacking
    split
    · rfl
    · dsimp only
      split
      · simp [touchBacking]
      · split
        · simp [touchBacking]
        · simp only [census_modify, census_revokeValid, census_fenceLeases, interruptHolder]
          split <;> simp [touchBacking, touchVirtual]
  have hcount : ∀ (im1 : Impl σ) (t : TenantId),
      (im1.recountTenant clock.now t).census = im1.census := by
    intro im1 t
    unfold recountTenant
    split
    · rfl
    · dsimp only
      split <;> simp [touchTenant]
  simp [physicalLostAct, census_foldl hlose, census_foldl hcount, touchPhysical]

/-! ### Operations that make a record -/

theorem grown_createTenantAct (name externalSubject : Text) :
    im.census.Grown .tenant (createTenantAct auth name externalSubject clock () im).1.census := by
  exact grown_put (by simp [touchTenant])

theorem grown_createVirtualAct (name : Text) (owner : TenantId) (ownerGeneration : Generation)
    (contract : ResourceContract) (tenant : TenantRecord) :
    im.census.Grown .virtual
      (createVirtualAct auth name owner ownerGeneration contract clock tenant im).1.census := by
  simp only [createVirtualAct, census_touchHeader, census_account, census_modify, touchTenant,
    census_touch]
  exact grown_put (by simp [touchVirtual])

theorem grown_attachAct (owned : Owned) :
    im.census.Grown .lease (attachAct auth clock owned im).1.census := by
  simp only [attachAct]
  generalize him1 : Impl.modify _ .tenant owned.tenantId _ = im1
  have hsame : im1.census = im.census := by
    rw [← him1]
    simp [touchTenant, touchVirtual]
  have htransition := (census_transition im1 clock owned.virtualId .attached
    (txt "tenant attached under a generation-bound lease")).trans hsame
  split
  · rename_i im2 _ him
    have him2 := ite_fst (p := fun im' => im'.census = im.census) hsame htransition him
    rw [him2]
    exact .refl _
  · rename_i im2 him
    have him2 := ite_fst (p := fun im' => im'.census = im.census) hsame htransition him
    rw [grantLease, census_touchHeader, census_account]
    exact grown_put him2

theorem grown_assignBackingAct {operation : String} {backingId : BackingId} {replacing : Bool}
    {reason : Text} {plan : Owned × BackingRecord} :
    im.census.Grown .assignment
      (assignBackingAct operation auth backingId replacing reason clock plan im).1.census := by
  obtain ⟨owned, backing⟩ := plan
  simp only [assignBackingAct, census_touchHeader, census_account, census_modify, touchBacking,
    census_touch]
  generalize him1 : (if replacing then im.drainPrevious owned.virtualId owned.record clock.now
    else im) = im1
  have hsame : im1.census = im.census := by
    rw [← him1]
    split
    · simp only [drainPrevious, census_fenceLeases, census_modify, touchVirtual, census_touch,
        census_releaseBacking]
      split <;> simp [touchAssignment]
    · rfl
  refine grown_put ?_
  simp [touchVirtual, touchAssignment, hsame]

theorem grown_prepareMigrationAct {f : InFlight} :
    im.census.Grown .assignment (prepareMigrationAct auth clock f im).1.census := by
  have hsame := census_transition im clock f.virtualId .migrating
    (txt "migration prepared; leases are drained before cutover")
  simp only [prepareMigrationAct]
  split
  · rename_i im1 drained htransition
    rw [htransition] at hsame
    rw [hsame]
    exact .refl _
  · rename_i im1 htransition
    rw [htransition] at hsame
    have hfence := (census_fenceLeases im1 f.virtualId
      (txt "migration drained the source backing; the lease is bound to the source generation")
      clock.now).trans hsame
    generalize im1.fenceLeases f.virtualId
      (txt "migration drained the source backing; the lease is bound to the source generation")
      clock.now = im2 at hfence ⊢
    rw [census_touchHeader, census_account, census_modify, touchMigration, census_touch]
    exact grown_put ((census_takeId im2).trans hfence)

theorem grown_planMigrationAct (destination : BackingId) (klass : MigrationClass)
    (plan : Owned × BackingRecord) :
    im.census.Grown .migration
      (planMigrationAct auth destination klass clock plan im).1.census := by
  simp only [planMigrationAct, census_touchHeader, census_account]
  exact grown_put (by simp [touchMigration, touchVirtual])

/-- Materialising a backing leaves the counts and the limits as they are. -/
theorem census_materializeBacking (key : PhysicalDeviceId) (device : PhysicalDeviceRecord)
    (now : UnixMicros) (im : Impl σ) (source : BackingDescriptor) :
    (im.materializeBacking key device now source).census = im.census := by
  unfold materializeBacking
  split <;> simp [touchBacking, census_emplace_backing]

/-- Refreshing a backing leaves the counts and the limits as they are. -/
theorem census_refreshBacking (device : PhysicalDeviceRecord) (now : UnixMicros) (im : Impl σ)
    (id : BackingId) : (im.refreshBacking device now id).census = im.census := by
  unfold refreshBacking
  split <;> simp [touchBacking]

/-- Invalidating a backing leaves the counts and the limits as they are. -/
theorem census_invalidateBacking (now : UnixMicros) (im : Impl σ) (id : BackingId) :
    (im.invalidateBacking now id).census = im.census := by
  have hholder : ∀ (im1 : Impl σ) x, (im1.invalidateHolder now x).census = im1.census := by
    intro im1 x
    unfold invalidateHolder
    split
    · rfl
    · split <;> simp [touchVirtual]
  have hbinding : ∀ g, (im.invalidateBinding now g).census = im.census := by
    intro g
    unfold invalidateBinding
    split
    · rfl
    · split
      · rw [hholder, census_revokeAssignment]
      · rfl
  unfold invalidateBacking
  split
  · rfl
  · rw [census_modify, touchBacking, census_touch, hbinding]

theorem grown_describeDevice (im : Impl σ) (agent : AgentId) (boot : AgentBootId)
    (d : PhysicalDeviceDescriptor) (now : UnixMicros) :
    im.census.Grown .evidence (im.describeDevice agent boot d now).1.census := by
  have hlocate : (im.locateDevice d).1.census = im.census := by
    unfold locateDevice
    split
    · simp [touchPhysical, census_emplace_physical]
    · dsimp only
      split <;> simp [touchPhysical]
  simp only [describeDevice, recordEvidence, census_account]
  generalize im.locateDevice d = located at hlocate ⊢
  exact grown_put (by simpa [touchEvidence] using hlocate)

theorem grown_registerPhysicalAct (agent : AgentId) (boot : AgentBootId)
    (d : PhysicalDeviceDescriptor) :
    im.census.Grown .evidence
      (registerPhysicalAct auth agent boot d clock () im).1.census := by
  have hdescribed := grown_describeDevice im agent boot d clock.now
  simp only [registerPhysicalAct, settleBackings, census_touchHeader, census_account]
  generalize im.describeDevice agent boot d clock.now = described at hdescribed ⊢
  obtain ⟨im1, key, changed⟩ := described
  split
  · rw [census_foldl (census_invalidateBacking clock.now),
      census_foldl (census_materializeBacking key _ clock.now)]
    exact hdescribed
  · rw [census_foldl (census_refreshBacking _ clock.now),
      census_foldl (census_materializeBacking key _ clock.now)]
    exact hdescribed

/-! ### Recovery, start and shutdown -/

/-- Classifying the migrations after a restart leaves the counts and the limits as they are. -/
theorem census_classified (im : Impl σ) (now : UnixMicros) :
    (im.classified now).1.census = im.census := by
  have hfail : ∀ (im1 : Impl σ) g, (im1.failRecovered now g).census = im1.census := by
    intro im1 g
    unfold failRecovered
    split
    · rfl
    · split <;> simp [touchAssignment]
  have hstep : ∀ (acc : Impl σ × Bool) key,
      (classifyMigration now acc key).1.census = acc.1.census := by
    intro acc key
    simp only [classifyMigration]
    split
    · rfl
    · split
      · rfl
      · split
        · simp [completeRecovered, touchMigration]
        · split
          · rfl
          · simp [abortRecovered, touchMigration, touchVirtual, hfail]
  unfold classified
  exact foldl_unchanged (f := fun acc : Impl σ × Bool => acc.1.census) hstep _ _

/-- Ending a lease leaves the counts and the limits as they are. -/
theorem census_endLease (ended : LeaseState) (reason : Text) (now : UnixMicros) (im : Impl σ)
    (id : LeaseId) : (im.endLease ended reason now id).census = im.census := by
  unfold endLease
  split
  · rfl
  · split <;> simp [touchLease]

/-- Releasing the attachments of a virtual accelerator leaves the counts and the limits as they
are. -/
theorem census_releaseAttachments (reason : Text) (now : UnixMicros) (im : Impl σ)
    (id : VirtualAcceleratorId) :
    (im.releaseAttachments reason now id).census = im.census := by
  unfold releaseAttachments
  split
  · rfl
  · dsimp only
    split <;> split <;> simp [touchVirtual]

/-- Releasing the attachments of a tenant leaves the counts and the limits as they are. -/
theorem census_releaseTenant (updated : Option UnixMicros) (im : Impl σ) (id : TenantId) :
    (im.releaseTenant updated id).census = im.census := by
  unfold releaseTenant
  split
  · rfl
  · split <;> simp [touchTenant]

/-- Distrusting a backing after a restart leaves the counts and the limits as they are. -/
theorem census_distrustBacking (im : Impl σ) (id : BackingId) :
    (im.distrustBacking id).census = im.census := by
  unfold distrustBacking
  split <;> simp [touchBacking]

/-- Distrusting a device after a restart leaves the counts and the limits as they are. -/
theorem census_distrustPhysical (im : Impl σ) (id : PhysicalDeviceId) :
    (im.distrustPhysical id).census = im.census := by
  unfold distrustPhysical
  split <;> simp [touchPhysical]

/-- Recording an outcome leaves the counts and the limits as they are. -/
theorem census_record (im : Impl σ) (clock : Clock) (context : OpContext) (outcome : StatusCode)
    (reason : Text) (kind : AuditKind) :
    (im.record clock context outcome reason kind).census = im.census :=
  census_congr (fun k => by cases k <;> rfl) rfl rfl

/-- A shutdown, before it commits, leaves the counts and the limits as they are. -/
theorem census_shutdownBody (im : Impl σ) (clock : Clock) :
    (im.shutdownBody clock).census = im.census := by
  rw [shutdownBody, census_record, census_touchHeader, census_recomputeDerivedAccounting,
    census_foldl (census_releaseTenant _), census_foldl (census_releaseAttachments _ _),
    census_foldl (census_endLease _ _ _)]

/-- Dropping local authority leaves the counts and the limits as they are. -/
theorem census_dropLocalAuthority (im : Impl σ) (now : UnixMicros) :
    (im.dropLocalAuthority now).census = im.census := by
  rw [dropLocalAuthority, census_touchHeader, census_recomputeDerivedAccounting]
  generalize h1 : im.state.leases.keys.foldl _ im = i1
  generalize h2 : i1.state.virtuals.keys.foldl _ i1 = i2
  generalize h3 : i2.state.tenants.keys.foldl _ i2 = i3
  generalize h4 : i3.state.backings.keys.foldl _ i3 = i4
  generalize h5 : i4.state.physical.keys.foldl _ i4 = i5
  -- the replay window is not counted
  have h6 : ({ i5 with state.requests := [] } : Impl σ).census = i5.census :=
    census_congr (fun k => by cases k <;> rfl) rfl rfl
  rw [h6, ← h5, census_foldl census_distrustPhysical, ← h4, census_foldl census_distrustBacking,
    ← h3, census_foldl (census_releaseTenant _), ← h2,
    census_foldl (census_releaseAttachments _ _), ← h1, census_foldl (census_endLease _ _ _)]

/-- Without a policy a start sets the default one. -/
theorem within_enterEpoch {K : Set RecordKind} (h : im.census.Within K) (recovered : Bool) :
    (im.enterEpoch recovered).census.Within K := by
  simp only [enterEpoch, census_touchHeader, census_account]
  have hcensus : ∀ i : Impl σ, i.state.entities = im.state.entities →
      i.census = ⟨im.census.count, i.state.policy.limit, valid i.state.policyGeneration⟩ := by
    intro i he
    simp only [census, VirtualizationState.census, he]
  split
  · rename_i hnone
    rw [hcensus]
    · have hgoverned : im.census.governed = false := by
        rw [Bool.not_eq_true'] at hnone
        exact hnone
      refine ⟨?_, fun _ => rfl⟩
      change ∀ k ∈ K, im.census.count k ≤ VirtualizationPolicy.defaultPolicy.limit k
      rw [← h.default hgoverned]
      exact h.count
    · funext k
      cases k <;> rfl
  · have hgoverned : ∀ i : Impl σ, i.state.entities = im.state.entities →
      i.state.policy.limit = im.state.policy.limit →
      i.state.policyGeneration = im.state.policyGeneration → i.census.Within K := by
      intro i he hp hg
      rw [hcensus i he, hp, hg]
      exact h
    split
    · refine hgoverned _ ?_ rfl rfl
      funext k
      cases k <;> rfl
    · refine hgoverned _ ?_ rfl rfl
      funext k
      cases k <;> rfl

theorem within_startBody {K : Set RecordKind} (h : im.census.Within K) (clock : Clock)
    (recovered : Bool) : (im.startBody clock recovered).census.Within K := by
  have hentered := within_enterEpoch h recovered
  simp only [startBody]
  generalize im.enterEpoch recovered = i at hentered ⊢
  split
  · rw [census_record, census_dropLocalAuthority]
    exact hentered
  · rw [census_record]
    exact hentered

end

end Impl

/-! ### Every operation -/

/-- The kind of record that an operation makes. -/
def Op.made : Op → Option RecordKind
  | .registerPhysical .. => some .evidence
  | .createTenant .. => some .tenant
  | .createVirtual .. => some .virtual
  | .assignBacking .. | .replaceBacking .. | .prepareMigration _ => some .assignment
  | .attach _ => some .lease
  | .planMigration .. => some .migration
  | _ => none

namespace Impl

variable {σ : Type} {im : Impl σ} {P : Census → Prop}

/-- Whether the checks of an operation that makes a record let it. -/
def makes (im : Impl σ) : Op → Bool
  | .registerPhysical auth agent boot d => (registerPhysicalCheck auth agent boot d im).isOk
  | .createTenant auth name externalSubject => (createTenantCheck auth name externalSubject im).isOk
  | .createVirtual auth name owner ownerGeneration contract =>
    (createVirtualCheck auth name owner ownerGeneration contract im).isOk
  | .assignBacking auth backing _ => (assignBackingCheck auth backing false im).isOk
  | .replaceBacking auth backing _ => (assignBackingCheck auth backing true im).isOk
  | .prepareMigration auth => (prepareMigrationCheck auth im).isOk
  | .attach auth => (attachCheck auth im).isOk
  | .planMigration auth destination klass => (planMigrationCheck auth destination klass im).isOk
  | _ => false

theorem makes_beginOp {op : Op} : im.beginOp.makes op = im.makes op := by
  cases op <;> rfl

theorem makes_of_ok {α : Type} {check : Except Status α} {plan : α} (h : check = .ok plan) :
    check.isOk = true := by
  rw [h]
  rfl

theorem census_checked {π α : Type} {context : Impl σ → OpContext} {kind : AuditKind}
    {check : Impl σ → Except Status π} {act : π → Body σ α} (h : P im.census)
    (hact : ∀ plan, check im = .ok plan → P (act plan im).1.census) :
    P (checked (fun im => orRefuse (context im) kind (check im)) act im).1.census :=
  fst_checked (p := fun im' => P im'.census) h hact

theorem census_forget {α : Type} {body : Body σ α} (h : P (body im).1.census) :
    P (body.forget im).1.census := h

/-- What holds of the numbers of records before the body of an operation holds after it, if it does
where a policy sets other limits and where a record is made. -/
theorem census_body {clock : Clock} {op : Op} {b : Body σ Unit} (hb : body clock op = some b)
    (hw : im.state.WellKeyed) (h : P im.census)
    (hpolicy : ∀ auth policy updated, op = .setPolicy auth policy →
      setPolicyCheck auth policy im = .ok updated → P ⟨im.census.count, updated.limit, true⟩)
    (hmade : ∀ k c, op.made = some k → im.makes op = true → Census.Grown k im.census c → P c) :
    P (b im.beginOp).1.census := by
  have h' : P im.beginOp.census := h
  -- an act that leaves the numbers alone
  have hsame : ∀ {i : Impl σ}, i.census = im.beginOp.census → P i.census := fun he => he ▸ h'
  have hmade' : ∀ k c, op.made = some k → im.beginOp.makes op = true →
      Census.Grown k im.beginOp.census c → P c :=
    fun k c hk hm => hmade k c hk (makes_beginOp ▸ hm)
  cases op <;> simp only [body, Option.some.injEq, reduceCtorEq] at hb <;> subst hb
  case registerPhysical =>
    refine census_forget (census_checked h' fun _ ho => ?_)
    exact hmade' _ _ rfl (makes_of_ok ho) (grown_registerPhysicalAct ..)
  case physicalLost =>
    exact census_checked h' fun _ _ => hsame census_physicalLostAct
  case setPolicy auth policy =>
    refine census_forget (census_checked h' fun updated ho => ?_)
    rw [census_setPolicyAct]
    exact hpolicy auth policy updated rfl ho
  case createTenant =>
    refine census_forget (census_checked h' fun _ ho => ?_)
    exact hmade' _ _ rfl (makes_of_ok ho) (grown_createTenantAct ..)
  case fenceTenant =>
    exact census_checked h' fun _ _ => hsame (census_fenceTenantAct ..)
  case transferOwnership =>
    exact census_forget (census_checked h' fun _ _ => hsame (census_transferOwnershipAct ..))
  case createVirtual =>
    refine census_forget (census_checked h' fun _ ho => ?_)
    exact hmade' _ _ rfl (makes_of_ok ho) (grown_createVirtualAct ..)
  case updateContract =>
    exact census_forget (census_checked h' fun _ _ => hsame (census_updateContractAct ..))
  case activate | resume =>
    refine census_forget (census_checked h' fun _ _ => hsame ?_)
    exact census_transitionAct _ _ _ _ _ census_recomputeDerivedAccounting
  case drain | resolveRecovery =>
    refine census_forget (census_checked h' fun _ _ => hsame ?_)
    exact census_transitionAct _ _ _ _ _ fun _ => rfl
  case suspend =>
    exact census_forget (census_checked h' fun _ _ => hsame (census_suspendAct ..))
  case fenceVirtual =>
    exact census_forget (census_checked h' fun _ _ => hsame (census_fenceVirtualAct ..))
  case retireVirtual =>
    refine census_forget (census_checked h' fun owned hs => ?_)
    have ho := (notRetiredCheck_ok hs).1
    have hid : owned.tenant.id = owned.tenantId :=
      (Tracks.beginOp hw).idOf_eq (k := .tenant) ho.tenant
    refine hsame (census_retireVirtualAct _ ?_)
    rw [ho.owner, hid, Std.ExtTreeMap.mem_iff_isSome_getElem?, ho.tenant]
    rfl
  case assignBacking | replaceBacking =>
    refine census_forget (census_checked h' fun _ ho => ?_)
    exact hmade' _ _ rfl (makes_of_ok ho) grown_assignBackingAct
  case attach =>
    refine census_forget (census_checked h' fun _ ho => ?_)
    exact hmade' _ _ rfl (makes_of_ok ho) (grown_attachAct _)
  case detach | revokeLease =>
    exact census_checked h' fun _ _ => hsame (census_releaseLeaseAct ..)
  case planMigration =>
    refine census_forget (census_checked h' fun _ ho => ?_)
    exact hmade' _ _ rfl (makes_of_ok ho) (grown_planMigrationAct ..)
  case prepareMigration =>
    refine census_forget (census_checked h' fun _ ho => ?_)
    exact hmade' _ _ rfl (makes_of_ok ho) grown_prepareMigrationAct
  case commitMigration =>
    exact census_forget (census_checked h' fun _ _ => hsame (census_commitMigrationAct ..))
  case abortMigration =>
    exact census_forget (census_checked h' fun _ _ => hsame (census_abortMigrationAct ..))
  case renewLease =>
    refine census_forget (census_checked h' fun _ _ => hsame ?_)
    simp [renewLeaseAct, touchLease]
  case completeMigration =>
    refine census_forget (census_checked h' fun _ _ => hsame ?_)
    simp [completeMigrationAct, touchMigration, touchVirtual]
  case reserveAllocation =>
    refine census_forget (census_checked h' fun _ _ => hsame ?_)
    simp [reserveAllocationAct, touchVirtual]
  case releaseAllocation =>
    refine census_checked h' fun _ _ => hsame ?_
    simp [releaseAllocationAct, touchVirtual]
  case accountKernel =>
    refine census_checked h' fun _ _ => hsame ?_
    simp [accountKernelAct, touchVirtual]

end Impl

end AcceleratorVirtualization
