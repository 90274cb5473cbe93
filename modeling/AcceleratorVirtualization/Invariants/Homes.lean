import AcceleratorVirtualization.Invariants.LedgerOperations

/-!
# Where records are at home

Leases, assignments and migrations belong to a virtual accelerator. A record stays with its virtual
accelerator, whatever else of it is changed, and the operations on a virtual accelerator make new
records of that one only.
-/

namespace AcceleratorVirtualization

open VirtualizationState Custody Refusal

/-- The virtual accelerator that a record is of. -/
def RecordKind.home : (k : RecordKind) → ℕ → k.Record → Option VirtualAcceleratorId
  | .virtual, id, _ => some id
  | .lease, _, r => some r.virtualId
  | .assignment, _, r => some r.virtualId
  | .migration, _, r => some r.plan.virtualId
  | _, _, _ => none

/-- There is a record under the identity, and it is of the virtual accelerator `y`. -/
def VirtualizationState.Belongs (s : VirtualizationState) (k : RecordKind) (id : ℕ)
    (y : VirtualAcceleratorId) : Prop :=
  ∃ r, s.find k id = some r ∧ k.home id r = some y

namespace Impl

variable {σ : Type} {x : VirtualAcceleratorId} {im im' im'' : Impl σ} {k : RecordKind} {id : ℕ}

/-! ### Records stay where they are -/

/-- What belongs to another virtual accelerator than `x` belonged to it before. -/
def Homely (x : VirtualAcceleratorId) (im im' : Impl σ) : Prop :=
  ∀ k id y, y ≠ x → im'.state.Belongs k id y → im.state.Belongs k id y

namespace Homely

theorem refl : Homely x im im := fun _ _ _ _ h => h

/-- A step that leaves the records alone. -/
theorem of_entities (h : Homely x im im') (he : im''.state.entities = im'.state.entities) :
    Homely x im im'' := by
  intro k id y hne hr
  simp only [Belongs, find, he] at hr
  exact h k id y hne hr

theorem touch (h : Homely x im im') (k : RecordKind) (id : ℕ) : Homely x im (im'.touch k id) :=
  h.of_entities rfl

theorem touchHeader (h : Homely x im im') : Homely x im im'.touchHeader := h.of_entities rfl

theorem takeId (h : Homely x im im') : Homely x im im'.takeId :=
  h.of_entities (funext fun k => by cases k <;> rfl)

theorem account (h : Homely x im im') (f : AccountingCounters → AccountingCounters) :
    Homely x im (im'.account f) :=
  h.of_entities (funext fun k => by cases k <;> rfl)

theorem recomputeDerivedAccounting (h : Homely x im im') :
    Homely x im im'.recomputeDerivedAccounting :=
  (h.account _).touchHeader

/-- A step that changes the map of one kind. -/
private theorem setEntities (h : Homely x im im') {m : IdMap k.Record}
    (hm : ∀ id r' y, m[id]? = some r' → k.home id r' = some y → y ≠ x →
      im'.state.Belongs k id y) :
    Homely x im { im' with state := im'.state.setEntities k m } := by
  rintro k' j y hne ⟨r', hr', hy⟩
  obtain rfl | hk := eq_or_ne k' k
  · rw [find_setEntities_self] at hr'
    exact h k' j y hne (hm j r' y hr' hy hne)
  · rw [find_setEntities_of_ne _ _ hk] at hr'
    exact h k' j y hne ⟨r', hr', hy⟩

/-- A change of a record that leaves it with its virtual accelerator. -/
theorem modify (h : Homely x im im') (k : RecordKind) (id : ℕ) (f : k.Record → k.Record)
    (hf : ∀ r, k.home id (f r) = k.home id r) :
    Homely x im (im'.modify k id f) := by
  refine h.setEntities fun j r' y hr' hy _ => ?_
  rw [Std.ExtTreeMap.getElem?_modify] at hr'
  split at hr'
  · rename_i he
    obtain rfl := Nat.compare_eq_eq.mp he
    obtain ⟨r, hr, rfl⟩ := Option.map_eq_some_iff.mp hr'
    exact ⟨r, hr, (hf r).symm.trans hy⟩
  · exact ⟨r', hr', hy⟩

/-- A new record of the virtual accelerator, or of none. -/
theorem put (h : Homely x im im') {r : k.Record}
    (hr : ∀ y, k.home id r = some y → y = x) : Homely x im (im'.put k id r) := by
  refine h.setEntities fun j r' y hr' hy hne => ?_
  rw [Std.ExtTreeMap.getElem?_insert] at hr'
  split at hr'
  · rename_i he
    obtain rfl := Nat.compare_eq_eq.mp he
    cases hr'
    exact absurd (hr y hy) hne
  · exact ⟨r', hr', hy⟩

theorem emplace (h : Homely x im im') {r : k.Record}
    (hr : ∀ y, k.home id r = some y → y = x) : Homely x im (im'.emplace k id r) := by
  refine h.setEntities fun j r' y hr' hy hne => ?_
  rw [Std.ExtTreeMap.getElem?_insertIfNew] at hr'
  split at hr'
  · rename_i he
    obtain rfl := Nat.compare_eq_eq.mp he.1
    cases hr'
    exact absurd (hr y hy) hne
  · exact ⟨r', hr', hy⟩

theorem foldl {α : Type} {step : Impl σ → α → Impl σ} {l : List α} (h : Homely x im im')
    (hstep : ∀ a i, Homely x im i → Homely x im (step i a)) : Homely x im (l.foldl step im') :=
  List.foldlRecOn l step h fun i hi a _ => hstep a i hi

/-! ### Helpers -/

theorem rebuildProjection (h : Homely x im im') (id : VirtualAcceleratorId) :
    Homely x im (im'.rebuildProjection id) :=
  h.takeId.modify _ _ _ fun _ => by rfl

theorem fenceLease (h : Homely x im im') (reason : Text) (now : UnixMicros) (l : LeaseId) :
    Homely x im (im'.fenceLease reason now l) := by
  unfold Impl.fenceLease
  split
  · exact h
  · split
    · exact (h.touch _ _).modify .lease _ _ fun _ => by rfl
    · exact h

theorem fenceLeases (h : Homely x im im') (id : VirtualAcceleratorId) (reason : Text)
    (now : UnixMicros) : Homely x im (im'.fenceLeases id reason now) := by
  unfold Impl.fenceLeases
  split
  · exact h
  · rename_i v _
    have hfold : Homely x im
        (v.leases.foldl (fun im lease => im.fenceLease reason now lease) im') :=
      h.foldl fun l i hi => hi.fenceLease reason now l
    dsimp only
    split
    · exact hfold
    · refine (Homely.account ?_ _).touchHeader
      have hcleared := (hfold.touch .virtual v.id).modify .virtual id
        (fun record => { record with activeAttachments := 0 }) fun _ => rfl
      split
      · exact hcleared
      · exact (hcleared.touch _ _).modify .tenant _ _ fun _ => by rfl

theorem carryLease (h : Homely x im im') (generation : Generation) (l : LeaseId) :
    Homely x im (im'.carryLease generation l) := by
  unfold Impl.carryLease
  split
  · exact h
  · split
    · exact (h.touch _ _).modify .lease _ _ fun _ => by rfl
    · exact h

theorem transition (h : Homely x im im') (clock : Clock) (id : VirtualAcceleratorId)
    (target : VirtualLifecycleState) (reason : Text) :
    Homely x im (im'.transition clock id target reason).1 := by
  unfold Impl.transition
  split
  · exact h
  · rename_i v _
    split
    · exact h
    · have hmoved := (h.touch .virtual v.id).modify .virtual id
        (fun record => { record with
          state := target
          stateGeneration := record.stateGeneration + 1
          stateReason := reason
          generation := record.generation + 1
          updatedAt := clock.transition id }) fun _ => rfl
      dsimp only
      split
      · exact hmoved.foldl fun l i hi => hi.carryLease _ l
      · exact hmoved

theorem transitionAct (h : Homely x im im') (context : OpContext) (clock : Clock)
    (id : VirtualAcceleratorId) (target : VirtualLifecycleState) (reason : Text)
    {after : Impl σ → Impl σ} (hafter : ∀ i, Homely x im i → Homely x im (after i)) :
    Homely x im (Impl.transitionAct context clock id target reason after im').1 := by
  have ht := h.transition clock id target reason
  unfold Impl.transitionAct
  split <;> rename_i him <;> rw [him] at ht
  · exact ht
  · exact hafter _ ht

theorem releaseBacking (h : Homely x im im') (b : BackingId) :
    Homely x im (im'.releaseBacking b) := by
  unfold Impl.releaseBacking
  split
  · exact h
  · exact (h.touch _ _).modify .backing _ _ fun _ => by rfl

theorem revokeAssignment (h : Homely x im im') (g : BackingAssignmentId) (reason : Text)
    (now : UnixMicros) : Homely x im (im'.revokeAssignment g reason now) := by
  unfold Impl.revokeAssignment
  split
  · exact h
  · split
    · exact ((h.touch _ _).modify .assignment _ _ fun _ => by rfl).account _
    · exact h

theorem revokeValid (h : Homely x im im') (g : BackingAssignmentId) (reason : Text)
    (now : UnixMicros) :
    Homely x im (if valid g then im'.revokeAssignment g reason now else im') := by
  split
  · exact h.revokeAssignment g reason now
  · exact h

theorem drainPrevious (h : Homely x im im') (id : VirtualAcceleratorId)
    (value : VirtualAcceleratorRecord) (now : UnixMicros) :
    Homely x im (im'.drainPrevious id value now) := by
  simp only [Impl.drainPrevious]
  refine Homely.fenceLeases (Homely.modify (Homely.touch (Homely.releaseBacking ?_ _) _ _) .virtual
    _ _ fun _ => by rfl) _ _ _
  split
  · exact h
  · exact ((h.touch _ _).modify .assignment _ _ fun _ => by rfl).account _

end Homely

/-! ### Bodies -/

section Acts

variable {auth : Authority} {clock : Clock} {owned : Owned}

/-- A new contract leaves what belongs to another virtual accelerator where it is. -/
theorem homely_updateContractAct (contract : ResourceContract) :
    Homely x im (updateContractAct auth contract clock owned im).1 := by
  have hprobe :
    Homely x im (im.probeContract owned.record (contract.normalize im.options.sorting)).1 := by
    unfold probeContract
    split
    · exact .refl
    · exact Homely.refl.takeId
  simp only [updateContractAct]
  split <;> rename_i him <;> rw [him] at hprobe
  · exact hprobe
  · exact ((hprobe.touch _ _).takeId.modify .virtual _ _ fun _ => by rfl).rebuildProjection _

/-- Fencing a virtual accelerator leaves what belongs to another virtual accelerator where it is. -/
theorem homely_fenceVirtualAct (reason : Text) :
    Homely x im (fenceVirtualAct auth reason clock owned im).1 := by
  have hfenced := (.refl : Homely x im im).fenceLeases owned.virtualId
    (txt "virtual accelerator fenced: " ++ reason) clock.now
  exact (hfenced.touch _ _).transitionAct _ clock _ _ _ fun i hi => hi.recomputeDerivedAccounting

/-- A suspension leaves what belongs to another virtual accelerator where it is. -/
theorem homely_suspendAct (reason : Text) :
    Homely x im (suspendAct auth reason clock owned im).1 := by
  have hrevoked := (.refl : Homely x im im).revokeValid owned.record.assignment
    (txt "virtual accelerator suspended: " ++ reason) clock.now
  simp only [suspendAct]
  refine Homely.transitionAct ?_ _ clock _ _ _ fun i hi => hi.recomputeDerivedAccounting
  have hcleared := ((hrevoked.releaseBacking owned.record.backing).touch .virtual owned.record.id)
  exact (hcleared.modify .virtual _ _ fun _ => by rfl).rebuildProjection _

/-- A retirement leaves what belongs to another virtual accelerator where it is. -/
theorem homely_retireVirtualAct (reason : Text) :
    Homely x im (retireVirtualAct auth reason clock owned im).1 := by
  have hfenced := (.refl : Homely x im im).fenceLeases owned.virtualId
    (txt "virtual accelerator retired") clock.now
  have hemplaced : ∀ t : TenantId, Homely x im (Impl.emplace _ .tenant t {}) := fun t =>
    hfenced.emplace fun _ h => by cases h
  simp only [retireVirtualAct]
  refine Homely.transitionAct ?_ _ clock _ _ _
    fun i hi => (hi.account _).recomputeDerivedAccounting
  refine Homely.rebuildProjection (Homely.modify (Homely.touch (Homely.releaseBacking
    (Homely.revokeValid (Homely.modify ((hemplaced _).touch _ _) .tenant _ _ fun _ => by rfl)
      _ _ _) _) _ _) .virtual _ _ fun _ => by rfl) _

/-- Assigning a backing leaves what belongs to another virtual accelerator where it is. -/
theorem homely_assignBackingAct {operation : String} {backingId : BackingId} {replacing : Bool}
    {reason : Text} {backing : BackingRecord} (hx : owned.record.id = x) :
    Homely x im
      (assignBackingAct operation auth backingId replacing reason clock (owned, backing) im).1 := by
  simp only [assignBackingAct]
  generalize him1 : (if replacing then im.drainPrevious owned.virtualId owned.record clock.now
    else im) = im1
  have hdrained : Homely x im im1 := by
    rw [← him1]
    split
    · exact Homely.refl.drainPrevious _ _ _
    · exact .refl
  refine Homely.touchHeader (Homely.account (Homely.modify (Homely.touch (Homely.put (Homely.touch
    (Homely.modify (Homely.rebuildProjection (Homely.modify (hdrained.takeId.touch _ _) .virtual
      _ _ fun _ => by rfl) _) .virtual _ _ fun _ => by rfl) _ _) ?_) _ _) .backing _ _
        fun _ => by rfl) _)
  rintro y ⟨⟩
  exact hx

/-- An attachment leaves what belongs to another virtual accelerator where it is. -/
theorem homely_attachAct (hx : owned.record.id = x) :
    Homely x im (attachAct auth clock owned im).1 := by
  simp only [attachAct]
  generalize him1 : Impl.modify _ .tenant owned.tenantId _ = im1
  have hcounted : Homely x im im1 := by
    rw [← him1]
    exact (((Homely.refl.takeId.touch _ _).modify .virtual _ _ fun _ => by rfl).touch _ _).modify
      .tenant _ _ fun _ => by rfl
  have hmoved := hcounted.transition clock owned.virtualId .attached
    (txt "tenant attached under a generation-bound lease")
  split
  · rename_i him
    exact ite_fst (p := Homely x im) hcounted hmoved him
  · rename_i him
    have hgranted := ite_fst (p := Homely x im) hcounted hmoved him
    refine (Homely.account (Homely.put (hgranted.touch _ _) ?_) _).touchHeader
    rintro y ⟨⟩
    exact hx

/-- Renewing a lease leaves what belongs to another virtual accelerator where it is. -/
theorem homely_renewLeaseAct {target : LeaseId × LeaseRecord} :
    Homely x im (renewLeaseAct auth clock target im).1 :=
  (((Homely.refl.touch _ _).modify .lease _ _ fun _ => by rfl).account _).touchHeader

/-- Detaching or revoking a lease leaves what belongs to another virtual accelerator where it is. -/
theorem homely_releaseLeaseAct {held : Held} (operation : String) (reason : Text)
    (lastReason : String) (book : AccountingCounters → AccountingCounters) :
    Homely x im (releaseLeaseAct operation auth clock reason lastReason book held im).1 := by
  have hreleased : Homely x im (im.releaseLease held reason clock.now book) := by
    simp only [releaseLease]
    refine Homely.touchHeader (Homely.account ?_ _)
    have hcounted := ((((.refl : Homely x im im).touch .lease held.lease.id).modify .lease
        held.leaseId (fun lease => { lease with
          state := .revoked, revokedAt := clock.now, reason }) fun _ => rfl).touch
        .virtual held.record.id).modify .virtual held.virtualId
      (fun v => { v with
        activeAttachments := v.activeAttachments - 1, updatedAt := clock.now }) fun _ => rfl
    split
    · exact hcounted
    · exact (hcounted.touch _ _).modify .tenant _ _ fun _ => by rfl
  have hmoved := hreleased.transition clock held.virtualId .provisioned (txt lastReason)
  simp only [releaseLeaseAct]
  split
  · rename_i him
    exact ite_fst (p := Homely x im) hmoved hreleased him
  · rename_i him
    exact ite_fst (p := Homely x im) hmoved hreleased him

/-- Planning a migration leaves what belongs to another virtual accelerator where it is. -/
theorem homely_planMigrationAct {destination : BackingId} {klass : MigrationClass}
    {backing : BackingRecord} (hx : owned.record.id = x) :
    Homely x im (planMigrationAct auth destination klass clock (owned, backing) im).1 := by
  refine Homely.touchHeader (Homely.account (Homely.put (Homely.touch (Homely.modify
    (Homely.refl.takeId.touch _ _) .virtual _ _ fun _ => by rfl) _ _) ?_) _)
  rintro y ⟨⟩
  exact hx

/-- The prepared assignment is of the virtual accelerator that migrates. -/
theorem homely_prepareMigrationAct (h : Tracks im ∅ im) {f : InFlight} (hf : f.Current im.state) :
    Homely f.virtualId im (prepareMigrationAct auth clock f im).1 := by
  have ht := h.transition clock f.virtualId .migrating
    (txt "migration prepared; leases are drained before cutover")
  have hmoved := (.refl : Homely f.virtualId im im).transition clock f.virtualId
    .migrating (txt "migration prepared; leases are drained before cutover")
  simp only [prepareMigrationAct]
  split <;> rename_i him <;> rw [him] at hmoved ht
  · exact hmoved
  · have htracks := ht.fenceLeases f.virtualId
      (txt "migration drained the source backing; the lease is bound to the source generation")
      clock.now
    have hdrained := hmoved.fenceLeases f.virtualId
      (txt "migration drained the source backing; the lease is bound to the source generation")
      clock.now
    refine Homely.touchHeader (Homely.account (Homely.modify (Homely.touch (Homely.put
      (Homely.touch hdrained.takeId _ _) ?_) _ _) .migration _ _ fun _ => by rfl) _)
    have hgrant := toGrant_prepareDestination htracks hf clock.now
    rintro y ⟨⟩
    exact congrArg Grant.party hgrant

/-- Completing a migration leaves what belongs to another virtual accelerator where it is. -/
theorem homely_completeMigrationAct {f : InFlight} :
    Homely x im (completeMigrationAct auth clock f im).1 :=
  (((Homely.refl.touch _ _).modify .migration _ _ fun _ => by rfl).touch _ _).modify .virtual _ _
    fun _ => by rfl

/-- Aborting a migration leaves what belongs to another virtual accelerator where it is. -/
theorem homely_abortMigrationAct {f : InFlight} (reason : Text) :
    Homely x im (abortMigrationAct auth reason clock f im).1 := by
  have hfailed : Homely x im (im.failDestination f.migration.destinationAssignment
      (txt "migration aborted before cutover: " ++ reason) clock.now) := by
    unfold failDestination
    split
    · exact .refl
    · exact (Homely.refl.touch _ _).modify .assignment _ _ fun _ => by rfl
  have haborted := ((hfailed.touch .migration f.migration.plan.id).modify .migration f.migrationId
    (fun m => { m with
      state := .aborted
      sourceAuthoritative := true
      destinationAuthoritative := false
      completedAt := clock.now
      note := reason }) fun _ => rfl).account
        fun a => { a with migrationsAborted := a.migrationsAborted + 1 }
  have hmoved := haborted.transition clock f.virtualId .provisioned
    (txt "migration aborted before cutover; the source backing remains authoritative")
  simp only [abortMigrationAct]
  split
  · rename_i him
    exact ite_fst (p := Homely x im) hmoved haborted him
  · rename_i him
    exact (ite_fst (p := Homely x im) hmoved haborted him).touchHeader

/-- A cutover leaves what belongs to another virtual accelerator where it is. -/
theorem homely_commitMigrationAct {c : Cutover} :
    Homely x im (commitMigrationAct auth clock c im).1 := by
  have hrebound : Homely x im (im.rebindVirtual c clock.now) := by
    simp only [rebindVirtual]
    exact (((Homely.refl.touch _ _).modify .virtual _ _ fun _ => by rfl).rebuildProjection _).modify
      .virtual _ _ fun _ => by rfl
  simp only [commitMigrationAct]
  refine Homely.touchHeader (Homely.account (Homely.modify (Homely.touch ?_ _ _) .migration _ _
    fun _ => by rfl) _)
  simp only [cutoverAuthority]
  exact Homely.modify (Homely.touch (Homely.modify (Homely.touch (Homely.modify (Homely.touch
    (Homely.account (Homely.modify (hrebound.touch _ _) .assignment _ _ fun _ => by rfl) _) _ _)
      .assignment _ _ fun _ => by rfl) _ _) .backing _ _ fun _ => by rfl) _ _) .backing _ _
        fun _ => by rfl

/-- A transfer leaves what belongs to another virtual accelerator where it is. -/
theorem homely_transferOwnershipAct {t : Transfer} (newOwner : TenantId) :
    Homely x im (transferOwnershipAct auth newOwner clock t im).1 := by
  simp only [transferOwnershipAct]
  exact Homely.modify (Homely.touch (Homely.touch (Homely.modify (Homely.touch (Homely.modify
    (Homely.refl.fenceLeases _ _ _) .tenant _ _ fun _ => by rfl) _ _) .tenant _ _
      fun _ => by rfl) _ _) _ _) .virtual _ _ fun _ => by rfl

end Acts

end Impl

end AcceleratorVirtualization
