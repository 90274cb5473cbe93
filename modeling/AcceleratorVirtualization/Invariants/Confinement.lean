import AcceleratorVirtualization.Invariants.Effects
import AcceleratorVirtualization.Invariants.Exclusivity
import AcceleratorVirtualization.Invariants.Lives

/-!
# Where an operation reaches

An operation on a virtual accelerator changes its record, the leases it lists, its owner, its
assignment and its backing, and nothing else. A region is a set of records of every kind that has
with a virtual accelerator also what belongs to it; an operation that starts in a region stays in
it. What is said here for all regions at once is used for small ones, to say what an operation
leaves alone, and for large ones, to say which kinds of records it does not write at all.
-/

namespace AcceleratorVirtualization

open VirtualizationState Custody

/-- A set of records of every kind. -/
abbrev Region := RecordKind → Set ℕ

/-- The region has every new record, migrations apart. -/
def Region.Roomy (S : Region) (n : ℕ) : Prop := ∀ k, k ≠ .migration → ∀ id, n ≤ id → id ∈ S k

/-- What a virtual accelerator refers to is in the region. -/
structure VirtualAcceleratorRecord.Linked (S : Region) (v : VirtualAcceleratorRecord) : Prop where
  leases : ∀ l ∈ v.leases, l ∈ S .lease
  owner : v.owner ∈ S .tenant

/-- The region has with a virtual accelerator also what it refers to. -/
def VirtualizationState.Closed (S : Region) (s : VirtualizationState) : Prop :=
  ∀ x ∈ S .virtual, ∀ v : VirtualAcceleratorRecord, s.virtuals[x]? = some v → v.Linked S

namespace Impl

variable {σ : Type} {S : Region} {im im' im'' : Impl σ} {k : RecordKind} {id : ℕ}

/-- Only records of the region were changed, and the region still has what belongs to it. Of the
runtime, only the state and the log of its changes were written. -/
structure Confined (S : Region) (im im' : Impl σ) : Prop where
  outside : ∀ k id, id ∉ S k → im'.state.find k id = im.state.find k id
  closed : im'.state.Closed S
  advanced : im.state.nextSequence ≤ im'.state.nextSequence
  frame : im' = { im with state := im'.state, changes := im'.changes, undo := im'.undo }

namespace Confined

theorem refl (h : im.state.Closed S) : Confined S im im :=
  ⟨fun _ _ _ => rfl, h, Nat.le_refl _, rfl⟩

theorem trans (h : Confined S im im') (h' : Confined S im' im'') : Confined S im im'' where
  outside k id hid := (h'.outside k id hid).trans (h.outside k id hid)
  closed := h'.closed
  advanced := h.advanced.trans h'.advanced
  frame := by
    rw [h'.frame, h.frame]

/-! ### Steps that change no record -/

/-- A step that leaves the records alone. -/
theorem of_entities (h : Confined S im im') (he : im''.state.entities = im'.state.entities)
    (hn : im'.state.nextSequence ≤ im''.state.nextSequence)
    (hf : im'' = { im' with state := im''.state, changes := im''.changes, undo := im''.undo }) :
    Confined S im im'' where
  outside k id hid := by
    rw [← h.outside k id hid, find, find, he]
  closed x hx v hv := by
    have hvirtuals : im''.state.virtuals = im'.state.virtuals := congrFun he .virtual
    rw [hvirtuals] at hv
    exact h.closed x hx v hv
  advanced := h.advanced.trans hn
  frame := by
    rw [hf, h.frame]

theorem touch (h : Confined S im im') (k : RecordKind) (id : ℕ) : Confined S im (im'.touch k id) :=
  h.of_entities rfl (Nat.le_refl _) rfl

theorem touchHeader (h : Confined S im im') : Confined S im im'.touchHeader :=
  h.of_entities rfl (Nat.le_refl _) rfl

theorem takeId (h : Confined S im im') : Confined S im im'.takeId :=
  h.of_entities (funext fun k => by cases k <;> rfl) (Nat.le_succ _) rfl

theorem account (h : Confined S im im') (f : AccountingCounters → AccountingCounters) :
    Confined S im (im'.account f) :=
  h.of_entities (funext fun k => by cases k <;> rfl) (Nat.le_refl _) rfl

theorem recomputeDerivedAccounting (h : Confined S im im') :
    Confined S im im'.recomputeDerivedAccounting :=
  (h.account _).touchHeader

/-! ### Steps that change a record -/

/-- A step that changes the map of one kind at one key of the region. -/
private theorem setEntities (h : Confined S im im') {m : IdMap k.Record} (hid : id ∈ S k)
    (hm : ∀ j, j ≠ id → m[j]? = im'.state.find k j)
    (hlinked : k = .virtual → (im'.state.setEntities k m).Closed S) :
    Confined S im { im' with state := im'.state.setEntities k m } where
  outside k' j hj := by
    rw [← h.outside k' j hj]
    obtain rfl | hk := eq_or_ne k' k
    · rw [find_setEntities_self]
      refine hm j ?_
      rintro rfl
      exact hj hid
    · exact find_setEntities_of_ne _ _ hk _ _
  closed := by
    obtain rfl | hk := eq_or_ne k .virtual
    · exact hlinked rfl
    · intro x hx v hv
      have hsame := find_setEntities_of_ne im'.state k hk.symm m x
      exact h.closed x hx v (hsame.symm.trans hv)
  advanced := by
    rw [nextSequence_setEntities]
    exact h.advanced
  frame := by
    rw [h.frame]

/-- A change of a record of another kind. -/
theorem modify (h : Confined S im im') (hk : k ≠ .virtual) (hid : id ∈ S k)
    (f : k.Record → k.Record) : Confined S im (im'.modify k id f) := by
  refine h.setEntities hid (fun j hj => ?_) fun he => absurd he hk
  rw [Std.ExtTreeMap.getElem?_modify, if_neg]
  · rfl
  · exact fun he => hj (Nat.compare_eq_eq.mp he).symm

/-- A change of a virtual accelerator that keeps what it refers to in the region. -/
theorem modify_virtual (h : Confined S im im') {x : VirtualAcceleratorId} (hx : x ∈ S .virtual)
    {f : VirtualAcceleratorRecord → VirtualAcceleratorRecord}
    (hf : ∀ v, im'.state.virtuals[x]? = some v → v.Linked S → (f v).Linked S) :
    Confined S im (im'.modify .virtual x f) := by
  refine h.setEntities hx (fun j hj => ?_) fun _ y hy v hv => ?_
  · rw [Std.ExtTreeMap.getElem?_modify, if_neg]
    · rfl
    · exact fun he => hj (Nat.compare_eq_eq.mp he).symm
  · change (im'.state.virtuals.modify x f)[y]? = some v at hv
    rw [Std.ExtTreeMap.getElem?_modify] at hv
    split at hv
    · rename_i he
      obtain rfl := Nat.compare_eq_eq.mp he
      obtain ⟨w, hw, rfl⟩ := Option.map_eq_some_iff.mp hv
      exact hf w hw (h.closed _ hy w hw)
    · exact h.closed y hy v hv

theorem put (h : Confined S im im') (hk : k ≠ .virtual) (hid : id ∈ S k) (r : k.Record) :
    Confined S im (im'.put k id r) := by
  refine h.setEntities hid (fun j hj => ?_) fun he => absurd he hk
  rw [Std.ExtTreeMap.getElem?_insert, if_neg]
  · rfl
  · exact fun he => hj (Nat.compare_eq_eq.mp he).symm

theorem put_virtual (h : Confined S im im') {x : VirtualAcceleratorId} (hx : x ∈ S .virtual)
    {v : VirtualAcceleratorRecord} (hv : v.Linked S) : Confined S im (im'.put .virtual x v) := by
  refine h.setEntities hx (fun j hj => ?_) fun _ y hy w hw => ?_
  · rw [Std.ExtTreeMap.getElem?_insert, if_neg]
    · rfl
    · exact fun he => hj (Nat.compare_eq_eq.mp he).symm
  · change (im'.state.virtuals.insert x v)[y]? = some w at hw
    rw [Std.ExtTreeMap.getElem?_insert] at hw
    split at hw
    · cases hw
      exact hv
    · exact h.closed y hy w hw

theorem emplace (h : Confined S im im') (hk : k ≠ .virtual) (hid : id ∈ S k) (r : k.Record) :
    Confined S im (im'.emplace k id r) := by
  refine h.setEntities hid (fun j hj => ?_) fun he => absurd he hk
  rw [Std.ExtTreeMap.getElem?_insertIfNew, if_neg]
  · rfl
  · exact fun he => hj (Nat.compare_eq_eq.mp he.1).symm

theorem foldl {α : Type} {step : Impl σ → α → Impl σ} {l : List α} (h : Confined S im im')
    (hstep : ∀ a ∈ l, ∀ i, Confined S im i → Confined S im (step i a)) :
    Confined S im (l.foldl step im') :=
  List.foldlRecOn l step h fun i hi a ha => hstep a ha i hi

/-! ### Helpers -/

variable {x : VirtualAcceleratorId}

theorem rebuildProjection (h : Confined S im im') (hx : x ∈ S .virtual) :
    Confined S im (im'.rebuildProjection x) := by
  refine h.takeId.modify_virtual hx fun v _ hv => ?_
  exact ⟨hv.leases, hv.owner⟩

theorem fenceLease (h : Confined S im im') {l : LeaseId} (hl : l ∈ S .lease) (reason : Text)
    (now : UnixMicros) : Confined S im (im'.fenceLease reason now l) := by
  unfold Impl.fenceLease
  split
  · exact h
  · split
    · exact (h.touch .lease l).modify (k := .lease) (by decide) hl _
    · exact h

theorem fenceLeases (h : Confined S im im') (hx : x ∈ S .virtual) (reason : Text)
    (now : UnixMicros) : Confined S im (im'.fenceLeases x reason now) := by
  unfold Impl.fenceLeases
  split
  · exact h
  · rename_i v hv
    have hlinked := h.closed x hx v hv
    have hfold : Confined S im
        (v.leases.foldl (fun im lease => im.fenceLease reason now lease) im') :=
      h.foldl fun l hl i hi => hi.fenceLease (hlinked.leases l hl) reason now
    dsimp only
    split
    · exact hfold
    · have hcleared := (hfold.touch .virtual v.id).modify_virtual hx
        (f := fun record => { record with activeAttachments := 0 })
        fun w _ hw => ⟨hw.leases, hw.owner⟩
      refine (Confined.account ?_ _).touchHeader
      split
      · exact hcleared
      · exact (hcleared.touch .tenant v.owner).modify (k := .tenant) (by decide) hlinked.owner _

theorem carryLease (h : Confined S im im') {l : LeaseId} (hl : l ∈ S .lease)
    (generation : Generation) : Confined S im (im'.carryLease generation l) := by
  unfold Impl.carryLease
  split
  · exact h
  · split
    · exact (h.touch .lease l).modify (k := .lease) (by decide) hl _
    · exact h

theorem transition (h : Confined S im im') (hx : x ∈ S .virtual) (clock : Clock)
    (target : VirtualLifecycleState) (reason : Text) :
    Confined S im (im'.transition clock x target reason).1 := by
  unfold Impl.transition
  split
  · exact h
  · rename_i v hv
    split
    · exact h
    · have hmoved := (h.touch .virtual v.id).modify_virtual hx
        (f := fun record => { record with
          state := target
          stateGeneration := record.stateGeneration + 1
          stateReason := reason
          generation := record.generation + 1
          updatedAt := clock.transition x })
        fun w _ hw => ⟨hw.leases, hw.owner⟩
      dsimp only
      split
      · exact hmoved.foldl fun l hl i hi => hi.carryLease ((h.closed x hx v hv).leases l hl) _
      · exact hmoved

theorem transitionAct (h : Confined S im im') (hx : x ∈ S .virtual) (context : OpContext)
    (clock : Clock) (target : VirtualLifecycleState) (reason : Text) {after : Impl σ → Impl σ}
    (hafter : ∀ i, Confined S im i → Confined S im (after i)) :
    Confined S im (transitionAct context clock x target reason after im').1 := by
  have ht := h.transition hx clock target reason
  unfold Impl.transitionAct
  split <;> rename_i him <;> rw [him] at ht
  · exact ht
  · exact hafter _ ht

theorem releaseBacking (h : Confined S im im') {b : BackingId} (hb : b ∈ S .backing) :
    Confined S im (im'.releaseBacking b) := by
  unfold Impl.releaseBacking
  split
  · exact h
  · exact (h.touch .backing b).modify (k := .backing) (by decide) hb _

theorem revokeAssignment (h : Confined S im im') {g : BackingAssignmentId} (hg : g ∈ S .assignment)
    (reason : Text) (now : UnixMicros) : Confined S im (im'.revokeAssignment g reason now) := by
  unfold Impl.revokeAssignment
  split
  · exact h
  · split
    · exact ((h.touch .assignment g).modify (k := .assignment) (by decide) hg _).account _
    · exact h

theorem revokeValid (h : Confined S im im') {g : BackingAssignmentId} (hg : g ∈ S .assignment)
    (reason : Text) (now : UnixMicros) :
    Confined S im (if valid g then im'.revokeAssignment g reason now else im') := by
  split
  · exact h.revokeAssignment hg reason now
  · exact h

end Confined

/-! ### Operations on a virtual accelerator -/

section

variable {auth : Authority} {clock : Clock} {owned : Owned}
variable (h : im.state.Closed S) (hx : owned.virtualId ∈ S .virtual)

include h hx

/-- An operation that is one transition changes only records of its region. -/
theorem confined_transitionAct (context : OpContext) (target : VirtualLifecycleState)
    (reason : Text) {after : Impl σ → Impl σ}
    (hafter : ∀ i, Confined S im i → Confined S im (after i)) :
    Confined S im (transitionAct context clock owned.virtualId target reason after im).1 :=
  (Confined.refl h).transitionAct hx context clock target reason hafter

/-- A new contract changes only records of its region. -/
theorem confined_updateContractAct (contract : ResourceContract) :
    Confined S im (updateContractAct auth contract clock owned im).1 := by
  have hprobe :
    Confined S im (im.probeContract owned.record (contract.normalize im.options.sorting)).1 := by
    unfold probeContract
    split
    · exact .refl h
    · exact (Confined.refl h).takeId
  simp only [updateContractAct]
  split <;> rename_i him <;> rw [him] at hprobe
  · exact hprobe
  · refine Confined.rebuildProjection (Confined.modify_virtual (hprobe.touch _ _).takeId hx ?_) hx
    exact fun v _ hv => ⟨hv.leases, hv.owner⟩

/-- Fencing a virtual accelerator changes only records of its region. -/
theorem confined_fenceVirtualAct (reason : Text) :
    Confined S im (fenceVirtualAct auth reason clock owned im).1 := by
  have hfenced := (Confined.refl h).fenceLeases hx
    (txt "virtual accelerator fenced: " ++ reason) clock.now
  exact (hfenced.touch _ _).transitionAct hx _ clock _ _ fun i hi => hi.recomputeDerivedAccounting

theorem confined_use {f : VirtualAcceleratorRecord → VirtualAcceleratorRecord}
    {g : AccountingCounters → AccountingCounters}
    (hf : ∀ v : VirtualAcceleratorRecord, v.Linked S → (f v).Linked S) (id : ℕ) :
    Confined S im
      (((im.touchVirtual id).modify .virtual owned.virtualId f).account g).touchHeader :=
  ((Confined.modify_virtual ((Confined.refl h).touch _ _) hx
    fun v _ hv => hf v hv).account g).touchHeader

/-! ### Bindings -/

section Bindings

variable (ha : owned.record.assignment ∈ S .assignment) (hb : owned.record.backing ∈ S .backing)

include ha hb

/-- A suspension changes only records of its region. -/
theorem confined_suspendAct (reason : Text) :
    Confined S im (suspendAct auth reason clock owned im).1 := by
  have hrevoked := (Confined.refl h).revokeValid ha
    (txt "virtual accelerator suspended: " ++ reason) clock.now
  simp only [suspendAct]
  refine Confined.transitionAct ?_ hx _ clock _ _ fun i hi => hi.recomputeDerivedAccounting
  refine Confined.rebuildProjection (Confined.modify_virtual
    ((hrevoked.releaseBacking hb).touch _ _) hx ?_) hx
  exact fun v _ hv => ⟨hv.leases, hv.owner⟩

/-- A retirement changes only records of its region. -/
theorem confined_retireVirtualAct (ho : owned.Current im.state) (reason : Text) :
    Confined S im (retireVirtualAct auth reason clock owned im).1 := by
  have hlinked := h _ hx _ ho.virtual
  have hfenced := (Confined.refl h).fenceLeases hx (txt "virtual accelerator retired") clock.now
  have hemplaced := hfenced.emplace (k := .tenant) (by decide) hlinked.owner {}
  have hstruck := fun id => (hemplaced.touch .tenant id).modify (k := .tenant) (by decide)
    hlinked.owner fun owner => { owner with owned := owner.owned.filter (· ≠ owned.record.id) }
  simp only [retireVirtualAct]
  refine Confined.transitionAct ?_ hx _ clock _ _
    fun i hi => (hi.account _).recomputeDerivedAccounting
  refine Confined.rebuildProjection (Confined.modify_virtual
    (Confined.touch (Confined.releaseBacking ?_ hb) _ _) hx ?_) hx
  · exact (hstruck _).revokeValid ha (txt "virtual accelerator retired") clock.now
  · exact fun v _ hv => ⟨hv.leases, hv.owner⟩

/-- Draining the assignment that is replaced changes only records of its region. -/
theorem confined_drainPrevious (now : UnixMicros) :
    Confined S im (im.drainPrevious owned.virtualId owned.record now) := by
  simp only [drainPrevious]
  refine Confined.fenceLeases (Confined.modify_virtual
    (Confined.touch (Confined.releaseBacking ?_ hb) _ _) hx ?_) hx _ _
  · split
    · exact .refl h
    · exact (((Confined.refl h).touch _ _).modify (k := .assignment) (by decide) ha _).account _
  · exact fun v _ hv => ⟨hv.leases, hv.owner⟩

end Bindings

/-- Assigning a backing changes only records of its region. -/
theorem confined_assignBackingAct {operation : String} {backingId : BackingId} {replacing : Bool}
    {reason : Text} {backing : BackingRecord}
    (hfresh : S.Roomy im.state.nextSequence) (hnew : backingId ∈ S .backing)
    (hold : replacing = true →
      owned.record.assignment ∈ S .assignment ∧ owned.record.backing ∈ S .backing) :
    Confined S im
      (assignBackingAct operation auth backingId replacing reason clock (owned, backing) im).1 := by
  simp only [assignBackingAct]
  generalize him1 : (if replacing then im.drainPrevious owned.virtualId owned.record clock.now
    else im) = im1
  have hdrained : Confined S im im1 := by
    rw [← him1]
    split
    · rename_i hr
      exact confined_drainPrevious h hx (hold hr).1 (hold hr).2 _
    · exact .refl h
  refine Confined.touchHeader (Confined.account (Confined.modify (k := .backing)
    (Confined.touch ?_ _ _) (by decide) hnew _) _)
  refine Confined.put (k := .assignment) (Confined.touch ?_ _ _) (by decide)
    (hfresh .assignment (by decide) _ hdrained.advanced) _
  refine Confined.modify_virtual (Confined.rebuildProjection
    (Confined.modify_virtual (hdrained.takeId.touch _ _) hx ?_) hx) hx ?_
  · exact fun v _ hv => ⟨hv.leases, hv.owner⟩
  · exact fun v _ hv => ⟨hv.leases, hv.owner⟩

/-! ### Leases -/

/-- An attachment changes only records of its region. -/
theorem confined_attachAct (ht : owned.tenantId ∈ S .tenant)
    (hfresh : S.Roomy im.state.nextSequence) :
    Confined S im (attachAct auth clock owned im).1 := by
  have hnew : im.nextId ∈ S .lease := hfresh .lease (by decide) _ (Nat.le_refl _)
  simp only [attachAct]
  generalize him1 : Impl.modify _ .tenant owned.tenantId _ = im1
  have hcounted : Confined S im im1 := by
    rw [← him1]
    refine Confined.modify (k := .tenant) (Confined.touch (Confined.modify_virtual
      ((Confined.refl h).takeId.touch _ _) hx ?_) _ _) (by decide) ht _
    intro v _ hv
    refine ⟨fun l hl => ?_, hv.owner⟩
    rw [List.mem_insertionSort, List.mem_append, List.mem_singleton] at hl
    obtain hl | rfl := hl
    · exact hv.leases l hl
    · exact hnew
  have hmoved := hcounted.transition hx clock .attached
    (txt "tenant attached under a generation-bound lease")
  split
  · rename_i him
    exact ite_fst (p := Confined S im) hcounted hmoved him
  · rename_i him
    have hgranted := ite_fst (p := Confined S im) hcounted hmoved him
    exact (((hgranted.touch _ _).put (k := .lease) (by decide) hnew _).account _).touchHeader

/-! ### Migrations -/

/-- Planning a migration changes only records of its region. -/
theorem confined_planMigrationAct {destination : BackingId} {klass : MigrationClass}
    {backing : BackingRecord} (hm : im.nextId ∈ S .migration) :
    Confined S im (planMigrationAct auth destination klass clock (owned, backing) im).1 := by
  refine Confined.touchHeader (Confined.account (Confined.put (k := .migration)
    (Confined.touch ?_ _ _) (by decide) hm _) _)
  refine Confined.modify_virtual ((Confined.refl h).takeId.touch _ _) hx ?_
  exact fun v _ hv => ⟨hv.leases, hv.owner⟩

end

section

variable {auth : Authority} {clock : Clock} (h : im.state.Closed S)

include h

/-- Renewing a lease changes only records of its region. -/
theorem confined_renewLeaseAct {target : LeaseId × LeaseRecord} (hl : target.1 ∈ S .lease) :
    Confined S im (renewLeaseAct auth clock target im).1 := by
  simp only [renewLeaseAct]
  exact ((((Confined.refl h).touch _ _).modify (k := .lease) (by decide) hl
    _).account _).touchHeader

/-- Detaching or revoking a lease changes only records of its region. -/
theorem confined_releaseLeaseAct {held : Held} (hx : held.virtualId ∈ S .virtual)
    (hl : held.leaseId ∈ S .lease) (ht : held.lease.tenant ∈ S .tenant) (operation : String)
    (reason : Text) (lastReason : String) (book : AccountingCounters → AccountingCounters) :
    Confined S im
      (releaseLeaseAct operation auth clock reason lastReason book held im).1 := by
  have hreleased : Confined S im (im.releaseLease held reason clock.now book) := by
    simp only [releaseLease]
    refine Confined.touchHeader (Confined.account ?_ _)
    have hcounted := Confined.modify_virtual
      ((((Confined.refl h).touch .lease held.lease.id).modify (k := .lease) (by decide) hl
        fun lease => { lease with state := .revoked, revokedAt := clock.now, reason }).touch
          .virtual held.record.id) hx
      (f := fun v => { v with
        activeAttachments := v.activeAttachments - 1, updatedAt := clock.now })
      fun v _ hv => ⟨hv.leases, hv.owner⟩
    split
    · exact hcounted
    · exact (hcounted.touch _ _).modify (k := .tenant) (by decide) ht _
  have hmoved := hreleased.transition hx clock .provisioned (txt lastReason)
  simp only [releaseLeaseAct]
  split
  · rename_i him
    exact ite_fst (p := Confined S im) hmoved hreleased him
  · rename_i him
    exact ite_fst (p := Confined S im) hmoved hreleased him

section Phases

variable {f : InFlight} (hx : f.virtualId ∈ S .virtual) (hm : f.migrationId ∈ S .migration)

include hx hm

/-- Preparing a migration changes only records of its region. -/
theorem confined_prepareMigrationAct
    (hfresh : S.Roomy im.state.nextSequence) :
    Confined S im (prepareMigrationAct auth clock f im).1 := by
  have ht := (Confined.refl h).transition hx clock .migrating
    (txt "migration prepared; leases are drained before cutover")
  simp only [prepareMigrationAct]
  split <;> rename_i him <;> rw [him] at ht
  · exact ht
  · have hdrained := Confined.fenceLeases ht hx
      (txt "migration drained the source backing; the lease is bound to the source generation")
      clock.now
    refine Confined.touchHeader (Confined.account (Confined.modify (k := .migration)
      (Confined.touch (Confined.put (k := .assignment) (Confined.touch hdrained.takeId _ _)
        (by decide) (hfresh .assignment (by decide) _ hdrained.advanced) _) _ _) (by decide) hm _)
      _)

/-- Completing a migration changes only records of its region. -/
theorem confined_completeMigrationAct :
    Confined S im (completeMigrationAct auth clock f im).1 := by
  refine Confined.modify_virtual (Confined.touch (Confined.modify (k := .migration)
    (Confined.touch (Confined.refl h) _ _) (by decide) hm _) _ _) hx ?_
  exact fun v _ hv => ⟨hv.leases, hv.owner⟩

/-- Aborting a migration changes only records of its region. -/
theorem confined_abortMigrationAct (hd : f.migration.destinationAssignment ∈ S .assignment)
    (reason : Text) : Confined S im (abortMigrationAct auth reason clock f im).1 := by
  have hfailed : Confined S im (im.failDestination f.migration.destinationAssignment
      (txt "migration aborted before cutover: " ++ reason) clock.now) := by
    unfold failDestination
    split
    · exact .refl h
    · exact ((Confined.refl h).touch _ _).modify (k := .assignment) (by decide) hd _
  have haborted := ((hfailed.touch .migration f.migration.plan.id).modify (k := .migration)
    (by decide) hm fun m => { m with
      state := .aborted
      sourceAuthoritative := true
      destinationAuthoritative := false
      completedAt := clock.now
      note := reason }).account fun a => { a with migrationsAborted := a.migrationsAborted + 1 }
  have hmoved := haborted.transition hx clock .provisioned
    (txt "migration aborted before cutover; the source backing remains authoritative")
  simp only [abortMigrationAct]
  split
  · rename_i him
    exact ite_fst (p := Confined S im) hmoved haborted him
  · rename_i him
    exact (ite_fst (p := Confined S im) hmoved haborted him).touchHeader

end Phases

/-- A cutover changes only records of its region. -/
theorem confined_commitMigrationAct {c : Cutover} (hx : c.virtualId ∈ S .virtual)
    (hm : c.migrationId ∈ S .migration) (hs : c.migration.sourceAssignment ∈ S .assignment)
    (hd : c.migration.destinationAssignment ∈ S .assignment)
    (hsb : c.migration.plan.sourceBacking ∈ S .backing)
    (hdb : c.migration.plan.destinationBacking ∈ S .backing) :
    Confined S im (commitMigrationAct auth clock c im).1 := by
  have hrebound : Confined S im (im.rebindVirtual c clock.now) := by
    simp only [rebindVirtual]
    refine Confined.modify_virtual (Confined.rebuildProjection
      (Confined.modify_virtual ((Confined.refl h).touch _ _) hx ?_) hx) hx ?_
    · exact fun v _ hv => ⟨hv.leases, hv.owner⟩
    · exact fun v _ hv => ⟨hv.leases, hv.owner⟩
  simp only [commitMigrationAct]
  refine Confined.touchHeader (Confined.account (Confined.modify (k := .migration)
    (Confined.touch ?_ _ _) (by decide) hm _) _)
  simp only [cutoverAuthority]
  refine Confined.modify (k := .backing) (Confined.touch (Confined.modify (k := .backing)
    (Confined.touch (Confined.modify (k := .assignment) (Confined.touch (Confined.account
      (Confined.modify (k := .assignment) (hrebound.touch _ _) (by decide) hs _) _) _ _)
        (by decide) hd _) _ _) (by decide) hsb _) _ _) (by decide) hdb _

/-! ### Tenants -/

/-- Creating a tenant changes only records of its region. -/
theorem confined_createTenantAct (hfresh : S.Roomy im.state.nextSequence)
    (name externalSubject : Text) :
    Confined S im (createTenantAct auth name externalSubject clock () im).1 :=
  ((Confined.refl h).takeId.touch _ _).put (k := .tenant) (by decide)
    (hfresh .tenant (by decide) _ (Nat.le_refl _)) _

/-- Creating a virtual accelerator changes only records of its region. -/
theorem confined_createVirtualAct (hfresh : S.Roomy im.state.nextSequence)
    {owner : TenantId} (ho : owner ∈ S .tenant) (name : Text) (ownerGeneration : Generation)
    (contract : ResourceContract) (tenant : TenantRecord) :
    Confined S im
      (createVirtualAct auth name owner ownerGeneration contract clock tenant im).1 := by
  simp only [createVirtualAct]
  refine Confined.touchHeader (Confined.account (Confined.modify (k := .tenant)
    (Confined.touch (Confined.put_virtual ?_ (hfresh .virtual (by decide) _ (Nat.le_refl _))
      ?_) _ _)
    (by decide) ho _) _)
  · exact ((Confined.refl h).takeId.takeId.touch _ _).takeId
  · exact ⟨fun _ hl => absurd hl List.not_mem_nil, ho⟩

omit h in
/-- Fencing what a tenant owns changes only records of its region. -/
theorem confined_fenceOwned {i : Impl σ} (hi : Confined S im i) {x : VirtualAcceleratorId}
    (hx : x ∈ S .virtual) (tenant : TenantId) (generation : Generation) (now : UnixMicros) :
    Confined S im (i.fenceOwned tenant generation now x) := by
  unfold fenceOwned
  split
  · exact hi
  · refine Confined.modify_virtual (Confined.fenceLeases
      (Confined.modify_virtual (hi.touch _ _) hx ?_) hx _ _) hx ?_
    · exact fun v _ hv => ⟨hv.leases, hv.owner⟩
    · intro v _ hv
      split
      · exact ⟨hv.leases, hv.owner⟩
      · exact hv

/-- Fencing a tenant changes only records of its region. -/
theorem confined_fenceTenantAct {id : TenantId} (hid : id ∈ S .tenant) {tenant : TenantRecord}
    (howned : ∀ x ∈ tenant.owned, x ∈ S .virtual) (reason : Text) :
    Confined S im (fenceTenantAct auth id reason clock tenant im).1 := by
  simp only [fenceTenantAct]
  refine Confined.recomputeDerivedAccounting (Confined.modify (k := .tenant) (Confined.foldl ?_ ?_)
    (by decide) hid _)
  · exact ((Confined.refl h).touch _ _).modify (k := .tenant) (by decide) hid _
  · exact fun x hx i hi => confined_fenceOwned hi (howned x hx) _ _ _

/-- A transfer changes only records of its region. -/
theorem confined_transferOwnershipAct {t : Transfer} (hx : t.virtualId ∈ S .virtual)
    (ht : t.tenantId ∈ S .tenant) {newOwner : TenantId} (hnew : newOwner ∈ S .tenant)
    (hdest : t.destination.id ∈ S .tenant) :
    Confined S im (transferOwnershipAct auth newOwner clock t im).1 := by
  simp only [transferOwnershipAct]
  refine Confined.modify_virtual (Confined.touch (Confined.touch (Confined.modify (k := .tenant)
    (Confined.touch (Confined.modify (k := .tenant) (Confined.fenceLeases (Confined.refl h) hx _ _)
      (by decide) ht _) _ _) (by decide) hnew _) _ _) _ _) hx ?_
  intro v _ hv
  split
  · exact ⟨hv.leases, hdest⟩
  · exact ⟨hv.leases, hdest⟩

/-! ### The policy -/

section Policy

variable (hall : ∀ k, k ≠ .physical → k ≠ .migration → k ≠ .evidence → ∀ id, id ∈ S k)

include hall

omit h in
/-- Validating a virtual accelerator again changes only records of its region. -/
theorem confined_revalidateVirtual {i : Impl σ} (hi : Confined S im i)
    (updated : VirtualizationPolicy) (now : UnixMicros) (x : VirtualAcceleratorId) :
    Confined S im (i.revalidateVirtual updated now x) := by
  have hx : x ∈ S .virtual := hall .virtual (by decide) (by decide) (by decide) x
  have hassignment := hall .assignment (by decide) (by decide) (by decide)
  have hbacking := hall .backing (by decide) (by decide) (by decide)
  unfold revalidateVirtual
  split
  · exact hi
  · rename_i record hrecord
    split
    · exact hi
    · have hdetached : Confined S im ((i.touchVirtual record.id).modify .virtual x
          (detachForPolicy updated now)) := by
        refine (hi.touch _ _).modify_virtual hx fun v _ hv => ?_
        simp only [detachForPolicy]
        split
        · exact ⟨hv.leases, hv.owner⟩
        · exact ⟨hv.leases, hv.owner⟩
      dsimp only
      generalize (i.touchVirtual record.id).modify .virtual x (detachForPolicy updated now) = j
        at hdetached
      refine Confined.rebuildProjection ?_ hx
      split
      · exact hdetached
      · simp only [withdrawBacking]
        refine Confined.modify_virtual (Confined.modify (k := .backing) (Confined.touch
          (hdetached.revokeValid (hassignment _) _ _) _ _) (by decide) (hbacking _) _) hx ?_
        exact fun v _ hv => ⟨hv.leases, hv.owner⟩

/-- A new policy changes only records of its region. -/
theorem confined_setPolicyAct (policy : VirtualizationPolicy) :
    Confined S im (setPolicyAct auth clock policy im).1 := by
  have hlease := hall .lease (by decide) (by decide) (by decide)
  have htenant := hall .tenant (by decide) (by decide) (by decide)
  simp only [setPolicyAct]
  refine Confined.touchHeader (Confined.recomputeDerivedAccounting (Confined.foldl
    (Confined.foldl (Confined.foldl ?_ ?_) ?_) ?_))
  · refine Confined.account ?_ _
    refine Confined.of_entities (Confined.refl h).touchHeader.takeId ?_ ?_ ?_
    · exact funext fun k => by cases k <;> rfl
    · exact Nat.le_refl _
    · rfl
  · intro l _ i hi
    unfold supersedeLease
    split
    · exact hi
    · split
      · exact ((hi.touch _ _).modify (k := .lease) (by decide) (hlease l)
          _).account _
      · exact hi
  · exact fun x _ i hi => confined_revalidateVirtual hall hi _ _ x
  · intro t _ i hi
    unfold clearAttachments
    split
    · exact hi
    · split
      · exact (hi.touch _ _).modify (k := .tenant) (by decide) (htenant t) _
      · exact hi

end Policy

end

/-! ### Devices -/

/-- With a backing, the region has the assignment with authority that it records, and the holder of
that. -/
def Staffed (S : Region) (L : Ledger ℕ ℕ ℕ ℕ) : Prop :=
  ∀ b ∈ S .backing, ∀ s g a, L.slot b = some s → s.active = some g → L.grant g = some a →
    a.authoritative = true → g ∈ S .assignment ∧ a.party ∈ S .virtual

/-- With a backing, the region has the holder it records, and the assignment of that. -/
def Tied (S : Region) (L : Ledger ℕ ℕ ℕ ℕ) : Prop :=
  ∀ b ∈ S .backing, ∀ s x q, L.slot b = some s → s.holder = some x → L.party x = some q →
    x ∈ S .virtual ∧ ∀ g, q.grant = some g → g ∈ S .assignment

section Devices

variable {L : Ledger ℕ ℕ ℕ ℕ}

/-- What is recorded after a mark comes from what was recorded before. -/
theorem slot_mark_cases {b b' : ℕ} {f : Slot ℕ ℕ → Slot ℕ ℕ} {s' : Slot ℕ ℕ}
    (h : (L.mark b f).slot b' = some s') : ∃ s, L.slot b' = some s ∧ (s' = f s ∨ s' = s) := by
  obtain rfl | hne := eq_or_ne b' b
  · simp only [Ledger.mark, Function.update_self, Option.map_eq_some_iff] at h
    obtain ⟨s, hs, rfl⟩ := h
    exact ⟨s, hs, .inl rfl⟩
  · simp only [Ledger.mark, Function.update_of_ne hne] at h
    exact ⟨s', h, .inr rfl⟩

theorem Staffed.revoke (h : Staffed S L) (g : ℕ) : Staffed S (L.revoke g) := by
  intro b hb s g' a hs hg' ha hauth
  obtain rfl | hne := eq_or_ne g' g
  · simp only [Ledger.revoke, Function.update_self, Option.map_eq_some_iff] at ha
    obtain ⟨a, -, rfl⟩ := ha
    cases hauth
  · simp only [Ledger.revoke, Function.update_of_ne hne] at ha
    exact h b hb s g' a hs hg' ha hauth

/-- The grant that a resource records is kept or forgotten. -/
theorem Staffed.mark (h : Staffed S L) {b : ℕ} {f : Slot ℕ ℕ → Slot ℕ ℕ}
    (hf : ∀ s, (f s).active = none ∨ (f s).active = s.active) : Staffed S (L.mark b f) := by
  intro b' hb s' g a hs' hg ha
  obtain ⟨s, hs, rfl | rfl⟩ := slot_mark_cases hs'
  · obtain hnone | hsame := hf s
    · exact absurd (hnone.symm.trans hg) nofun
    · exact h b' hb s g a hs (hsame.symm.trans hg) ha
  · exact h b' hb s' g a hs hg ha

theorem Staffed.found (h : Staffed S L) (b : ℕ) (exclusive : Bool) :
    Staffed S (L.found b exclusive) := by
  intro b' hb s' g a hs' hg ha
  obtain rfl | hne := eq_or_ne b' b
  · simp only [Ledger.found, Function.update_self, Option.some.injEq] at hs'
    subst hs'
    cases hg
  · simp only [Ledger.found, Function.update_of_ne hne] at hs'
    exact h b' hb s' g a hs' hg ha

theorem Staffed.vacate (h : Staffed S L) (g b : ℕ) : Staffed S ((L.revoke g).mark b vacate) :=
  (h.revoke g).mark fun _ => .inl rfl

theorem Tied.vacate (h : Tied S L) (g b : ℕ) : Tied S ((L.revoke g).mark b vacate) := by
  intro b' hb s' x q hs' hx hq
  obtain ⟨s, hs, rfl | rfl⟩ := slot_mark_cases (L := L.revoke g) hs'
  · cases hx
  · exact h b' hb s' x q hs hx hq

variable {i : Impl σ} {s : Impl σ} {T : Set (RecordKind × ℕ)}

/-- Losing a backing changes only records of its region. -/
theorem confined_loseBacking (hi : Confined S im i) (ht : Tied S i.ledger) {b : BackingId}
    (hb : b ∈ S .backing) (reason : Text) (now : UnixMicros) :
    Confined S im (i.loseBacking reason now b) := by
  unfold loseBacking
  split
  · exact hi
  · rename_i backing hbacking
    have hlost := (hi.touch .backing b).modify (k := .backing) (by decide) hb
      fun b => { b with available := false, evidenceFresh := false }
    dsimp only
    split
    · exact hlost
    · rename_i hvalid
      have hne : backing.assignedTo ≠ 0 := by simpa [valid] using hvalid
      split
      · exact hlost
      · rename_i record hrecord
        have hslot : i.ledger.slot b = some backing.toSlot :=
          congrArg (Option.map BackingRecord.toSlot) hbacking
        have hparty : i.ledger.party backing.assignedTo = some record.toPointer :=
          congrArg (Option.map VirtualAcceleratorRecord.toPointer) hrecord
        -- the backing and its holder name each other
        obtain ⟨hx, hassignment⟩ := ht b hb _ _ _ hslot (ref_of_ne hne) hparty
        have hinterrupted : ∀ reason, Confined S im (interruptHolder
            ((i.touchBacking b).modify .backing b fun b =>
              { b with available := false, evidenceFresh := false })
            backing.assignedTo record reason now) := by
          intro reason
          unfold interruptHolder
          dsimp only
          split
          · exact (hlost.touch _ _).modify_virtual hx fun v _ hv => ⟨hv.leases, hv.owner⟩
          · exact hlost.touch _ _
        refine Confined.modify (k := .backing) ?_ (by decide) hb _
        split
        · rename_i hv
          refine ((hinterrupted _).fenceLeases hx _ _).revokeAssignment (hassignment _ ?_) _ _
          exact ref_of_ne (by simpa [valid] using hv)
        · exact (hinterrupted _).fenceLeases hx _ _

/-- Invalidating a backing changes only records of its region. -/
theorem confined_invalidateBacking (hi : Confined S im i) (hw : i.state.WellKeyed)
    (ht : Staffed S i.ledger) {b : BackingId} (hb : b ∈ S .backing) (now : UnixMicros) :
    Confined S im (i.invalidateBacking now b) := by
  unfold invalidateBacking
  split
  · exact hi
  · rename_i backing hbacking
    refine (Confined.touch ?_ _ _).modify (k := .backing) (by decide) hb _
    unfold invalidateBinding
    split
    · exact hi
    · rename_i assignment hassignment
      split
      · rename_i hauth
        have hne : backing.activeAssignment ≠ 0 := by
          intro h0
          rw [h0] at hassignment
          exact absurd ((hw.zero .assignment).symm.trans hassignment) nofun
        have hslot : i.ledger.slot b = some backing.toSlot :=
          congrArg (Option.map BackingRecord.toSlot) hbacking
        have hgrant : i.ledger.grant backing.activeAssignment = some assignment.toGrant :=
          congrArg (Option.map BackingAssignment.toGrant) hassignment
        obtain ⟨hg, hx⟩ := ht b hb _ _ _ hslot (ref_of_ne hne) hgrant hauth
        have hrevoked := hi.revokeAssignment hg
          (txt "the physical device generation changed under this backing") now
        unfold invalidateHolder
        split
        · exact hrevoked
        · split
          · exact (hrevoked.touch _ _).modify_virtual hx fun v _ hv => ⟨hv.leases, hv.owner⟩
          · exact hrevoked
      · exact hi

/-- Refreshing a backing changes only records of its region. -/
theorem confined_refreshBacking (hi : Confined S im i) {b : BackingId} (hb : b ∈ S .backing)
    (device : PhysicalDeviceRecord) (now : UnixMicros) :
    Confined S im (i.refreshBacking device now b) := by
  unfold refreshBacking
  split
  · exact hi
  · exact (hi.touch _ _).modify (k := .backing) (by decide) hb _

/-- The region has the backings of a device: those it lists and those that name it. -/
structure Equipped (S : Region) (key : PhysicalDeviceId) (im : Impl σ) : Prop where
  listed : ∀ b ∈ im.stock key, b ∈ S .backing
  named : ∀ (b : BackingId) (r : BackingRecord), im.state.backings[b]? = some r →
    r.physical = key → b ∈ S .backing

/-- Materialising a backing changes only records of its region. -/
theorem confined_materializeBacking (hi : Confined S im i) {key : PhysicalDeviceId}
    (hk : key ∈ S .physical) (he : Equipped S key i)
    (hfresh : S.Roomy im.state.nextSequence) {device : PhysicalDeviceRecord}
    (hid : device.id = key) (now : UnixMicros) (source : BackingDescriptor) :
    Confined S im (i.materializeBacking key device now source) ∧
      Equipped S key (i.materializeBacking key device now source) := by
  have hnew : i.nextId ∈ S .backing := hfresh .backing (by decide) _ hi.advanced
  refine ⟨?_, ?_, ?_⟩
  · unfold materializeBacking
    split
    · exact ((((hi.takeId.touch _ _).emplace (k := .backing) (by decide) hnew _).modify
        (k := .physical) (by decide) hk _).modify (k := .backing) (by decide) hnew _)
    · rename_i b backing hfound
      have hnamed : backing.physical = device.id := by
        have := List.find?_some hfound
        simp only [Bool.and_eq_true, decide_eq_true_eq] at this
        exact this.1
      exact (hi.touch _ _).modify (k := .backing) (by decide)
        (he.named b backing (findBacking_some hfound) (hnamed.trans hid)) _
  · intro b hb
    obtain hb | rfl := (stock_materializeBacking i key device now source).2 b hb
    · exact he.listed b hb
    · exact hnew
  · intro b r hr hphysical
    obtain rfl | ⟨r0, hr0, hsame, -⟩ := known_materializeBacking hr
    · exact hnew
    · exact he.named b r0 hr0 (hsame.trans hphysical)

/-- Settling the backings of a device changes only records of its region. -/
theorem confined_settleBackings (hi : Confined S im i) (hs : Tracks s T i)
    {key : PhysicalDeviceId} (htouched : (.physical, key) ∈ T)
    (hsome : (i.state.find .physical key).isSome) (ht : Staffed S i.ledger) (hk : key ∈ S .physical)
    (he : Equipped S key i) (hfresh : S.Roomy im.state.nextSequence)
    (changed : Bool) (d : PhysicalDeviceDescriptor) (now : UnixMicros) :
    Confined S im (i.settleBackings key changed d now) := by
  obtain ⟨device, hdevice⟩ := Option.isSome_iff_exists.mp hsome
  have hid : (i.state.physical[key]?.getD {}).id = key := by
    rw [show i.state.physical[key]? = some device from hdevice]
    exact hs.idOf_eq (k := .physical) hdevice
  simp only [settleBackings]
  generalize i.state.physical[key]?.getD {} = device at hid
  -- each backing that is materialised is in the set, or is new
  have hentered := List.foldlRecOn d.backings (materializeBacking key device now)
    (motive := fun j => Confined S im j ∧ Equipped S key j ∧ Tracks s T j ∧ Staffed S j.ledger)
    ⟨hi, he, hs, ht⟩ fun j hentered source _ => by
      obtain ⟨hj, hej, hsj, htj⟩ := hentered
      obtain ⟨hconfined, hequipped⟩ :=
        confined_materializeBacking hj hk hej hfresh hid now source
      refine ⟨hconfined, hequipped, hsj.materializeBacking htouched _ _ _, ?_⟩
      obtain heq | ⟨b, r, -, -, -, heq⟩ :=
        ledger_materializeBacking hsj.wellKeyed key device now source
      · rw [heq]
        exact (htj.found _ _).mark fun _ => .inr rfl
      · rw [heq]
        exact htj.mark fun _ => .inr rfl
  generalize d.backings.foldl (materializeBacking key device now) i = j at hentered
  obtain ⟨hj, hej, hsj, htj⟩ := hentered
  split
  · refine (List.foldlRecOn _ _ (motive := fun j => Confined S im j ∧ Tracks s T j ∧
      Staffed S j.ledger) ⟨hj, hsj, htj⟩ ?_).1
    rintro j ⟨hj, hsj, htj⟩ b hb
    refine ⟨confined_invalidateBacking hj hsj.wellKeyed htj (hej.listed b hb) now,
      hsj.invalidateBacking now b, ?_⟩
    obtain heq | ⟨r, -, heq⟩ := ledger_invalidateBacking j now b
    · rwa [heq]
    · rw [heq]
      exact htj.vacate _ _
  · exact hj.foldl fun b hb j hj => confined_refreshBacking hj (hej.listed b hb) _ _

end Devices

section

variable {auth : Authority} {clock : Clock} {s : Impl σ} {T : Set (RecordKind × ℕ)}
variable (h : im.state.Closed S) (hs : Tracks s T im)

include h hs

/-- A loss reaches the device, its backings and their holders; it recounts the attachments of
every tenant. -/
theorem confined_physicalLostAct {id : PhysicalDeviceId} (hid : id ∈ S .physical)
    {device : PhysicalDeviceRecord} (hb : ∀ b ∈ device.backings, b ∈ S .backing)
    (htenant : ∀ t, t ∈ S .tenant) (ht : Tied S im.ledger) (generation : Generation)
    (reason : Text) :
    Confined S im (physicalLostAct id generation reason clock device im).1 := by
  simp only [physicalLostAct]
  have hlost : Confined S im (device.backings.foldl (loseBacking reason clock.now)
      ((im.touchPhysical id).modify .physical id fun r => { r with present := false })) := by
    refine (List.foldlRecOn device.backings (loseBacking reason clock.now)
      (motive := fun i => Confined S im i ∧ Tracks s T i ∧ Tied S i.ledger) ?_ ?_).1
    · exact ⟨((Confined.refl h).touch _ _).modify (k := .physical) (by decide) hid _,
        hs.edit .physical id fun _ => rfl, ht⟩
    · rintro i ⟨hi, htracks, htied⟩ b hmem
      refine ⟨confined_loseBacking hi htied (hb b hmem) _ _, htracks.loseBacking _ _ _, ?_⟩
      obtain heq | ⟨-, v, -, -, heq⟩ := ledger_loseBacking htracks.wellKeyed reason clock.now b
      · rwa [heq]
      · rw [heq]
        exact htied.vacate _ _
  refine Confined.touchHeader (Confined.recomputeDerivedAccounting (Confined.account
    (Confined.foldl hlost fun t _ i hi => ?_) _))
  unfold recountTenant
  split
  · exact hi
  · dsimp only
    split
    · exact (hi.touch _ _).modify (k := .tenant) (by decide) (htenant t) _
    · exact hi

omit h in
/-- The device that is described lists what it listed before. -/
theorem stock_locateDevice (d : PhysicalDeviceDescriptor) :
    (im.locateDevice d).1.stock (im.locateDevice d).2.1 = im.stock (im.locateDevice d).2.1 := by
  unfold locateDevice
  split
  · have hnone : im.state.physical[im.nextId]? = none := hs.wellKeyed.fresh .physical le_rfl
    change ((im.state.physical.insertIfNew im.nextId _)[im.nextId]?.getD {}).backings = _
    rw [Std.ExtTreeMap.getElem?_insertIfNew, if_pos, stock, hnone]
    · rfl
    · refine ⟨Nat.compare_eq_eq.mpr rfl, fun hmem => ?_⟩
      rw [← Std.ExtTreeMap.isSome_getElem?_iff_mem, hnone] at hmem
      cases hmem
  · rename_i key target hf
    dsimp only
    split
    · change ((im.state.physical.modify key _)[key]?.getD {}).backings = _
      rw [Std.ExtTreeMap.getElem?_modify, if_pos (Nat.compare_eq_eq.mpr rfl), stock]
      cases im.state.physical[key]? <;> rfl
    · rfl

/-- Describing a device changes only records of its region. -/
theorem confined_describeDevice {d : PhysicalDeviceDescriptor}
    (hk : (im.locateDevice d).2.1 ∈ S .physical)
    (hfresh : S.Roomy im.state.nextSequence) (agent : AgentId) (boot : AgentBootId)
    (now : UnixMicros) : Confined S im (im.describeDevice agent boot d now).1 := by
  have hlocated : Confined S im (im.locateDevice d).1 := by
    revert hk
    unfold locateDevice
    split
    · exact fun hk => ((Confined.refl h).takeId.touch _ _).emplace (k := .physical) (by decide) hk _
    · intro hk
      dsimp only
      split
      · exact ((Confined.refl h).touch _ _).modify (k := .physical) (by decide) hk _
      · exact (Confined.refl h).touch _ _
  obtain ⟨hl, hsome⟩ := hs.locateDevice d
  simp only [describeDevice]
  generalize im.locateDevice d = located at hk hlocated hl hsome
  obtain ⟨im1, key, changed⟩ := located
  obtain ⟨r, hr⟩ := Option.isSome_iff_exists.mp hsome
  have hevidence : ((im1.takeId.modify .physical key fun r =>
      r.describe agent boot d im1.nextId now).state.physical[key]?.getD {}).evidence =
      im1.nextId := by
    change ((im1.state.physical.modify key _)[key]?.getD {}).evidence = _
    rw [Std.ExtTreeMap.getElem?_modify, if_pos (Nat.compare_eq_eq.mpr rfl),
      show im1.state.physical[key]? = some r from hr]
    rfl
  have hdescribed := (hlocated.takeId.modify (k := .physical) (by decide) hk
    fun r => r.describe agent boot d im1.nextId now)
  dsimp only [recordEvidence]
  refine Confined.account (Confined.put (k := .evidence) (hdescribed.touch _ _) (by decide) ?_ _) _
  rw [hevidence]
  exact hfresh .evidence (by decide) _ hlocated.advanced

/-- A registration reaches the device that has the key, its backings and, if it is a different
one now, their holders. -/
theorem confined_registerPhysicalAct {d : PhysicalDeviceDescriptor}
    (hk : (im.locateDevice d).2.1 ∈ S .physical) (he : Equipped S (im.locateDevice d).2.1 im)
    (ht : Staffed S im.ledger) (hfresh : S.Roomy im.state.nextSequence) (agent : AgentId)
    (boot : AgentBootId) :
    Confined S im (registerPhysicalAct auth agent boot d clock () im).1 := by
  have hdescribed := confined_describeDevice h hs hk hfresh agent boot clock.now
  have hstock : (im.describeDevice agent boot d clock.now).1.stock (im.locateDevice d).2.1 =
      im.stock (im.locateDevice d).2.1 := by
    rw [← stock_locateDevice hs]
    simp only [describeDevice, recordEvidence, stock]
    generalize im.locateDevice d = located
    obtain ⟨im1, key, changed⟩ := located
    change ((im1.state.physical.modify key _)[key]?.getD {}).backings = _
    rw [Std.ExtTreeMap.getElem?_modify, if_pos (Nat.compare_eq_eq.mpr rfl)]
    cases im1.state.physical[key]? <;> rfl
  have hequipped : Equipped S (im.locateDevice d).2.1
      (im.describeDevice agent boot d clock.now).1 := by
    refine ⟨fun b hb => he.listed b (hstock ▸ hb), fun b r hr => he.named b r ?_⟩
    rwa [backings_describeDevice] at hr
  obtain ⟨hs1, hsome⟩ := hs.describeDevice agent boot d clock.now
  have ht1 : Staffed S (im.describeDevice agent boot d clock.now).1.ledger := by
    rwa [ledger_describeDevice]
  exact ((confined_settleBackings hdescribed hs1 (Set.mem_insert _ _) hsome ht1 hk hequipped hfresh
    _ d clock.now).account _).touchHeader

end

end Impl

end AcceleratorVirtualization
