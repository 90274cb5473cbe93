import AcceleratorVirtualization.Invariants.LedgerOperations

/-!
# Authority stays single

Every operation keeps the ledger coherent: an authoritative assignment is the one its virtual
accelerator points to, together with its backing. The operations that act on the ledger are
instances of the steps of the library; the loops keep coherence at every turn.
-/

namespace AcceleratorVirtualization

open VirtualizationState Custody

namespace Impl

variable {σ : Type} {T : Set (RecordKind × ℕ)}
  {s im : Impl σ}

/-! ### Reading the ledger -/

theorem party_of_virtual {id : ℕ} {v : VirtualAcceleratorRecord}
    (h : im.state.virtuals[id]? = some v) : im.ledger.party id = some v.toPointer := by
  simp [ledger, VirtualizationState.ledger, h]

theorem slot_of_backing {id : ℕ} {b : BackingRecord} (h : im.state.backings[id]? = some b) :
    im.ledger.slot id = some b.toSlot := by
  simp [ledger, VirtualizationState.ledger, h]

theorem grant_of_assignment {id : ℕ} {a : BackingAssignment}
    (h : im.state.assignments[id]? = some a) : im.ledger.grant id = some a.toGrant := by
  simp [ledger, VirtualizationState.ledger, h]

theorem move_of_migration {id : ℕ} {m : MigrationRecord} (h : im.state.migrations[id]? = some m) :
    im.ledger.move id = some m.toMove := by
  simp [ledger, VirtualizationState.ledger, h]

/-- Grants are named by issued identities. -/
theorem lt_of_grant (h : im.state.WellKeyed) {id : ℕ} {r : Grant ℕ ℕ}
    (hr : im.ledger.grant id = some r) : id < im.state.nextSequence := by
  simp only [ledger, VirtualizationState.ledger, Option.map_eq_some_iff] at hr
  obtain ⟨a, ha, -⟩ := hr
  exact (h.issued .assignment id a ha).2

/-- Once the assignment of a virtual accelerator is revoked it has no authority. -/
theorem idle_revoke_assignment (hc : im.ledger.Coherent) {id : ℕ} {v : VirtualAcceleratorRecord}
    (hv : im.state.virtuals[id]? = some v) : (im.ledger.revoke v.assignment).Idle id := by
  intro g hg
  obtain ⟨hne, r, hr, ha, rfl⟩ := Ledger.holds_revoke.mp hg
  have hp := hc.pointed g r hr ha
  rw [party_of_virtual hv] at hp
  have hgrant := congrArg Pointer.grant (Option.some.inj hp)
  exact hne (ref_eq_some.mp hgrant).1.symm

/-! ### Operations that act on the ledger -/

theorem coherent_createVirtual (h : im.state.WellKeyed) (hc : im.ledger.Coherent) :
    (im.ledger.enroll im.nextId).Coherent := by
  refine hc.enroll ?_
  have hn : im.state.virtuals[im.nextId]? = none := h.fresh .virtual (Nat.le_refl _)
  simp [ledger, VirtualizationState.ledger, hn]

/-- Suspending and retiring release the binding. -/
theorem coherent_release (hc : im.ledger.Coherent) {id : ℕ} {v : VirtualAcceleratorRecord}
    (hv : im.state.virtuals[id]? = some v) (x : ℕ) :
    (((im.ledger.revoke v.assignment).mark x vacate).point id fun _ => released).Coherent :=
  ((hc.revoke _).mark x vacate).forget (idle_revoke_assignment hc hv) fun _ => rfl

/-- A policy change withdraws the binding and keeps the backing named. -/
theorem coherent_withdraw (hc : im.ledger.Coherent) {id : ℕ} {v : VirtualAcceleratorRecord}
    (hv : im.state.virtuals[id]? = some v) (x : ℕ) :
    (((im.ledger.revoke v.assignment).mark x vacate).point id withdrawn).Coherent :=
  ((hc.revoke _).mark x vacate).forget (idle_revoke_assignment hc hv) fun _ => rfl

theorem Coherent.bound {L : Ledger ℕ ℕ ℕ ℕ} (hc : L.Coherent) {virtual backing assignment : ℕ}
    (hp : (L.party virtual).isSome) (hi : L.Idle virtual) (hg : L.grant assignment = none)
    (hx : (L.slot backing).isSome) : (bound L virtual backing assignment).Coherent :=
  (hc.bind hp hi hg hx).mark _ _

/-- A virtual accelerator without an authoritative assignment is idle. -/
theorem idle_of_not_authoritative (hc : im.ledger.Coherent) {id : ℕ}
    {v : VirtualAcceleratorRecord} (hv : im.state.virtuals[id]? = some v)
    (ha : ∀ a, im.state.assignments[v.assignment]? = some a → v.assignment ≠ 0 →
      a.authoritative = false) : im.ledger.Idle id := by
  refine hc.idle_of_pointer (party_of_virtual hv) fun g r hg hr => ?_
  obtain ⟨rfl, h0⟩ := ref_eq_some.mp hg
  simp only [ledger, VirtualizationState.ledger, Option.map_eq_some_iff] at hr
  obtain ⟨a, haa, rfl⟩ := hr
  exact ha a haa h0

theorem coherent_assignBackingAct (h : Tracks im ∅ im) (hc : im.ledger.Coherent)
    (operation : String) (auth : Authority) {backing : BackingId} {replacing : Bool}
    (reason : Text) (clock : Clock) {plan : Owned × BackingRecord}
    (hcheck : assignBackingCheck auth backing replacing im = .ok plan) :
    (assignBackingAct operation auth backing replacing reason clock plan im).1.ledger.Coherent := by
  obtain ⟨ho, hb, hbind, -⟩ := assignBackingCheck_ok hcheck
  obtain ⟨n, hn, hledger⟩ := ledger_assignBackingAct h operation auth replacing reason clock ho hb
  have hfresh : im.ledger.grant n = none := by
    by_contra hne
    obtain ⟨r, hr⟩ := Option.ne_none_iff_exists'.mp hne
    exact absurd (lt_of_grant h.wellKeyed hr) (Nat.not_lt.mpr hn)
  have hslot : (im.ledger.slot backing).isSome := by rw [slot_of_backing hb]; rfl
  have hparty : (im.ledger.party plan.1.virtualId).isSome := by
    rw [party_of_virtual ho.virtual]; rfl
  rw [hledger]
  cases replacing with
  | false =>
    exact Coherent.bound hc hparty
      (idle_of_not_authoritative hc ho.virtual ((checkBindable_ok hbind).2.1 rfl)) hfresh hslot
  | true =>
    refine Coherent.bound ((hc.revoke _).mark _ _) hparty
      (idle_revoke_assignment hc ho.virtual) (Ledger.grant_revoke_eq_none.mpr hfresh) ?_
    rw [Ledger.isSome_slot_mark]
    exact hslot

/-! ### Migrations -/

theorem coherent_planMigrationAct (h : im.state.WellKeyed) (hc : im.ledger.Coherent)
    (auth : Authority) {destination : BackingId} {klass : MigrationClass} (clock : Clock)
    {plan : Owned × BackingRecord}
    (hcheck : planMigrationCheck auth destination klass im = .ok plan) :
    (planMigrationAct auth destination klass clock plan im).1.ledger.Coherent := by
  obtain ⟨ho, hb, ha, -⟩ := planMigrationCheck_ok hcheck
  rw [ledger_planMigrationAct h auth destination klass clock ho]
  refine hc.plan _ (party_of_virtual ho.virtual) (ref_of_ne ha) ?_
  rw [slot_of_backing hb]
  rfl

theorem coherent_prepareMigrationAct (h : Tracks im ∅ im) (hc : im.ledger.Coherent)
    (auth : Authority) (clock : Clock) {f : InFlight}
    (hcheck : prepareMigrationCheck auth im = .ok f) :
    (prepareMigrationAct auth clock f im).1.ledger.Coherent := by
  obtain ⟨hf, -⟩ := prepareMigrationCheck_ok hcheck
  have hid : f.record.id = f.virtualId := h.idOf_eq (k := .virtual) hf.owned.virtual
  obtain hl | ⟨n, hn, hl⟩ := ledger_prepareMigrationAct h auth clock hf
  · rw [hl]
    exact hc
  · rw [hl, ← hid, ← hf.virtual]
    refine hc.prepare (move_of_migration hf.migration) fun g r hr => ?_
    exact Nat.lt_of_lt_of_le (lt_of_grant h.wellKeyed hr) hn

/-- The move a commit carries out: prepared, and from the authoritative assignment. -/
theorem commitMigration_move (h : im.state.WellKeyed) {auth : Authority} {c : Cutover}
    (hcheck : commitMigrationCheck auth im = .ok c) :
    im.ledger.move c.migrationId = some c.migration.toMove ∧
      c.migration.toMove.target = some c.migration.destinationAssignment ∧
      ∃ a : BackingAssignment, im.ledger.grant c.migration.toMove.source = some a.toGrant ∧
        a.toGrant.authoritative = true := by
  obtain ⟨hc, -, ⟨a, ha, haa⟩, hd⟩ := commitMigrationCheck_ok hcheck
  exact ⟨move_of_migration hc.migration,
    ref_of_ne (Nat.ne_of_gt (h.issued .assignment _ _ hd).1), a, grant_of_assignment ha, haa⟩

theorem coherent_commitMigrationAct (h : Tracks im ∅ im) (hc : im.ledger.Coherent)
    (auth : Authority) (clock : Clock) {c : Cutover}
    (hcheck : commitMigrationCheck auth im = .ok c) :
    (commitMigrationAct auth clock c im).1.ledger.Coherent := by
  obtain ⟨hcur, -, -, hd⟩ := commitMigrationCheck_ok hcheck
  obtain ⟨hm, ht, a, ha, haa⟩ := commitMigration_move h.wellKeyed hcheck
  rw [ledger_commitMigrationAct h auth clock hcur hd]
  exact ((hc.cutover hm ht ha haa).mark _ _).mark _ _

/-! ### Loops -/

theorem coherent_materializeBacking (h : im.state.WellKeyed) (hc : im.ledger.Coherent)
    (key : PhysicalDeviceId) (device : PhysicalDeviceRecord) (now : UnixMicros)
    (source : BackingDescriptor) :
    (im.materializeBacking key device now source).ledger.Coherent := by
  obtain hl | ⟨id, b, -, -, -, hl⟩ := ledger_materializeBacking h key device now source
  · rw [hl]
    exact (hc.found _ _).mark _ _
  · rw [hl]
    exact hc.mark _ _

theorem coherent_invalidateBacking (hc : im.ledger.Coherent) (now : UnixMicros) (id : BackingId) :
    (im.invalidateBacking now id).ledger.Coherent := by
  obtain hl | ⟨b, -, hl⟩ := ledger_invalidateBacking im now id
  · rw [hl]
    exact hc
  · rw [hl]
    exact (hc.revoke _).mark _ _

theorem coherent_settleBackings (h : Tracks s T im) (hc : im.ledger.Coherent)
    {key : PhysicalDeviceId} (ht : (.physical, key) ∈ T) (changed : Bool)
    (d : PhysicalDeviceDescriptor) (now : UnixMicros) :
    (im.settleBackings key changed d now).ledger.Coherent := by
  have hm : Tracks s T (d.backings.foldl (materializeBacking key
        (im.state.physical[key]?.getD {}) now) im) ∧
      (d.backings.foldl (materializeBacking key
        (im.state.physical[key]?.getD {}) now) im).ledger.Coherent := by
    exact List.foldlRecOn d.backings _ (motive := fun im => Tracks s T im ∧ im.ledger.Coherent)
      ⟨h, hc⟩ fun im' ⟨h', hc'⟩ source _ => ⟨h'.materializeBacking ht _ now source,
        coherent_materializeBacking h'.wellKeyed hc' key _ now source⟩
  simp only [settleBackings]
  split
  · exact List.foldlRecOn _ _ (motive := fun im : Impl σ => im.ledger.Coherent) hm.2
      fun im' hc' id _ => coherent_invalidateBacking hc' now id
  · rw [ledger_foldl _ fun im id => ledger_refreshBacking _ now id]
    exact hm.2

theorem coherent_registerPhysicalAct (h : Tracks s T im) (hc : im.ledger.Coherent)
    (auth : Authority) (agent : AgentId) (boot : AgentBootId) (d : PhysicalDeviceDescriptor)
    (clock : Clock) : (registerPhysicalAct auth agent boot d clock () im).1.ledger.Coherent := by
  refine coherent_settleBackings (h.describeDevice agent boot d clock.now).1 ?_ (Set.mem_insert _ _)
    _ d clock.now
  rw [ledger_describeDevice]
  exact hc

theorem coherent_loseBacking (h : im.state.WellKeyed) (hc : im.ledger.Coherent) (reason : Text)
    (now : UnixMicros) (id : BackingId) : (im.loseBacking reason now id).ledger.Coherent := by
  obtain hl | ⟨b, v, -, -, hl⟩ := ledger_loseBacking h reason now id
  · rw [hl]
    exact hc
  · rw [hl]
    exact (hc.revoke _).mark _ _

theorem coherent_physicalLostAct (h : Tracks s T im) (hc : im.ledger.Coherent)
    (id : PhysicalDeviceId) (generation : Generation) (reason : Text) (clock : Clock)
    (device : PhysicalDeviceRecord) :
    (physicalLostAct id generation reason clock device im).1.ledger.Coherent := by
  simp only [physicalLostAct, ledger_touchHeader, ledger_recomputeDerivedAccounting,
    ledger_account]
  rw [ledger_foldl _ fun im id => ledger_recountTenant clock.now id]
  have hlost := h.edit .physical id (f := fun r => { r with present := false }) fun _ => rfl
  exact (List.foldlRecOn device.backings _
    (motive := fun im => Tracks s T im ∧ im.ledger.Coherent) ⟨hlost, hc⟩
    fun im' ⟨h', hc'⟩ id _ => ⟨h'.loseBacking reason clock.now id,
      coherent_loseBacking h'.wellKeyed hc' reason clock.now id⟩).2

theorem coherent_revalidateVirtual (h : im.state.WellKeyed) (hc : im.ledger.Coherent)
    (updated : VirtualizationPolicy) (now : UnixMicros) (id : VirtualAcceleratorId) :
    (im.revalidateVirtual updated now id).ledger.Coherent := by
  obtain hl | ⟨v, hv, -, hl⟩ := ledger_revalidateVirtual h updated now id
  · rw [hl]
    exact hc
  · rw [hl]
    exact coherent_withdraw hc hv _

theorem coherent_setPolicyAct (h : Tracks s T im) (hc : im.ledger.Coherent) (auth : Authority)
    (clock : Clock) (policy : VirtualizationPolicy) :
    (setPolicyAct auth clock policy im).1.ledger.Coherent := by
  simp only [setPolicyAct, ledger_touchHeader, ledger_recomputeDerivedAccounting]
  rw [ledger_foldl _ fun im id => ledger_clearAttachments clock.now id]
  refine (List.foldlRecOn _ _ (motive := fun im => Tracks s T im ∧ im.ledger.Coherent)
    ⟨?_, ?_⟩ fun im' ⟨h', hc'⟩ id _ => ⟨h'.revalidateVirtual _ clock.now id,
      coherent_revalidateVirtual h'.wellKeyed hc' _ clock.now id⟩).2
  · refine Tracks.foldl (fun im id h => h.supersedeLease _ clock.now id) _ ?_
    exact ((h.touchHeader.takeId).setPolicy _ _).account _
  · rw [ledger_foldl _ fun im id => ledger_supersedeLease _ clock.now id]
    exact hc

end Impl

end AcceleratorVirtualization
