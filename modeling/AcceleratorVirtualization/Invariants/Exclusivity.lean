import AcceleratorVirtualization.Invariants.Runs

/-!
# Exclusive backings

An exclusive backing is checked when it is assigned, and changed by steps that do not check it
again: a commit takes its destination as it was planned, a release vacates the backing the
virtual accelerator still names, and a device can be described as exclusive while it is shared.
The ledger stays exclusive as long as every step spares the backings that others hold.
-/

namespace AcceleratorVirtualization

open VirtualizationState Custody

/-! ### Sparing the backings of others -/

namespace VirtualizationState

/-- The assignments with authority over a backing. -/
def holders (s : VirtualizationState) (backing : BackingId) :
    List (BackingAssignmentId × BackingAssignment) :=
  s.assignments.toList.filter fun entry => entry.2.authoritative && entry.2.backing = backing

/-- Nobody but the virtual accelerator has authority over the backing, if it is exclusive. -/
def spares (s : VirtualizationState) (virtualId : VirtualAcceleratorId) (backing : BackingId) :
    Bool :=
  !s.backings[backing]?.any (·.exclusive) ||
    (s.holders backing).all fun entry => entry.2.virtualId = virtualId

/-- The backing records every assignment with authority over it. -/
def recordsHolders (s : VirtualizationState) (id : BackingId) (backing : BackingRecord) : Bool :=
  (s.holders id).all fun entry =>
    backing.assignedTo = entry.2.virtualId && backing.activeAssignment = entry.1

theorem mem_holders {s : VirtualizationState} {backing : BackingId}
    {id : BackingAssignmentId} {a : BackingAssignment} :
    (id, a) ∈ s.holders backing ↔
      s.assignments[id]? = some a ∧ a.authoritative = true ∧ a.backing = backing := by
  simp [holders, Std.ExtTreeMap.mem_toList_iff_getElem?_eq_some]

end VirtualizationState

namespace Impl

variable {σ : Type} {im : Impl σ}

/-- Whether a registration describes as exclusive only what records its holders. -/
def sparesDescribed (im : Impl σ) (d : PhysicalDeviceDescriptor) : Bool :=
  im.state.backings.toList.all fun entry =>
    entry.2.physical ≠ (im.locateDevice d).2.1 ||
    !(d.backings.any fun source => source.label = entry.2.label && source.exclusive) ||
    im.state.recordsHolders entry.1 entry.2

/-- Whether an operation, if it is accepted, spares the exclusive backings of others: the one it
vacates, the one it cuts over to, and the ones it describes. -/
def spares (im : Impl σ) : Op → Bool
  | .suspend auth _ =>
    match suspendCheck auth im with
    | .ok owned => im.state.spares owned.virtualId owned.record.backing
    | .error _ => true
  | .retireVirtual auth _ =>
    match notRetiredCheck auth "virtual accelerator is already retired" im with
    | .ok owned => im.state.spares owned.virtualId owned.record.backing
    | .error _ => true
  | .replaceBacking auth destination _ =>
    match assignBackingCheck auth destination true im with
    | .ok plan => im.state.spares plan.1.virtualId plan.1.record.backing
    | .error _ => true
  | .commitMigration auth =>
    match commitMigrationCheck auth im with
    | .ok c => im.state.spares c.virtualId c.migration.plan.destinationBacking
    | .error _ => true
  | .setPolicy auth policy =>
    match setPolicyCheck auth policy im with
    | .ok _ => im.state.virtuals.toList.all fun entry =>
        im.state.spares entry.1 entry.2.backing
    | .error _ => true
  | .registerPhysical auth agent boot d =>
    match registerPhysicalCheck auth agent boot d im with
    | .ok () => im.sparesDescribed d
    | .error _ => true
  | _ => true

/-- In the terms of the ledger. -/
theorem onlyBy_of_spares {virtualId backing : ℕ} (h : im.state.spares virtualId backing = true)
    {s : Slot ℕ ℕ} (hs : im.ledger.slot backing = some s) (he : s.exclusive = true) :
    im.ledger.OnlyBy backing virtualId := by
  obtain ⟨b, hb, rfl⟩ := Option.map_eq_some_iff.mp hs
  have hall : ∀ id a, (id, a) ∈ im.state.holders backing → a.virtualId = virtualId := by
    simp only [VirtualizationState.spares, hb, Option.any_some, Bool.or_eq_true,
      Bool.not_eq_true', List.all_eq_true, decide_eq_true_eq] at h
    rcases h with h | h
    · exact absurd (h.symm.trans he) (by decide)
    · exact fun id a hm => h (id, a) hm
  intro g r hr ha hx
  obtain ⟨a, hag, rfl⟩ := Option.map_eq_some_iff.mp hr
  exact hall g a (mem_holders.mpr ⟨hag, ha, hx⟩)

/-! ### Releasing -/

/-- A virtual accelerator that gives up its assignment vacates a backing nobody else holds. -/
theorem exclusive_vacate (hE : im.ledger.Exclusive) (hc : im.ledger.Coherent) {id x : ℕ}
    {v : VirtualAcceleratorRecord} (hv : im.state.virtuals[id]? = some v)
    (hs : ∀ s, im.ledger.slot x = some s → s.exclusive = true → im.ledger.OnlyBy x id) :
    ((im.ledger.revoke v.assignment).mark x vacate).Exclusive :=
  (hE.revoke _).release fun s hslot he =>
    ((hs s hslot he).revoke _).unheld (idle_revoke_assignment hc hv)

/-! ### Assigning -/

/-- A backing that an assignment check accepted is held by nobody, once the virtual accelerator
is idle. -/
theorem unheld_of_idle {L : Ledger ℕ ℕ ℕ ℕ} (hE : L.Exclusive) {virtualId backing : ℕ}
    {b : BackingRecord} (hb : L.slot backing = some b.toSlot)
    (hfree : b.exclusive = true → b.assignedTo = 0 ∨ b.assignedTo = virtualId)
    (hi : L.Idle virtualId) {s : Slot ℕ ℕ} (hs : L.slot backing = some s)
    (he : s.exclusive = true) : L.Unheld backing := by
  obtain rfl : b.toSlot = s := Option.some.inj (hb.symm.trans hs)
  refine hE.unheld hb he ?_ hi
  rcases hfree he with h0 | hv
  · exact .inl (by simp [BackingRecord.toSlot, h0, ref_zero])
  · by_cases hz : virtualId = 0
    · exact .inl (by simp [BackingRecord.toSlot, hv, hz, ref_zero])
    · exact .inr (by simp [BackingRecord.toSlot, hv, ref_of_ne hz])

theorem exclusive_assignBackingAct (h : Tracks im ∅ im) (hE : im.ledger.Exclusive)
    (hc : im.ledger.Coherent) (operation : String) (auth : Authority) {backing : BackingId}
    {replacing : Bool} (reason : Text) (clock : Clock) {plan : Owned × BackingRecord}
    (hcheck : assignBackingCheck auth backing replacing im = .ok plan)
    (hs : replacing = true → im.state.spares plan.1.virtualId plan.1.record.backing = true) :
    (assignBackingAct operation auth backing replacing reason clock plan
      im).1.ledger.Exclusive := by
  obtain ⟨ho, hb, hbind, hfree⟩ := assignBackingCheck_ok hcheck
  have hid : plan.1.record.id = plan.1.virtualId := h.idOf_eq (k := .virtual) ho.virtual
  rw [hid] at hfree
  obtain ⟨n, -, hledger⟩ := ledger_assignBackingAct h operation auth replacing reason clock ho hb
  rw [hledger]
  cases replacing with
  | false =>
    exact hE.bind fun _ hslot he => unheld_of_idle hE (slot_of_backing hb) hfree
      (idle_of_not_authoritative hc ho.virtual ((checkBindable_ok hbind).2.1 rfl)) hslot he
  | true =>
    refine (exclusive_vacate hE hc ho.virtual fun _ => onlyBy_of_spares (hs rfl)).bind
      fun s hslot he => ?_
    -- Vacating the previous backing leaves the grants and the exclusivity of this one alone.
    have hold : ∃ s', im.ledger.slot backing = some s' ∧ s'.exclusive = true := by
      simp only [Ledger.mark] at hslot
      by_cases hx : backing = plan.1.record.backing
      · rw [hx, Function.update_self] at hslot
        obtain ⟨s', hs', rfl⟩ := Option.map_eq_some_iff.mp hslot
        exact ⟨s', hx ▸ hs', he⟩
      · rw [Function.update_of_ne hx] at hslot
        exact ⟨s, hslot, he⟩
    obtain ⟨s', hs', he'⟩ := hold
    exact unheld_of_idle (L := im.ledger.revoke plan.1.record.assignment) (hE.revoke _)
      (slot_of_backing hb) hfree (idle_revoke_assignment hc ho.virtual) hs' he'

/-! ### Migrations -/

theorem exclusive_prepareMigrationAct (h : Tracks im ∅ im) (hE : im.ledger.Exclusive)
    (auth : Authority) (clock : Clock) {f : InFlight}
    (hcheck : prepareMigrationCheck auth im = .ok f) :
    (prepareMigrationAct auth clock f im).1.ledger.Exclusive := by
  obtain hl | ⟨n, -, hl⟩ :=
    ledger_prepareMigrationAct h auth clock (prepareMigrationCheck_ok hcheck).1
  · rw [hl]
    exact hE
  · rw [hl]
    exact hE.issue rfl

theorem exclusive_commitMigrationAct (h : Tracks im ∅ im) (hE : im.ledger.Exclusive)
    (hc : im.ledger.Coherent) (auth : Authority) (clock : Clock) {c : Cutover}
    (hcheck : commitMigrationCheck auth im = .ok c)
    (hs : im.state.spares c.virtualId c.migration.plan.destinationBacking = true) :
    (commitMigrationAct auth clock c im).1.ledger.Exclusive := by
  obtain ⟨hcur, hstate, -, hd⟩ := commitMigrationCheck_ok hcheck
  obtain ⟨hm, ht, a, ha, haa⟩ := commitMigration_move h.wellKeyed hcheck
  have hid : c.record.id = c.virtualId := h.idOf_eq (k := .virtual) hcur.owned.virtual
  have hparty : c.migration.toMove.party = c.virtualId := hcur.virtual.trans hid
  -- The planned source is the backing the authoritative assignment is over.
  have hsource : c.migration.plan.sourceBacking = a.toGrant.resource := by
    have hplan := (planStaleness_ok hcur.fresh).2.2.1 (by rw [hstate]; rfl)
    obtain ⟨r, hr, hrp⟩ := hc.source _ _ hm
    obtain rfl : r = a.toGrant := Option.some.inj (hr.symm.trans ha)
    have hp := hc.pointed _ _ ha haa
    rw [hrp, hparty, party_of_virtual hcur.owned.virtual] at hp
    have hres := congrArg Pointer.resource (Option.some.inj hp)
    exact hplan.trans (ref_eq_some.mp hres).1
  rw [ledger_commitMigrationAct h auth clock hcur hd, switched, hsource]
  refine hE.cutover hc hm ht ha haa (fun _ => rfl) fun s hslot he => ?_
  rw [hparty]
  exact onlyBy_of_spares hs hslot he

/-! ### Losing a device -/

variable {s : Impl σ} {T : Set (RecordKind × ℕ)}

theorem exclusive_loseBacking (h : im.state.WellKeyed) (hE : im.ledger.Exclusive)
    (hc : im.ledger.Coherent) (reason : Text) (now : UnixMicros) (id : BackingId) :
    (im.loseBacking reason now id).ledger.Exclusive := by
  obtain hl | ⟨b, v, hb, hv, hl⟩ := ledger_loseBacking h reason now id
  · rw [hl]
    exact hE
  · rw [hl]
    refine (hE.revoke _).release fun s' hslot he => ?_
    obtain rfl : b.toSlot = s' := Option.some.inj ((slot_of_backing hb).symm.trans hslot)
    refine (hE.revoke _).unheld (slot_of_backing hb : im.ledger.slot _ = _) he (.inr ?_)
      (idle_revoke_assignment hc hv)
    have h0 : b.assignedTo ≠ 0 := (h.issued .virtual b.assignedTo v hv).1.ne'
    exact ref_of_ne h0

theorem exclusive_physicalLostAct (h : Tracks s T im) (hE : im.ledger.Exclusive)
    (hc : im.ledger.Coherent) (id : PhysicalDeviceId) (generation : Generation) (reason : Text)
    (clock : Clock) (device : PhysicalDeviceRecord) :
    (physicalLostAct id generation reason clock device im).1.ledger.Exclusive := by
  simp only [physicalLostAct, ledger_touchHeader, ledger_recomputeDerivedAccounting,
    ledger_account]
  rw [ledger_foldl _ fun im id => ledger_recountTenant clock.now id]
  have hlost := h.edit .physical id (f := fun r => { r with present := false }) fun _ => rfl
  exact (List.foldlRecOn device.backings _
    (motive := fun im => Tracks s T im ∧ im.ledger.Coherent ∧ im.ledger.Exclusive)
    ⟨hlost, hc, hE⟩ fun im' h' id _ => ⟨h'.1.loseBacking reason clock.now id,
      coherent_loseBacking h'.1.wellKeyed h'.2.1 reason clock.now id,
      exclusive_loseBacking h'.1.wellKeyed h'.2.2 h'.2.1 reason clock.now id⟩).2.2

/-! ### Changing the policy -/

/-- Nobody else has authority over the exclusive resource a party names. -/
def Sparing (L : Ledger ℕ ℕ ℕ ℕ) : Prop :=
  ∀ p q x s, L.party p = some q → q.resource = some x → L.slot x = some s →
    s.exclusive = true → L.OnlyBy x p

/-- Withdrawing a binding takes authority away and names no other resource. -/
theorem Sparing.withdraw {L : Ledger ℕ ℕ ℕ ℕ} (h : Sparing L) (g x p : ℕ) :
    Sparing (((L.revoke g).mark x vacate).point p withdrawn) := by
  intro p' q' y s' hp hq hy he
  have hparty : ∃ q, L.party p' = some q ∧ q.resource = some y := by
    simp only [Ledger.point, Ledger.mark, Ledger.revoke] at hp
    by_cases hpp : p' = p
    · subst hpp
      rw [Function.update_self] at hp
      obtain ⟨q, hq', rfl⟩ := Option.map_eq_some_iff.mp hp
      exact ⟨q, hq', hq⟩
    · rw [Function.update_of_ne hpp] at hp
      exact ⟨q', hp, hq⟩
  have hslot : ∃ s, L.slot y = some s ∧ s.exclusive = true := by
    simp only [Ledger.point, Ledger.mark, Ledger.revoke] at hy
    by_cases hyx : y = x
    · subst hyx
      rw [Function.update_self] at hy
      obtain ⟨s, hs, rfl⟩ := Option.map_eq_some_iff.mp hy
      exact ⟨s, hs, he⟩
    · rw [Function.update_of_ne hyx] at hy
      exact ⟨s', hy, he⟩
  obtain ⟨q, hq', hres⟩ := hparty
  obtain ⟨s, hs, hes⟩ := hslot
  exact (h p' q y s hq' hres hs hes).revoke g

theorem exclusive_revalidateVirtual (h : im.state.WellKeyed) (hE : im.ledger.Exclusive)
    (hc : im.ledger.Coherent) (hs : Sparing im.ledger) (updated : VirtualizationPolicy)
    (now : UnixMicros) (id : VirtualAcceleratorId) :
    (im.revalidateVirtual updated now id).ledger.Exclusive ∧
      Sparing (im.revalidateVirtual updated now id).ledger := by
  obtain hl | ⟨v, hv, -, hl⟩ := ledger_revalidateVirtual h updated now id
  · rw [hl]
    exact ⟨hE, hs⟩
  · rw [hl]
    refine ⟨exclusive_vacate hE hc hv fun s' hslot he => ?_, hs.withdraw _ _ _⟩
    have h0 : v.backing ≠ 0 := by
      intro h0
      obtain ⟨b, hb, -⟩ := Option.map_eq_some_iff.mp hslot
      rw [h0] at hb
      exact absurd (hb.symm.trans (h.zero .backing)) (by simp)
    exact hs id v.toPointer v.backing s' (party_of_virtual hv) (ref_of_ne h0) hslot he

theorem exclusive_setPolicyAct (h : Tracks s T im) (hE : im.ledger.Exclusive)
    (hc : im.ledger.Coherent) (hs : Sparing im.ledger) (auth : Authority) (clock : Clock)
    (policy : VirtualizationPolicy) :
    (setPolicyAct auth clock policy im).1.ledger.Exclusive := by
  simp only [setPolicyAct, ledger_touchHeader, ledger_recomputeDerivedAccounting]
  rw [ledger_foldl _ fun im id => ledger_clearAttachments clock.now id]
  refine (List.foldlRecOn _ _ (motive := fun im => Tracks s T im ∧ im.ledger.Coherent ∧
      im.ledger.Exclusive ∧ Sparing im.ledger) ⟨?_, ?_⟩
    fun im' h' id _ => ⟨h'.1.revalidateVirtual _ clock.now id,
      coherent_revalidateVirtual h'.1.wellKeyed h'.2.1 _ clock.now id,
      exclusive_revalidateVirtual h'.1.wellKeyed h'.2.2.1 h'.2.1 h'.2.2.2 _ clock.now id⟩).2.2.1
  · refine Tracks.foldl (fun im id h => h.supersedeLease _ clock.now id) _ ?_
    exact ((h.touchHeader.takeId).setPolicy _ _).account _
  · rw [ledger_foldl _ fun im id => ledger_supersedeLease _ clock.now id]
    exact ⟨hc, hE, hs⟩

/-! ### Registering a device -/

/-- The backings after a described one is entered keep their device and their label. -/
theorem known_materializeBacking {key : PhysicalDeviceId} {device : PhysicalDeviceRecord}
    {now : UnixMicros} {source : BackingDescriptor} {id : ℕ} {b' : BackingRecord}
    (h : (im.materializeBacking key device now source).state.backings[id]? = some b') :
    id = im.nextId ∨ ∃ b, im.state.backings[id]? = some b ∧ b.physical = b'.physical ∧
      b.label = b'.label := by
  revert h
  unfold materializeBacking
  split
  · intro h
    by_cases hid : id = im.nextId
    · exact .inl hid
    · right
      have hb : im.state.backings[id]? = some b' := by
        simpa [Impl.modify, Impl.emplace, touchBacking, Impl.touch, takeId, touchHeader,
          VirtualizationState.modify, setEntities, entities, Std.ExtTreeMap.getElem?_modify,
          Std.ExtTreeMap.getElem?_insertIfNew, Ne.symm hid] using h
      exact ⟨b', hb, rfl, rfl⟩
  · rename_i id' b hf
    intro h
    right
    simp only [Impl.modify, touchBacking, Impl.touch, VirtualizationState.modify, setEntities,
      entities, Std.ExtTreeMap.getElem?_modify] at h
    split at h
    · rename_i heq
      obtain rfl : id' = id := by simpa using heq
      obtain ⟨b0, hb0, rfl⟩ := Option.map_eq_some_iff.mp h
      exact ⟨b0, hb0, rfl, rfl⟩
    · exact ⟨b', h, rfl, rfl⟩

/-- The backings of a runtime are those of an earlier one, with at least the records they had,
or nobody holds them. -/
def Inherits (base im : Impl σ) : Prop :=
  ∀ (id : ℕ) (b : BackingRecord), im.state.backings[id]? = some b → im.ledger.Unheld id ∨
    ∃ b0, base.state.backings[id]? = some b0 ∧ b0.physical = b.physical ∧ b0.label = b.label ∧
      (base.ledger.Recorded id → im.ledger.Recorded id)

/-- A fresh identity names a backing nobody holds. -/
theorem unheld_nextId (h : im.state.WellKeyed) (hc : im.ledger.Coherent) :
    im.ledger.Unheld im.nextId := by
  intro g r hr _ hx
  have hp := hc.placed g r hr
  have hn : im.state.backings[im.nextId]? = none := h.fresh .backing (Nat.le_refl _)
  simp [hx, ledger, VirtualizationState.ledger, hn] at hp

theorem exclusive_materializeBacking {base : Impl σ} (h : im.state.WellKeyed)
    (hE : im.ledger.Exclusive) (hc : im.ledger.Coherent) (hi : Inherits base im)
    (key : PhysicalDeviceId) (device : PhysicalDeviceRecord) (now : UnixMicros)
    (source : BackingDescriptor)
    (hrec : ∀ id b, base.state.backings[id]? = some b → b.physical = device.id →
      b.label = source.label → source.exclusive = true → base.ledger.Recorded id) :
    (im.materializeBacking key device now source).ledger.Exclusive ∧
      Inherits base (im.materializeBacking key device now source) := by
  have hu := unheld_nextId h hc
  obtain hl | ⟨x, b, hb, hdev, hlabel, hl⟩ := ledger_materializeBacking h key device now source
  · refine ⟨?_, fun id b' hb' => ?_⟩
    · rw [hl]
      exact (hE.found hu).release fun _ _ _ => hu
    · rw [hl]
      by_cases hid : id = im.nextId
      · rw [hid]
        exact .inl hu
      · obtain hn | ⟨b1, hb1, hp1, hl1⟩ := known_materializeBacking hb'
        · exact absurd hn hid
        · obtain hun | ⟨b0, hb0, hp0, hl0, hr0⟩ := hi id b1 hb1
          · exact .inl hun
          · exact .inr ⟨b0, hb0, hp0.trans hp1, hl0.trans hl1, fun hr =>
              ((hr0 hr).found hid).mark fun _ => ⟨rfl, rfl⟩⟩
  · refine ⟨?_, fun id b' hb' => ?_⟩
    · rw [hl]
      refine hE.mark fun s' hs' he g r hr ha hx => ?_
      have hrecorded : im.ledger.Recorded x := by
        obtain hun | ⟨b0, hb0, hp0, hl0, hr0⟩ := hi x b hb
        · exact hun.recorded
        · exact hr0 (hrec x b0 hb0 (hp0.trans hdev) (hl0.trans hlabel) he)
      exact hrecorded s' hs' g r hr ha hx
    · rw [hl]
      obtain hn | ⟨b1, hb1, hp1, hl1⟩ := known_materializeBacking hb'
      · rw [hn]
        exact .inl hu
      · obtain hun | ⟨b0, hb0, hp0, hl0, hr0⟩ := hi id b1 hb1
        · exact .inl hun
        · exact .inr ⟨b0, hb0, hp0.trans hp1, hl0.trans hl1, fun hr =>
            (hr0 hr).mark fun _ => ⟨rfl, rfl⟩⟩

theorem exclusive_invalidateBacking (hE : im.ledger.Exclusive) (now : UnixMicros)
    (id : BackingId) : (im.invalidateBacking now id).ledger.Exclusive := by
  obtain hl | ⟨b, hb, hl⟩ := ledger_invalidateBacking im now id
  · rw [hl]
    exact hE
  · rw [hl]
    refine (hE.revoke _).release fun s' hslot he => ?_
    obtain rfl : b.toSlot = s' := Option.some.inj ((slot_of_backing hb).symm.trans hslot)
    exact hE.unheld_revoke (slot_of_backing hb) he fun g hg => (ref_eq_some.mp hg).1.symm

theorem exclusive_settleBackings (h : Tracks s T im) (hE : im.ledger.Exclusive)
    (hc : im.ledger.Coherent) {key : PhysicalDeviceId} (ht : (.physical, key) ∈ T)
    (hkey : (im.state.find .physical key).isSome) (changed : Bool) (d : PhysicalDeviceDescriptor)
    (now : UnixMicros)
    (hrec : ∀ source ∈ d.backings, ∀ (id : ℕ) (b : BackingRecord),
      im.state.backings[id]? = some b → b.physical = key → b.label = source.label →
      source.exclusive = true → im.ledger.Recorded id) :
    (im.settleBackings key changed d now).ledger.Exclusive := by
  obtain ⟨device, hdevice⟩ := Option.isSome_iff_exists.mp hkey
  have hid : (im.state.physical[key]?.getD {}).id = key := by
    rw [show im.state.physical[key]? = some device from hdevice]
    exact h.idOf_eq (k := .physical) hdevice
  have hself : Inherits im im := fun id b hb => .inr ⟨b, hb, rfl, rfl, fun hr => hr⟩
  have hm : Tracks s T (d.backings.foldl (materializeBacking key
        (im.state.physical[key]?.getD {}) now) im) ∧
      (d.backings.foldl (materializeBacking key
        (im.state.physical[key]?.getD {}) now) im).ledger.Coherent ∧
      (d.backings.foldl (materializeBacking key
        (im.state.physical[key]?.getD {}) now) im).ledger.Exclusive ∧
      Inherits im (d.backings.foldl (materializeBacking key
        (im.state.physical[key]?.getD {}) now) im) :=
    List.foldlRecOn d.backings _ (motive := fun im' => Tracks s T im' ∧ im'.ledger.Coherent ∧
        im'.ledger.Exclusive ∧ Inherits im im') ⟨h, hc, hE, hself⟩
      fun im' ⟨h', hc', hE', hi'⟩ source hsource => ⟨h'.materializeBacking ht _ now source,
        coherent_materializeBacking h'.wellKeyed hc' key _ now source,
        exclusive_materializeBacking h'.wellKeyed hE' hc' hi' key _ now source
          fun id b hb hp => hrec source hsource id b hb (hp.trans hid)⟩
  simp only [settleBackings]
  split
  · exact List.foldlRecOn _ _ (motive := fun im : Impl σ => im.ledger.Exclusive) hm.2.2.1
      fun im' hE' id _ => exclusive_invalidateBacking hE' now id
  · rw [ledger_foldl _ fun im id => ledger_refreshBacking _ now id]
    exact hm.2.2.1

theorem backings_describeDevice (agent : AgentId) (boot : AgentBootId)
    (d : PhysicalDeviceDescriptor) (now : UnixMicros) :
    (im.describeDevice agent boot d now).1.state.backings = im.state.backings := by
  have hl : (im.locateDevice d).1.state.backings = im.state.backings := by
    unfold locateDevice
    split
    · rfl
    · simp only
      split <;> rfl
  exact hl

/-- What the condition on a registration says about the ledger. -/
theorem recorded_of_sparesDescribed (h : im.state.WellKeyed) (hc : im.ledger.Coherent)
    {d : PhysicalDeviceDescriptor} (hs : im.sparesDescribed d = true) {source : BackingDescriptor}
    (hsource : source ∈ d.backings)
    {id : ℕ} {b : BackingRecord} (hb : im.state.backings[id]? = some b)
    (hdevice : b.physical = (im.locateDevice d).2.1) (hlabel : b.label = source.label)
    (he : source.exclusive = true) : im.ledger.Recorded id := by
  have hrecords : im.state.recordsHolders id b = true := by
    have hall := List.all_eq_true.mp hs (id, b)
      (Std.ExtTreeMap.mem_toList_iff_getElem?_eq_some.mpr hb)
    have hany : (d.backings.any fun source => source.label = b.label && source.exclusive) = true :=
      List.any_eq_true.mpr ⟨source, hsource, by simp [hlabel, he]⟩
    simpa [hdevice, hany] using hall
  intro s' hs' g r hr ha hx
  obtain rfl : b.toSlot = s' := Option.some.inj ((slot_of_backing hb).symm.trans hs')
  obtain ⟨a, hag, rfl⟩ := Option.map_eq_some_iff.mp hr
  have hentry := List.all_eq_true.mp hrecords (g, a) (mem_holders.mpr ⟨hag, ha, hx⟩)
  simp only [Bool.and_eq_true, decide_eq_true_eq] at hentry
  obtain ⟨v, hv, -⟩ := Option.map_eq_some_iff.mp (hc.pointed g _ hr ha)
  have hv0 : a.virtualId ≠ 0 := (h.issued .virtual _ v hv).1.ne'
  have hg0 : g ≠ 0 := (h.issued .assignment g a hag).1.ne'
  refine ⟨?_, ?_⟩
  · change ref b.assignedTo = some a.virtualId
    rw [hentry.1, ref_of_ne hv0]
  · change ref b.activeAssignment = some g
    rw [hentry.2, ref_of_ne hg0]

theorem exclusive_registerPhysicalAct (h : Tracks s T im) (hE : im.ledger.Exclusive)
    (hc : im.ledger.Coherent) (auth : Authority) (agent : AgentId) (boot : AgentBootId)
    {d : PhysicalDeviceDescriptor} (clock : Clock) (hs : im.sparesDescribed d = true) :
    (registerPhysicalAct auth agent boot d clock () im).1.ledger.Exclusive := by
  obtain ⟨hd, hkey⟩ := h.describeDevice agent boot d clock.now
  have hl : (im.describeDevice agent boot d clock.now).1.ledger = im.ledger :=
    ledger_describeDevice agent boot d clock.now
  refine exclusive_settleBackings hd (hl ▸ hE) (hl ▸ hc) (Set.mem_insert _ _) hkey _ d clock.now ?_
  intro source hsource id b hb hdevice hlabel he
  rw [backings_describeDevice] at hb
  rw [hl]
  exact recorded_of_sparesDescribed h.wellKeyed hc hs hsource hb hdevice hlabel he

/-! ### All operations -/

theorem sparing_of_spares (h : im.state.virtuals.toList.all (fun entry =>
    im.state.spares entry.1 entry.2.backing) = true) : Sparing im.ledger := by
  intro p q x s' hp hq hslot he
  obtain ⟨v, hv, rfl⟩ := Option.map_eq_some_iff.mp hp
  have hs := List.all_eq_true.mp h (p, v) (Std.ExtTreeMap.mem_toList_iff_getElem?_eq_some.mpr hv)
  obtain ⟨rfl, -⟩ := ref_eq_some.mp hq
  exact onlyBy_of_spares hs hslot he

theorem exclusive_checked {π α : Type} {context : Impl σ → OpContext} {kind : AuditKind}
    {check : Impl σ → Except Status π} {act : π → Body σ α} (h : im.ledger.Exclusive)
    (hact : ∀ plan, check im = .ok plan → (act plan im).1.ledger.Exclusive) :
    (checked (fun im => orRefuse (context im) kind (check im)) act im).1.ledger.Exclusive :=
  fst_checked (p := fun im => im.ledger.Exclusive) h hact

/-- Every body that spares the backings of others keeps the ledger exclusive. -/
theorem exclusive_body {clock : Clock} {op : Op} {b : Body σ Unit} (hb : body clock op = some b)
    (hw : im.state.WellKeyed) (hc : im.ledger.Coherent) (hE : im.ledger.Exclusive)
    (hs : im.beginOp.spares op = true) : (b im.beginOp).1.ledger.Exclusive := by
  -- most operations leave the ledger as it is
  by_cases hn : neutral op = true
  · rw [ledger_body hb hn]
    exact hE
  have h : Tracks im.beginOp ∅ im.beginOp := .beginOp (show im.beginOp.state.WellKeyed from hw)
  have hc0 : im.beginOp.ledger.Coherent := hc
  have hE0 : im.beginOp.ledger.Exclusive := hE
  cases op <;> simp only [neutral, not_true_eq_false] at hn <;>
    simp only [body, Option.some.injEq] at hb <;> subst hb
  case registerPhysical =>
    refine exclusive_checked hE0 fun _ ho => exclusive_registerPhysicalAct h hE0 hc0 _ _ _ clock ?_
    simpa only [spares, ho] using hs
  case physicalLost =>
    exact exclusive_checked hE0 fun _ _ => exclusive_physicalLostAct h hE0 hc0 _ _ _ clock _
  case setPolicy =>
    refine exclusive_checked hE0 fun _ ho => exclusive_setPolicyAct h hE0 hc0
      (sparing_of_spares ?_) _ clock _
    simpa only [spares, ho] using hs
  case createVirtual =>
    refine exclusive_checked hE0 fun _ _ => ?_
    rw [ledger_createVirtualAct]
    exact hE0
  case suspend =>
    refine exclusive_checked hE0 fun _ ho => ?_
    rw [ledger_suspendAct h.wellKeyed]
    refine exclusive_vacate hE0 hc0 (suspendCheck_ok ho).1.virtual fun _ => onlyBy_of_spares ?_
    simpa only [spares, ho] using hs
  case retireVirtual =>
    refine exclusive_checked hE0 fun _ ho => ?_
    rw [ledger_retireVirtualAct h.wellKeyed]
    refine exclusive_vacate hE0 hc0 (notRetiredCheck_ok ho).1.virtual fun _ => onlyBy_of_spares ?_
    simpa only [spares, ho] using hs
  case assignBacking =>
    exact exclusive_checked hE0 fun _ ho => exclusive_assignBackingAct h hE0 hc0 _ _ _ clock ho
      fun hr => Bool.noConfusion hr
  case replaceBacking =>
    refine exclusive_checked hE0 fun _ ho => exclusive_assignBackingAct h hE0 hc0 _ _ _ clock ho
      fun _ => ?_
    simpa only [spares, ho] using hs
  case planMigration =>
    refine exclusive_checked hE0 fun _ ho => ?_
    rw [ledger_planMigrationAct h.wellKeyed _ _ _ clock (planMigrationCheck_ok ho).1]
    exact hE0
  case prepareMigration =>
    exact exclusive_checked hE0 fun _ hf => exclusive_prepareMigrationAct h hE0 _ clock hf
  case commitMigration =>
    refine exclusive_checked hE0 fun _ ho => exclusive_commitMigrationAct h hE0 hc0 _ clock ho ?_
    simpa only [spares, ho] using hs
  case abortMigration =>
    refine exclusive_checked hE0 fun _ _ => ?_
    rw [ledger_abortMigrationAct]
    exact hE0.revoke _

/-! ### Runs -/

/-- Whether an event spares the exclusive backings of others, or is not written. -/
def sparing (im : Impl Disk) : Event → Bool
  | .op op _ answer => !(im.answering answer).writable || im.spares (im.resolve op)
  | _ => true

/-- What an operation spares does not depend on what the store answers. -/
theorem spares_answering (im : Impl Disk) (answer : Check) (op : Op) :
    (im.answering answer).beginOp.spares ((im.answering answer).resolve op) =
      im.spares (im.resolve op) := by
  have hkey : ∀ d, ((im.answering answer).beginOp.locateDevice d).2.1 =
    (im.locateDevice d).2.1 := by
    intro d
    have hf :
      (im.answering answer).beginOp.findDevice d.stableKey = im.findDevice d.stableKey := rfl
    unfold locateDevice
    rw [hf]
    cases im.findDevice d.stableKey <;> rfl
  have hs : ∀ op, (im.answering answer).beginOp.spares op = im.spares op := by
    intro op
    cases op <;> try rfl
    simp only [spares, sparesDescribed, hkey]
    rfl
  have hr : (im.answering answer).resolve op = im.resolve op := by cases op <;> rfl
  rw [hs, hr]

theorem held_empty : ({} : VirtualizationState).ledger.Coherent ∧
    ({} : VirtualizationState).ledger.Exclusive := by
  refine ⟨coherent_empty, fun x s' hx => ?_⟩
  simp [VirtualizationState.ledger] at hx

theorem held_run {events : List Event} {im im' : Impl Disk}
    (h : Kept False (onLedger fun L => L.Coherent ∧ L.Exclusive) im)
    (hr : im.run events = some im') (hs : im.throughout sparing events = true) :
    Kept False (onLedger fun L => L.Coherent ∧ L.Exclusive) im' := by
  refine h.run (invariant_onLedger held_empty) (fun im event h hc => ?_) hr hs
  refine keeps_onLedger fun op clock answer hop b hb hwritable => ?_
  have ha := (h.answering answer).state
  subst hop
  refine ⟨coherent_body hb ha.wellKeyed ha.holds.1,
    exclusive_body hb ha.wellKeyed ha.holds.1 ha.holds.2 ?_⟩
  rw [spares_answering]
  exact of_writable hc hwritable

end Impl

/-- An exclusive backing has at most one authoritative assignment, and it records its virtual
accelerator and its identity. -/
structure VirtualizationState.ExclusivelyHeld (s : VirtualizationState) : Prop where
  unique : ∀ (x : BackingId) (b : BackingRecord), s.backings[x]? = some b → b.exclusive = true →
    ∀ (id id' : BackingAssignmentId) (a a' : BackingAssignment),
      s.assignments[id]? = some a → s.assignments[id']? = some a' → a.authoritative = true →
      a'.authoritative = true → a.backing = x → a'.backing = x → id = id'
  recorded : ∀ (x : BackingId) (b : BackingRecord), s.backings[x]? = some b →
    b.exclusive = true → ∀ (id : BackingAssignmentId) (a : BackingAssignment),
      s.assignments[id]? = some a → a.authoritative = true → a.backing = x →
      b.assignedTo = a.virtualId ∧ b.activeAssignment = a.id

theorem VirtualizationState.Sound.exclusivelyHeld {s : VirtualizationState}
    (h : s.Sound (onLedger fun L => L.Coherent ∧ L.Exclusive)) : s.ExclusivelyHeld := by
  have hrec : ∀ (x : ℕ) (b : BackingRecord), s.backings[x]? = some b → b.exclusive = true →
      ∀ (id : ℕ) (a : BackingAssignment), s.assignments[id]? = some a → a.authoritative = true →
        a.backing = x → b.assignedTo = a.virtualId ∧ b.activeAssignment = id := by
    intro x b hb he id a ha hauth hx
    have hslot : s.ledger.slot x = some b.toSlot := by simp [VirtualizationState.ledger, hb]
    have hgrant : s.ledger.grant id = some a.toGrant := by simp [VirtualizationState.ledger, ha]
    obtain ⟨hholder, hactive⟩ := h.holds.2 x _ hslot he id _ hgrant hauth hx
    exact ⟨(ref_eq_some.mp hholder).1, (ref_eq_some.mp hactive).1⟩
  constructor
  · intro x b hb he id id' a a' ha ha' hauth hauth' hx hx'
    exact (hrec x b hb he id a ha hauth hx).2.symm.trans (hrec x b hb he id' a' ha' hauth' hx').2
  · intro x b hb he id a ha hauth hx
    have hid : a.id = id := h.wellKeyed.keyed .assignment id a ha
    rw [hid]
    exact hrec x b hb he id a ha hauth hx

/-- In every state of a run whose steps spare the backings of others, exclusive backings are
held by at most one virtual accelerator. -/
theorem exclusivelyHeld_of_sparing_run {options : RuntimeOptions} {stored : Bool}
    {events : List Event} {im : Impl Disk} (h : (Impl.initial options stored).run events = some im)
    (hs : (Impl.initial options stored).throughout Impl.sparing events = true) :
    im.state.ExclusivelyHeld := by
  exact (Impl.held_run (Impl.kept_initial (Impl.invariant_onLedger Impl.held_empty) options stored)
    h hs).state.exclusivelyHeld

/-- The migration to a free destination spares the backings of others. -/
theorem exclusivelyHeld_moved : ∃ im, (Impl.initial {} true).run Sample.moved = some im ∧
    im.state.ExclusivelyHeld ∧ im.state.holders 8 ≠ [] := by
  have hrun : (((Impl.initial {} true).run Sample.moved).any fun im =>
      !(im.state.holders 8).isEmpty) = true := by decide +kernel
  have hs : (Impl.initial {} true).throughout Impl.sparing Sample.moved = true := by
    decide +kernel
  obtain ⟨im, him, hheld⟩ := (Option.any_eq_true _ _).mp hrun
  exact ⟨im, him, exclusivelyHeld_of_sparing_run him hs, by simpa using hheld⟩

/-- The destination of the planned migration is assigned to the other virtual accelerator
before the migration is carried out. -/
def Sample.contended : List Event :=
  Sample.planned ++ [Sample.call (.assignBacking (Sample.owner 19 1) 8 []),
    Sample.call (.prepareMigration (Sample.mover 14 2 28 1)),
    Sample.call (.commitMigration (Sample.mover 14 3 28 2))]

/-- Then both virtual accelerators have authority over the exclusive destination. -/
theorem not_exclusivelyHeld_contended : ∃ im,
    (Impl.initial {} true).run Sample.contended = some im ∧ ¬ im.state.ExclusivelyHeld := by
  have hrun : (((Impl.initial {} true).run Sample.contended).any fun im =>
      im.state.backings[8]?.any (·.exclusive) &&
      im.state.assignments[31]?.any (fun a => a.authoritative && a.backing = 8) &&
      im.state.assignments[35]?.any (fun a => a.authoritative && a.backing = 8)) = true := by
    decide +kernel
  obtain ⟨im, him, hheld⟩ := (Option.any_eq_true _ _).mp hrun
  simp only [Bool.and_eq_true, Option.any_eq_true, decide_eq_true_eq] at hheld
  obtain ⟨⟨⟨b, hb, he⟩, a, ha, hauth, hx⟩, a', ha', hauth', hx'⟩ := hheld
  refine ⟨im, him, fun h => ?_⟩
  exact absurd (h.unique 8 b hb he 31 35 a a' ha ha' hauth hauth' hx hx') (by decide)

end AcceleratorVirtualization
