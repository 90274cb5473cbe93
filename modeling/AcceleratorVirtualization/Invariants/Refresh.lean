import AcceleratorVirtualization.Invariants.Inventory

/-!
# Refreshing a device

A refresh checks the device it names, and describes the one that has the stable key of the
descriptor. If that is the same device, then all that it changes hangs on the device: its backings,
the assignments that they record, and the holders of these. A backing records assignments of itself
only, so nothing of this belongs to another device.
-/

namespace AcceleratorVirtualization

open VirtualizationState Custody Refusal

namespace Impl

variable {σ : Type} {im : Impl σ}

/-! ### What backings record -/

section Noted

variable {L : Ledger ℕ ℕ ℕ ℕ}

theorem noted_vacate (h : L.Noted) (g x : ℕ) : ((L.revoke g).mark x vacate).Noted :=
  (h.revoke g).mark fun _ _ _ ha => absurd ha nofun

theorem noted_bound (h : L.Noted) {virtual backing assignment : ℕ}
    (hg : L.grant assignment = none) : (bound L virtual backing assignment).Noted := by
  have hissued : ((L.issue assignment ⟨virtual, backing, true⟩).point virtual fun _ =>
      ⟨some assignment, some backing⟩).Noted := h.issue hg
  refine hissued.mark fun s g _ ha => .inr ?_
  obtain rfl := Option.some.inj ha
  exact ⟨⟨virtual, backing, true⟩, Function.update_self _ _ _, rfl⟩

/-- The destination of a move records the grant that was prepared for it. -/
theorem noted_switched (h : L.Noted) (hc : L.Coherent) {m : ℕ} {v : Move ℕ ℕ ℕ} {target : ℕ}
    (hm : L.move m = some v) (ht : v.target = some target) (source : ℕ) :
    (switched L v target source).Noted := by
  obtain ⟨hlt, r, hr, -, hresource⟩ := hc.target m v target hm ht
  obtain ⟨r', hr', -, hsame⟩ := Ledger.exists_grant_cutover hlt.ne hr
  have hvacated : ((L.cutover v target).mark source vacate).Noted :=
    (h.cutover hlt.ne).mark fun _ _ _ ha => absurd ha nofun
  refine hvacated.mark fun s g _ ha => .inr ?_
  obtain rfl := Option.some.inj ha
  exact ⟨r', hr', hsame.trans hresource⟩

end Noted

variable {s : Impl σ} {T : Set (RecordKind × ℕ)}

theorem noted_settleBackings (h : Tracks s T im) (hn : im.ledger.Noted) {key : PhysicalDeviceId}
    (ht : (.physical, key) ∈ T) (changed : Bool) (d : PhysicalDeviceDescriptor) (now : UnixMicros) :
    (im.settleBackings key changed d now).ledger.Noted := by
  have hm : (d.backings.foldl (materializeBacking key
      (im.state.physical[key]?.getD {}) now) im).ledger.Noted := by
    refine (List.foldlRecOn d.backings _ (motive := fun im => Tracks s T im ∧ im.ledger.Noted)
      ⟨h, hn⟩ fun im' ⟨h', hn'⟩ source _ => ⟨h'.materializeBacking ht _ now source, ?_⟩).2
    obtain hl | ⟨id, b, -, -, -, hl⟩ := ledger_materializeBacking h'.wellKeyed key
      (im.state.physical[key]?.getD {}) now source
    · rw [hl]
      exact (hn'.found _ _).mark fun _ _ _ ha => .inl ha
    · rw [hl]
      exact hn'.mark fun _ _ _ ha => .inl ha
  simp only [settleBackings]
  split
  · refine List.foldlRecOn _ _ (motive := fun im : Impl σ => im.ledger.Noted) hm
      fun im' hn' id _ => ?_
    obtain hl | ⟨b, -, hl⟩ := ledger_invalidateBacking im' now id
    · rwa [hl]
    · rw [hl]
      exact noted_vacate hn' _ _
  · rw [ledger_foldl _ fun im id => ledger_refreshBacking _ now id]
    exact hm

theorem noted_physicalLostAct (h : Tracks s T im) (hn : im.ledger.Noted) (id : PhysicalDeviceId)
    (generation : Generation) (reason : Text) (clock : Clock) (device : PhysicalDeviceRecord) :
    (physicalLostAct id generation reason clock device im).1.ledger.Noted := by
  simp only [physicalLostAct, ledger_touchHeader, ledger_recomputeDerivedAccounting,
    ledger_account]
  rw [ledger_foldl _ fun im id => ledger_recountTenant clock.now id]
  have hlost := h.edit .physical id (f := fun r => { r with present := false }) fun _ => rfl
  refine (List.foldlRecOn device.backings _ (motive := fun im => Tracks s T im ∧ im.ledger.Noted)
    ⟨hlost, hn⟩ fun im' h' id _ => ⟨h'.1.loseBacking reason clock.now id, ?_⟩).2
  obtain hl | ⟨b, v, -, -, hl⟩ := ledger_loseBacking h'.1.wellKeyed reason clock.now id
  · rw [hl]
    exact h'.2
  · rw [hl]
    exact noted_vacate h'.2 _ _

theorem noted_revalidateVirtual (h : im.state.WellKeyed) (hn : im.ledger.Noted)
    (updated : VirtualizationPolicy) (now : UnixMicros) (id : VirtualAcceleratorId) :
    (im.revalidateVirtual updated now id).ledger.Noted := by
  obtain hl | ⟨v, -, -, hl⟩ := ledger_revalidateVirtual h updated now id
  · rwa [hl]
  · rw [hl]
    exact noted_vacate hn _ _

theorem noted_setPolicyAct (h : Tracks s T im) (hn : im.ledger.Noted) (auth : Authority)
    (clock : Clock) (policy : VirtualizationPolicy) :
    (setPolicyAct auth clock policy im).1.ledger.Noted := by
  simp only [setPolicyAct, ledger_touchHeader, ledger_recomputeDerivedAccounting]
  rw [ledger_foldl _ fun im id => ledger_clearAttachments clock.now id]
  refine (List.foldlRecOn _ _ (motive := fun im => Tracks s T im ∧ im.ledger.Noted)
    ⟨?_, ?_⟩ fun im' h' id _ => ⟨h'.1.revalidateVirtual _ clock.now id,
      noted_revalidateVirtual h'.1.wellKeyed h'.2 _ clock.now id⟩).2
  · refine Tracks.foldl (fun im id h => h.supersedeLease _ clock.now id) _ ?_
    exact ((h.touchHeader.takeId).setPolicy _ _).account _
  · rw [ledger_foldl _ fun im id => ledger_supersedeLease _ clock.now id]
    exact hn

theorem noted_assignBackingAct (h : Tracks im ∅ im) (hn : im.ledger.Noted) (operation : String)
    (auth : Authority) {backing : BackingId} {replacing : Bool} (reason : Text) (clock : Clock)
    {plan : Owned × BackingRecord}
    (hcheck : assignBackingCheck auth backing replacing im = .ok plan) :
    (assignBackingAct operation auth backing replacing reason clock plan im).1.ledger.Noted := by
  obtain ⟨ho, hb, -⟩ := assignBackingCheck_ok hcheck
  obtain ⟨n, hfresh, hledger⟩ :=
    ledger_assignBackingAct h operation auth replacing reason clock ho hb
  have hgrant : im.ledger.grant n = none := by
    by_contra hne
    obtain ⟨r, hr⟩ := Option.ne_none_iff_exists'.mp hne
    exact absurd (lt_of_grant h.wellKeyed hr) (Nat.not_lt.mpr hfresh)
  rw [hledger]
  cases replacing with
  | false => exact noted_bound hn hgrant
  | true => exact noted_bound (noted_vacate hn _ _) (Ledger.grant_revoke_eq_none.mpr hgrant)

theorem noted_checked {π α : Type} {context : Impl σ → OpContext} {kind : AuditKind}
    {check : Impl σ → Except Status π} {act : π → Body σ α} (h : im.ledger.Noted)
    (hact : ∀ plan, check im = .ok plan → (act plan im).1.ledger.Noted) :
    (checked (fun im => orRefuse (context im) kind (check im)) act im).1.ledger.Noted :=
  fst_checked (p := fun im => im.ledger.Noted) h hact

/-- In every body, what a backing records is an assignment of the backing. -/
theorem noted_body {clock : Clock} {op : Op} {b : Body σ Unit} (hb : body clock op = some b)
    (hw : im.state.WellKeyed) (hc : im.ledger.Coherent) (hn : im.ledger.Noted) :
    (b im.beginOp).1.ledger.Noted := by
  -- most operations leave the ledger as it is
  by_cases hneutral : neutral op = true
  · rw [ledger_body hb hneutral]
    exact hn
  have h : Tracks im.beginOp ∅ im.beginOp := .beginOp (show im.beginOp.state.WellKeyed from hw)
  have hc0 : im.beginOp.ledger.Coherent := hc
  have hn0 : im.beginOp.ledger.Noted := hn
  cases op <;> simp only [neutral, not_true_eq_false] at hneutral <;>
    simp only [body, Option.some.injEq] at hb <;> subst hb
  case registerPhysical =>
    refine noted_checked hn0 fun _ _ => ?_
    refine noted_settleBackings (h.describeDevice _ _ _ clock.now).1 ?_ (Set.mem_insert _ _) _ _ _
    rw [ledger_describeDevice]
    exact hn0
  case physicalLost =>
    exact noted_checked hn0 fun _ _ => noted_physicalLostAct h hn0 _ _ _ clock _
  case setPolicy => exact noted_checked hn0 fun _ _ => noted_setPolicyAct h hn0 _ clock _
  case createVirtual =>
    refine noted_checked hn0 fun _ _ => ?_
    rw [ledger_createVirtualAct]
    exact hn0
  case suspend =>
    refine noted_checked hn0 fun _ _ => ?_
    rw [ledger_suspendAct h.wellKeyed]
    exact noted_vacate hn0 _ _
  case retireVirtual =>
    refine noted_checked hn0 fun _ _ => ?_
    rw [ledger_retireVirtualAct h.wellKeyed]
    exact noted_vacate hn0 _ _
  case assignBacking | replaceBacking =>
    exact noted_checked hn0 fun _ ho => noted_assignBackingAct h hn0 _ _ _ clock ho
  case planMigration =>
    refine noted_checked hn0 fun plan ho => ?_
    rw [ledger_planMigrationAct h.wellKeyed _ _ _ clock (planMigrationCheck_ok ho).1]
    exact hn0
  case prepareMigration =>
    refine noted_checked hn0 fun f hf => ?_
    obtain hl | ⟨n, hfresh, hl⟩ :=
      ledger_prepareMigrationAct h _ clock (prepareMigrationCheck_ok hf).1
    · rw [hl]
      exact hn0
    · rw [hl]
      refine hn0.issue ?_
      by_contra hne
      obtain ⟨r, hr⟩ := Option.ne_none_iff_exists'.mp hne
      exact absurd (lt_of_grant h.wellKeyed hr) (Nat.not_lt.mpr hfresh)
  case commitMigration =>
    refine noted_checked hn0 fun c hm => ?_
    obtain ⟨hcur, -, -, hd⟩ := commitMigrationCheck_ok hm
    obtain ⟨hmove, htarget, -⟩ := commitMigration_move h.wellKeyed hm
    rw [ledger_commitMigrationAct h _ clock hcur hd]
    exact noted_switched hn0 hc0 hmove htarget _
  case abortMigration =>
    refine noted_checked hn0 fun _ _ => ?_
    rw [ledger_abortMigrationAct]
    exact hn0.revoke _

theorem noted_of_run {im : Impl Disk} {options : RuntimeOptions} {stored : Bool}
    {events : List Event} (h : (initial options stored).run events = some im) :
    Kept False (onLedger fun L => L.Coherent ∧ L.Noted) im := by
  have hempty : ({} : VirtualizationState).ledger.Noted := by
    intro x s g hs
    simp [VirtualizationState.ledger] at hs
  have hi : Invariant False (onLedger fun L => L.Coherent ∧ L.Noted) :=
    invariant_onLedger ⟨coherent_empty, hempty⟩
  refine (kept_initial hi options stored).of_run hi (fun _ _ hk => keeps_onLedger ?_) h
  intro op clock answer _ b hb _
  have hs := (hk.answering answer).state
  exact ⟨coherent_body hb hs.wellKeyed hs.holds.1,
    noted_body hb hs.wellKeyed hs.holds.1 hs.holds.2⟩

end Impl

/-! ### What hangs on a device -/

/-- The backing is one of another device. -/
def VirtualizationState.Elsewhere (s : VirtualizationState) (id : PhysicalDeviceId)
    (backing : BackingId) : Prop :=
  ∃ b : BackingRecord, s.backings[backing]? = some b ∧ b.physical ≠ id

/-- Other devices and their backings are unchanged, and so are the virtual accelerators and the
assignments that are bound to these. -/
structure VirtualizationState.Spares (id : PhysicalDeviceId)
    (s t : VirtualizationState) : Prop where
  devices : ∀ p, p ≠ id → t.physical[p]? = s.physical[p]?
  backings : ∀ (x : BackingId) (b : BackingRecord), b.physical ≠ id →
    (t.backings[x]? = some b ↔ s.backings[x]? = some b)
  virtuals : ∀ (x : VirtualAcceleratorId) (v : VirtualAcceleratorRecord),
    s.virtuals[x]? = some v → s.Elsewhere id v.backing → t.virtuals[x]? = some v
  assignments : ∀ (g : BackingAssignmentId) (a : BackingAssignment),
    s.assignments[g]? = some a → s.Elsewhere id a.backing → t.assignments[g]? = some a

theorem VirtualizationState.Spares.congr {id : PhysicalDeviceId}
    {s t t' : VirtualizationState} (h : s.Spares id t)
    (ha : t.Alike True t') : s.Spares id t' := by
  have hp : t.physical = t'.physical := ha.entities .physical nofun
  have hb : t.backings = t'.backings := ha.entities .backing nofun
  have hv : t.virtuals = t'.virtuals := ha.entities .virtual nofun
  have hg : t.assignments = t'.assignments := ha.entities .assignment nofun
  exact ⟨fun p hne => hp ▸ h.devices p hne, fun x b hne => hb ▸ h.backings x b hne,
    fun x v hx he => hv ▸ h.virtuals x v hx he, fun g a hx he => hg ▸ h.assignments g a hx he⟩

/-- A device with what hangs on it: its backings, the assignments these record and their holders.
Tenants, leases and new records are not told apart. -/
def VirtualizationState.around (s : VirtualizationState) (id : PhysicalDeviceId) : Region
  | .physical => {p | p = id ∨ s.nextSequence ≤ p}
  | .backing => {x | s.inventory.shelf x = some id ∨ s.nextSequence ≤ x}
  | .assignment => {g | (∃ x b, s.inventory.shelf x = some id ∧ s.ledger.slot x = some b ∧
      b.active = some g) ∨ s.nextSequence ≤ g}
  | .virtual => {x | (∃ g r, s.ledger.grant g = some r ∧ r.authoritative = true ∧ r.party = x ∧
      s.inventory.shelf r.resource = some id) ∨ s.nextSequence ≤ x}
  | _ => Set.univ

namespace Impl

variable {σ : Type} {im : Impl σ} {id : PhysicalDeviceId}

theorem roomy_around : (im.state.around id).Roomy im.state.nextSequence := by
  intro k _ x hx
  cases k <;> first | exact .inr hx | exact Set.mem_univ x

theorem closed_around : im.state.Closed (im.state.around id) :=
  fun _ _ _ _ => ⟨fun l _ => Set.mem_univ l, Set.mem_univ _⟩

theorem equipped_around (ht : im.state.Tidy) : Equipped (im.state.around id) id im where
  listed b hb := by
    unfold stock at hb
    cases hd : im.state.physical[id]? with
    | none =>
      rw [hd] at hb
      cases hb
    | some device =>
      rw [hd] at hb
      exact .inl (ht.listed id device.stableKey device.backings
        (congrArg (Option.map fun r : PhysicalDeviceRecord => (r.stableKey, r.backings)) hd) b hb)
  named b r hr hphysical :=
    .inl (hphysical ▸ congrArg (Option.map BackingRecord.physical) hr)

/-- What is new is nowhere yet. -/
theorem shelf_of_fresh (hw : im.state.WellKeyed) {x : BackingId}
    (hx : im.state.nextSequence ≤ x) : im.state.backings[x]? = none :=
  hw.fresh .backing hx

theorem staffed_around (hw : im.state.WellKeyed) (hn : im.ledger.Noted) :
    Staffed (im.state.around id) im.ledger := by
  rintro x (hshelf | hfresh) b g r hslot hactive hgrant hauth
  · -- the grant is one over the backing
    obtain ⟨r', hr', hresource⟩ := hn x b g hslot hactive
    obtain rfl := Option.some.inj (hgrant.symm.trans hr')
    exact ⟨.inl ⟨x, b, hshelf, hslot, hactive⟩,
      .inl ⟨g, r, hgrant, hauth, rfl, hresource ▸ hshelf⟩⟩
  · have hnone : im.ledger.slot x = none :=
      congrArg (Option.map BackingRecord.toSlot) (shelf_of_fresh hw hfresh)
    exact absurd (hnone.symm.trans hslot) nofun

/-- A registration of the device that has the key spares what belongs to others. -/
theorem spares_registerPhysicalAct (hs : Tracks im ∅ im) (hc : im.ledger.Coherent)
    (hn : im.ledger.Noted) (ht : im.state.Tidy) {d : PhysicalDeviceDescriptor}
    (hid : (im.locateDevice d).2.1 = id) (auth : Authority) (agent : AgentId) (boot : AgentBootId)
    (clock : Clock) :
    im.state.Spares id (registerPhysicalAct auth agent boot d clock () im).1.state := by
  have hw := hs.wellKeyed
  subst hid
  have hconfined : Confined (im.state.around (im.locateDevice d).2.1) im
      (registerPhysicalAct auth agent boot d clock () im).1 :=
    confined_registerPhysicalAct closed_around hs (.inl rfl) (equipped_around ht)
      (staffed_around hw hn) roomy_around agent boot
  obtain ⟨-, hext, -⟩ := inventory_registerPhysicalAct hs ht auth agent boot d clock
  generalize (registerPhysicalAct auth agent boot d clock () im).1 = im' at hconfined hext
  generalize (im.locateDevice d).2.1 = id at hconfined hext
  -- a backing of another device is not in the region
  have hother : ∀ (x : BackingId) (b : BackingRecord), im.state.backings[x]? = some b →
      b.physical ≠ id → im.state.inventory.shelf x ≠ some id := by
    intro x b hb hne hshelf
    have hphysical : im.state.inventory.shelf x = some b.physical :=
      congrArg (Option.map BackingRecord.physical) hb
    exact hne (Option.some.inj (hphysical.symm.trans hshelf))
  refine ⟨fun p hp => ?_, fun x b hne => ?_, fun x v hv ⟨b, hb, hne⟩ => ?_,
    fun g a ha ⟨b, hb, hne⟩ => ?_⟩
  · by_cases hfresh : im.state.nextSequence ≤ p
    · have hnone : im.state.physical[p]? = none := hw.fresh .physical hfresh
      have hview := hext.device p hp
      change im'.state.physical[p]?.map _ = im.state.physical[p]?.map _ at hview
      rw [hnone, Option.map_none, Option.map_eq_none_iff] at hview
      rw [hview, hnone]
    · exact hconfined.outside .physical p fun hmem => hmem.elim hp hfresh
  · by_cases hmem : x ∈ im.state.around id .backing
    · -- what is in the region is a backing of the device, before and after
      have hin : ∀ s : VirtualizationState, s.backings[x]? = some b →
          s.inventory.shelf x = some b.physical :=
        fun s hb => congrArg (Option.map BackingRecord.physical) hb
      have hold : im.state.backings[x]? ≠ some b := by
        intro hb
        obtain hshelf | hfresh := hmem
        · exact hother x b hb hne hshelf
        · exact absurd ((shelf_of_fresh hw hfresh).symm.trans hb) nofun
      have hnew : im'.state.backings[x]? ≠ some b := by
        intro hb
        obtain hsame | ⟨-, hadded⟩ := hext.shelf x
        · have hshelf := hsame.symm.trans (hin _ hb)
          obtain hshelf' | hfresh := hmem
          · exact hne (Option.some.inj (hshelf.symm.trans hshelf'))
          · have hnone : im.inventory.shelf x = none :=
              congrArg (Option.map BackingRecord.physical) (shelf_of_fresh hw hfresh)
            exact absurd (hnone.symm.trans hshelf) nofun
        · exact hne (Option.some.inj ((hin _ hb).symm.trans hadded))
      exact iff_of_false hnew hold
    · have hsame : im'.state.backings[x]? = im.state.backings[x]? :=
        hconfined.outside .backing x hmem
      rw [hsame]
  · have hsame : im'.state.virtuals[x]? = im.state.virtuals[x]? := by
      refine hconfined.outside .virtual x ?_
      rintro (⟨g, r, hr, hauth, rfl, hshelf⟩ | hfresh)
      · -- the holder points to the backing of its assignment
        have hpointed := hc.pointed g r hr hauth
        rw [party_of_virtual hv, Option.some.injEq] at hpointed
        obtain ⟨heq, -⟩ := ref_eq_some.mp (congrArg Pointer.resource hpointed)
        exact hother _ b hb hne (heq ▸ hshelf)
      · have hnone : im.state.virtuals[x]? = none := hw.fresh .virtual hfresh
        exact absurd (hnone.symm.trans hv) nofun
    rw [hsame, hv]
  · have hsame : im'.state.assignments[g]? = im.state.assignments[g]? := by
      refine hconfined.outside .assignment g ?_
      rintro (⟨x, slot, hshelf, hslot, hactive⟩ | hfresh)
      · obtain ⟨r, hr, rfl⟩ := hn x slot g hslot hactive
        obtain rfl := Option.some.inj ((grant_of_assignment ha).symm.trans hr)
        exact hother _ b hb hne hshelf
      · have hnone : im.state.assignments[g]? = none := hw.fresh .assignment hfresh
        exact absurd (hnone.symm.trans ha) nofun
    rw [hsame, ha]

/-! ### The refresh -/

/-- A registration returns the record of the located device. -/
theorem registerPhysicalAct_result (hs : Tracks im ∅ im) (ht : im.state.Tidy) {auth : Authority}
    {agent : AgentId} {boot : AgentBootId} {d : PhysicalDeviceDescriptor} {clock : Clock}
    {accepted : Accepted PhysicalDeviceRecord}
    (h : (registerPhysicalAct auth agent boot d clock () im).2 = .ok accepted) :
    accepted.result.id = (im.locateDevice d).2.1 ∧
      (registerPhysicalAct auth agent boot d clock () im).1.state.physical[
        (im.locateDevice d).2.1]? = some accepted.result := by
  obtain ⟨-, -, hknown⟩ := inventory_registerPhysicalAct hs ht auth agent boot d clock
  obtain ⟨r, hr⟩ := Option.isSome_iff_exists.mp (Option.isSome_map.symm.trans hknown)
  have hresult : accepted.result = r := by
    rw [← Except.ok.inj h]
    exact congrArg (Option.getD · {}) hr
  rw [hresult]
  exact ⟨(hs.registerPhysicalAct auth agent boot d clock).idOf_eq (k := .physical) hr, hr⟩

/-- The located device has the key, or is new. -/
theorem locateDevice_eq_iff (hw : im.state.WellKeyed) (ht : im.state.Tidy)
    {device : PhysicalDeviceRecord} (hd : im.state.physical[id]? = some device)
    (d : PhysicalDeviceDescriptor) :
    (im.locateDevice d).2.1 = id ↔ device.stableKey = d.stableKey := by
  have hview : ∀ (p : PhysicalDeviceId) (r : PhysicalDeviceRecord), im.state.physical[p]? = some r →
      im.inventory.device p = some (r.stableKey, r.backings) := fun p r hr =>
    congrArg (Option.map fun r : PhysicalDeviceRecord => (r.stableKey, r.backings)) hr
  obtain ⟨target, htarget, hkey, -⟩ | ⟨hnone, hnew, -⟩ := inventory_locateDevice hw d
  · constructor
    · rintro rfl
      obtain rfl := Option.some.inj (hd.symm.trans htarget)
      exact hkey
    · intro hsame
      exact ht.keys _ _ _ _ _ (hview _ _ htarget)
        ((hview _ _ hd).trans (by rw [hsame, hkey]))
  · refine iff_of_false ?_ ?_
    · rw [hnew]
      rintro rfl
      exact absurd ((hw.fresh .physical le_rfl).symm.trans hd) nofun
    · -- it would have been found
      intro hsame
      exact List.find?_eq_none.mp hnone (id, device)
        (Std.ExtTreeMap.mem_toList_iff_getElem?_eq_some.mpr hd) (decide_eq_true hsame)

/-- A refresh that succeeds returns the record of the device it names, and spares all others. -/
def RefreshesOnly (im : Impl Disk) (clock : Clock) (auth : Authority) (id : PhysicalDeviceId)
    (generation : Generation) (d : PhysicalDeviceDescriptor) : Prop :=
  ∀ (im' : Impl Disk) (r : PhysicalDeviceRecord),
    im.refreshPhysical clock auth id generation d = (im', .ok r) →
    r.id = id ∧ im'.state.physical[id]? = some r ∧ im.state.Spares id im'.state

variable {clock : Clock} {auth : Authority} {agent : AgentId} {boot : AgentBootId}
variable {d : PhysicalDeviceDescriptor}

/-- A registration goes through if its checks pass and its change set is taken. -/
theorem registerPhysical_succeeds {im : Impl Disk} (hw : im.state.WellKeyed) :
    (∃ r, (im.registerPhysical clock auth agent boot d).2 = .ok r) ↔
      registerPhysicalCheck auth agent boot d im = .ok () ∧ im.writable = true := by
  have hforget : (im.exec clock (.registerPhysical auth agent boot d)).2 = .ok () ↔
      ∃ r, (im.registerPhysical clock auth agent boot d).2 = .ok r := by
    change Except.map _ (im.registerPhysical clock auth agent boot d).2 = .ok () ↔ _
    cases (im.registerPhysical clock auth agent boot d).2 <;> simp [Except.map]
  rw [← hforget, exec_eq_ok_iff (b := (registerPhysicalBody auth agent boot d clock).forget) rfl hw]
  have hchecked : (∃ a, (registerPhysicalBody auth agent boot d clock im.beginOp).2 = .ok a) ↔
      (registerPhysicalCheck auth agent boot d im.beginOp).isOk = true :=
    accepts_checked fun _ _ _ => nofun
  refine and_congr_left fun _ => accepts_forget.trans (hchecked.trans (isOk_iff.trans ?_))
  exact ⟨fun ⟨_, hok⟩ => hok, fun hok => ⟨(), hok⟩⟩

/-- What a registration leaves that goes through. -/
theorem registerPhysical_ok {im im' : Impl Disk} (hw : im.state.WellKeyed) (ht : im.state.Tidy)
    {r : PhysicalDeviceRecord} (h : im.registerPhysical clock auth agent boot d = (im', .ok r)) :
    r.id = (im.beginOp.locateDevice d).2.1 ∧
      im'.state.physical[(im.beginOp.locateDevice d).2.1]? = some r ∧
      (registerPhysicalAct auth agent boot d clock () im.beginOp).1.state.Alike True im'.state := by
  have hs : Tracks im.beginOp ∅ im.beginOp := .beginOp (show im.beginOp.state.WellKeyed from hw)
  obtain ⟨⟨accepted, haccepted, rfl⟩, halike, -⟩ := operation_ok h
  obtain ⟨_, -, hact, hbody⟩ := checked_ok haccepted
  obtain ⟨hid, hrecord⟩ := registerPhysicalAct_result hs ht hact
  have halike' : (registerPhysicalAct auth agent boot d clock () im.beginOp).1.state.Alike True
      im'.state := by
    rw [registerPhysicalBody, hbody] at halike
    exact halike
  have hphysical : (registerPhysicalAct auth agent boot d clock () im.beginOp).1.state.physical =
      im'.state.physical := halike'.entities .physical nofun
  exact ⟨hid, hphysical ▸ hrecord, halike'⟩

theorem refreshPhysical_eq {im : Impl Disk} {generation : Generation}
    {device : PhysicalDeviceRecord} (hd : im.state.physical[id]? = some device)
    (hg : device.generation = generation) : im.refreshPhysical clock auth id generation d =
      im.registerPhysical clock auth device.agent device.boot d := by
  simp only [refreshPhysical, hd, hg, ne_eq, not_true, if_false]

/-- A refresh that goes through is one of a device that is known under the generation. -/
theorem refreshPhysical_known {im im' : Impl Disk} {generation : Generation}
    {r : PhysicalDeviceRecord} (h : im.refreshPhysical clock auth id generation d = (im', .ok r)) :
    ∃ device : PhysicalDeviceRecord, im.state.physical[id]? = some device ∧
      device.generation = generation := by
  simp only [refreshPhysical] at h
  split at h
  · cases h
  · rename_i device hd
    by_cases hg : device.generation = generation
    · exact ⟨device, hd, hg⟩
    · rw [if_pos hg] at h
      cases h

end Impl

/-- In every state of every run, a refresh returns the record of the device it names and changes
nothing of another device if and only if the descriptor carries the stable key of the device, or the
refresh does not go through: the device is not known under the generation, the registration does not
pass its checks, or the store does not take its change set. -/
theorem refreshesOnly_iff {options : RuntimeOptions} {stored : Bool} {events : List Event}
    {im : Impl Disk} (h : (Impl.initial options stored).run events = some im) (answer : Check)
    (clock : Clock) (auth : Authority) (id : PhysicalDeviceId) (generation : Generation)
    (d : PhysicalDeviceDescriptor) :
    (im.answering answer).RefreshesOnly clock auth id generation d ↔
      ∀ device : PhysicalDeviceRecord, im.state.physical[id]? = some device →
        device.generation = generation →
        Impl.registerPhysicalCheck auth device.agent device.boot d im = .ok () →
        (im.answering answer).writable = true → device.stableKey = d.stableKey := by
  have hnoted := ((Impl.noted_of_run h).answering answer).state
  have htidy := ((Impl.tidy_of_run h).answering answer).state.holds
  have hw := hnoted.wellKeyed
  change _ ↔ ∀ device : PhysicalDeviceRecord,
    (im.answering answer).state.physical[id]? = some device → device.generation = generation →
    Impl.registerPhysicalCheck auth device.agent device.boot d (im.answering answer) = .ok () →
    (im.answering answer).writable = true → device.stableKey = d.stableKey
  generalize im.answering answer = im at hnoted htidy hw ⊢
  have hlocated : ∀ device : PhysicalDeviceRecord, im.state.physical[id]? = some device →
      ((im.beginOp.locateDevice d).2.1 = id ↔ device.stableKey = d.stableKey) :=
    fun device hd => @Impl.locateDevice_eq_iff _ im.beginOp _ hw htidy _ hd d
  constructor
  · intro honly device hd hg hcheck hwritable
    obtain ⟨r, hr⟩ := (@Impl.registerPhysical_succeeds clock _ _ _ _ _ hw).mpr ⟨hcheck, hwritable⟩
    generalize hregister : im.registerPhysical clock auth device.agent device.boot d = registered
      at hr
    obtain ⟨im', outcome⟩ := registered
    cases hr
    -- the record that is returned is the one of the device with the key
    obtain ⟨hid, -⟩ := honly im' r ((Impl.refreshPhysical_eq hd hg).trans hregister)
    obtain ⟨hlocate, -⟩ := Impl.registerPhysical_ok hw htidy hregister
    exact (hlocated device hd).mp (hlocate.symm.trans hid)
  · intro hcond im' r hrefresh
    obtain ⟨device, hd, hg⟩ := Impl.refreshPhysical_known hrefresh
    rw [Impl.refreshPhysical_eq hd hg] at hrefresh
    obtain ⟨hcheck, hwritable⟩ := (@Impl.registerPhysical_succeeds clock _ _ _ _ _ hw).mp
      ⟨r, congrArg Prod.snd hrefresh⟩
    have hkey := (hlocated device hd).mpr (hcond device hd hg hcheck hwritable)
    obtain ⟨hid, hrecord, halike⟩ := Impl.registerPhysical_ok hw htidy hrefresh
    rw [hkey] at hid hrecord
    have hs : Impl.Tracks im.beginOp ∅ im.beginOp :=
      .beginOp (show im.beginOp.state.WellKeyed from hw)
    have hspares := Impl.spares_registerPhysicalAct hs hnoted.holds.1 hnoted.holds.2 htidy hkey auth
      device.agent device.boot clock
    exact ⟨hid, hrecord, hspares.congr halike⟩

namespace Sample

/-- A second device. -/
def twin : PhysicalDeviceDescriptor :=
  { stableKey := txt "npu", provenance := .real, backings := [dedicated "a"] }

/-- Two devices, 5 and 19, and a virtual accelerator 14 with backing 21 of the second one. -/
def paired : List Event :=
  [.start clock, call (.registerAgent (txt "agent") [] 0 1),
    call (.registerPhysical anyone 1 4 device), call (.createTenant anyone (txt "tenant") []),
    call (.createVirtual anyone (txt "v") 11 1 contract), call (.registerPhysical anyone 1 4 twin),
    call (.assignBacking (owner 14 1) 21 [])]

end Sample

/-- A refresh of the first device under its own key goes through and spares the second one. -/
theorem refreshesOnly_paired : ∃ im, (Impl.initial {} true).run Sample.paired = some im ∧
    (∃ r, ((im.answering (.ok ())).refreshPhysical Sample.clock Sample.anyone 5 1
      Sample.device).2 = .ok r) ∧
    (im.answering (.ok ())).RefreshesOnly Sample.clock Sample.anyone 5 1 Sample.device := by
  have hrun : (((Impl.initial {} true).run Sample.paired).any fun im =>
      ((im.answering (.ok ())).refreshPhysical Sample.clock Sample.anyone 5 1
        Sample.device).2.isOk &&
      im.state.physical[5]?.any fun device =>
        decide (device.stableKey = Sample.device.stableKey)) = true := by
    decide +kernel
  obtain ⟨im, him, hgood⟩ := (Option.any_eq_true _ _).mp hrun
  rw [Bool.and_eq_true, isOk_iff] at hgood
  obtain ⟨hok, device, hd, hkey⟩ := And.imp_right (Option.any_eq_true _ _).mp hgood
  refine ⟨im, him, hok, (refreshesOnly_iff him (.ok ()) Sample.clock Sample.anyone 5 1
    Sample.device).mpr fun device' hd' _ _ _ => ?_⟩
  obtain rfl := Option.some.inj (hd.symm.trans hd')
  exact of_decide_eq_true hkey

/-- A refresh of the first device under the key of the second one, with another model, returns the
record of the second one, and takes its backing from the virtual accelerator. -/
theorem not_refreshesOnly_paired : ∃ im, (Impl.initial {} true).run Sample.paired = some im ∧
    (∃ im' r v v', (im.answering (.ok ())).refreshPhysical Sample.clock Sample.anyone 5 1
        { Sample.twin with model := txt "other" } = (im', .ok r) ∧ r.id = 19 ∧
      im.state.virtuals[14]? = some v ∧ im.state.Elsewhere 5 v.backing ∧
      im'.state.virtuals[14]? = some v' ∧ v.state = .provisioned ∧
      v'.state = .recoveryRequired) ∧
    ¬ (im.answering (.ok ())).RefreshesOnly Sample.clock Sample.anyone 5 1
      { Sample.twin with model := txt "other" } := by
  have hrun : (((Impl.initial {} true).run Sample.paired).any fun im =>
      let refreshed := (im.answering (.ok ())).refreshPhysical Sample.clock Sample.anyone 5 1
        { Sample.twin with model := txt "other" }
      refreshed.2.toOption.any fun r => decide (r.id = 19) &&
        im.state.virtuals[14]?.any fun v => im.state.backings[v.backing]?.any fun b =>
          refreshed.1.state.virtuals[14]?.any fun v' => decide (b.physical ≠ 5) &&
            decide (v.state = .provisioned) && decide (v'.state = .recoveryRequired)) = true := by
    decide +kernel
  obtain ⟨im, him, hgood⟩ := (Option.any_eq_true _ _).mp hrun
  generalize hrefresh : (im.answering (.ok ())).refreshPhysical Sample.clock Sample.anyone 5 1
    { Sample.twin with model := txt "other" } = refreshed at hgood
  obtain ⟨im', outcome⟩ := refreshed
  simp only [Option.any_eq_true, Bool.and_eq_true, decide_eq_true_eq] at hgood
  obtain ⟨r, hr, hid, v, hv, b, hb, v', hv', ⟨hne, hbefore⟩, hafter⟩ := hgood
  cases outcome with
  | error _ => cases hr
  | ok r' =>
    obtain rfl := Option.some.inj hr
    refine ⟨im, him, ⟨im', r', v, v', hrefresh, hid, hv, ⟨b, hb, hne⟩, hv', hbefore, hafter⟩, ?_⟩
    intro honly
    exact absurd (hid.symm.trans (honly im' r' hrefresh).1) (by decide)

end AcceleratorVirtualization
