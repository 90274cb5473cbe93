import AcceleratorVirtualization.Invariants.Tracked

/-!
# Every operation is tracked

What each operation does after its check keeps `Tracks`, for every kind of record. The one
exception is the transfer of ownership, which changes the two tenants before it touches them:
it is tracked for the other kinds only.
-/

namespace AcceleratorVirtualization

open VirtualizationState

namespace Impl

variable {σ : Type} {s : Impl σ}
  {T : Set (RecordKind × ℕ)} {im : Impl σ}

/-! ### Registering a device -/

theorem findDevice_some {key : Text} {p : PhysicalDeviceId × PhysicalDeviceRecord}
    (h : im.findDevice key = some p) : im.state.physical[p.1]? = some p.2 :=
  Std.ExtTreeMap.mem_toList_iff_getElem?_eq_some.mp (List.mem_of_find?_eq_some h)

theorem findBacking_some {device : PhysicalDeviceId} {label : Text}
    {p : BackingId × BackingRecord} (h : im.findBacking device label = some p) :
    im.state.backings[p.1]? = some p.2 :=
  Std.ExtTreeMap.mem_toList_iff_getElem?_eq_some.mp (List.mem_of_find?_eq_some h)

/-- The slot of the described device is there, and touched. -/
theorem Tracks.locateDevice (h : Tracks s T im) (d : PhysicalDeviceDescriptor) :
    Tracks s (insert (.physical, (im.locateDevice d).2.1) T) (im.locateDevice d).1 ∧
      ((im.locateDevice d).1.state.find .physical (im.locateDevice d).2.1).isSome := by
  unfold Impl.locateDevice
  split
  · refine ⟨(h.takeId.touch .physical im.nextId).emplace .physical
      (Set.mem_insert _ _) rfl h.wellKeyed.started (Nat.lt_succ_self _), ?_⟩
    simp only [Impl.emplace, find_setEntities_self, Std.ExtTreeMap.getElem?_insertIfNew]
    split
    · rfl
    · rename_i hmem
      rw [not_and, not_not] at hmem
      exact Std.ExtTreeMap.isSome_getElem?_iff_mem.mpr (hmem (by simp))
  · rename_i key target hf
    have hr : im.state.find .physical key = some target := findDevice_some hf
    have hid : target.id = key := h.idOf_eq (k := .physical) hr
    rw [hid]
    refine ⟨?_, ?_⟩
    · simp only
      split
      · exact h.touchModify .physical key fun _ => rfl
      · exact h.touch .physical key
    · simp only
      split
      · simp [Impl.modify, find_modify_self, Impl.touchPhysical, Impl.touch, hr]
      · simp [Impl.touchPhysical, Impl.touch, hr]

/-- Recording evidence changes only records that were touched. -/
theorem Tracks.recordEvidence (h : Tracks s T im) {device : PhysicalDeviceRecord}
    (changed : Bool) (d : PhysicalDeviceDescriptor) (now : UnixMicros) (h0 : 0 < device.evidence)
    (hlt : device.evidence < im.state.nextSequence) :
    Tracks s T (im.recordEvidence device changed d now) := by
  unfold Impl.recordEvidence
  refine account (mono (put (h.touch .evidence device.evidence) .evidence ?_ ?_ h0 hlt)
    (Set.subset_insert _ _)) _
  · exact Set.mem_insert _ _
  · rfl

/-- Materialising a backing changes only records that were touched. -/
theorem Tracks.materializeBacking (h : Tracks s T im) {key : PhysicalDeviceId}
    (ht : (.physical, key) ∈ T) (device : PhysicalDeviceRecord)
    (now : UnixMicros) (source : BackingDescriptor) :
    Tracks s T (im.materializeBacking key device now source) := by
  unfold Impl.materializeBacking
  split
  · have he := (h.takeId.touch .backing im.nextId).emplace .backing
      (r := { id := im.nextId, generation := 1, physical := device.id, label := source.label })
      (Set.mem_insert _ _) rfl h.wellKeyed.started (Nat.lt_succ_self _)
    have hp := he.modify .physical key (f := fun r =>
      { r with backings := (r.backings ++ [im.nextId]).insertionSort (· ≤ ·) })
      (Set.mem_insert_of_mem _ ht) fun _ => rfl
    exact (hp.modify .backing im.nextId (f := fun b => b.describe device source now)
      (Set.mem_insert _ _) fun _ => rfl).mono (Set.subset_insert _ _)
  · rename_i id backing hf
    have hid : backing.id = id := h.idOf_eq (k := .backing) (findBacking_some hf)
    rw [hid]
    exact h.edit .backing id fun _ => rfl

/-- Refreshing a backing changes only records that were touched. -/
theorem Tracks.refreshBacking (h : Tracks s T im) (device : PhysicalDeviceRecord)
    (now : UnixMicros) (id : BackingId) : Tracks s T (im.refreshBacking device now id) := by
  unfold Impl.refreshBacking
  split
  · exact h
  · exact h.edit .backing id fun _ => rfl

/-- Interrupting the holder of an invalidated backing changes only records that were touched. -/
theorem Tracks.invalidateHolder (h : Tracks s T im) (now : UnixMicros)
    (id : VirtualAcceleratorId) : Tracks s T (im.invalidateHolder now id) := by
  unfold Impl.invalidateHolder
  split
  · exact h
  · split
    · exact h.edit .virtual id fun _ => rfl
    · exact h

/-- Revoking the binding to an invalidated backing changes only records that were touched. -/
theorem Tracks.invalidateBinding (h : Tracks s T im) (now : UnixMicros)
    (id : BackingAssignmentId) : Tracks s T (im.invalidateBinding now id) := by
  unfold Impl.invalidateBinding
  split
  · exact h
  · split
    · exact (h.revokeAssignment id _ now).invalidateHolder now _
    · exact h

/-- Invalidating a backing changes only records that were touched. -/
theorem Tracks.invalidateBacking (h : Tracks s T im) (now : UnixMicros) (id : BackingId) :
    Tracks s T (im.invalidateBacking now id) := by
  unfold Impl.invalidateBacking
  split
  · exact h
  · exact (h.invalidateBinding now _).edit .backing id fun _ => rfl

/-- The described device is there, and touched. -/
theorem Tracks.describeDevice (h : Tracks s T im) (agent : AgentId) (boot : AgentBootId)
    (d : PhysicalDeviceDescriptor) (now : UnixMicros) :
    Tracks s (insert (.physical, (im.describeDevice agent boot d now).2.1) T)
      (im.describeDevice agent boot d now).1 ∧
    ((im.describeDevice agent boot d now).1.state.find .physical
      (im.describeDevice agent boot d now).2.1).isSome := by
  obtain ⟨hl, hs⟩ := h.locateDevice d
  simp only [Impl.describeDevice]
  generalize im.locateDevice d = located at hl hs
  obtain ⟨im1, key, changed⟩ := located
  obtain ⟨r, hr⟩ := Option.isSome_iff_exists.mp hs
  have hm := hl.takeId.modify .physical key
    (f := fun r => r.describe agent boot d im1.nextId now)
    (Set.mem_insert _ _) fun _ => rfl
  have hfind : (im1.takeId.modify .physical key fun r =>
      r.describe agent boot d im1.nextId now).state.find .physical key =
      some (r.describe agent boot d im1.nextId now) := by
    simp only [Impl.modify, find_modify_self, if_true]
    rw [show im1.takeId.state.find .physical key = some r from hr]
    rfl
  have hevidence : ((im1.takeId.modify .physical key fun r =>
      r.describe agent boot d im1.nextId now).state.physical[key]?.getD {}).evidence =
      im1.nextId := by
    rw [show (im1.takeId.modify .physical key fun r =>
      r.describe agent boot d im1.nextId now).state.physical[key]? = _ from hfind]
    rfl
  refine ⟨hm.recordEvidence changed d now (by rw [hevidence]; exact hl.wellKeyed.started)
    (by rw [hevidence]; exact Nat.lt_succ_self _), ?_⟩
  exact Option.isSome_of_eq_some hfind

/-- Settling the backings of a device changes only records that were touched. -/
theorem Tracks.settleBackings (h : Tracks s T im) {key : PhysicalDeviceId}
    (ht : (.physical, key) ∈ T) (changed : Bool)
    (d : PhysicalDeviceDescriptor) (now : UnixMicros) :
    Tracks s T (im.settleBackings key changed d now) := by
  simp only [Impl.settleBackings]
  split
  · refine foldl (fun im id h => h.invalidateBacking now id) _ ?_
    exact h.foldl (fun im source h => h.materializeBacking ht _ now source) d.backings
  · refine foldl (fun im id h => h.refreshBacking _ now id) _ ?_
    exact h.foldl (fun im source h => h.materializeBacking ht _ now source) d.backings

/-- Registering a device changes only records that were touched. -/
theorem Tracks.registerPhysicalAct (h : Tracks s T im) (auth : Authority) (agent : AgentId)
    (boot : AgentBootId) (d : PhysicalDeviceDescriptor) (clock : Clock) :
    Tracks s T (registerPhysicalAct auth agent boot d clock () im).1 := by
  refine touchHeader (account (mono (settleBackings (h.describeDevice agent boot d clock.now).1 ?_
    _ d clock.now) (Set.subset_insert _ _)) _)
  exact Set.mem_insert _ _

/-! ### Losing a device -/

/-- Interrupting the holder of a lost backing changes only records that were touched. -/
theorem Tracks.interruptHolder (h : Tracks s T im) (id : VirtualAcceleratorId)
    (record : VirtualAcceleratorRecord) (reason : Text) (now : UnixMicros) :
    Tracks s T (im.interruptHolder id record reason now) := by
  simp only [Impl.interruptHolder]
  split
  · exact h.edit .virtual id fun _ => rfl
  · exact (h.touch .virtual id).mono (Set.subset_insert _ _)

/-- Losing a backing changes only records that were touched. -/
theorem Tracks.loseBacking (h : Tracks s T im) (reason : Text) (now : UnixMicros)
    (id : BackingId) : Tracks s T (im.loseBacking reason now id) := by
  unfold Impl.loseBacking
  split
  · exact h
  · rename_i backing hb
    have hm := h.touchModify .backing id (f := fun b =>
      { b with available := false, evidenceFresh := false }) fun _ => rfl
    simp only
    refine mono ?_ (Set.subset_insert (.backing, id) T)
    split
    · exact hm
    · split
      · exact hm
      · rename_i record hr
        have hf := (hm.interruptHolder backing.assignedTo record
          (txt "backing device disappeared: " ++ reason) now).fenceLeases backing.assignedTo
          (txt "backing device disappeared: " ++ reason) now
        refine modify ?_ .backing id (Set.mem_insert _ _) fun _ => rfl
        split
        · exact hf.revokeAssignment _ _ now
        · exact hf

/-- Recounting the attachments of a tenant changes only records that were touched. -/
theorem Tracks.recountTenant (h : Tracks s T im) (now : UnixMicros) (id : TenantId) :
    Tracks s T (im.recountTenant now id) := by
  unfold Impl.recountTenant
  split
  · exact h
  · rename_i tenant ht
    have hid : tenant.id = id := h.idOf_eq (k := .tenant) ht
    simp only
    split
    · rw [hid]
      exact h.edit .tenant id fun _ => rfl
    · exact h

/-- Losing a device changes only records that were touched. -/
theorem Tracks.physicalLostAct (h : Tracks s T im) (id : PhysicalDeviceId)
    (generation : Generation) (reason : Text) (clock : Clock) (device : PhysicalDeviceRecord) :
    Tracks s T (physicalLostAct id generation reason clock device im).1 := by
  refine touchHeader (recomputeDerivedAccounting (account ?_ _))
  refine foldl (fun im id h => h.recountTenant clock.now id) _ ?_
  refine foldl (fun im id h => h.loseBacking reason clock.now id) _ ?_
  exact h.edit .physical id fun _ => rfl

/-! ### The policy -/

/-- Setting the policy changes only records that were touched. -/
theorem Tracks.setPolicy (h : Tracks s T im) (policy : VirtualizationPolicy)
    (generation : Generation) :
    Tracks s T { im with state.policy := policy, state.policyGeneration := generation } :=
  { h with wellKeyed := ⟨h.wellKeyed.keyed, h.wellKeyed.issued, h.wellKeyed.started⟩ }

/-- Superseding a lease changes only records that were touched. -/
theorem Tracks.supersedeLease (h : Tracks s T im) (updated : VirtualizationPolicy)
    (now : UnixMicros) (id : LeaseId) : Tracks s T (im.supersedeLease updated now id) := by
  unfold Impl.supersedeLease
  split
  · exact h
  · rename_i lease hl
    have hid : lease.id = id := h.idOf_eq (k := .lease) hl
    split
    · rw [hid]
      refine account (h.edit .lease id ?_) _
      exact fun _ => rfl
    · exact h

theorem detachForPolicy_id (updated : VirtualizationPolicy) (now : UnixMicros)
    (v : VirtualAcceleratorRecord) : (detachForPolicy updated now v).id = v.id := by
  simp only [detachForPolicy]
  split <;> rfl

/-- Withdrawing a backing changes only records that were touched. -/
theorem Tracks.withdrawBacking (h : Tracks s T im) (now : UnixMicros)
    {id : VirtualAcceleratorId} (record : VirtualAcceleratorRecord)
    (ht : (.virtual, id) ∈ T) :
    Tracks s T (im.withdrawBacking now id record) := by
  simp only [Impl.withdrawBacking]
  refine modify (edit ?_ .backing record.backing ?_) .virtual id ht ?_
  · split
    · exact h.revokeAssignment _ _ now
    · exact h
  · exact fun _ => rfl
  · exact fun _ => rfl

/-- Validating a virtual accelerator again changes only records that were touched. -/
theorem Tracks.revalidateVirtual (h : Tracks s T im) (updated : VirtualizationPolicy)
    (now : UnixMicros) (id : VirtualAcceleratorId) :
    Tracks s T (im.revalidateVirtual updated now id) := by
  unfold Impl.revalidateVirtual
  split
  · exact h
  · rename_i record hr
    have hid : record.id = id := h.idOf_eq (k := .virtual) hr
    split
    · exact h
    · have hm := h.touchModify .virtual id (f := detachForPolicy updated now)
        (detachForPolicy_id updated now)
      rw [hid]
      refine mono ?_ (Set.subset_insert (.virtual, id) T)
      refine rebuildProjection ?_ (Set.mem_insert _ _)
      split
      · exact hm
      · exact hm.withdrawBacking now _ (Set.mem_insert _ _)

/-- Clearing the attachments of a tenant changes only records that were touched. -/
theorem Tracks.clearAttachments (h : Tracks s T im) (now : UnixMicros) (id : TenantId) :
    Tracks s T (im.clearAttachments now id) := by
  unfold Impl.clearAttachments
  split
  · exact h
  · rename_i tenant ht
    have hid : tenant.id = id := h.idOf_eq (k := .tenant) ht
    split
    · rw [hid]
      exact h.edit .tenant id fun _ => rfl
    · exact h

/-- A new policy changes only records that were touched. -/
theorem Tracks.setPolicyAct (h : Tracks s T im) (auth : Authority) (clock : Clock)
    (policy : VirtualizationPolicy) : Tracks s T (setPolicyAct auth clock policy im).1 := by
  refine touchHeader (recomputeDerivedAccounting ?_)
  refine foldl (fun im id h => h.clearAttachments clock.now id) _ ?_
  refine foldl (fun im id h => h.revalidateVirtual _ clock.now id) _ ?_
  refine foldl (fun im id h => h.supersedeLease _ clock.now id) _ ?_
  exact ((h.touchHeader.takeId).setPolicy _ _).account _

/-! ### Tenants -/

/-- Creating a tenant changes only records that were touched. -/
theorem Tracks.createTenantAct (h : Tracks s T im) (auth : Authority)
    (name externalSubject : Text) (clock : Clock) :
    Tracks s T (createTenantAct auth name externalSubject clock () im).1 := by
  refine mono (put (h.takeId.touch .tenant im.nextId) .tenant ?_ ?_ h.wellKeyed.started
    (Nat.lt_succ_self _)) (Set.subset_insert _ _)
  · exact Set.mem_insert _ _
  · rfl

/-- Fencing what a tenant owns changes only records that were touched. -/
theorem Tracks.fenceOwned (h : Tracks s T im) (tenant : TenantId) (generation : Generation)
    (now : UnixMicros) (id : VirtualAcceleratorId) :
    Tracks s T (im.fenceOwned tenant generation now id) := by
  unfold Impl.fenceOwned
  split
  · exact h
  · refine mono (modify (T := insert (.virtual, id) T) (fenceLeases ?_ id _ now) .virtual id ?_ ?_)
      (Set.subset_insert _ _)
    · exact h.touchModify .virtual id fun _ => rfl
    · exact Set.mem_insert _ _
    · intro r
      split <;> rfl

/-- Fencing a tenant changes only records that were touched. -/
theorem Tracks.fenceTenantAct (h : Tracks s T im) (auth : Authority) (id : TenantId)
    (reason : Text) (clock : Clock) (tenant : TenantRecord) :
    Tracks s T (fenceTenantAct auth id reason clock tenant im).1 := by
  refine mono (recomputeDerivedAccounting ?_) (Set.subset_insert (.tenant, id) T)
  refine modify ?_ .tenant id (Set.mem_insert _ _) fun _ => rfl
  refine foldl (fun im owned h => h.fenceOwned id _ clock.now owned) _ ?_
  exact h.touchModify .tenant id fun _ => rfl

/-- A runtime with other tenants. -/
def withTenants (im : Impl σ) (tenants : IdMap TenantRecord) : Impl σ :=
  { im with state.tenants := tenants }

/-- What a tenant owns decides nothing of the other records. -/
theorem modify_tenant_withTenants (im : Impl σ) (m : IdMap TenantRecord) (id : ℕ)
    (f : TenantRecord → TenantRecord) :
    (im.withTenants m).modify .tenant id f = im.withTenants (m.modify id f) := rfl

/-- A change of one record that a view of it does not see. -/
theorem map_getElem?_modify {α β : Type} (map : IdMap α) (id : ℕ) {f : α → α} {view : α → β}
    (h : ∀ r, view (f r) = view r) (id' : ℕ) :
    (map.modify id f)[id']?.map view = map[id']?.map view := by
  rw [Std.ExtTreeMap.getElem?_modify]
  split
  · rename_i hid
    rw [show id' = id by simpa using (Nat.compare_eq_eq.mp hid).symm, Option.map_map]
    exact congrArg (Option.map · map[id]?) (funext h)
  · rfl

/-- The source of a transfer is touched by the fencing of its leases, if it had any. -/
theorem Tracks.releaseSource (h : Tracks s T im) (hw : s.state.WellKeyed) (id : TenantId)
    {f : TenantRecord → TenantRecord} (hf : ∀ r, (f r).standing = r.standing) :
    ∃ m, Tracks (s.withTenants m) T (im.modify .tenant id f) ∧
      (s.withTenants m).state.WellKeyed ∧ (∀ id', id' ≠ id → m[id']? = s.state.tenants[id']?) ∧
      ∀ id' : ℕ, m[id']?.map TenantRecord.standing =
        s.state.tenants[id']?.map TenantRecord.standing := by
  have hid' : ∀ r, (f r).id = r.id := fun r =>
    show (f r).standing.id = r.standing.id from congrArg TenantRecord.id (hf r)
  by_cases hid : id ∈ im.undo.saved .tenant
  · exact ⟨s.state.tenants, ((h.ofSaved hid).modify .tenant id (Set.mem_insert _ _) hid').mono
      (Set.subset_insert _ _), hw, fun _ _ => rfl, fun _ => rfl⟩
  · refine ⟨s.state.tenants.modify id f, h.rebase hid hid', hw.modify .tenant id hid',
      fun id' hne => ?_, map_getElem?_modify _ _ hf⟩
    rw [Std.ExtTreeMap.getElem?_modify, if_neg (by simpa using hne.symm)]

/-- Fencing leases touches no tenant but the owner. -/
theorem saved_tenant_fenceLeases (im : Impl σ) {id : VirtualAcceleratorId}
    {v : VirtualAcceleratorRecord} (hv : im.state.virtuals[id]? = some v) (reason : Text)
    (now : UnixMicros) {id' : TenantId} (hne : id' ≠ v.owner) :
    id' ∈ (im.fenceLeases id reason now).undo.saved .tenant ↔ id' ∈ im.undo.saved .tenant := by
  have hlease : ∀ (im : Impl σ) l, (im.fenceLease reason now l).undo.saved .tenant =
      im.undo.saved .tenant := by
    intro im l
    unfold Impl.fenceLease
    split
    · rfl
    · split <;> rfl
  have hleases : ∀ (im : Impl σ) (l : List LeaseId),
      (l.foldl (fun im lease => im.fenceLease reason now lease) im).undo.saved .tenant =
        im.undo.saved .tenant :=
    fun im l => foldl_unchanged (f := fun im : Impl σ => im.undo.saved .tenant) hlease l im
  have hvirtual : id' ∈ ((v.leases.foldl (fun im lease => im.fenceLease reason now lease)
      im).touchVirtual v.id).undo.saved .tenant ↔ id' ∈ im.undo.saved .tenant := by
    rw [← hleases im v.leases]
    exact mem_saved_touch.trans (or_iff_right fun hc => nomatch hc.1)
  simp only [Impl.fenceLeases, hv]
  split
  · rw [hleases]
  · split
    · exact hvirtual
    · exact (mem_saved_touch.trans (or_iff_right fun hc => hne hc.2)).trans hvirtual

/-- What a tenant gains. -/
def acquire (id : VirtualAcceleratorId) (now : UnixMicros) (t : TenantRecord) : TenantRecord :=
  { t with owned := (t.owned ++ [id]).insertionSort (· ≤ ·), updatedAt := now }

/-- The destination of a transfer is changed before it is touched, so the transfer is tracked
from a state in which the destination has its gain already. -/
theorem Tracks.transferOwnershipAct (h : Tracks im ∅ im) (auth : Authority)
    {newOwner : TenantId} (clock : Clock) {t : Transfer} (ht : t.toOwned.Current im.state)
    (hd : im.state.tenants[newOwner]? = some t.destination) (hne : newOwner ≠ t.record.owner)
    (hnone : ∀ id, id ∉ im.undo.saved .tenant) :
    ∃ m, Tracks (im.withTenants m) ∅ (transferOwnershipAct auth newOwner clock t im).1 ∧
      (im.withTenants m).state.WellKeyed ∧
      m[newOwner]? = some (acquire t.record.id clock.now t.destination) ∧
      (∀ id, id ∉ (transferOwnershipAct auth newOwner clock t im).1.undo.saved .tenant →
        m[id]? = im.state.tenants[id]?) ∧
      ∀ id : ℕ, m[id]?.map TenantRecord.standing =
        im.state.tenants[id]?.map TenantRecord.standing := by
  have hid : t.record.id = t.virtualId := h.idOf_eq (k := .virtual) ht.virtual
  have htid : t.tenant.id = t.tenantId := h.idOf_eq (k := .tenant) ht.tenant
  have howner : t.record.owner = t.tenantId := ht.owner.trans htid
  have hf := h.fenceLeases t.virtualId
    (txt "ownership transferred to tenant " ++ strTenant newOwner) clock.now
  obtain ⟨m, hm, hw, hmne, hms⟩ := hf.releaseSource h.wellKeyed t.tenantId (f := fun source =>
    { source with
      owned := source.owned.filter (· ≠ t.record.id), activeAttachments := 0
      updatedAt := clock.now }) fun _ => rfl
  have hs := hm.touch .tenant t.tenant.id
  have hdid : t.destination.id = newOwner := h.idOf_eq (k := .tenant) hd
  have hmain : Tracks (im.withTenants (m.modify newOwner (acquire t.record.id clock.now)))
      (insert (.virtual, t.record.id) (insert (.tenant, t.destination.id)
        (insert (.tenant, t.tenant.id) ∅)))
      (Impl.transferOwnershipAct auth newOwner clock t im).1 := by
    refine modify (touch (touch ?_ .tenant t.destination.id) .virtual t.record.id)
      .virtual t.virtualId ?_ ?_
    · refine hs.rebase (k := .tenant) (f := acquire t.record.id clock.now) ?_ fun _ => rfl
      rw [mem_saved_touch, not_or]
      refine ⟨fun hc => hne (hc.2.trans ht.owner.symm), fun hc => hnone newOwner ?_⟩
      exact (saved_tenant_fenceLeases im ht.virtual _ clock.now hne).mp hc
    · rw [hid]
      exact Set.mem_insert _ _
    · intro r
      dsimp only
      split <;> rfl
  refine ⟨m.modify newOwner (acquire t.record.id clock.now), hmain.mono (Set.empty_subset _),
    hw.modify .tenant newOwner fun _ => rfl, ?_, fun id hnot => ?_, fun id => ?_⟩
  · rw [Std.ExtTreeMap.getElem?_modify, if_pos (by simp), hmne newOwner (howner ▸ hne)]
    simp [hd]
  · -- Both parties are touched in the end.
    have hdest : id ≠ newOwner := by
      rintro rfl
      exact hnot (hmain.touched .tenant _ (by simp [hdid]))
    have hsource : id ≠ t.tenantId := by
      rintro rfl
      exact hnot (hmain.touched .tenant _ (by simp [htid]))
    rw [Std.ExtTreeMap.getElem?_modify, if_neg (by simpa using hdest.symm)]
    exact hmne id hsource
  · have hacquire : ∀ r, (acquire t.record.id clock.now r).standing = r.standing := fun _ => rfl
    exact (map_getElem?_modify m newOwner hacquire id).trans (hms id)

/-! ### Virtual accelerators -/

/-- An operation that is one transition changes only records that were touched. -/
theorem Tracks.transitionAct (h : Tracks s T im) (context : OpContext) (clock : Clock)
    (id : VirtualAcceleratorId) (target : VirtualLifecycleState) (reason : Text)
    {after : Impl σ → Impl σ} (hafter : ∀ im, Tracks s T im → Tracks s T (after im)) :
    Tracks s T (transitionAct context clock id target reason after im).1 := by
  have ht := h.transition clock id target reason
  unfold Impl.transitionAct
  split <;> rename_i him <;> rw [him] at ht
  · exact ht
  · exact hafter _ ht

/-- Creating a virtual accelerator changes only records that were touched. -/
theorem Tracks.createVirtualAct (h : Tracks s T im) (auth : Authority) (name : Text)
    {owner : TenantId} (ownerGeneration : Generation) (contract : ResourceContract) (clock : Clock)
    {tenant : TenantRecord} (ht : im.state.tenants[owner]? = some tenant) :
    Tracks s T (createVirtualAct auth name owner ownerGeneration contract clock tenant im).1 := by
  have hid : tenant.id = owner := h.idOf_eq (k := .tenant) ht
  simp only [Impl.createVirtualAct, hid]
  refine touchHeader (account (edit ?_ .tenant owner ?_) _)
  · refine mono (put (h.takeId.takeId.touch .virtual im.nextId).takeId .virtual ?_ ?_
      h.wellKeyed.started ?_) (Set.subset_insert _ _)
    · exact Set.mem_insert _ _
    · rfl
    · exact Nat.lt_add_of_pos_right (n := im.state.nextSequence) (k := 3) (by decide)
  · exact fun _ => rfl

/-- Probing a contract changes only records that were touched. -/
theorem Tracks.probeContract (h : Tracks s T im) (record : VirtualAcceleratorRecord)
    (contract : ResourceContract) : Tracks s T (im.probeContract record contract).1 := by
  unfold Impl.probeContract
  split
  · exact h
  · exact h.takeId

/-- A new contract changes only records that were touched. -/
theorem Tracks.updateContractAct (h : Tracks s T im) (auth : Authority)
    (contract : ResourceContract) (clock : Clock) {owned : Owned} (ho : owned.Current im.state) :
    Tracks s T (updateContractAct auth contract clock owned im).1 := by
  have hid : owned.record.id = owned.virtualId := h.idOf_eq (k := .virtual) ho.virtual
  have hp := h.probeContract owned.record (contract.normalize im.options.sorting)
  simp only [Impl.updateContractAct]
  split <;> rename_i him <;> rw [him] at hp
  · exact hp
  · rw [hid]
    refine mono (rebuildProjection (modify (hp.touch .virtual owned.virtualId).takeId .virtual
      owned.virtualId ?_ ?_) ?_) (Set.subset_insert _ _)
    · exact Set.mem_insert _ _
    · exact fun _ => rfl
    · exact Set.mem_insert _ _

/-- A suspension changes only records that were touched. -/
theorem Tracks.suspendAct (h : Tracks s T im) (auth : Authority) (reason : Text) (clock : Clock)
    {owned : Owned} (ho : owned.Current im.state) :
    Tracks s T (suspendAct auth reason clock owned im).1 := by
  have hid : owned.record.id = owned.virtualId := h.idOf_eq (k := .virtual) ho.virtual
  simp only [Impl.suspendAct, hid]
  refine mono ?_ (Set.subset_insert (.virtual, owned.virtualId) T)
  refine transitionAct ?_ _ clock _ _ _ fun _ h => h.recomputeDerivedAccounting
  refine rebuildProjection (modify (touch (releaseBacking ?_ _) .virtual owned.virtualId) .virtual
    owned.virtualId ?_ ?_) ?_
  · split
    · exact h.revokeAssignment _ _ clock.now
    · exact h
  · exact Set.mem_insert _ _
  · exact fun _ => rfl
  · exact Set.mem_insert _ _

/-- Fencing a virtual accelerator changes only records that were touched. -/
theorem Tracks.fenceVirtualAct (h : Tracks s T im) (auth : Authority) (reason : Text)
    (clock : Clock) (owned : Owned) :
    Tracks s T (fenceVirtualAct auth reason clock owned im).1 := by
  refine transitionAct ?_ _ clock _ _ _ fun _ h => h.recomputeDerivedAccounting
  exact ((h.fenceLeases owned.virtualId _ clock.now).touch .virtual _).mono (Set.subset_insert _ _)

/-- The owner of a resolved virtual accelerator is there, so nothing is made in its place. -/
theorem emplace_of_isSome {k : RecordKind} {id : ℕ} {r : k.Record}
    (h : (im.state.find k id).isSome) : im.emplace k id r = im := by
  have hmem : id ∈ im.state.entities k := Std.ExtTreeMap.isSome_getElem?_iff_mem.mp h
  have hm : (im.state.entities k).insertIfNew id r = im.state.entities k := by
    refine Std.ExtTreeMap.ext_getElem? fun id' => ?_
    rw [Std.ExtTreeMap.getElem?_insertIfNew, if_neg (fun hc => hc.2 hmem)]
  unfold Impl.emplace
  rw [hm]
  cases k <;> rfl

/-- A retirement changes only records that were touched. -/
theorem Tracks.retireVirtualAct (h : Tracks s T im) (auth : Authority) (reason : Text)
    (clock : Clock) {owned : Owned} (ho : owned.Current im.state) (hs : im.state = s.state) :
    Tracks s T (retireVirtualAct auth reason clock owned im).1 := by
  have hid : owned.record.id = owned.virtualId := h.idOf_eq (k := .virtual) ho.virtual
  have htid : owned.tenant.id = owned.tenantId := h.idOf_eq (k := .tenant) ho.tenant
  have howner : (s.state.find .tenant owned.record.owner).isSome := by
    rw [ho.owner, htid, ← hs]
    exact Option.isSome_iff_exists.mpr ⟨_, ho.tenant⟩
  have hf := h.fenceLeases owned.virtualId (txt "virtual accelerator retired") clock.now
  have hkept := hf.kept _ _ howner
  obtain ⟨tenant, htenant⟩ := Option.isSome_iff_exists.mp hkept
  have hkey : tenant.id = owned.record.owner := hf.idOf_eq (k := .tenant) htenant
  simp only [Impl.retireVirtualAct, hid, emplace_of_isSome hkept]
  rw [show (im.fenceLeases owned.virtualId (txt "virtual accelerator retired")
    clock.now).state.tenants[owned.record.owner]? = some tenant from htenant, Option.getD_some,
      hkey]
  refine mono ?_ (Set.subset_insert (.virtual, owned.virtualId) T)
  refine transitionAct ?_ _ clock _ _ _ fun _ h => (h.account _).recomputeDerivedAccounting
  refine rebuildProjection (modify (touch (releaseBacking ?_ _) .virtual owned.virtualId) .virtual
    owned.virtualId ?_ ?_) ?_
  · have ht := hf.edit .tenant owned.record.owner (f := fun owner =>
      { owner with owned := owner.owned.filter (· ≠ owned.virtualId) }) fun _ => rfl
    split
    · exact ht.revokeAssignment _ _ clock.now
    · exact ht
  · exact Set.mem_insert _ _
  · exact fun _ => rfl
  · exact Set.mem_insert _ _

/-! ### Assignments and leases -/

/-- What holds after both branches of a conditional step holds after the step. -/
theorem ite_fst {α : Type} {p : Impl σ → Prop} {c : Prop} [Decidable c] {x y : Impl σ × α}
    {im' : Impl σ} {a : α} (hx : p x.1) (hy : p y.1) (hr : (if c then x else y) = (im', a)) :
    p im' := by
  split at hr
  · rwa [hr] at hx
  · rwa [hr] at hy

/-- Draining the assignment that is replaced changes only records that were touched. -/
theorem Tracks.drainPrevious (h : Tracks s T im) {id : VirtualAcceleratorId}
    {value : VirtualAcceleratorRecord} (hid : value.id = id) (now : UnixMicros) :
    Tracks s T (im.drainPrevious id value now) := by
  simp only [Impl.drainPrevious, hid]
  refine fenceLeases (edit (releaseBacking ?_ _) .virtual id ?_) id _ now
  · split
    · exact h
    · refine account (h.edit .assignment _ ?_) _
      exact fun _ => rfl
  · exact fun _ => rfl

/-- Assigning a backing changes only records that were touched. -/
theorem Tracks.assignBackingAct (h : Tracks s T im) (operation : String) (auth : Authority)
    {backing : BackingId} (replacing : Bool) (reason : Text) (clock : Clock)
    {plan : Owned × BackingRecord} (ho : plan.1.Current im.state) :
    Tracks s T (assignBackingAct operation auth backing replacing reason clock plan im).1 := by
  obtain ⟨owned, record⟩ := plan
  have hid : owned.record.id = owned.virtualId := h.idOf_eq (k := .virtual) ho.virtual
  simp only [Impl.assignBackingAct]
  have hd : Tracks s T (if replacing then im.drainPrevious owned.virtualId owned.record clock.now
      else im) := by
    split
    · exact h.drainPrevious hid clock.now
    · exact h
  generalize (if replacing then im.drainPrevious owned.virtualId owned.record clock.now
    else im) = im' at hd
  rw [hid]
  refine touchHeader (account (edit ?_ .backing backing ?_) _)
  · refine mono (put (touch (T := insert (.virtual, owned.virtualId) T) ?_ .assignment im'.nextId)
      .assignment ?_ ?_ hd.wellKeyed.started ?_)
      ((Set.subset_insert _ _).trans (Set.subset_insert _ _))
    · refine modify (rebuildProjection (modify (hd.takeId.touch .virtual owned.virtualId) .virtual
        owned.virtualId ?_ ?_) ?_) .virtual owned.virtualId ?_ ?_
      · exact Set.mem_insert _ _
      · exact fun _ => rfl
      · exact Set.mem_insert _ _
      · exact Set.mem_insert _ _
      · exact fun _ => rfl
    · exact Set.mem_insert _ _
    · rfl
    · exact Nat.lt_add_of_pos_right (n := im'.state.nextSequence) (k := 2) (by decide)
  · exact fun _ => rfl

/-- Granting a lease changes only records that were touched. -/
theorem Tracks.grantLease (h : Tracks s T im) {lease : LeaseRecord} (h0 : 0 < lease.id)
    (hlt : lease.id < im.state.nextSequence) : Tracks s T (im.grantLease lease) := by
  refine touchHeader (account (mono (put (h.touch .lease lease.id) .lease ?_ ?_ h0 hlt)
    (Set.subset_insert _ _)) _)
  · exact Set.mem_insert _ _
  · rfl

/-- An attachment changes only records that were touched. -/
theorem Tracks.attachAct (h : Tracks s T im) (auth : Authority) (clock : Clock) {owned : Owned}
    (ho : owned.Current im.state) : Tracks s T (attachAct auth clock owned im).1 := by
  have hid : owned.record.id = owned.virtualId := h.idOf_eq (k := .virtual) ho.virtual
  have htid : owned.tenant.id = owned.tenantId := h.idOf_eq (k := .tenant) ho.tenant
  simp only [Impl.attachAct, hid, htid]
  have he := (h.takeId.edit .virtual owned.virtualId (f := fun v =>
    { v with
      leases := (v.leases ++ [im.nextId]).insertionSort (· ≤ ·)
      activeAttachments := v.activeAttachments + 1
      updatedAt := clock.now }) fun _ => rfl).edit .tenant owned.tenantId (f := fun t =>
    { t with activeAttachments := t.activeAttachments + 1, updatedAt := clock.now }) fun _ => rfl
  have hlt : im.nextId < im.nextId + 1 := Nat.lt_succ_self _
  split <;> rename_i him
  · exact ite_fst he (he.transition clock _ _ _) him
  · refine (ite_fst he (he.transition clock _ _ _) him).grantLease h.wellKeyed.started
      (ite_fst (p := fun im' => im.nextId < im'.state.nextSequence) hlt ?_ him)
    rw [nextSequence_transition]
    exact hlt

/-- Renewing a lease changes only records that were touched. -/
theorem Tracks.renewLeaseAct (h : Tracks s T im) (auth : Authority) (clock : Clock)
    {target : LeaseId × LeaseRecord} (hl : im.state.leases[target.1]? = some target.2) :
    Tracks s T (renewLeaseAct auth clock target im).1 := by
  have hid : target.2.id = target.1 := h.idOf_eq (k := .lease) hl
  simp only [Impl.renewLeaseAct, hid]
  refine touchHeader (account (h.edit .lease target.1 ?_) _)
  exact fun _ => rfl

/-- Releasing a lease changes only records that were touched. -/
theorem Tracks.releaseLease (h : Tracks s T im) {held : Held} (hh : held.Current im.state)
    (reason : Text) (now : UnixMicros) (book : AccountingCounters → AccountingCounters) :
    Tracks s T (im.releaseLease held reason now book) := by
  have hid : held.record.id = held.virtualId := h.idOf_eq (k := .virtual) hh.owned.virtual
  have hlid : held.lease.id = held.leaseId := h.idOf_eq (k := .lease) hh.lease
  simp only [Impl.releaseLease, hid, hlid]
  have he := (h.edit .lease held.leaseId (f := fun lease =>
    { lease with state := .revoked, revokedAt := now, reason }) fun _ => rfl).edit .virtual
    held.virtualId (f := fun v =>
      { v with activeAttachments := v.activeAttachments - 1, updatedAt := now }) fun _ => rfl
  refine touchHeader (account ?_ _)
  split
  · exact he
  · exact he.edit .tenant held.lease.tenant fun _ => rfl

/-- Detaching or revoking a lease changes only records that were touched. -/
theorem Tracks.releaseLeaseAct (h : Tracks s T im) (operation : String) (auth : Authority)
    (clock : Clock) (reason : Text) (lastReason : String)
    (book : AccountingCounters → AccountingCounters) {held : Held}
    (hh : held.Current im.state) :
    Tracks s T (releaseLeaseAct operation auth clock reason lastReason book held im).1 := by
  have hr := h.releaseLease hh reason clock.now book
  simp only [Impl.releaseLeaseAct]
  split <;> rename_i him
  · exact ite_fst (hr.transition clock _ _ _) hr him
  · exact ite_fst (hr.transition clock _ _ _) hr him

/-! ### Migrations -/

/-- Planning a migration changes only records that were touched. -/
theorem Tracks.planMigrationAct (h : Tracks s T im) (auth : Authority) (destination : BackingId)
    (klass : MigrationClass) (clock : Clock) {plan : Owned × BackingRecord}
    (ho : plan.1.Current im.state) :
    Tracks s T (planMigrationAct auth destination klass clock plan im).1 := by
  obtain ⟨owned, record⟩ := plan
  have hid : owned.record.id = owned.virtualId := h.idOf_eq (k := .virtual) ho.virtual
  simp only [Impl.planMigrationAct, hid]
  refine touchHeader (account (mono (put (touch ?_ .migration im.nextId) .migration ?_ ?_
    h.wellKeyed.started ?_) (Set.subset_insert _ _)) _)
  · exact h.takeId.edit .virtual owned.virtualId fun _ => rfl
  · exact Set.mem_insert _ _
  · rfl
  · exact Nat.lt_succ_self _

/-- Preparing a migration changes only records that were touched. -/
theorem Tracks.prepareMigrationAct (h : Tracks s T im) (auth : Authority) (clock : Clock)
    {f : InFlight} (hf : f.Current im.state) :
    Tracks s T (prepareMigrationAct auth clock f im).1 := by
  have hmid : f.migration.plan.id = f.migrationId := h.idOf_eq (k := .migration) hf.migration
  have ht := h.transition clock f.virtualId .migrating
    (txt "migration prepared; leases are drained before cutover")
  simp only [Impl.prepareMigrationAct, hmid]
  split <;> rename_i him <;> rw [him] at ht
  · exact ht
  · have hl := ht.fenceLeases f.virtualId
      (txt "migration drained the source backing; the lease is bound to the source generation")
      clock.now
    refine touchHeader (account (edit (mono (put (touch hl.takeId .assignment _) .assignment ?_ ?_
      hl.wellKeyed.started ?_) (Set.subset_insert _ _)) .migration f.migrationId ?_) _)
    · exact Set.mem_insert _ _
    · rfl
    · exact Nat.lt_succ_self _
    · exact fun _ => rfl

/-- Moving authority at a cutover changes only records that were touched. -/
theorem Tracks.cutoverAuthority (h : Tracks s T im) (c : Cutover)
    (record : VirtualAcceleratorRecord) (now : UnixMicros) :
    Tracks s T (im.cutoverAuthority c record now) := by
  simp only [Impl.cutoverAuthority]
  refine edit (edit (edit (account (edit h .assignment _ ?_) _) .assignment _ ?_) .backing _ ?_)
    .backing _ ?_
  · exact fun _ => rfl
  · exact fun _ => rfl
  · exact fun _ => rfl
  · exact fun _ => rfl

/-- Rebinding a virtual accelerator changes only records that were touched. -/
theorem Tracks.rebindVirtual (h : Tracks s T im) {c : Cutover}
    (hid : c.record.id = c.virtualId) (now : UnixMicros) :
    Tracks s T (im.rebindVirtual c now) := by
  simp only [Impl.rebindVirtual, hid]
  refine mono (modify (rebuildProjection (h.touchModify .virtual c.virtualId ?_) ?_) .virtual
    c.virtualId ?_ ?_) (Set.subset_insert (.virtual, c.virtualId) T)
  · exact fun _ => rfl
  · exact Set.mem_insert _ _
  · exact Set.mem_insert _ _
  · exact fun _ => rfl

/-- A cutover changes only records that were touched. -/
theorem Tracks.commitMigrationAct (h : Tracks s T im) (auth : Authority) (clock : Clock)
    {c : Cutover} (hc : c.toInFlight.Current im.state) :
    Tracks s T (commitMigrationAct auth clock c im).1 := by
  have hid : c.record.id = c.virtualId := h.idOf_eq (k := .virtual) hc.owned.virtual
  have hmid : c.migration.plan.id = c.migrationId := h.idOf_eq (k := .migration) hc.migration
  simp only [Impl.commitMigrationAct, hmid]
  refine touchHeader (account (edit (cutoverAuthority (h.rebindVirtual hid clock.now) c _
    clock.now) .migration c.migrationId ?_) _)
  exact fun _ => rfl

/-- Completing a migration changes only records that were touched. -/
theorem Tracks.completeMigrationAct (h : Tracks s T im) (auth : Authority) (clock : Clock)
    {f : InFlight} (hf : f.Current im.state) :
    Tracks s T (completeMigrationAct auth clock f im).1 := by
  have hid : f.record.id = f.virtualId := h.idOf_eq (k := .virtual) hf.owned.virtual
  have hmid : f.migration.plan.id = f.migrationId := h.idOf_eq (k := .migration) hf.migration
  simp only [Impl.completeMigrationAct, hid, hmid]
  refine edit (h.edit .migration f.migrationId ?_) .virtual f.virtualId ?_
  · exact fun _ => rfl
  · exact fun _ => rfl

/-- Failing the destination of a migration changes only records that were touched. -/
theorem Tracks.failDestination (h : Tracks s T im) (id : BackingAssignmentId) (reason : Text)
    (now : UnixMicros) : Tracks s T (im.failDestination id reason now) := by
  unfold Impl.failDestination
  split
  · exact h
  · exact h.edit .assignment id fun _ => rfl

/-- Aborting a migration changes only records that were touched. -/
theorem Tracks.abortMigrationAct (h : Tracks s T im) (auth : Authority) (reason : Text)
    (clock : Clock) {f : InFlight} (hf : f.Current im.state) :
    Tracks s T (abortMigrationAct auth reason clock f im).1 := by
  have hmid : f.migration.plan.id = f.migrationId := h.idOf_eq (k := .migration) hf.migration
  simp only [Impl.abortMigrationAct, hmid]
  have he := ((h.failDestination f.migration.destinationAssignment
    (txt "migration aborted before cutover: " ++ reason) clock.now).edit .migration f.migrationId
    (f := fun m =>
      { m with
        state := .aborted
        sourceAuthoritative := true
        destinationAuthoritative := false
        completedAt := clock.now
        note := reason }) fun _ => rfl).account fun a =>
    { a with migrationsAborted := a.migrationsAborted + 1 }
  split <;> rename_i him
  · exact ite_fst (he.transition clock _ _ _) he him
  · exact (ite_fst (he.transition clock _ _ _) he him).touchHeader

/-! ### Execution -/

/-- Reserving memory changes only records that were touched. -/
theorem Tracks.reserveAllocationAct (h : Tracks s T im) (auth : Authority) (bytes : ℕ)
    {plan : Owned × LeaseRecord} (ho : plan.1.Current im.state) :
    Tracks s T (reserveAllocationAct auth bytes plan im).1 := by
  obtain ⟨owned, lease⟩ := plan
  have hid : owned.record.id = owned.virtualId := h.idOf_eq (k := .virtual) ho.virtual
  simp only [Impl.reserveAllocationAct, hid]
  refine touchHeader (account (h.edit .virtual owned.virtualId ?_) _)
  exact fun _ => rfl

/-- Releasing memory changes only records that were touched. -/
theorem Tracks.releaseAllocationAct (h : Tracks s T im) (auth : Authority) (bytes : ℕ)
    {target : VirtualAcceleratorId × VirtualAcceleratorRecord}
    (hv : im.state.virtuals[target.1]? = some target.2) :
    Tracks s T (releaseAllocationAct auth bytes target im).1 := by
  have hid : target.2.id = target.1 := h.idOf_eq (k := .virtual) hv
  simp only [Impl.releaseAllocationAct, hid]
  refine touchHeader (account (h.edit .virtual target.1 ?_) _)
  exact fun _ => rfl

/-- Counting kernels changes only records that were touched. -/
theorem Tracks.accountKernelAct (h : Tracks s T im) (auth : Authority) (count : ℕ)
    {plan : Owned × LeaseRecord} (ho : plan.1.Current im.state) :
    Tracks s T (accountKernelAct auth count plan im).1 := by
  obtain ⟨owned, lease⟩ := plan
  have hid : owned.record.id = owned.virtualId := h.idOf_eq (k := .virtual) ho.virtual
  simp only [Impl.accountKernelAct, hid]
  refine touchHeader (account (h.edit .virtual owned.virtualId ?_) _)
  exact fun _ => rfl

/-! ### Classification after a restart -/

/-- Failing a destination after a restart changes only records that were touched. -/
theorem Tracks.failRecovered (h : Tracks s T im) (now : UnixMicros) (id : BackingAssignmentId) :
    Tracks s T (im.failRecovered now id) := by
  unfold Impl.failRecovered
  split
  · exact h
  · split
    · exact h
    · exact h.edit .assignment id fun _ => rfl

theorem virtuals_failRecovered (im : Impl σ) (now : UnixMicros) (id : BackingAssignmentId) :
    (im.failRecovered now id).state.virtuals = im.state.virtuals := by
  unfold failRecovered
  split
  · rfl
  · split <;> rfl

/-- Aborting a migration after a restart changes only records that were touched. -/
theorem Tracks.abortRecovered (h : Tracks s T im) (now : UnixMicros) {key : MigrationId}
    {migration : MigrationRecord} (hm : im.state.migrations[key]? = some migration)
    {v : VirtualAcceleratorRecord} (hv : im.state.virtuals[migration.plan.virtualId]? = some v) :
    Tracks s T (im.abortRecovered now key migration) := by
  have hmid : migration.plan.id = key := h.idOf_eq (k := .migration) hm
  have hid : v.id = migration.plan.virtualId := h.idOf_eq (k := .virtual) hv
  simp only [Impl.abortRecovered, hmid, virtuals_failRecovered]
  rw [show (((im.touchMigration key).modify .migration key _).account _).state.virtuals =
    im.state.virtuals from rfl, hv, Option.getD_some, hid]
  refine edit (failRecovered (account (h.edit .migration key ?_) _) now _) .virtual _ ?_
  · exact fun _ => rfl
  · intro r
    split <;> rfl

/-- Classifying a migration after a restart changes only records that were touched. -/
theorem Tracks.classifyMigration (now : UnixMicros) {acc : Impl σ × Bool}
    (h : Tracks s T acc.1) (key : MigrationId) :
    Tracks s T (classifyMigration now acc key).1 := by
  simp only [Impl.classifyMigration]
  split
  · exact h
  · rename_i migration hm
    have hmid : migration.plan.id = key := h.idOf_eq (k := .migration) hm
    split
    · exact h
    · rename_i v hv
      split
      · rw [Impl.completeRecovered, hmid]
        exact h.edit .migration key fun _ => rfl
      · split
        · exact h
        · exact h.abortRecovered now hm hv

/-- Classifying the migrations after a restart changes only records that were touched. -/
theorem Tracks.classifyMigrations (now : UnixMicros) {acc : Impl σ × Bool}
    (h : Tracks s T acc.1) (keys : List MigrationId) :
    Tracks s T (keys.foldl (Impl.classifyMigration now) acc).1 := by
  induction keys generalizing acc with
  | nil => exact h
  | cons key keys ih => exact ih (h.classifyMigration now key)

end Impl

end AcceleratorVirtualization
