import AcceleratorVirtualization.Invariants.BookOperations

/-!
# Operations that sweep over many virtual accelerators

Fencing and losing a tenant's or a device's virtual accelerators is a run of steps, one for each;
a change of the policy, a restart and a shutdown end every lease at once. The counts that these
operations set anew, instead of adjusting them, are right if the tenants list what they own.
-/

namespace AcceleratorVirtualization

namespace Impl

open VirtualizationState Leasing

variable {σ : Type} {R : Seat ℕ ℕ Phase → Seat ℕ ℕ Phase → Prop} {N : Seat ℕ ℕ Phase → Prop}
variable {tight fair : Prop}
variable {im im1 im' : Impl σ}

/-- A run over a list, one step after the other. -/
theorem turns_foldl {α : Type} {step : Impl σ → α → Impl σ} {l : List α}
    (hl : im.book.Leased leaseRules)
    (h : ∀ im1 a, a ∈ l → Turns R N tight fair im im1 → im1.book.Leased leaseRules →
      Turns R N tight fair im1 (step im1 a)) :
    Turns R N tight fair im (l.foldl step im) :=
  List.foldlRecOn l step (motive := Turns R N tight fair im) .refl fun im1 ht a ha =>
    ht.trans (h im1 a ha ht (Book.Steps.leased hl ht))

/-! ### Fencing a tenant -/

/-- The phase of a virtual accelerator whose owner is fenced. -/
def evicted (φ : Phase) (generation : Generation) : Phase :=
  if lifecycleRequiresBacking φ.state then
    { φ with ownerGeneration := generation, state := .fenced, generation := φ.generation + 1 }
  else { φ with ownerGeneration := generation }

theorem book_fenceOwned (hl : im.book.Leased leaseRules) (tenant : TenantId)
    (generation : Generation) (now : UnixMicros) {id : VirtualAcceleratorId}
    {v : VirtualAcceleratorRecord} (hv : im.state.virtuals[id]? = some v) :
    (im.fenceOwned tenant generation now id).book = (im.book.shut id v.toSeat).assign id
      ⟨v.owner, evicted v.toSeat.phase generation, im.leftOver v, v.leases⟩ := by
  have hq := seat_of_virtual hv
  have hnodup : v.toSeat.leases.Nodup := hl.nodup _ _ hq
  let dated : Seat ℕ ℕ Phase :=
    { v.toSeat with phase := { v.toSeat.phase with ownerGeneration := generation } }
  have hbook1 := book_modify_virtual (i := im.touchVirtual id) hv fun v =>
    { v with ownerGeneration := generation }
  generalize him1 : (im.touchVirtual id).modify .virtual id (fun v =>
    { v with ownerGeneration := generation }) = im1 at hbook1
  have hseat1 : im1.book.seat id = some dated := hbook1 ▸ Book.seat_assign_self
  have hbook2 := book_fenceLeases_seat hseat1 hnodup
    (txt "tenant " ++ strTenant tenant ++ txt " was fenced") now
  have hshut : im1.book.shut id dated = (im.book.shut id v.toSeat).assign id
      { dated with active := im.leftOver v } := by
    rw [hbook1]
    exact Book.shut_assign (q := v.toSeat) dated rfl rfl
  simp only [fenceOwned, hv]
  rw [him1, book_modify_seat (q := { dated with active := im.leftOver v })
    (g := fun q => { q with phase := if lifecycleRequiresBacking q.phase.state then
      { q.phase with state := .fenced, generation := q.phase.generation + 1 } else q.phase }) ?_ ?_]
  · rw [hbook2, hshut, Book.assign_assign]
    rfl
  · rw [hbook2, hshut]
    exact Book.seat_assign_self
  · intro v
    by_cases hs : lifecycleRequiresBacking v.state = true <;>
      simp [VirtualAcceleratorRecord.toSeat, hs]

theorem occupied_evicted (φ : Phase) (generation : Generation) :
    ¬ leaseRules.occupied (evicted φ generation) := by
  unfold evicted
  split
  · nofun
  · rename_i hs
    exact fun hc => hs hc

theorem turns_fenceOwned (hl : im.book.Leased leaseRules) (tenant : TenantId)
    (generation : Generation) (now : UnixMicros) (id : VirtualAcceleratorId)
    (hR : ∀ q n, R q ⟨q.owner, evicted q.phase generation, n, q.leases⟩) :
    Turns R N tight fair im (im.fenceOwned tenant generation now id) := by
  cases hv : im.state.virtuals[id]? with
  | none =>
    simp only [fenceOwned, hv]
    exact .refl
  | some v =>
    rw [Turns, book_fenceOwned hl tenant generation now hv]
    exact .single (Book.Step.close (seat_of_virtual hv) (hR v.toSeat _) leftOver_eq_zero
      (occupied_evicted _ _))

/-- What fencing an owned virtual accelerator does to the attachments. -/
theorem seat_fenceOwned (hl : im.book.Leased leaseRules) (tenant : TenantId)
    (generation : Generation) (now : UnixMicros) {id x : VirtualAcceleratorId}
    {q' : Seat ℕ ℕ Phase} (h : (im.fenceOwned tenant generation now id).book.seat x = some q') :
    ∃ q, im.book.seat x = some q ∧ q'.owner = q.owner ∧
      (x = id ∨ q.active = 0 → q'.active = 0) := by
  cases hv : im.state.virtuals[id]? with
  | none =>
    simp only [fenceOwned, hv] at h
    refine ⟨q', h, rfl, fun hor => ?_⟩
    obtain rfl | h0 := hor
    · simp [book, VirtualizationState.book, hv] at h
    · exact h0
  | some v =>
    rw [book_fenceOwned hl tenant generation now hv] at h
    by_cases hx : x = id
    · subst hx
      rw [Book.seat_assign_self] at h
      cases h
      exact ⟨v.toSeat, seat_of_virtual hv, rfl, fun _ =>
        leftOver_eq_zero (hl.counted _ _ (seat_of_virtual hv))⟩
    · rw [Book.seat_assign_of_ne hx] at h
      have hq : im.book.seat x = some q' := (Book.seat_assign_of_ne hx).symm.trans h
      exact ⟨q', hq, rfl, fun hor => hor.resolve_left hx⟩

theorem seat_fenceEachOwned (tenant : TenantId) (generation : Generation) (now : UnixMicros)
    {ids : List VirtualAcceleratorId} (hl : im.book.Leased leaseRules) {x : VirtualAcceleratorId}
    {q' : Seat ℕ ℕ Phase}
    (h : (ids.foldl (fenceOwned tenant generation now) im).book.seat x = some q') :
    ∃ q, im.book.seat x = some q ∧ q'.owner = q.owner ∧
      (x ∈ ids ∨ q.active = 0 → q'.active = 0) := by
  induction ids generalizing im with
  | nil => exact ⟨q', h, rfl, fun hor => hor.resolve_left List.not_mem_nil⟩
  | cons id ids ih =>
    have hl1 : (im.fenceOwned tenant generation now id).book.Leased leaseRules :=
      have hturns : Turns (fun _ _ => True) (fun _ => True) True True im
          (im.fenceOwned tenant generation now id) :=
        turns_fenceOwned hl tenant generation now id fun _ _ => trivial
      Book.Steps.leased hl hturns
    obtain ⟨q1, hq1, ho1, h1⟩ := ih hl1 h
    obtain ⟨q, hq, ho, h0⟩ := seat_fenceOwned hl tenant generation now hq1
    refine ⟨q, hq, ho1.trans ho, fun hor => h1 ?_⟩
    obtain hmem | hzero := hor
    · obtain rfl | hmem := List.mem_cons.mp hmem
      · exact .inr (h0 (.inl rfl))
      · exact .inl hmem
    · exact .inr (h0 (.inr hzero))

/-! ### Rosters -/

/-- What each tenant lists as its own. -/
def roster (im : Impl σ) (id : TenantId) : Option (List VirtualAcceleratorId) :=
  im.state.tenants[id]?.map (·.owned)

/-- A tenant lists its virtual accelerators, each once; those it retired it need not list. -/
structure Rostered (im : Impl σ) : Prop where
  nodup : ∀ t ids, im.roster t = some ids → ids.Nodup
  owned : ∀ t ids x q, im.roster t = some ids → x ∈ ids → im.book.seat x = some q → q.owner = t
  listed : ∀ x q, im.book.seat x = some q → q.phase.state ≠ .retired →
    ∃ ids, im.roster q.owner = some ids ∧ x ∈ ids

theorem roster_modify_tenant {id : ℕ} {f : TenantRecord → TenantRecord}
    (h : ∀ t, (f t).owned = t.owned) : (im.modify .tenant id f).roster = im.roster := by
  funext id'
  simp only [roster, Impl.modify, VirtualizationState.modify, setEntities, entities,
    Std.ExtTreeMap.getElem?_modify]
  split
  · rename_i hid
    rw [Nat.compare_eq_eq.mp hid]
    cases im.state.tenants[id']? with
    | none => rfl
    | some t => simp [h]
  · rfl

theorem roster_congr (h : im1.state.tenants = im.state.tenants) : im1.roster = im.roster := by
  funext id
  rw [roster, roster, h]

theorem roster_touchHeader (im : Impl σ) : im.touchHeader.roster = im.roster := rfl

theorem roster_account (im : Impl σ) (f : AccountingCounters → AccountingCounters) :
    (im.account f).roster = im.roster := rfl

/-- Fencing the leases of a virtual accelerator leaves the rosters as they are. -/
theorem roster_fenceLeases (im : Impl σ) (id : VirtualAcceleratorId) (reason : Text)
    (now : UnixMicros) : (im.fenceLeases id reason now).roster = im.roster := by
  unfold fenceLeases
  split
  · rfl
  · rename_i record hr
    have hfold := roster_congr (tenants_fenceEach reason now record.leases im)
    dsimp only
    split
    · exact hfold
    · refine Eq.trans ?_ hfold
      generalize record.leases.foldl (fun im lease => im.fenceLease reason now lease) im = im1
      split
      · exact roster_congr rfl
      · rw [roster_touchHeader, roster_account, roster_modify_tenant]
        · exact roster_congr rfl
        · exact fun _ => rfl

theorem turns_fenceTenantAct (hl : im.book.Leased leaseRules) {auth : Authority} {clock : Clock}
    {id : TenantId} {reason : Text} {tenant : TenantRecord}
    (ht : im.state.tenants[id]? = some tenant) (hfair : fair → im.Rostered)
    (hR : ∀ q n, R q ⟨q.owner, evicted q.phase (tenant.generation + 1), n, q.leases⟩) :
    Turns R N tight fair im (fenceTenantAct auth id reason clock tenant im).1 := by
  have hbook1 : ((im.touchTenant id).modify .tenant id fun t => { t with
      fenced := true, fenceReason := reason, generation := tenant.generation + 1
      updatedAt := clock.now }).book = im.book := book_modify_tenant_same fun _ => rfl
  simp only [fenceTenantAct]
  generalize ((im.touchTenant id).modify .tenant id fun t => { t with
    fenced := true, fenceReason := reason, generation := tenant.generation + 1
    updatedAt := clock.now } : Impl σ) = im1 at hbook1 ⊢
  have hl1 : im1.book.Leased leaseRules := hbook1 ▸ hl
  have hfold : Turns R N tight fair im
      (tenant.owned.foldl (fenceOwned id (tenant.generation + 1) clock.now) im1) := by
    rw [Turns, ← hbook1]
    exact turns_foldl hl1 fun im2 x _ _ hl2 => turns_fenceOwned hl2 _ _ _ x hR
  refine Relation.ReflTransGen.trans ?_ (turns_recompute _)
  refine hfold.tail ?_
  rw [book_modify_tenant]
  -- nothing the tenant owns is in use any more
  refine Book.Step.audit fun hf hbalanced => Book.Balanced.credit hbalanced ?_
  have hzero : ∀ n : Option TenantRecord, n.elim 0 (fun t =>
      ({ t with activeAttachments := 0 } : TenantRecord).activeAttachments) = 0 := by
    intro n
    cases n <;> rfl
  rw [hzero]
  refine (Book.load_eq_zero fun x q' hq' ho => ?_).symm
  obtain ⟨q, hq, howner, hactive⟩ := seat_fenceEachOwned id _ clock.now hl1 hq'
  rw [hbook1] at hq
  by_cases hr : q.phase.state = .retired
  · exact hactive (.inr (hl.vacant x q hq (.inr hr)))
  · obtain ⟨ids, hids, hx⟩ := (hfair hf).listed x q hq hr
    have hroster : im.roster id = some tenant.owned := by
      simp [roster, ht]
    rw [← howner, ho, hroster] at hids
    cases hids
    exact hactive (.inl hx)

/-! ### Handing over -/

/-- The phase of a virtual accelerator that is handed over. -/
def handedOver (φ : Phase) (generation : Generation) : Phase :=
  if lifecycleRequiresBacking φ.state then
    { φ with
      ownerGeneration := generation, state := .provisioned, generation := φ.generation + 1 }
  else { φ with ownerGeneration := generation, generation := φ.generation + 1 }

theorem occupied_handedOver (φ : Phase) (generation : Generation) :
    ¬ leaseRules.occupied (handedOver φ generation) := by
  unfold handedOver
  split
  · nofun
  · rename_i hs
    exact fun hc => hs hc

/-- A virtual accelerator is handed over; the use of the source is set to nothing. -/
theorem turns_transferOwnershipAct {i : Impl σ} (hl : i.book.Leased leaseRules)
    {auth : Authority} {clock : Clock} {newOwner : TenantId} {t : Transfer}
    (h : t.toOwned.Current i.state)
    (hfair : fair → ∀ x q, i.book.seat x = some q → q.owner = t.tenantId → x ≠ t.virtualId →
      q.active = 0)
    (hR : R t.record.toSeat ⟨t.destination.id,
      handedOver t.record.toSeat.phase t.destination.generation, 0, t.record.leases⟩) :
    Turns R N tight fair i (transferOwnershipAct auth newOwner clock t i).1 := by
  have hq := seat_of_virtual h.virtual
  have hnodup : t.record.toSeat.leases.Nodup := hl.nodup _ _ hq
  have hshut := book_fenceLeases h.virtual hnodup
    (txt "ownership transferred to tenant " ++ strTenant newOwner) clock.now
  generalize him1 : i.fenceLeases t.virtualId
    (txt "ownership transferred to tenant " ++ strTenant newOwner) clock.now = im1 at hshut
  let final : Seat ℕ ℕ Phase := ⟨t.destination.id,
    handedOver t.record.toSeat.phase t.destination.generation, 0, t.record.leases⟩
  have hbook : (transferOwnershipAct auth newOwner clock t i).1.book =
      (((i.book.shut t.virtualId t.record.toSeat).assign t.virtualId final).credit t.tenantId
        0) := by
    simp only [transferOwnershipAct]
    rw [him1, book_modify_seat (q := { t.record.toSeat with active := i.leftOver t.record })
      (g := fun q => ⟨t.destination.id, handedOver q.phase t.destination.generation, 0, q.leases⟩)
      ?_ ?_]
    · rw [touchVirtual, book_touch, touchTenant, book_touch, book_modify_tenant_same, touchTenant,
        book_touch, book_modify_tenant, hshut]
      · have hzero : (im1.state.tenants[t.tenantId]?.elim 0 fun source =>
            ({ source with
              owned := source.owned.filter (· ≠ t.record.id), activeAttachments := 0
              updatedAt := clock.now } : TenantRecord).activeAttachments) = 0 := by
          cases im1.state.tenants[t.tenantId]? <;> rfl
        rw [hzero]
        rfl
      · exact fun _ => rfl
    · rw [touchVirtual, book_touch, touchTenant, book_touch, book_modify_tenant_same, touchTenant,
        book_touch, book_modify_tenant, hshut]
      · exact seat_shut
      · exact fun _ => rfl
    · intro v
      by_cases hs : lifecycleRequiresBacking v.state = true <;>
        simp [VirtualAcceleratorRecord.toSeat, handedOver, hs]
  rw [Turns, hbook]
  -- the seat is closed, and then the old owner's account is set to zero
  refine .tail (.single (Book.Step.close (q := t.record.toSeat) hq hR (fun _ => rfl)
    (occupied_handedOver _ _))) (Book.Step.audit fun hf hbalanced =>
      Book.Balanced.credit hbalanced (Book.load_eq_zero fun x q' hq' ho => ?_).symm)
  by_cases hx : x = t.virtualId
  · subst hx
    rw [Book.seat_assign_self] at hq'
    cases hq'
    rfl
  · rw [Book.seat_assign_of_ne hx] at hq'
    exact hfair hf x q' ((Book.seat_assign_of_ne hx).symm.trans hq') ho hx

/-! ### Registering a device -/

/-- The backings record no other assignments than before, and no assignment has gained
authority. -/
structure Faded (im im1 : Impl σ) : Prop where
  assignment : ∀ (id : ℕ) (a : BackingAssignment), im1.state.assignments[id]? = some a →
    a.authoritative = true → im.state.assignments[id]? = some a
  backing : ∀ (id : ℕ) (b1 : BackingRecord), im1.state.backings[id]? = some b1 →
    b1.activeAssignment = 0 ∨ ∃ b, im.state.backings[id]? = some b ∧
      b.activeAssignment = b1.activeAssignment

/-- The virtual accelerator whose assignment a backing records. -/
def Records (im : Impl σ) (id : BackingId) (x : VirtualAcceleratorId) : Prop :=
  ∃ b a, im.state.backings[id]? = some b ∧ im.state.assignments[b.activeAssignment]? = some a ∧
    a.authoritative = true ∧ a.virtualId = x

theorem Faded.refl : Faded im im := ⟨fun _ _ h _ => h, fun _ b h => .inr ⟨b, h, rfl⟩⟩

theorem Faded.trans (h : Faded im im1) (h' : Faded im1 im') : Faded im im' := by
  refine ⟨fun id a ha hauth => h.assignment id a (h'.assignment id a ha hauth) hauth,
    fun id b2 hb2 => ?_⟩
  obtain h0 | ⟨b1, hb1, heq1⟩ := h'.backing id b2 hb2
  · exact .inl h0
  · obtain h0 | ⟨b, hb, heq⟩ := h.backing id b1 hb1
    · exact .inl (heq1 ▸ h0)
    · exact .inr ⟨b, hb, heq.trans heq1⟩

/-- No backing records a holder it did not record before. -/
theorem Faded.records (h : Faded im im1) (h0 : im.state.assignments[0]? = none) {id : BackingId}
    {x : VirtualAcceleratorId} (hr : im1.Records id x) : im.Records id x := by
  obtain ⟨b1, a, hb1, ha, hauth, hx⟩ := hr
  have ha' := h.assignment _ a ha hauth
  obtain hzero | ⟨b, hb, heq⟩ := h.backing id b1 hb1
  · rw [hzero, h0] at ha'
    cases ha'
  · exact ⟨b, a, hb, heq ▸ ha', hauth, hx⟩

theorem faded_modify_backing {id : ℕ} {f : BackingRecord → BackingRecord} (him : Faded im im1)
    (h : ∀ b, (f b).activeAssignment = b.activeAssignment ∨ (f b).activeAssignment = 0) :
    Faded im (im1.modify .backing id f) := by
  refine him.trans ⟨fun _ _ ha _ => ha, fun id' b1 hb1 => ?_⟩
  simp only [Impl.modify, VirtualizationState.modify, setEntities, entities,
    Std.ExtTreeMap.getElem?_modify] at hb1
  split at hb1
  · rename_i heq
    obtain ⟨b, hb, rfl⟩ := Option.map_eq_some_iff.mp hb1
    rw [Nat.compare_eq_eq.mp heq] at hb
    obtain hsame | hzero := h b
    · exact .inr ⟨b, hb, hsame.symm⟩
    · exact .inl hzero
  · exact .inr ⟨b1, hb1, rfl⟩

theorem faded_revokeAssignment (im : Impl σ) (id : BackingAssignmentId) (reason : Text)
    (now : UnixMicros) : Faded im (im.revokeAssignment id reason now) := by
  unfold revokeAssignment
  split
  · exact .refl
  · split
    · refine ⟨fun id' a ha hauth => ?_, fun _ b hb => .inr ⟨b, hb, rfl⟩⟩
      change (im.state.assignments.modify id _)[id']? = some a at ha
      rw [Std.ExtTreeMap.getElem?_modify] at ha
      split at ha
      · obtain ⟨a0, -, rfl⟩ := Option.map_eq_some_iff.mp ha
        cases hauth
      · exact ha
    · exact .refl

theorem faded_invalidateHolder (im : Impl σ) (now : UnixMicros) (id : VirtualAcceleratorId) :
    Faded im (im.invalidateHolder now id) := by
  unfold invalidateHolder
  split
  · exact .refl
  · split
    · exact ⟨fun _ _ h _ => h, fun _ b h => .inr ⟨b, h, rfl⟩⟩
    · exact .refl

theorem faded_invalidateBacking (im : Impl σ) (now : UnixMicros) (id : BackingId) :
    Faded im (im.invalidateBacking now id) := by
  unfold invalidateBacking
  split
  · exact .refl
  · rename_i b hb
    have hbinding : Faded im (im.invalidateBinding now b.activeAssignment) := by
      unfold invalidateBinding
      split
      · exact .refl
      · split
        · exact (faded_revokeAssignment ..).trans (faded_invalidateHolder ..)
        · exact .refl
    refine faded_modify_backing ⟨hbinding.assignment, hbinding.backing⟩ ?_
    exact fun _ => .inr rfl

theorem faded_materializeBacking (im : Impl σ) (key : PhysicalDeviceId)
    (device : PhysicalDeviceRecord) (now : UnixMicros) (source : BackingDescriptor) :
    Faded im (im.materializeBacking key device now source) := by
  unfold materializeBacking
  split
  · refine faded_modify_backing ⟨fun _ _ ha _ => ha, fun id b1 hb1 => ?_⟩ ?_
    · change (im.state.backings.insertIfNew im.nextId _)[id]? = some b1 at hb1
      rw [Std.ExtTreeMap.getElem?_insertIfNew] at hb1
      split at hb1
      · cases hb1
        exact .inl rfl
      · exact .inr ⟨b1, hb1, rfl⟩
    · exact fun _ => .inl rfl
  · refine faded_modify_backing ⟨fun _ _ ha _ => ha, fun _ b hb => .inr ⟨b, hb, rfl⟩⟩ ?_
    exact fun _ => .inl rfl

/-- Another device sends the holder a backing records to recovery, whatever leases it has. -/
theorem turns_invalidateBacking {P : VirtualLifecycleState → Prop} (now : UnixMicros)
    (id : BackingId) (hP : ∀ x v, im.Records id x → im.state.virtuals[x]? = some v → P v.state)
    (htight : tight → ∀ s, P s → lifecycleAllowsLeases s = false)
    (hR : ∀ q : Seat ℕ ℕ Phase, q.phase.state ≠ .retired → P q.phase.state →
      R q (moved q .recoveryRequired)) :
    Turns R N tight fair im (im.invalidateBacking now id) := by
  unfold invalidateBacking
  split
  · exact .refl
  · rename_i b hb
    refine Turns.congr (j := im.invalidateBinding now b.activeAssignment) ?_ rfl
    unfold invalidateBinding
    split
    · exact .refl
    · rename_i a ha
      split
      · rename_i hauth
        have hsame : (im.revokeAssignment b.activeAssignment
            (txt "the physical device generation changed under this backing") now).book =
            im.book := book_revokeAssignment ..
        generalize (im.revokeAssignment b.activeAssignment
          (txt "the physical device generation changed under this backing") now : Impl σ) = im1
          at hsame ⊢
        unfold invalidateHolder
        split
        · exact .of_book hsame
        · rename_i v hv
          split
          · rename_i hretired
            have hq := seat_of_virtual hv
            rw [Turns, book_modify_virtual (i := im1.touchVirtual a.virtualId) hv,
              show (im1.touchVirtual a.virtualId).book = im1.book from rfl]
            rw [hsame] at hq ⊢
            obtain ⟨v0, hv0, hseat⟩ := virtual_of_seat hq
            have hPv : P v.toSeat.phase.state := by
              rw [← hseat]
              exact hP a.virtualId v0 ⟨b, a, hb, ha, hauth, rfl⟩ hv0
            refine .single (Book.Step.edit (q := v.toSeat) hq (hR v.toSeat hretired hPv)
              (by rintro ⟨⟩) (by rintro (h | h) <;> cases h) fun ht hc => ?_)
            exact Bool.noConfusion ((htight ht _ hPv).symm.trans hc)
          · exact .of_book hsame
      · exact .refl

/-- Materialising a backing leaves the book of leases as it is. -/
@[simp]
theorem book_materializeBacking (im : Impl σ) (key : PhysicalDeviceId)
    (device : PhysicalDeviceRecord) (now : UnixMicros) (source : BackingDescriptor) :
    (im.materializeBacking key device now source).book = im.book := by
  unfold materializeBacking
  split <;> rfl

/-- Refreshing a backing leaves the book of leases as it is. -/
@[simp]
theorem book_refreshBacking (im : Impl σ) (device : PhysicalDeviceRecord) (now : UnixMicros)
    (id : BackingId) : (im.refreshBacking device now id).book = im.book := by
  unfold refreshBacking
  split <;> rfl

/-- The backings a device lists. -/
def stock (im : Impl σ) (key : PhysicalDeviceId) : List BackingId :=
  (im.state.physical[key]?.getD {}).backings

/-- A device lists what it listed before, and what was entered since. -/
theorem stock_materializeBacking (im : Impl σ) (key : PhysicalDeviceId)
    (device : PhysicalDeviceRecord) (now : UnixMicros) (source : BackingDescriptor) :
    im.nextId ≤ (im.materializeBacking key device now source).nextId ∧
      ∀ x ∈ (im.materializeBacking key device now source).stock key,
        x ∈ im.stock key ∨ x = im.nextId := by
  unfold materializeBacking
  split
  · refine ⟨Nat.le_succ _, fun x hx => ?_⟩
    change x ∈ ((im.state.physical.modify key _)[key]?.getD {}).backings at hx
    rw [Std.ExtTreeMap.getElem?_modify, if_pos (Nat.compare_eq_eq.mpr rfl)] at hx
    unfold stock
    cases hp : im.state.physical[key]? with
    | none => simp [hp] at hx
    | some p => simpa [hp, List.mem_insertionSort] using hx
  · exact ⟨Nat.le_refl _, fun x hx => .inl hx⟩

theorem stock_materializeBackings {key : PhysicalDeviceId} {device : PhysicalDeviceRecord}
    {now : UnixMicros} (sources : List BackingDescriptor) (im : Impl σ) :
    im.nextId ≤ (sources.foldl (materializeBacking key device now) im).nextId ∧
      ∀ x ∈ (sources.foldl (materializeBacking key device now) im).stock key,
        x ∈ im.stock key ∨ im.nextId ≤ x := by
  induction sources generalizing im with
  | nil => exact ⟨Nat.le_refl _, fun x hx => .inl hx⟩
  | cons source sources ih =>
    obtain ⟨hle, hmem⟩ := stock_materializeBacking im key device now source
    obtain ⟨hle', hmem'⟩ := ih (im.materializeBacking key device now source)
    refine ⟨hle.trans hle', fun x hx => ?_⟩
    obtain hx | hx := hmem' x hx
    · obtain hx | rfl := hmem x hx
      · exact .inl hx
      · exact .inr (Nat.le_refl _)
    · exact .inr (hle.trans hx)

/-- What leaves its state goes to recovery. -/
def Recovers (q q' : Seat ℕ ℕ Phase) : Prop :=
  q'.phase.state = q.phase.state ∨ q'.phase.state = .recoveryRequired

theorem turns_settleBackings {P : VirtualLifecycleState → Prop} (hw : im.state.WellKeyed)
    (key : PhysicalDeviceId) (changed : Bool) (d : PhysicalDeviceDescriptor) (now : UnixMicros)
    (hP0 : P .recoveryRequired)
    (hP : changed = true → ∀ id ∈ im.stock key, ∀ x v, im.Records id x →
      im.state.virtuals[x]? = some v → P v.state)
    (htight : tight → ∀ s, P s → lifecycleAllowsLeases s = false)
    (hR : ∀ q : Seat ℕ ℕ Phase, q.phase.state ≠ .retired → P q.phase.state →
      R q (moved q .recoveryRequired)) :
    Turns R N tight fair im (im.settleBackings key changed d now) := by
  simp only [settleBackings]
  generalize hm : d.backings.foldl (materializeBacking key (im.state.physical[key]?.getD {}) now)
    im = im1
  have hbook : im1.book = im.book := by
    rw [← hm]
    exact foldl_unchanged (f := fun im : Impl σ => im.book)
      (fun im source => book_materializeBacking im key _ now source) d.backings im
  have hfaded : Faded im im1 := by
    rw [← hm]
    exact List.foldlRecOn d.backings _ (motive := fun im' => Faded im im') .refl
      fun im' h source _ => h.trans (faded_materializeBacking im' key _ now source)
  have hstock : ∀ x ∈ im1.stock key, x ∈ im.stock key ∨ im.nextId ≤ x := by
    rw [← hm]
    exact (stock_materializeBackings d.backings im).2
  split
  · rename_i hchanged
    have hstep : ∀ (im2 : Impl σ), Faded im im2 →
        Book.Steps leaseRules Recovers (fun _ => False) False False im.book im2.book →
        ∀ id ∈ im1.stock key, ∀ x v, im2.Records id x → im2.state.virtuals[x]? = some v →
        P v.state := by
      intro im2 hf2 hs2 id hid x v2 hrecords hv2
      have hrecorded := hf2.records (hw.zero .assignment) hrecords
      have hid : id ∈ im.stock key := by
        obtain hid | hfresh := hstock id hid
        · exact hid
        · obtain ⟨b, -, hb, -⟩ := hrecorded
          rw [show im.state.backings[id]? = none from hw.fresh .backing hfresh] at hb
          cases hb
      have htrans : ∀ q q' q'' : Seat ℕ ℕ Phase, Recovers q q' → Recovers q' q'' →
          Recovers q q'' := by
        rintro q q' q'' h (h' | h')
        · exact h.imp h'.trans h'.trans
        · exact .inr h'
      obtain ⟨q, hq | ⟨-, -, ⟨⟩⟩, hrecovers⟩ := Book.Steps.seat_inv (fun _ => .inl rfl) htrans hs2
        (seat_of_virtual hv2)
      obtain ⟨v, hv, rfl⟩ := virtual_of_seat hq
      obtain hsame | hmoved := hrecovers
      · rw [show v2.state = v.state from hsame]
        exact hP hchanged id hid x v hrecorded hv
      · rw [show v2.state = .recoveryRequired from hmoved]
        exact hP0
    have hrun : ∀ ids : List BackingId, (∀ id ∈ ids, id ∈ im1.stock key) →
        ∀ im2 : Impl σ, Faded im im2 →
        Book.Steps leaseRules Recovers (fun _ => False) False False im.book im2.book →
        Turns R N tight fair im2 (ids.foldl (invalidateBacking now) im2) := by
      intro ids
      induction ids with
      | nil => exact fun _ _ _ _ => .refl
      | cons id ids ih =>
        intro hids im2 hf2 hs2
        have hid := hids id List.mem_cons_self
        refine (turns_invalidateBacking now id (hstep im2 hf2 hs2 id hid) htight hR).trans
          (ih (fun id' hid' => hids id' (List.mem_cons_of_mem _ hid')) _
            (hf2.trans (faded_invalidateBacking im2 now id)) (hs2.trans ?_))
        exact turns_invalidateBacking (P := fun _ => True) now id (fun _ _ _ _ => trivial)
          (by rintro ⟨⟩)
          fun _ _ _ => .inr rfl
    refine Relation.ReflTransGen.trans (Turns.of_book hbook) (hrun _ (fun _ h => h) im1 hfaded ?_)
    rw [hbook]
  · exact .of_book ((foldl_unchanged (f := fun im : Impl σ => im.book)
      (fun im id => book_refreshBacking im _ now id) _ im1).trans hbook)

/-- A device that is not the known one keeps its stock until its backings are settled. -/
theorem stock_describeDevice (agent : AgentId) (boot : AgentBootId) (d : PhysicalDeviceDescriptor)
    (now : UnixMicros) (hchanged : (im.describeDevice agent boot d now).2.2 = true) :
    ∃ key device, im.findDevice d.stableKey = some (key, device) ∧
      samePhysicalIdentity device d = false ∧
      (im.describeDevice agent boot d now).2.1 = key ∧
      (im.describeDevice agent boot d now).1.stock key = device.backings := by
  have hlocated : ∃ key device, im.findDevice d.stableKey = some (key, device) ∧
      samePhysicalIdentity device d = false ∧ (im.locateDevice d).2.1 = key ∧
      (im.locateDevice d).1.stock key = device.backings := by
    have hchanged : (im.locateDevice d).2.2 = true := hchanged
    unfold locateDevice at hchanged ⊢
    cases hf : im.findDevice d.stableKey with
    | none => simp [hf] at hchanged
    | some entry =>
      obtain ⟨key, device⟩ := entry
      simp only [hf] at hchanged ⊢
      refine ⟨key, device, rfl, by simpa using hchanged, rfl, ?_⟩
      rw [if_pos hchanged]
      change ((im.state.physical.modify key _)[key]?.getD {}).backings = _
      rw [Std.ExtTreeMap.getElem?_modify, if_pos (Nat.compare_eq_eq.mpr rfl), findDevice_some hf]
      rfl
  obtain ⟨key, device, hf, hsame, hkey, hstock⟩ := hlocated
  refine ⟨key, device, hf, hsame, hkey, ?_⟩
  simp only [describeDevice, stock]
  rw [hkey]
  change (((im.locateDevice d).1.state.physical.modify key _)[key]?.getD {}).backings = _
  rw [Std.ExtTreeMap.getElem?_modify, if_pos (Nat.compare_eq_eq.mpr rfl), ← hstock]
  unfold stock
  cases (im.locateDevice d).1.state.physical[key]? <;> rfl

/-- Describing a device leaves the book of leases as it is. -/
@[simp]
theorem book_describeDevice (im : Impl σ) (agent : AgentId) (boot : AgentBootId)
    (d : PhysicalDeviceDescriptor) (now : UnixMicros) :
    (im.describeDevice agent boot d now).1.book = im.book := by
  have hl : (im.locateDevice d).1.book = im.book := by
    unfold locateDevice
    split
    · rfl
    · dsimp only
      split <;> rfl
  simp only [describeDevice]
  generalize im.locateDevice d = located at hl ⊢
  exact hl

theorem virtuals_describeDevice (im : Impl σ) (agent : AgentId) (boot : AgentBootId)
    (d : PhysicalDeviceDescriptor) (now : UnixMicros) :
    (im.describeDevice agent boot d now).1.state.virtuals = im.state.virtuals ∧
      (im.describeDevice agent boot d now).1.state.assignments = im.state.assignments ∧
      (im.describeDevice agent boot d now).1.state.backings = im.state.backings := by
  have hl : (im.locateDevice d).1.state.virtuals = im.state.virtuals ∧
      (im.locateDevice d).1.state.assignments = im.state.assignments ∧
      (im.locateDevice d).1.state.backings = im.state.backings := by
    unfold locateDevice
    split
    · exact ⟨rfl, rfl, rfl⟩
    · dsimp only
      split <;> exact ⟨rfl, rfl, rfl⟩
  exact hl

theorem turns_registerPhysicalAct {s : Impl σ} {T : Set (RecordKind × ℕ)} (h : Tracks s T im)
    {auth : Authority} {agent : AgentId} {boot : AgentBootId} {d : PhysicalDeviceDescriptor}
    {clock : Clock} {P : VirtualLifecycleState → Prop} (hP0 : P .recoveryRequired)
    (hP : ∀ key device, im.findDevice d.stableKey = some (key, device) →
      samePhysicalIdentity device d = false → ∀ id ∈ device.backings, ∀ x v, im.Records id x →
      im.state.virtuals[x]? = some v → P v.state)
    (htight : tight → ∀ s, P s → lifecycleAllowsLeases s = false)
    (hR : ∀ q : Seat ℕ ℕ Phase, q.phase.state ≠ .retired → P q.phase.state →
      R q (moved q .recoveryRequired)) :
    Turns R N tight fair im (registerPhysicalAct auth agent boot d clock () im).1 := by
  have hw := (h.describeDevice agent boot d clock.now).1.wellKeyed
  obtain ⟨hvirtuals, hassignments, hbackings⟩ := virtuals_describeDevice im agent boot d clock.now
  refine Turns.congr (j := ((im.describeDevice agent boot d clock.now).1.settleBackings
    (im.describeDevice agent boot d clock.now).2.1 (im.describeDevice agent boot d clock.now).2.2 d
    clock.now)) ?_ (book_account _ fun _ => rfl)
  rw [Turns, ← book_describeDevice im agent boot d clock.now]
  refine turns_settleBackings hw _ _ d clock.now hP0 (fun hchanged id hid x v hx hv => ?_) htight hR
  obtain ⟨key, device, hf, hsame, hkey, hstock⟩ :=
    stock_describeDevice agent boot d clock.now hchanged
  rw [hkey, hstock] at hid
  rw [hvirtuals] at hv
  refine hP key device hf hsame id hid x v ?_ hv
  simpa only [Records, hassignments, hbackings] using hx

/-! ### Losing a device -/

/-- The phase of a virtual accelerator that lost its backing. -/
def interrupted (φ : Phase) : Phase :=
  if lifecycleRequiresBacking φ.state then
    { φ with state := .recoveryRequired, generation := φ.generation + 1 }
  else φ

theorem occupied_interrupted (φ : Phase) : ¬ leaseRules.occupied (interrupted φ) := by
  unfold interrupted
  split
  · nofun
  · rename_i hs
    exact fun hc => hs hc

theorem book_interruptHolder {id : VirtualAcceleratorId} {v : VirtualAcceleratorRecord}
    (hv : im.state.virtuals[id]? = some v) (reason : Text) (now : UnixMicros) :
    (im.interruptHolder id v reason now).book =
      im.book.assign id { v.toSeat with phase := interrupted v.toSeat.phase } := by
  simp only [interruptHolder]
  split
  · rename_i hs
    rw [book_modify_virtual (i := im.touchVirtual id) hv]
    congr 1
    simp [VirtualAcceleratorRecord.toSeat, interrupted, hs]
  · rename_i hs
    refine (Book.assign_self ?_).symm
    change im.book.seat id = _
    rw [seat_of_virtual hv]
    simp [VirtualAcceleratorRecord.toSeat, interrupted, hs]

/-- The holder a lost backing records, if any, is interrupted and its leases end. -/
theorem book_loseBacking (hl : im.book.Leased leaseRules) (reason : Text) (now : UnixMicros)
    (id : BackingId) :
    ((im.loseBacking reason now id).book = im.book ∧ ∀ b, im.state.backings[id]? = some b →
      b.assignedTo = 0 ∨ im.state.virtuals[b.assignedTo]? = none) ∨
    ∃ b v, im.state.backings[id]? = some b ∧ im.state.virtuals[b.assignedTo]? = some v ∧
      (im.loseBacking reason now id).book = (im.book.shut b.assignedTo v.toSeat).assign b.assignedTo
        ⟨v.owner, interrupted v.toSeat.phase, im.leftOver v, v.leases⟩ := by
  unfold loseBacking
  split
  · rename_i hnone
    exact .inl ⟨rfl, fun b hb => by rw [hnone] at hb; cases hb⟩
  · rename_i b hb
    have hb' : ∀ b', im.state.backings[id]? = some b' → b' = b := fun b' h =>
      Option.some.inj (h.symm.trans hb)
    dsimp only
    split
    · rename_i hvalid
      refine .inl ⟨rfl, fun b' h => .inl ?_⟩
      rw [hb' b' h]
      simpa [valid] using hvalid
    · split
      · rename_i hv
        exact .inl ⟨rfl, fun b' h => .inr (hb' b' h ▸ hv)⟩
      · rename_i v hv
        refine .inr ⟨b, v, hb, hv, ?_⟩
        -- the backing is gone, its holder is interrupted and its leases are fenced
        generalize him1 : ((im.touchBacking id).modify .backing id fun b =>
          { b with available := false, evidenceFresh := false } : Impl σ) = im1 at hv ⊢
        have hbook1 : im1.book = im.book := by
          rw [← him1]
          rfl
        have hv' : im.state.virtuals[b.assignedTo]? = some v := by
          rw [← hv, ← him1]
          rfl
        have hbook2 := book_interruptHolder hv (txt "backing device disappeared: " ++ reason) now
        generalize im1.interruptHolder b.assignedTo v (txt "backing device disappeared: " ++ reason)
          now = im2 at hbook2 ⊢
        have hnodup : v.toSeat.leases.Nodup := hl.nodup _ _ (seat_of_virtual hv')
        have hseat2 : im2.book.seat b.assignedTo =
            some { v.toSeat with phase := interrupted v.toSeat.phase } :=
          hbook2 ▸ Book.seat_assign_self
        have hbook3 := book_fenceLeases_seat hseat2 hnodup
          (txt "backing device disappeared: " ++ reason) now
        rw [book_modify_backing, book_revokeValid, hbook3, hbook2, hbook1]
        exact Book.shut_assign (q := v.toSeat)
          { v.toSeat with phase := interrupted v.toSeat.phase } rfl rfl

theorem turns_loseBacking (hl : im.book.Leased leaseRules) (reason : Text) (now : UnixMicros)
    (id : BackingId) (hR : ∀ q n, R q ⟨q.owner, interrupted q.phase, n, q.leases⟩) :
    Turns R N tight fair im (im.loseBacking reason now id) := by
  obtain ⟨hsame, -⟩ | ⟨b, v, -, hv, hbook⟩ := book_loseBacking hl reason now id
  · exact .of_book hsame
  · rw [Turns, hbook]
    exact .single (Book.Step.close (seat_of_virtual hv) (hR v.toSeat _) leftOver_eq_zero
      (occupied_interrupted _))

/-- Nothing is listed differently, and no virtual accelerator changed hands or came back. -/
theorem Rostered.congr (h : im.Rostered) (hroster : ∀ t, im1.roster t = im.roster t)
    (hseat : ∀ x q1, im1.book.seat x = some q1 → ∃ q, im.book.seat x = some q ∧
      q1.owner = q.owner ∧ (q.phase.state = .retired → q1.phase.state = .retired)) :
    im1.Rostered := by
  refine ⟨fun t ids ht => h.nodup t ids (hroster t ▸ ht), fun t ids x q1 ht hx hq1 => ?_,
    fun x q1 hq1 hr => ?_⟩
  · obtain ⟨q, hq, ho, -⟩ := hseat x q1 hq1
    rw [ho]
    exact h.owned t ids x q (hroster t ▸ ht) hx hq
  · obtain ⟨q, hq, ho, hretired⟩ := hseat x q1 hq1
    obtain ⟨ids, hids, hx⟩ := h.listed x q hq fun hc => hr (hretired hc)
    exact ⟨ids, by rw [ho, hroster]; exact hids, hx⟩

/-- The use of a tenant, summed up over what it lists. -/
theorem Rostered.sum_owned (h : im.Rostered) (hl : im.book.Leased leaseRules) {id : TenantId}
    {tenant : TenantRecord} (ht : im.state.tenants[id]? = some tenant) :
    (tenant.owned.map fun x => (im.state.virtuals[x]?.map (·.activeAttachments)).getD 0).sum =
      im.book.load (· = id) := by
  have hroster : im.roster id = some tenant.owned := by simp [roster, ht]
  have hsupport : (Function.support fun x : ℕ => Book.share (· = id) (im.book.seat x)) ⊆
      ↑tenant.owned.toFinset := by
    intro x hx
    rw [List.coe_toFinset, Set.mem_ofPred_eq]
    have hx : Book.share (· = id) (im.book.seat x) ≠ 0 := hx
    cases hq : im.book.seat x with
    | none => exact absurd (by rw [hq]; rfl) hx
    | some q =>
      rw [hq] at hx
      by_cases ho : q.owner = id
      · have hactive : q.active ≠ 0 := by
          intro h0
          exact hx (by simp [Book.share, h0])
        have hr : q.phase.state ≠ .retired := fun hc =>
          hactive (hl.vacant x q hq (.inr hc))
        obtain ⟨ids, hids, hmem⟩ := h.listed x q hq hr
        rw [ho, hroster] at hids
        cases hids
        exact hmem
      · exact absurd (by simp [Book.share, ho]) hx
  rw [Book.load, finsum_eq_sum_of_support_subset _ hsupport,
    List.sum_toFinset _ (h.nodup id _ hroster)]
  congr 1
  refine List.map_congr_left fun x hx => ?_
  cases hv : im.state.virtuals[x]? with
  | none => simp [book, VirtualizationState.book, hv, Book.share]
  | some v =>
    have ho := h.owned id _ x _ hroster hx (seat_of_virtual hv)
    rw [seat_of_virtual hv]
    exact (if_pos ho).symm

/-- The count of a tenant, taken from what it lists. -/
theorem turns_recountTenant (hl : im.book.Leased leaseRules) (now : UnixMicros) (id : TenantId)
    (hfair : fair → im.Rostered) : Turns R N tight fair im (im.recountTenant now id) := by
  unfold recountTenant
  split
  · exact .refl
  · rename_i tenant ht
    dsimp only
    split
    · rw [Turns, book_modify_tenant]
      refine .single (Book.Step.audit fun hf hb => Book.Balanced.credit hb ?_)
      change (im.state.tenants[id]?.elim 0 _ : ℕ) = _
      rw [ht]
      exact (hfair hf).sum_owned hl ht
    · exact .refl

/-- Revoking an assignment leaves the rosters as they are. -/
theorem roster_revokeAssignment (im : Impl σ) (id : BackingAssignmentId) (reason : Text)
    (now : UnixMicros) : (im.revokeAssignment id reason now).roster = im.roster := by
  unfold revokeAssignment
  split
  · rfl
  · split <;> exact roster_congr rfl

/-- Losing a backing leaves the rosters as they are. -/
theorem roster_loseBacking (im : Impl σ) (reason : Text) (now : UnixMicros) (id : BackingId) :
    (im.loseBacking reason now id).roster = im.roster := by
  unfold loseBacking
  split
  · rfl
  · rename_i b hb
    dsimp only
    split
    · rfl
    · split
      · rfl
      · rename_i v hv
        have hinterrupt : ∀ im1 : Impl σ, (im1.interruptHolder b.assignedTo v
            (txt "backing device disappeared: " ++ reason) now).roster = im1.roster := by
          intro im1
          simp only [interruptHolder]
          split <;> exact roster_congr rfl
        refine Eq.trans (roster_congr rfl : _ = Impl.roster (if valid v.assignment then _ else _))
          ?_
        split
        · rw [roster_revokeAssignment, roster_fenceLeases, hinterrupt]
          rfl
        · rw [roster_fenceLeases, hinterrupt]
          rfl

theorem roster_recountTenant (im : Impl σ) (now : UnixMicros) (id : TenantId) :
    (im.recountTenant now id).roster = im.roster ∧
      (im.recountTenant now id).book.seat = im.book.seat := by
  unfold recountTenant
  split
  · exact ⟨rfl, rfl⟩
  · dsimp only
    split
    · refine ⟨roster_modify_tenant ?_, ?_⟩
      · exact fun _ => rfl
      · rw [book_modify_tenant]
        rfl
    · exact ⟨rfl, rfl⟩

theorem turns_physicalLostAct (hl : im.book.Leased leaseRules) {id : PhysicalDeviceId}
    {generation : Generation} {reason : Text} {clock : Clock} {device : PhysicalDeviceRecord}
    (hfair : fair → im.Rostered) (hR : ∀ q n, R q ⟨q.owner, interrupted q.phase, n, q.leases⟩) :
    Turns R N tight fair im (physicalLostAct id generation reason clock device im).1 := by
  simp only [physicalLostAct]
  -- the holders
  have hlost : ∀ im1 : Impl σ, im1.book.Leased leaseRules → (fair → im1.Rostered) →
      Turns R N tight fair im1 (device.backings.foldl (loseBacking reason clock.now) im1) ∧
      (fair → (device.backings.foldl (loseBacking reason clock.now) im1).Rostered) := by
    intro im1 hl1 hfair1
    refine List.foldlRecOn device.backings _ (motive := fun im2 => Turns R N tight fair im1 im2 ∧
      (fair → im2.Rostered)) ⟨.refl, hfair1⟩ fun im2 hlost b _ => ?_
    obtain ⟨ht2, hr2⟩ := hlost
    have hl2 := Book.Steps.leased hl1 ht2
    refine ⟨ht2.trans (turns_loseBacking hl2 reason clock.now b hR), fun hf => (hr2 hf).congr
      (fun t => congrFun (roster_loseBacking im2 reason clock.now b) t) fun x q1 hq1 => ?_⟩
    obtain ⟨hsame, -⟩ | ⟨b, v, -, hv, hbook⟩ := book_loseBacking hl2 reason clock.now b
    · rw [hsame] at hq1
      exact ⟨q1, hq1, rfl, fun h => h⟩
    · rw [hbook] at hq1
      by_cases hx : x = b.assignedTo
      · subst hx
        rw [Book.seat_assign_self] at hq1
        cases hq1
        refine ⟨v.toSeat, seat_of_virtual hv, rfl, fun hr => ?_⟩
        have hr' : v.state = .retired := hr
        simp [interrupted, VirtualAcceleratorRecord.toSeat, hr', lifecycleRequiresBacking]
      · rw [Book.seat_assign_of_ne hx] at hq1
        exact ⟨q1, (Book.seat_assign_of_ne hx).symm.trans hq1, rfl, fun h => h⟩
  -- the tenants
  have hrecount : ∀ (ids : List TenantId) (im1 : Impl σ), im1.book.Leased leaseRules →
      (fair → im1.Rostered) →
      Turns R N tight fair im1 (ids.foldl (recountTenant clock.now) im1) := by
    intro ids im1 hl1 hfair1
    refine (List.foldlRecOn ids _ (motive := fun im2 => Turns R N tight fair im1 im2 ∧
      (fair → im2.Rostered)) ⟨.refl, hfair1⟩ fun im2 hrecounted t _ => ?_).1
    obtain ⟨ht2, hr2⟩ := hrecounted
    obtain ⟨hroster, hseat⟩ := roster_recountTenant im2 clock.now t
    refine ⟨ht2.trans (turns_recountTenant (Book.Steps.leased hl1 ht2) clock.now t hr2), fun hf =>
      (hr2 hf).congr (fun t' => congrFun hroster t') fun x q1 hq1 => ⟨q1, ?_, rfl, fun h => h⟩⟩
    rw [← hseat]
    exact hq1
  generalize him0 : ((im.touchPhysical id).modify .physical id fun r =>
    { r with present := false } : Impl σ) = im0
  have hbook0 : im0.book = im.book := by
    rw [← him0]
    rfl
  have hroster0 : im0.roster = im.roster := by
    rw [← him0]
    exact roster_congr rfl
  obtain ⟨ht1, hr1⟩ := hlost im0 (hbook0 ▸ hl) fun hf => (hfair hf).congr
    (fun t => congrFun hroster0 t) fun x q1 hq1 => ⟨q1, hbook0 ▸ hq1, rfl, fun h => h⟩
  have hl1 := Book.Steps.leased (hbook0 ▸ hl) ht1
  have ht0 : Turns R N tight fair im im0 := Turns.of_book hbook0
  have ht2 := (Relation.ReflTransGen.trans ht0 ht1).trans (hrecount
    (device.backings.foldl (loseBacking reason clock.now) im0).state.tenants.keys _ hl1 hr1)
  exact Turns.congr ((Turns.congr ht2 (book_account _ fun _ => rfl)).trans (turns_recompute _)) rfl

end Impl

end AcceleratorVirtualization
