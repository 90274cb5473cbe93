import AcceleratorVirtualization.Invariants.Lives
import AcceleratorVirtualization.Invariants.Passages

/-!
# Bindings and use

A virtual accelerator that is in use has authority over its backing. So an operation that takes
the authority of an assignment away has to end the use of its virtual accelerator, or to let it
point elsewhere. For operations on one virtual accelerator this can be read off the ledger; the
operations that sweep over the backings of a device do it one after the other.
-/

namespace AcceleratorVirtualization

open VirtualizationState Custody Leasing

namespace Impl

variable {σ : Type} {im im1 im' : Impl σ}

theorem ref_inj {id id' : ℕ} (h : ref id = ref id') : id = id' := by
  unfold ref at h
  split at h <;> split at h <;> simp_all

/-- A virtual accelerator as a party of the ledger. -/
theorem party_of_seat {x : VirtualAcceleratorId} {q : Seat ℕ ℕ Phase}
    (h : im.book.seat x = some q) :
    im.ledger.party x = some ⟨ref q.phase.assignment, ref q.phase.backing⟩ := by
  obtain ⟨v, hv, rfl⟩ := virtual_of_seat h
  exact party_of_virtual hv

theorem seat_of_party {x : VirtualAcceleratorId} {p : Pointer ℕ ℕ}
    (h : im.ledger.party x = some p) :
    ∃ q, im.book.seat x = some q ∧ p = ⟨ref q.phase.assignment, ref q.phase.backing⟩ := by
  simp only [ledger, VirtualizationState.ledger, Option.map_eq_some_iff] at h
  obtain ⟨v, hv, rfl⟩ := h
  exact ⟨v.toSeat, seat_of_virtual hv, rfl⟩

/-! ### What becomes of bindings -/

/-- A virtual accelerator points where it did, nowhere, or to an assignment with authority; and
one that is in use does not point to an assignment that lost its authority. -/
structure Yields (im im' : Impl σ) : Prop where
  points : ∀ x q', im'.book.seat x = some q' → q'.phase.assignment = 0 ∨
    (∃ q, im.book.seat x = some q ∧ q'.phase.assignment = q.phase.assignment) ∨
    im'.ledger.Holds q'.phase.assignment x
  holds : ∀ g x, im.ledger.Holds g x → im'.ledger.Holds g x ∨ ∀ q', im'.book.seat x = some q' →
    leaseRules.occupied q'.phase → q'.phase.assignment ≠ g

theorem Yields.of_sheds (hw : im.ledger.grant 0 = none)
    (h : Ledger.Sheds im.ledger im'.ledger) : Yields im im' where
  points x q' hq' := by
    obtain hnone | ⟨p, hp, hgrant⟩ | ⟨g, hgrant, hheld⟩ := h.points x _ (party_of_seat hq')
    · exact .inl (ref_inj hnone)
    · obtain ⟨q, hq, rfl⟩ := seat_of_party hp
      exact .inr (.inl ⟨q, hq, ref_inj hgrant⟩)
    · obtain ⟨rfl, -⟩ := ref_eq_some.mp hgrant
      exact .inr (.inr hheld)
  holds g x hg := by
    refine (h.holds g x hg).imp_right fun hne q' hq' _ hc => ?_
    refine hne _ (party_of_seat hq') (ref_eq_some.mpr ⟨hc, ?_⟩)
    rintro h0
    obtain ⟨r, hr, -⟩ := hg
    rw [← hc, h0, hw] at hr
    cases hr

theorem Yields.of_ledger (hw : im.ledger.grant 0 = none) (h : im'.ledger = im.ledger) :
    Yields im im' :=
  .of_sheds hw (.of_party (by rw [h]) fun g x hg => h ▸ hg)

/-- Along a sweep nothing comes into use, virtual accelerators point where they did or nowhere, and
those that lose their authority are out of use. -/
structure Frees (im im' : Impl σ) : Prop where
  points : ∀ x q', im'.book.seat x = some q' → q'.phase.assignment = 0 ∨
    ∃ q, im.book.seat x = some q ∧ q'.phase.assignment = q.phase.assignment
  idle : ∀ x q', im'.book.seat x = some q' → leaseRules.occupied q'.phase →
    ∃ q, im.book.seat x = some q ∧ leaseRules.occupied q.phase
  holds : ∀ g x, im.ledger.Holds g x → im'.ledger.Holds g x ∨
    ∀ q', im'.book.seat x = some q' → ¬ leaseRules.occupied q'.phase

theorem Frees.of_eq (hseat : im'.book.seat = im.book.seat)
    (hledger : ∀ g x, im.ledger.Holds g x → im'.ledger.Holds g x) : Frees im im' where
  points _ q' hq' := .inr ⟨q', hseat ▸ hq', rfl⟩
  idle _ q' hq' ho := ⟨q', hseat ▸ hq', ho⟩
  holds g x hg := .inl (hledger g x hg)

theorem Frees.refl : Frees im im := .of_eq rfl fun _ _ hg => hg

theorem Frees.trans (h : Frees im im1) (h' : Frees im1 im') : Frees im im' where
  points x q'' hq'' := by
    obtain h0 | ⟨q', hq', hsame'⟩ := h'.points x q'' hq''
    · exact .inl h0
    · obtain h0 | ⟨q, hq, hsame⟩ := h.points x q' hq'
      · exact .inl (hsame'.trans h0)
      · exact .inr ⟨q, hq, hsame'.trans hsame⟩
  idle x q'' hq'' ho := by
    obtain ⟨q', hq', ho'⟩ := h'.idle x q'' hq'' ho
    exact h.idle x q' hq' ho'
  holds g x hg := by
    obtain hg' | hout := h.holds g x hg
    · exact h'.holds g x hg'
    · refine .inr fun q'' hq'' ho => ?_
      obtain ⟨q', hq', ho'⟩ := h'.idle x q'' hq'' ho
      exact hout q' hq' ho'

theorem Frees.yields (h : Frees im im') : Yields im im' where
  points x q' hq' := (h.points x q' hq').imp_right .inl
  holds g x hg := (h.holds g x hg).imp_right fun hout q' hq' ho => absurd ho (hout q' hq')

/-- A sweep, one step after the other, with what each step finds. -/
theorem Frees.foldl {α : Type} {step : Impl σ → α → Impl σ} {Q : Impl σ → Prop} {l : List α}
    (hQ : Q im) (hstep : ∀ im1 a, Q im1 → Q (step im1 a) ∧ Frees im1 (step im1 a)) :
    Frees im (l.foldl step im) :=
  (List.foldlRecOn l _ (motive := fun im1 => Q im1 ∧ Frees im im1) ⟨hQ, .refl⟩
    fun im1 ⟨hq, hf⟩ a _ => ⟨(hstep im1 a hq).1, hf.trans (hstep im1 a hq).2⟩).2

/-- One virtual accelerator goes out of use, and keeps its pointer or loses it; its grant may lose
its authority. -/
theorem Frees.of_assign {x : VirtualAcceleratorId} {q w : Seat ℕ ℕ Phase}
    (hq : im.book.seat x = some q) (hseat : im'.book.seat = Function.update im.book.seat x (some w))
    (hpoint : w.phase.assignment = 0 ∨ w.phase.assignment = q.phase.assignment)
    (hout : ¬ leaseRules.occupied w.phase)
    (hledger : ∀ g y, y ≠ x → im.ledger.Holds g y → im'.ledger.Holds g y) : Frees im im' := by
  have hself : im'.book.seat x = some w := by rw [hseat, Function.update_self]
  have hother : ∀ y, y ≠ x → im'.book.seat y = im.book.seat y := fun y hy => by
    rw [hseat, Function.update_of_ne hy]
  refine ⟨fun y q' hq' => ?_, fun y q' hq' ho => ?_, fun g y hg => ?_⟩
  · by_cases hy : y = x
    · subst hy
      obtain rfl := Option.some.inj (hself.symm.trans hq')
      exact hpoint.imp_right fun h => ⟨q, hq, h⟩
    · exact .inr ⟨q', hother y hy ▸ hq', rfl⟩
  · by_cases hy : y = x
    · subst hy
      obtain rfl := Option.some.inj (hself.symm.trans hq')
      exact absurd ho hout
    · exact ⟨q', hother y hy ▸ hq', ho⟩
  · by_cases hy : y = x
    · subst hy
      refine .inr fun q' hq' => ?_
      obtain rfl := Option.some.inj (hself.symm.trans hq')
      exact hout
    · exact .inl (hledger g y hy hg)

/-- The grant of another virtual accelerator is not the one that is revoked. -/
theorem holds_revoke_of_ne {L : Ledger ℕ ℕ ℕ ℕ} {g a : ℕ} {x y : VirtualAcceleratorId}
    (ha : ∀ z, L.Holds a z → z = x) (hy : y ≠ x) (h : L.Holds g y) : (L.revoke a).Holds g y := by
  refine Ledger.holds_revoke.mpr ⟨?_, h⟩
  rintro rfl
  exact hy (ha y h)

/-! ### Devices -/

theorem book_invalidateHolder {now : UnixMicros} {x : VirtualAcceleratorId}
    {v : VirtualAcceleratorRecord}
    (hv : im.state.virtuals[x]? = some v) (hr : v.state ≠ .retired) :
    (im.invalidateHolder now x).book = im.book.assign x (moved v.toSeat .recoveryRequired) := by
  simp only [invalidateHolder, hv, hr, ne_eq, not_false_eq_true, if_true]
  exact book_modify_virtual (i := im.touchVirtual x) hv _

theorem virtuals_revokeAssignment (im : Impl σ) (id : BackingAssignmentId) (reason : Text)
    (now : UnixMicros) :
    (im.revokeAssignment id reason now).state.virtuals = im.state.virtuals := by
  unfold revokeAssignment
  split
  · rfl
  · split <;> rfl

/-- A virtual accelerator that is sent to recovery, after the grants of no other one lost their
authority. -/
theorem frees_invalidateHolder {x : VirtualAcceleratorId} (now : UnixMicros)
    (hbook : im1.book = im.book)
    (hledger : ∀ g y, y ≠ x → im.ledger.Holds g y → im1.ledger.Holds g y) :
    Frees im (im1.invalidateHolder now x) := by
  have hholds : ∀ g y, y ≠ x → im.ledger.Holds g y →
      (im1.invalidateHolder now x).ledger.Holds g y := by
    intro g y hy hg
    rw [ledger_invalidateHolder]
    exact hledger g y hy hg
  cases hv : im1.state.virtuals[x]? with
  | none =>
    -- there is no holder that could be in use
    have hstay : im1.invalidateHolder now x = im1 := by simp only [invalidateHolder, hv]
    rw [hstay]
    refine ⟨fun y q' hq' => .inr ⟨q', hbook ▸ hq', rfl⟩,
      fun y q' hq' ho => ⟨q', hbook ▸ hq', ho⟩, fun g y hg => ?_⟩
    by_cases hy : y = x
    · subst hy
      refine .inr fun q' hq' => ?_
      obtain ⟨v, hv', -⟩ := virtual_of_seat hq'
      rw [hv] at hv'
      cases hv'
    · exact .inl (hledger g y hy hg)
  | some v =>
    have hseat : im.book.seat x = some v.toSeat := hbook ▸ seat_of_virtual hv
    by_cases hr : v.state = .retired
    · have hstay : im1.invalidateHolder now x = im1 := by
        simp only [invalidateHolder, hv, hr, ne_eq, not_true_eq_false, if_false]
      rw [hstay]
      refine .of_assign (w := v.toSeat) hseat ?_ (.inr rfl) ?_ hledger
      · rw [hbook, ← hseat, Function.update_eq_self]
      · simp [leaseRules, VirtualAcceleratorRecord.toSeat, hr, lifecycleAllowsLeases]
    · refine .of_assign (w := moved v.toSeat .recoveryRequired) hseat ?_ (.inr rfl) ?_ hholds
      · rw [book_invalidateHolder hv hr, hbook]
        rfl
      · simp [leaseRules, moved, lifecycleAllowsLeases]

/-- The holder of an assignment that is revoked goes out of use. -/
theorem frees_invalidateBinding (now : UnixMicros) (id : BackingAssignmentId) :
    Frees im (im.invalidateBinding now id) := by
  unfold invalidateBinding
  split
  · exact .refl
  · rename_i a ha
    split
    · refine frees_invalidateHolder now (book_revokeAssignment ..) fun g y hy hg => ?_
      rw [ledger_revokeAssignment]
      refine holds_revoke_of_ne (x := a.virtualId) ?_ hy hg
      rintro z ⟨r, hr, -, rfl⟩
      rw [grant_of_assignment ha, Option.some.injEq] at hr
      rw [← hr]
      rfl
    · exact .refl

theorem frees_modify_backing {id : BackingId} (f : BackingRecord → BackingRecord) :
    Frees im ((im.touchBacking id).modify .backing id f) :=
  .of_eq rfl fun _ _ hg => hg

/-- Invalidating a backing brings nothing into use. -/
theorem frees_invalidateBacking (now : UnixMicros) (id : BackingId) :
    Frees im (im.invalidateBacking now id) := by
  unfold invalidateBacking
  split
  · exact .refl
  · exact (frees_invalidateBinding now _).trans (frees_modify_backing _)

/-- The grant a virtual accelerator points to is of no other one. -/
theorem eq_of_holds (hc : im.ledger.Coherent) (hw : im.ledger.grant 0 = none)
    {x z : VirtualAcceleratorId} {v : VirtualAcceleratorRecord}
    (hv : im.state.virtuals[x]? = some v) (h : im.ledger.Holds v.assignment z) : z = x := by
  refine hc.party_eq (party_of_virtual hv) ?_ h
  by_cases h0 : v.assignment = 0
  · exact .inr (h0 ▸ hw)
  · exact .inl (ref_of_ne h0)

/-- Losing a backing brings nothing into use. -/
theorem frees_loseBacking (hw : im.state.WellKeyed) (hc : im.ledger.Coherent)
    (hl : im.book.Leased leaseRules) (reason : Text) (now : UnixMicros) (id : BackingId) :
    Frees im (im.loseBacking reason now id) := by
  obtain ⟨hsame, hnone⟩ | ⟨b, v, hb, hv, hbook⟩ := book_loseBacking hl reason now id
  · obtain hledger | ⟨b, v, hb, hv, -⟩ := ledger_loseBacking hw reason now id
    · exact .of_eq (by rw [hsame]) fun g x hg => hledger ▸ hg
    · -- a holder that is there is not left alone
      obtain h0 | h0 := hnone b hb
      · exact absurd (hw.issued .virtual _ v hv).1 (by simp [h0])
      · rw [h0] at hv
        cases hv
  · refine .of_assign (w := ⟨v.owner, interrupted v.toSeat.phase, im.leftOver v, v.leases⟩)
      (seat_of_virtual hv) ?_ (.inr ?_) (occupied_interrupted _) fun g y hy hg => ?_
    · rw [hbook]
      simp only [Book.assign, Book.shut, Book.discharge, Book.stop, Function.update_idem]
    · simp only [interrupted]
      split <;> rfl
    · obtain hledger | ⟨b', v', hb', hv', hledger⟩ := ledger_loseBacking hw reason now id
      · exact hledger ▸ hg
      · rw [hb, Option.some.injEq] at hb'
        subst hb'
        rw [hv, Option.some.injEq] at hv'
        subst hv'
        rw [hledger]
        exact Ledger.holds_mark.mpr (holds_revoke_of_ne
          (fun z hz => eq_of_holds hc (grant_zero hw) hv hz) hy hg)

/-! ### Operations -/

section Acts

variable {auth : Authority} {clock : Clock}

/-- Materialising a backing brings nothing into use. -/
theorem frees_materializeBacking (hw : im.state.WellKeyed) (key : PhysicalDeviceId)
    (device : PhysicalDeviceRecord) (now : UnixMicros) (source : BackingDescriptor) :
    Frees im (im.materializeBacking key device now source) := by
  refine .of_eq (by rw [book_materializeBacking]) fun g x hg => ?_
  obtain hledger | ⟨id, b, -, -, -, hledger⟩ :=
    ledger_materializeBacking hw key device now source <;> rw [hledger] <;> exact hg

/-- Settling the backings of a device brings nothing into use. -/
theorem frees_settleBackings {s : Impl σ} {T : Set (RecordKind × ℕ)} (h : Tracks s T im)
    {key : PhysicalDeviceId} (ht : (.physical, key) ∈ T) (changed : Bool)
    (d : PhysicalDeviceDescriptor) (now : UnixMicros) :
    Frees im (im.settleBackings key changed d now) := by
  simp only [settleBackings]
  have hmaterial : Frees im (d.backings.foldl (materializeBacking key
      (im.state.physical[key]?.getD {}) now) im) :=
    Frees.foldl (Q := fun im1 => Tracks s T im1) h fun im1 source h1 =>
      ⟨h1.materializeBacking ht _ now source,
        frees_materializeBacking h1.wellKeyed key _ now source⟩
  refine hmaterial.trans ?_
  split
  · exact Frees.foldl (Q := fun _ => True) trivial fun _ id _ =>
      ⟨trivial, frees_invalidateBacking now id⟩
  · exact Frees.foldl (Q := fun _ => True) trivial fun im1 id _ =>
      ⟨trivial, .of_eq (by rw [book_refreshBacking]) fun g x hg => by
        rw [ledger_refreshBacking]; exact hg⟩

/-- Registering a device brings nothing into use. -/
theorem frees_registerPhysicalAct {s : Impl σ} {T : Set (RecordKind × ℕ)} (h : Tracks s T im)
    {agent : AgentId} {boot : AgentBootId} {d : PhysicalDeviceDescriptor} :
    Frees im (registerPhysicalAct auth agent boot d clock () im).1 := by
  have hdescribed : Frees im (im.describeDevice agent boot d clock.now).1 :=
    .of_eq (by rw [book_describeDevice]) fun g x hg => by rw [ledger_describeDevice]; exact hg
  refine hdescribed.trans ?_
  exact (frees_settleBackings (h.describeDevice agent boot d clock.now).1 (Set.mem_insert _ _)
    _ d clock.now).trans (.of_eq rfl fun _ _ hg => hg)

/-- Losing a device brings nothing into use. -/
theorem frees_physicalLostAct {s : Impl σ} {T : Set (RecordKind × ℕ)} (h : Tracks s T im)
    (hc : im.ledger.Coherent) (hl : im.book.Leased leaseRules) {id : PhysicalDeviceId}
    {generation : Generation} {reason : Text} {device : PhysicalDeviceRecord} :
    Frees im (physicalLostAct id generation reason clock device im).1 := by
  simp only [physicalLostAct]
  generalize him0 : ((im.touchPhysical id).modify .physical id fun r =>
    { r with present := false } : Impl σ) = im0
  have h0 : Tracks s T im0 := him0 ▸ h.edit .physical id fun _ => rfl
  have hc0 : im0.ledger.Coherent := him0 ▸ hc
  have hl0 : im0.book.Leased leaseRules := him0 ▸ hl
  have hstart : Frees im im0 := him0 ▸ .of_eq rfl fun _ _ hg => hg
  have hlose : Frees im0 (device.backings.foldl (loseBacking reason clock.now) im0) := by
    refine Frees.foldl (Q := fun im1 => Tracks s T im1 ∧ im1.ledger.Coherent ∧
      im1.book.Leased leaseRules) ⟨h0, hc0, hl0⟩ ?_
    rintro im1 b ⟨h1, hc1, hl1⟩
    refine ⟨⟨h1.loseBacking reason clock.now b,
      coherent_loseBacking h1.wellKeyed hc1 reason clock.now b, ?_⟩,
      frees_loseBacking h1.wellKeyed hc1 hl1 reason clock.now b⟩
    have hturns : Turns (fun _ _ => True) (fun _ => True) False False im1
        (im1.loseBacking reason clock.now b) :=
      turns_loseBacking hl1 reason clock.now b fun _ _ => trivial
    exact Book.Steps.leased hl1 hturns
  generalize device.backings.foldl (loseBacking reason clock.now) im0 = im1 at hlose ⊢
  have hrecount : Frees im1 (im1.state.tenants.keys.foldl (recountTenant clock.now) im1) :=
    Frees.foldl (Q := fun _ => True) trivial fun im2 t _ =>
      ⟨trivial, .of_eq (roster_recountTenant im2 clock.now t).2 fun g x hg => by
        rw [ledger_recountTenant]; exact hg⟩
  generalize im1.state.tenants.keys.foldl (recountTenant clock.now) im1 = im2 at hrecount ⊢
  exact ((hstart.trans hlose).trans hrecount).trans (.of_eq rfl fun _ _ hg => hg)

/-! ### The policy -/

/-- Validating a virtual accelerator again brings nothing into use. -/
theorem frees_revalidateVirtual (hw : im.state.WellKeyed) (hc : im.ledger.Coherent)
    (updated : VirtualizationPolicy) (now : UnixMicros) (x : VirtualAcceleratorId) :
    Frees im (im.revalidateVirtual updated now x) := by
  cases hv : im.state.virtuals[x]? with
  | none =>
    rw [show im.revalidateVirtual updated now x = im by simp only [revalidateVirtual, hv]]
    exact .refl
  | some v =>
    by_cases hr : v.state = .retired
    · rw [show im.revalidateVirtual updated now x = im by
        simp only [revalidateVirtual, hv, hr, if_true]]
      exact .refl
    have hledger : ∀ g y, y ≠ x → im.ledger.Holds g y →
        (im.revalidateVirtual updated now x).ledger.Holds g y := by
      intro g y hy hg
      obtain hsame | ⟨v', hv', -, hl⟩ := ledger_revalidateVirtual hw updated now x
      · exact hsame ▸ hg
      · rw [hv, Option.some.injEq] at hv'
        subst hv'
        rw [hl]
        exact Ledger.holds_point.mpr (Ledger.holds_mark.mpr (holds_revoke_of_ne
          (fun z hz => eq_of_holds hc (grant_zero hw) hv hz) hy hg))
    obtain hbook | ⟨-, hbook⟩ := book_revalidateVirtual updated now hv hr
    · refine .of_assign (w := parked v.toSeat) (seat_of_virtual hv) (by rw [hbook]; rfl) (.inr ?_)
        (occupied_parked _) hledger
      simp only [parked]
      split <;> rfl
    · refine .of_assign (w := unbacked (parked v.toSeat)) (seat_of_virtual hv) (by rw [hbook]; rfl)
        (.inl rfl) ?_ hledger
      simp [leaseRules, unbacked, lifecycleAllowsLeases]

/-- A new policy brings nothing into use. -/
theorem frees_setPolicyAct {s : Impl σ} {T : Set (RecordKind × ℕ)} (h : Tracks s T im)
    (hc : im.ledger.Coherent) {policy : VirtualizationPolicy} :
    Frees im (setPolicyAct auth clock policy im).1 := by
  have hentered : Frees im (im.enterPolicy policy) := .of_eq rfl fun _ _ hg => hg
  have htracks : Tracks s T (im.enterPolicy policy) :=
    ((h.touchHeader.takeId).setPolicy _ _).account _
  have hsuperseded : Frees im (im.superseded policy clock.now) :=
    hentered.trans (Frees.foldl (Q := fun _ => True) trivial fun im1 id _ =>
      ⟨trivial, .of_eq (by rw [book_supersedeLease]; rfl) fun g x hg => by
        rw [ledger_supersedeLease]; exact hg⟩)
  have htracks' : Tracks s T (im.superseded policy clock.now) :=
    Tracks.foldl (fun im id h => h.supersedeLease _ clock.now id) _ htracks
  have hcoherent : (im.superseded policy clock.now).ledger.Coherent := by
    rw [superseded, ledger_foldl _ fun im id => ledger_supersedeLease _ clock.now id]
    exact hc
  change Frees im (((im.superseded policy clock.now).state.virtuals.keys.foldl (revalidateVirtual
    (im.nextPolicy policy) clock.now) (im.superseded policy clock.now)).state.tenants.keys.foldl
    (clearAttachments clock.now) ((im.superseded policy clock.now).state.virtuals.keys.foldl
    (revalidateVirtual (im.nextPolicy policy) clock.now)
    (im.superseded policy clock.now))).recomputeDerivedAccounting.touchHeader
  generalize im.superseded policy clock.now = im1 at hsuperseded htracks' hcoherent ⊢
  have hrevalidated : Frees im1 (im1.state.virtuals.keys.foldl (revalidateVirtual
      (im.nextPolicy policy) clock.now) im1) :=
    Frees.foldl (Q := fun im2 => Tracks s T im2 ∧ im2.ledger.Coherent) ⟨htracks', hcoherent⟩
      fun im2 x ⟨h2, hc2⟩ => ⟨⟨h2.revalidateVirtual _ clock.now x,
        coherent_revalidateVirtual h2.wellKeyed hc2 _ clock.now x⟩,
        frees_revalidateVirtual h2.wellKeyed hc2 _ clock.now x⟩
  generalize im1.state.virtuals.keys.foldl (revalidateVirtual (im.nextPolicy policy) clock.now)
    im1 = im2 at hrevalidated ⊢
  have hcleared : Frees im2 (im2.state.tenants.keys.foldl (clearAttachments clock.now) im2) :=
    Frees.foldl (Q := fun _ => True) trivial fun im3 t _ =>
      ⟨trivial, .of_eq (by rw [book_clearAttachments]; rfl) fun g x hg => by
        rw [ledger_clearAttachments]; exact hg⟩
  generalize im2.state.tenants.keys.foldl (clearAttachments clock.now) im2 = im3 at hcleared ⊢
  exact ((hsuperseded.trans hrevalidated).trans hcleared).trans (.of_eq rfl fun _ _ hg => hg)

/-! ### Operations on one virtual accelerator -/

theorem yields_assignBackingAct (h : Tracks im ∅ im) (hc : im.ledger.Coherent)
    {operation : String} {backing : BackingId} {replacing : Bool} {reason : Text}
    {plan : Owned × BackingRecord} (ho : plan.1.Current im.state)
    (hb : im.state.backings[backing]? = some plan.2) :
    Yields im (assignBackingAct operation auth backing replacing reason clock plan im).1 := by
  have h0 := grant_zero h.wellKeyed
  refine .of_sheds h0 ?_
  obtain ⟨n, hn, hledger⟩ := ledger_assignBackingAct h operation auth replacing reason clock ho hb
  have hfresh : im.ledger.grant n = none := by
    by_contra hne
    obtain ⟨r, hr⟩ := Option.ne_none_iff_exists'.mp hne
    exact absurd (lt_of_grant h.wellKeyed hr) (Nat.not_lt.mpr hn)
  rw [hledger]
  cases replacing with
  | false => exact Ledger.sheds_bind hfresh _
  | true =>
    refine hc.sheds_rebind (party_of_virtual ho.virtual) ?_ hfresh _ _
    by_cases ha : plan.1.record.assignment = 0
    · exact .inr (ha ▸ h0)
    · exact .inl (ref_of_ne ha)

/-- Suspending and retiring take the binding away. -/
theorem sheds_released (hw : im.state.WellKeyed) (hc : im.ledger.Coherent) {id : ℕ}
    {v : VirtualAcceleratorRecord} (hv : im.state.virtuals[id]? = some v) (x : ℕ) :
    Ledger.Sheds im.ledger
      (((im.ledger.revoke v.assignment).mark x vacate).point id fun _ => released) := by
  refine hc.sheds_release (party_of_virtual hv) ?_ x vacate fun _ => rfl
  by_cases ha : v.assignment = 0
  · exact .inr (ha ▸ grant_zero hw)
  · exact .inl (ref_of_ne ha)

/-- The destination of a migration that can still be aborted has no authority. -/
theorem not_authoritative_of_open (hw : im.state.WellKeyed) (ho : im.register.Orderly)
    {f : InFlight} (hf : f.Current im.state)
    (hopen : migrationStateAfterCutover f.migration.state = false)
    (hterminal : migrationStateIsTerminal f.migration.state = false) (r : Grant ℕ ℕ)
    (hr : im.ledger.grant f.migration.destinationAssignment = some r) :
    r.authoritative = false := by
  have hpassage := passage_of_migration hf.migration
  obtain hp | hp := progress_of_open hopen hterminal (ho.known _ _ hpassage)
  · have htarget := ho.planned _ _ hpassage hp
    obtain h0 : f.migration.destinationAssignment = 0 := ref_inj htarget
    rw [h0, grant_zero hw] at hr
    cases hr
  · obtain ⟨g, htarget, hstage⟩ := ho.ready _ _ hpassage hp
    obtain ⟨rfl, -⟩ := ref_eq_some.mp htarget
    simp only [ledger, VirtualizationState.ledger, Option.map_eq_some_iff] at hr
    obtain ⟨a, ha, rfl⟩ := hr
    rw [stage_of_assignment ha, Option.some.injEq] at hstage
    simp only [BackingAssignment.stage] at hstage
    split at hstage
    · cases hstage
    · rename_i hauth
      simpa [BackingAssignment.toGrant] using hauth

theorem yields_checked {π α : Type} {context : Impl σ → OpContext} {kind : AuditKind}
    {check : Impl σ → Except Status π} {act : π → Body σ α} (h : Yields im im)
    (hact : ∀ plan, check im = .ok plan → Yields im (act plan im).1) :
    Yields im (checked (fun im => orRefuse (context im) kind (check im)) act im).1 :=
  fst_checked (p := Yields im) h hact

theorem yields_forget {α : Type} {b : Body σ α} (h : Yields im (b im).1) :
    Yields im (Body.forget b im).1 := h

/-- Every body lets the virtual accelerators it takes authority from go out of use. -/
theorem yields_body {op : Op} {b : Body σ Unit} (hb : body clock op = some b)
    (hw : im.state.WellKeyed) (hc : im.ledger.Coherent) (hl : im.book.Leased leaseRules)
    (ho : im.register.Orderly) : Yields im (b im.beginOp).1 := by
  suffices hy : Yields im.beginOp (b im.beginOp).1 from ⟨hy.points, hy.holds⟩
  have h0 : im.beginOp.ledger.grant 0 = none := grant_zero (show im.beginOp.state.WellKeyed from hw)
  -- most operations leave the ledger as it is
  by_cases hn : neutral op = true
  · exact .of_ledger h0 (ledger_body hb hn)
  have h : Tracks im.beginOp ∅ im.beginOp := .beginOp (show im.beginOp.state.WellKeyed from hw)
  have hc0 : im.beginOp.ledger.Coherent := hc
  have hl0 : im.beginOp.book.Leased leaseRules := hl
  have ho0 : im.beginOp.register.Orderly := ho
  generalize im.beginOp = i at h hc0 hl0 ho0 h0 ⊢
  have hrefl : Yields i i := .of_ledger h0 rfl
  cases op <;> simp only [neutral, not_true_eq_false] at hn <;>
    simp only [body, Option.some.injEq] at hb <;> subst hb
  case registerPhysical =>
    exact yields_checked hrefl fun _ _ => (frees_registerPhysicalAct h).yields
  case physicalLost =>
    exact yields_checked hrefl fun _ _ => (frees_physicalLostAct h hc0 hl0).yields
  case setPolicy =>
    exact yields_checked hrefl fun _ _ => (frees_setPolicyAct h hc0).yields
  case createVirtual =>
    refine yields_forget (yields_checked hrefl ?_)
    intro _ _
    refine .of_sheds h0 ?_
    rw [ledger_createVirtualAct]
    exact Ledger.sheds_enroll
  case suspend =>
    refine yields_forget (yields_checked hrefl ?_)
    intro _ hs
    refine .of_sheds h0 ?_
    rw [ledger_suspendAct h.wellKeyed]
    exact sheds_released h.wellKeyed hc0 (suspendCheck_ok hs).1.virtual _
  case retireVirtual =>
    refine yields_forget (yields_checked hrefl ?_)
    intro _ hs
    refine .of_sheds h0 ?_
    rw [ledger_retireVirtualAct h.wellKeyed]
    exact sheds_released h.wellKeyed hc0 (notRetiredCheck_ok hs).1.virtual _
  case assignBacking | replaceBacking =>
    refine yields_forget (yields_checked hrefl ?_)
    intro _ hs
    exact yields_assignBackingAct h hc0 (assignBackingCheck_ok hs).1 (assignBackingCheck_ok hs).2.1
  case planMigration =>
    refine yields_forget (yields_checked hrefl ?_)
    intro _ hs
    refine .of_sheds h0 ?_
    rw [ledger_planMigrationAct h.wellKeyed _ _ _ _ (planMigrationCheck_ok hs).1]
    exact .of_party rfl fun _ _ hg => hg
  case prepareMigration =>
    refine yields_forget (yields_checked hrefl ?_)
    intro _ hf
    obtain hledger | ⟨n, hn', hledger⟩ :=
      ledger_prepareMigrationAct h _ clock (prepareMigrationCheck_ok hf).1
    · exact .of_ledger h0 hledger
    · refine .of_sheds h0 (hledger ▸ Ledger.sheds_prepare ?_)
      by_contra hne
      obtain ⟨r, hr⟩ := Option.ne_none_iff_exists'.mp hne
      exact absurd (lt_of_grant h.wellKeyed hr) (Nat.not_lt.mpr hn')
  case commitMigration =>
    refine yields_forget (yields_checked hrefl ?_)
    intro _ hm
    refine .of_sheds h0 ?_
    obtain ⟨hcur, -, -, hd⟩ := commitMigrationCheck_ok hm
    obtain ⟨hmove, htarget, -⟩ := commitMigration_move h.wellKeyed hm
    rw [ledger_commitMigrationAct h _ clock hcur hd]
    exact hc0.sheds_cutover hmove htarget _ _
  case abortMigration =>
    refine yields_forget (yields_checked hrefl ?_)
    intro _ hf
    refine .of_sheds h0 ?_
    obtain ⟨hcur, hopen, hterminal⟩ := abortMigrationCheck_ok hf
    rw [ledger_abortMigrationAct]
    exact Ledger.sheds_revoke (not_authoritative_of_open h.wellKeyed ho0 hcur hopen hterminal)

end Acts

end Impl

end AcceleratorVirtualization
