import AcceleratorVirtualization.Invariants.Evolution
import AcceleratorVirtualization.Invariants.Operations

/-!
# Operations as steps of the book

Every body of an operation is a run of steps of the book of leases. What it does to a virtual
accelerator is left to a relation, and each body names what it needs of it. The steps of all but
two operations are tight: a registration that finds another device and a new contract change the
generation under the leases in use. The steps of all but a transfer are fair.
-/

namespace AcceleratorVirtualization

namespace Impl

open VirtualizationState Leasing

variable {σ : Type} {R : Seat ℕ ℕ Phase → Seat ℕ ℕ Phase → Prop} {N : Seat ℕ ℕ Phase → Prop}
variable {tight fair : Prop}

/-- The book of one runtime becomes that of another. -/
abbrev Turns (R : Seat ℕ ℕ Phase → Seat ℕ ℕ Phase → Prop)
    (N : Seat ℕ ℕ Phase → Prop) (tight fair : Prop)
    (im im' : Impl σ) : Prop :=
  Book.Steps leaseRules R N tight fair im.book im'.book

variable {im im1 im' : Impl σ}

theorem Turns.of_book (h : im'.book = im.book) : Turns R N tight fair im im' := by
  rw [Turns, h]

theorem Turns.congr {j : Impl σ} (h : Turns R N tight fair im j) (hb : im'.book = j.book) :
    Turns R N tight fair im im' := by
  rw [Turns, hb]
  exact h

/-! ### Counts -/

theorem load_eq_sum (im : Impl σ) : im.book.load (fun _ => True) =
    (im.state.virtuals.values.map (·.activeAttachments)).sum := by
  rw [sum_values_eq_finsum, Book.load]
  refine finsum_congr fun id => ?_
  simp only [book, VirtualizationState.book]
  cases im.state.virtuals[id]? with
  | none => rfl
  | some v => simp [Book.share, VirtualAcceleratorRecord.toSeat]

/-- Recomputing the derived counters sets the total right. -/
theorem turns_recompute (im : Impl σ) : Turns R N tight fair im im.recomputeDerivedAccounting := by
  rw [Turns, book_recomputeDerivedAccounting, ← load_eq_sum]
  refine .single (Book.Step.audit fun _ h => ?_)
  rw [← h.total]
  exact h

/-! ### Life-cycle steps -/

/-- A life-cycle step is refused, or it moves the virtual accelerator along an edge. -/
theorem transitionAct_cases (context : OpContext) (clock : Clock) {id : VirtualAcceleratorId}
    {q : Seat ℕ ℕ Phase} (hq : im.book.seat id = some q) (target : VirtualLifecycleState)
    (reason : Text) (after : Impl σ → Impl σ) :
    (transitionAct context clock id target reason after im).1 = im ∧
      isLegalTransition q.phase.state target = false ∨
    isLegalTransition q.phase.state target = true ∧ ∃ im1 : Impl σ,
      (transitionAct context clock id target reason after im).1 = after im1 ∧
      im1.book = (if lifecycleAllowsLeases q.phase.state && lifecycleAllowsLeases target then
          im.book.restamp q.leases (stampAt (q.phase.generation + 1)) else im.book).assign id
          (moved q target) := by
  obtain ⟨v, hv, rfl⟩ := virtual_of_seat hq
  unfold transitionAct
  obtain ⟨status, ht, hlegal⟩ | ⟨hok, hlegal, hbook⟩ :=
    transition_cases (c := clock) hv target reason
  · left
    rw [ht]
    exact ⟨rfl, hlegal⟩
  · right
    refine ⟨hlegal, (im.transition clock id target reason).1, ?_, hbook⟩
    generalize im.transition clock id target reason = r at hok ⊢
    obtain ⟨im1, result⟩ := r
    cases hok
    rfl

/-- A life-cycle step to a state without leases in use. -/
theorem transitionAct_unoccupied (context : OpContext) (clock : Clock) {id : VirtualAcceleratorId}
    {q : Seat ℕ ℕ Phase} (hq : im.book.seat id = some q) (target : VirtualLifecycleState)
    (htarget : lifecycleAllowsLeases target = false) (reason : Text) (after : Impl σ → Impl σ) :
    (transitionAct context clock id target reason after im).1 = im ∧
      isLegalTransition q.phase.state target = false ∨
    isLegalTransition q.phase.state target = true ∧ ∃ im1 : Impl σ,
      (transitionAct context clock id target reason after im).1 = after im1 ∧
      im1.book = im.book.assign id (moved q target) := by
  have h := transitionAct_cases context clock hq target reason after
  rwa [htarget, Bool.and_false, if_neg Bool.false_ne_true] at h

/-- A life-cycle step that keeps the leases in use, or that finds none. -/
theorem turns_transitionAct {context : OpContext} {clock : Clock} {id : VirtualAcceleratorId}
    {v : VirtualAcceleratorRecord} (hv : im.state.virtuals[id]? = some v)
    {target : VirtualLifecycleState} {reason : Text} {after : Impl σ → Impl σ}
    (hafter : ∀ im, Turns R N tight fair im (after im))
    (hR : isLegalTransition v.state target = true → R v.toSeat (moved v.toSeat target))
    (hkeeps : isLegalTransition v.state target = true →
      lifecycleAllowsLeases v.state = lifecycleAllowsLeases target)
    (hvacant : ¬ leaseRules.vacant (moved v.toSeat target).phase) :
    Turns R N tight fair im (transitionAct context clock id target reason after im).1 := by
  obtain ⟨hsame, -⟩ | ⟨hlegal, im1, hafter1, hbook⟩ :=
    transitionAct_cases context clock (seat_of_virtual hv) target reason after
  · rw [hsame]
  · rw [hafter1]
    refine Relation.ReflTransGen.trans (.single ?_) (hafter im1)
    rw [hbook]
    have hk : lifecycleAllowsLeases v.toSeat.phase.state = lifecycleAllowsLeases target :=
      hkeeps hlegal
    cases ht : lifecycleAllowsLeases target with
    | true =>
      rw [ht] at hk
      rw [hk, Bool.and_self, if_pos rfl]
      exact Book.Step.carry (seat_of_virtual hv) (hR hlegal) ht hk hvacant fun _ => rfl
    | false =>
      rw [ht] at hk
      rw [Bool.and_false, if_neg Bool.false_ne_true]
      refine Book.Step.edit (seat_of_virtual hv) (hR hlegal) (fun hc => ?_)
        (fun hc => absurd hc hvacant) fun _ hc => ?_
      · exact absurd (ht.symm.trans hc) Bool.false_ne_true
      · exact absurd (hk.symm.trans hc) Bool.false_ne_true

/-- The leases of a virtual accelerator are fenced, and then it changes. -/
theorem turns_close {id : VirtualAcceleratorId} {v : VirtualAcceleratorRecord}
    (hv : im.state.virtuals[id]? = some v) {t : TenantId} {φ : Phase} {n : ℕ}
    (hbook : im'.book = (im.book.shut id v.toSeat).assign id ⟨t, φ, n, v.leases⟩)
    (hn : v.activeAttachments = im.book.inUse v.leases → n = 0)
    (hφ : lifecycleAllowsLeases φ.state = false) (hR : R v.toSeat ⟨t, φ, n, v.leases⟩) :
    Turns R N tight fair im im' := by
  rw [Turns, hbook]
  refine .single (Book.Step.close (seat_of_virtual hv) hR hn ?_)
  intro hc
  exact absurd (hφ.symm.trans hc) Bool.false_ne_true

/-- How many attachments a virtual accelerator has after its leases were fenced. -/
def leftOver (im : Impl σ) (v : VirtualAcceleratorRecord) : ℕ :=
  if im.book.inUse v.leases = 0 then v.activeAttachments else 0

theorem leftOver_eq_zero {v : VirtualAcceleratorRecord}
    (h : v.activeAttachments = im.book.inUse v.leases) : im.leftOver v = 0 := by
  unfold leftOver
  split
  · rw [h]
    assumption
  · rfl

theorem seat_shut {id : VirtualAcceleratorId} {v : VirtualAcceleratorRecord} :
    (im.book.shut id v.toSeat).seat id = some { v.toSeat with active := im.leftOver v } :=
  Book.seat_assign_self

/-! ### The life of a virtual accelerator -/

section Bodies

variable {auth : Authority} {clock : Clock}

/-- Revoking the assignment of a record, where it has one. -/
theorem book_revokeValid (id : BackingAssignmentId) (reason : Text) (now : UnixMicros) :
    (if valid id then im.revokeAssignment id reason now else im).book = im.book := by
  split
  · exact book_revokeAssignment im id reason now
  · rfl

theorem turns_createTenantAct (hw : im.state.WellKeyed) (name externalSubject : Text) :
    Turns R N tight fair im (createTenantAct auth name externalSubject clock () im).1 := by
  have hnone : im.state.tenants[im.nextId]? = none := hw.fresh .tenant (Nat.le_refl _)
  exact .of_book (book_put_tenant hnone rfl)

/-- A new virtual accelerator is entered. -/
theorem turns_createVirtualAct (hw : im.state.WellKeyed) (name : Text) (owner : TenantId)
    (ownerGeneration : Generation) (contract : ResourceContract) (tenant : TenantRecord)
    (hN : ∀ φ, φ.state = .provisioned → φ.binding = (0, 0) → N ⟨owner, φ, 0, []⟩) :
    Turns R N tight fair im
      (createVirtualAct auth name owner ownerGeneration contract clock tenant im).1 := by
  have hnone : im.state.virtuals[im.nextId]? = none := hw.fresh .virtual (Nat.le_refl _)
  simp only [createVirtualAct, book_touchHeader, Turns]
  rw [book_account, book_modify_tenant_same, touchTenant, book_touch, book_put_virtual]
  · refine .single (Book.Step.enroll ?_ (hN _ rfl rfl) rfl rfl (by rintro ⟨⟩))
    simp [book, VirtualizationState.book, hnone]
  · exact fun _ => rfl
  · exact fun _ => rfl

/-- A contract is changed under the leases. -/
theorem turns_updateContractAct {i : Impl σ} {owned : Owned} (h : owned.Current i.state)
    {contract : ResourceContract}
    (hR : ∀ contract, R owned.record.toSeat { owned.record.toSeat with phase :=
      { owned.record.toSeat.phase with
        contract, generation := owned.record.generation + 1 } })
    (htight : tight →
      (i.probeContract owned.record (contract.normalize i.options.sorting)).2 = .ok () →
      lifecycleAllowsLeases owned.record.state = false) :
    Turns R N tight fair i (updateContractAct auth contract clock owned i).1 := by
  have hp : (i.probeContract owned.record (contract.normalize i.options.sorting)).1.book = i.book ∧
      (i.probeContract owned.record (contract.normalize i.options.sorting)).1.state.virtuals =
        i.state.virtuals := by
    unfold probeContract
    split <;> exact ⟨rfl, rfl⟩
  simp only [updateContractAct]
  split <;> rename_i him <;> rw [him] at hp htight
  · exact .of_book hp.1
  · rename_i im1
    have hv : im1.state.virtuals[owned.virtualId]? = some owned.record := by
      rw [hp.2]
      exact h.virtual
    simp only [Turns, book_rebuildProjection]
    rw [book_modify_virtual (i := (im1.touchVirtual owned.record.id).takeId) hv]
    change Book.Steps _ _ _ _ _ _ (im1.book.assign _ _)
    rw [hp.1]
    refine .single (Book.Step.edit (seat_of_virtual h.virtual) (hR _) id .inl fun ht ho => ?_)
    exact absurd ((htight ht rfl).symm.trans ho) Bool.false_ne_true

/-- The seat of a virtual accelerator without a binding. -/
def unbound (q : Seat ℕ ℕ Phase) : Seat ℕ ℕ Phase :=
  { q with phase := { q.phase with assignment := 0, backing := 0 } }

/-- Suspension takes the binding away; nothing is in use. -/
theorem turns_suspendAct {owned : Owned} (h : owned.Current im.state)
    (hs : owned.record.state = .provisioned ∨ owned.record.state = .draining)
    (h0 : owned.record.activeAttachments = 0) (reason : Text)
    (hR : R owned.record.toSeat (moved (unbound owned.record.toSeat) .suspended)) :
    Turns R N tight fair im (suspendAct auth reason clock owned im).1 := by
  have hq := seat_of_virtual h.virtual
  -- all that happens before the life-cycle step
  have hbook : ∀ im1 : Impl σ, im1.book = im.book →
      ((((im1.releaseBacking owned.record.backing).touchVirtual owned.record.id).modify .virtual
        owned.virtualId fun v => unbind { v with
          backingHistory := v.backingHistory.map fun entry => { entry with current := false } }
        ).rebuildProjection owned.virtualId).book =
        im.book.assign owned.virtualId (unbound owned.record.toSeat) := by
    intro im1 him1
    have hb : ((im1.releaseBacking owned.record.backing).touchVirtual owned.record.id).book =
        im.book := (book_releaseBacking ..).trans him1
    rw [book_rebuildProjection, book_modify_seat (g := unbound) (hb ▸ hq) fun _ => rfl, hb]
  have him1 := hbook _ (book_revokeValid owned.record.assignment
    (txt "virtual accelerator suspended: " ++ reason) clock.now)
  have hlegal : isLegalTransition owned.record.state .suspended = true := by
    obtain hs | hs := hs <;> rw [hs] <;> rfl
  obtain ⟨-, hno⟩ | ⟨-, im2, hafter, hbook2⟩ := transitionAct_unoccupied
    ((OpContext.ofAuthority "suspend" auth).adoptVirtual owned.record) clock
    (him1 ▸ Book.seat_assign_self) .suspended rfl reason recomputeDerivedAccounting
  · exact Bool.noConfusion (hlegal.symm.trans hno)
  · simp only [suspendAct]
    rw [hafter]
    refine Relation.ReflTransGen.trans (.single ?_) (turns_recompute im2)
    rw [hbook2, him1, Book.assign_assign]
    exact Book.Step.edit (q := owned.record.toSeat) hq hR (by rintro ⟨⟩)
      (by rintro (h | h) <;> cases h) fun _ _ => .inl h0

/-- Everything in use ends when a virtual accelerator is fenced. -/
theorem turns_fenceVirtualAct {owned : Owned} (h : owned.Current im.state)
    (hl : im.book.Leased leaseRules) (reason : Text) (hR : ∀ n,
      R owned.record.toSeat { owned.record.toSeat with active := n } ∧
      (isLegalTransition owned.record.state .fenced = true →
        R owned.record.toSeat { moved owned.record.toSeat .fenced with active := n })) :
    Turns R N tight fair im (fenceVirtualAct auth reason clock owned im).1 := by
  have hq := seat_of_virtual h.virtual
  have hshut := book_fenceLeases h.virtual (hl.nodup _ _ hq)
    (txt "virtual accelerator fenced: " ++ reason) clock.now
  have hseat : ((im.fenceLeases owned.virtualId (txt "virtual accelerator fenced: " ++ reason)
      clock.now).touchVirtual owned.record.id).book.seat owned.virtualId =
      some { owned.record.toSeat with active := im.leftOver owned.record } := by
    change (im.fenceLeases owned.virtualId _ clock.now).book.seat _ = _
    rw [hshut]
    exact seat_shut
  unfold fenceVirtualAct
  obtain ⟨hsame, hno⟩ | ⟨hlegal, im2, hafter, hbook2⟩ := transitionAct_unoccupied
    ((OpContext.ofAuthority "fence_virtual" auth).adoptVirtual owned.record) clock hseat .fenced
    rfl reason recomputeDerivedAccounting
  · -- refused: it is fenced or retired already, and a lease may still have been in use
    dsimp only
    rw [hsame]
    refine turns_close h.virtual ?_ leftOver_eq_zero ?_ (hR (im.leftOver owned.record)).1
    · exact hshut.trans (Book.assign_self seat_shut).symm
    · have hstate : isLegalTransition owned.record.state .fenced = false := hno
      revert hstate
      change _ → lifecycleAllowsLeases owned.record.state = false
      cases owned.record.state <;> decide
  · dsimp only
    rw [hafter]
    refine Relation.ReflTransGen.trans ?_ (turns_recompute im2)
    exact turns_close h.virtual (hbook2.trans (congrArg (Book.assign · _ _) hshut))
      leftOver_eq_zero rfl ((hR _).2 hlegal)

/-- Everything in use ends when a virtual accelerator is retired, and its binding with it. -/
theorem turns_retireVirtualAct {owned : Owned} (h : owned.Current im.state)
    (hl : im.book.Leased leaseRules) (hs : owned.record.state ≠ .retired) (reason : Text)
    (hR : R owned.record.toSeat { moved (unbound owned.record.toSeat) .retired with active := 0 }) :
    Turns R N tight fair im (retireVirtualAct auth reason clock owned im).1 := by
  have hq := seat_of_virtual h.virtual
  have hshut := book_fenceLeases h.virtual (hl.nodup _ _ hq) (txt "virtual accelerator retired")
    clock.now
  generalize him1 :
    im.fenceLeases owned.virtualId (txt "virtual accelerator retired") clock.now = im1
    at hshut
  have hseat : im1.book.seat owned.virtualId =
      some { owned.record.toSeat with active := im.leftOver owned.record } := by
    rw [hshut]
    exact seat_shut
  -- the roster of the owner and the binding; the view sees the binding
  let clear := fun v : VirtualAcceleratorRecord => unbind { v with
    backingHistory := v.backingHistory.map fun entry =>
      { entry with current := false, to_ := if entry.to_ = 0 then clock.now else entry.to_ }
    activeAttachments := 0
    retiredAt := clock.now
    retirementReason := reason }
  have hbook : ∀ im2 : Impl σ, im2.book = im1.book →
      ((((im2.releaseBacking owned.record.backing).touchVirtual owned.record.id).modify .virtual
        owned.virtualId clear).rebuildProjection owned.virtualId).book =
        (im.book.shut owned.virtualId owned.record.toSeat).assign owned.virtualId
          { unbound owned.record.toSeat with active := 0 } := by
    intro im2 him2
    have hb : ((im2.releaseBacking owned.record.backing).touchVirtual owned.record.id).book =
        im1.book := (book_releaseBacking ..).trans him2
    rw [book_rebuildProjection, book_modify_seat (g := fun q => { unbound q with active := 0 })
      (hb ▸ hseat) fun _ => rfl, hb, hshut]
    rfl
  have hroster : ∀ im2 : Impl σ, (((im2.emplace .tenant owned.record.owner {}).touchTenant
      ((im2.emplace .tenant owned.record.owner {}).state.tenants[owned.record.owner]?.getD {}).id
      ).modify .tenant owned.record.owner fun owner =>
        { owner with owned := owner.owned.filter (· ≠ owned.record.id) }).book = im2.book := by
    intro im2
    rw [book_modify_tenant_same]
    · exact book_emplace_tenant
    · exact fun _ => rfl
  have him2 :=
    hbook _ ((book_revokeValid owned.record.assignment (txt "virtual accelerator retired")
    clock.now).trans (hroster im1))
  have hlegal : isLegalTransition owned.record.state .retired = true := by
    revert hs
    cases owned.record.state <;> decide
  simp only [retireVirtualAct]
  rw [him1]
  obtain ⟨-, hno⟩ | ⟨-, im3, hafter, hbook3⟩ := transitionAct_unoccupied
    ((OpContext.ofAuthority "retire_virtual" auth).adoptVirtual owned.record) clock
    (him2 ▸ Book.seat_assign_self) .retired rfl reason
    fun im => (im.account fun a =>
      { a with virtualRetired := a.virtualRetired + 1 }).recomputeDerivedAccounting
  · exact Bool.noConfusion (hlegal.symm.trans hno)
  · rw [hafter]
    refine Relation.ReflTransGen.trans ?_ (turns_recompute _)
    refine turns_close (n := 0) h.virtual ?_ (fun _ => rfl) rfl hR
    rw [book_account, hbook3, him2, Book.assign_assign]
    · rfl
    · exact fun _ => rfl

/-! ### Bindings -/

/-- The seat of a virtual accelerator bound anew. -/
def rebound (q : Seat ℕ ℕ Phase) (assignment : BackingAssignmentId) (backing : BackingId)
    (backingGeneration : Generation) : Seat ℕ ℕ Phase :=
  { q with
    phase := { q.phase with
      state := .provisioned, generation := q.phase.generation + 1
      assignment, backing, backingGeneration } }

theorem book_drainPrevious {id : VirtualAcceleratorId} {q : Seat ℕ ℕ Phase}
    (hq : im.book.seat id = some q) (hn : q.leases.Nodup) (value : VirtualAcceleratorRecord)
    (now : UnixMicros) : (im.drainPrevious id value now).book = im.book.shut id q := by
  have hbook : ∀ im1 : Impl σ, im1.book = im.book →
      (((im1.releaseBacking value.backing).touchVirtual value.id).modify .virtual id fun v =>
        { v with backingHistory := closeHistory now v.backingHistory }).book = im.book := by
    intro im1 him1
    rw [book_modify_virtual_same]
    · exact (book_releaseBacking ..).trans him1
    · exact fun _ _ => rfl
  simp only [drainPrevious]
  split
  · have him := hbook im rfl
    rw [book_fenceLeases_seat (him ▸ hq) hn, him]
  · have him := hbook (((im.touchAssignment value.assignment).modify .assignment value.assignment
      fun a => { a with
        authoritative := false
        state := .superseded
        revokedAt := now
        reason := txt "replaced by a new authoritative assignment" }).account
      fun a => { a with backingRevocations := a.backingRevocations + 1 }) rfl
    rw [book_fenceLeases_seat (him ▸ hq) hn, him]

/-- A virtual accelerator is bound anew; what was in use over the previous binding ends. -/
theorem turns_assignBackingAct {operation : String} {backingId : BackingId} {replacing : Bool}
    {reason : Text} {plan : Owned × BackingRecord} (h : plan.1.Current im.state)
    (hl : im.book.Leased leaseRules)
    (hs : replacing = false → lifecycleAllowsLeases plan.1.record.state = false)
    (hR : ∀ a b g n,
      R plan.1.record.toSeat { rebound plan.1.record.toSeat a b g with active := n }) :
    Turns R N tight fair im
      (assignBackingAct operation auth backingId replacing reason clock plan im).1 := by
  obtain ⟨owned, backing⟩ := plan
  have hq := seat_of_virtual h.virtual
  -- all that happens after the previous binding is drained
  have hbook : ∀ (im1 : Impl σ) (q : Seat ℕ ℕ Phase), im1.book.seat owned.virtualId = some q →
      ∀ (a : BackingAssignment) (f : VirtualAcceleratorRecord → List BackingHistoryEntry)
        (p : Generation) (r : Text),
      ((((im1.takeId.touchVirtual owned.record.id).modify .virtual owned.virtualId
        (bindVirtual a backing p r clock.now)).rebuildProjection owned.virtualId).modify .virtual
          owned.virtualId fun v => { v with backingHistory := f v }).book =
        im1.book.assign owned.virtualId (rebound q a.id backing.id a.backingGeneration) := by
    intro im1 q hq1 a f p r
    rw [book_modify_virtual_same, book_rebuildProjection]
    · exact book_modify_seat (i := im1.takeId.touchVirtual owned.record.id)
        (g := fun q => rebound q a.id backing.id a.backingGeneration) hq1 fun _ => rfl
    · exact fun _ _ => rfl
  simp only [assignBackingAct, Turns, book_touchHeader]
  rw [book_account]
  · rw [book_modify_backing, touchBacking, book_touch, book_put_assignment, touchAssignment,
      book_touch]
    cases replacing with
    | false =>
      simp only [Bool.false_eq_true, if_false]
      rw [hbook im _ hq]
      refine .single (Book.Step.edit hq (hR _ _ _ _) (by rintro ⟨⟩)
        (by rintro (h | h) <;> cases h) fun _ hc => ?_)
      exact Bool.noConfusion ((hs rfl).symm.trans hc)
    | true =>
      simp only [if_true]
      have hshut := book_drainPrevious hq (hl.nodup _ _ hq) owned.record clock.now
      rw [hbook _ { owned.record.toSeat with active := im.leftOver owned.record }
        (hshut ▸ seat_shut), hshut]
      exact .single (Book.Step.close hq (hR _ _ _ _) leftOver_eq_zero (by rintro ⟨⟩))
  · intro a
    split <;> rfl

/-! ### Leases -/

/-- The seat of a virtual accelerator with one more lease in use. -/
def attached (q : Seat ℕ ℕ Phase) (lease : LeaseId) : Seat ℕ ℕ Phase :=
  { moved q .attached with
    active := q.active + 1, leases := (q.leases ++ [lease]).insertionSort (· ≤ ·) }

/-- A lease is granted to an unoccupied virtual accelerator. -/
theorem turns_attachAct (hw : im.state.WellKeyed) {owned : Owned} (h : owned.Current im.state)
    (hs : owned.record.state = .provisioned ∨ owned.record.state = .suspended)
    (hR : R owned.record.toSeat (attached owned.record.toSeat im.nextId)) :
    Turns R N tight fair im (attachAct auth clock owned im).1 := by
  have hq := seat_of_virtual h.virtual
  have hkeyed : owned.record.id = owned.virtualId := hw.keyed .virtual _ _ h.virtual
  have htenant : owned.tenant.id = owned.tenantId := hw.keyed .tenant _ _ h.tenant
  have hunoccupied : lifecycleAllowsLeases owned.record.state = false := by
    obtain hs | hs := hs <;> rw [hs] <;> rfl
  have hlegal : isLegalTransition owned.record.state .attached = true := by
    obtain hs | hs := hs <;> rw [hs] <;> rfl
  have hfresh : im.book.lease im.nextId = none := by
    have hnone : im.state.leases[im.nextId]? = none := hw.fresh .lease (Nat.le_refl _)
    simp [book, VirtualizationState.book, hnone]
  -- the attachment is booked before the life-cycle step
  let enlist := fun v : VirtualAcceleratorRecord => { v with
    leases := (v.leases ++ [im.nextId]).insertionSort (· ≤ ·)
    activeAttachments := v.activeAttachments + 1
    updatedAt := clock.now }
  let im1 := (((im.takeId.touchVirtual owned.record.id).modify .virtual owned.virtualId enlist
    ).touchTenant owned.tenant.id).modify .tenant owned.tenantId fun t =>
      { t with activeAttachments := t.activeAttachments + 1, updatedAt := clock.now }
  have hv1 : im1.state.virtuals[owned.virtualId]? = some (enlist owned.record) := by
    change (im.state.virtuals.modify owned.virtualId enlist)[owned.virtualId]? = _
    rw [Std.ExtTreeMap.getElem?_modify, if_pos (Nat.compare_eq_eq.mpr rfl), h.virtual]
    rfl
  have hbook1 : im1.book = (im.book.assign owned.virtualId (enlist owned.record).toSeat).credit
      owned.tenantId (im.book.account owned.tenantId + 1) := by
    have ht : im.state.tenants[owned.tenantId]? = some owned.tenant := h.tenant
    have hm := book_modify_virtual (i := im.takeId.touchVirtual owned.record.id) h.virtual enlist
    rw [show im1.book = _ from book_modify_tenant _, touchTenant, book_touch, hm]
    congr 1
    change (im.state.tenants[owned.tenantId]?.elim 0 _ : ℕ) =
      im.state.tenants[owned.tenantId]?.elim 0 _ + 1
    rw [ht]
    rfl
  obtain ⟨_, -, hno⟩ | ⟨hok, -, hbook2⟩ := transition_cases (c := clock) hv1 .attached
    (txt "tenant attached under a generation-bound lease")
  · exact Bool.noConfusion (hlegal.symm.trans hno)
  have hkeeps : (lifecycleAllowsLeases (enlist owned.record).state &&
      lifecycleAllowsLeases .attached) = false := by
    change (lifecycleAllowsLeases owned.record.state && _) = false
    rw [hunoccupied]
    rfl
  rw [hkeeps, if_neg Bool.false_ne_true] at hbook2
  simp only [attachAct, hunoccupied, Bool.false_eq_true, if_false]
  split
  · rename_i im2 status hr
    have hok' := (congrArg Prod.snd hr).symm.trans hok
    cases hok'
  rename_i im2 hr
  replace hbook2 := (congrArg (fun r => r.1.book) hr).symm.trans hbook2
  have hgeneration : (im2.state.virtuals[owned.virtualId]?.getD {}).generation =
      owned.record.generation + 1 := by
    have hseat : im2.book.seat owned.virtualId =
      some (moved (enlist owned.record).toSeat .attached) := by
      rw [hbook2]
      exact Book.seat_assign_self
    obtain ⟨v, hv, hseat⟩ := virtual_of_seat hseat
    rw [hv]
    exact congrArg (fun q : Seat ℕ ℕ Phase => q.phase.generation) hseat
  let lease : LeaseRecord := {
    id := im.nextId, generation := 1, virtualId := owned.record.id
    virtualGeneration := (im2.state.virtuals[owned.virtualId]?.getD {}).generation
    tenant := owned.tenant.id, tenantGeneration := owned.tenant.generation
    backingGeneration := owned.record.backingGeneration
    physicalGeneration := owned.record.physicalGeneration
    policyGeneration := im.state.policyGeneration, epoch := im.state.epoch
    grantRequest := ((OpContext.ofAuthority "attach" auth).adoptVirtual owned.record).request
    state := .active, grantedAt := clock.now, expiresAt := expiryFrom im.state.policy clock.now }
  have hstamp : lease.toLease = ⟨owned.virtualId, owned.record.owner, leaseRules.stamp
      (attached owned.record.toSeat im.nextId).phase im.book.era, true⟩ := by
    simp only [LeaseRecord.toLease, lease, hgeneration, ← h.owner, ← h.generation, hkeyed]
    rfl
  have hgrant : (im2.grantLease lease).book = ((im.book.issue im.nextId lease.toLease).charge
      owned.record.owner).assign owned.virtualId (attached owned.record.toSeat im.nextId) := by
    have hput : (im2.grantLease lease).book =
        (im2.book.issue im.nextId lease.toLease).bill (im2.book.total + 1) := by
      rw [← book_put_lease]
      rfl
    rw [hput, hbook2, hbook1, h.owner, htenant]
    refine Book.ext ?_ rfl rfl rfl rfl
    exact Function.update_idem ..
  change Book.Steps leaseRules R N tight fair im.book (im2.grantLease lease).book
  rw [hgrant, hstamp]
  refine .single (Book.Step.grant (q := owned.record.toSeat) hq hR hfresh ?_ rfl rfl rfl rfl rfl
    (by rintro (h | h) <;> cases h) fun hc => ?_)
  · exact (List.perm_insertionSort _ _).trans List.perm_append_comm
  · exact Bool.noConfusion (hunoccupied.symm.trans hc)

/-- Releasing a lease takes it off all three counts. -/
theorem book_releaseLease {held : Held} (h : held.Current im.state)
    (reason : Text) (now : UnixMicros) (book : AccountingCounters → AccountingCounters) :
    (im.releaseLease held reason now book).book =
      ((im.book.stop [held.leaseId]).discharge held.lease.tenant 1).assign held.virtualId
        { held.record.toSeat with active := held.record.activeAttachments - 1 } := by
  have hstop : ((im.touchLease held.lease.id).modify .lease held.leaseId fun lease =>
      { lease with state := .revoked, revokedAt := now, reason }).book =
      im.book.stop [held.leaseId] := by
    rw [book_modify_lease (i := im.touchLease held.lease.id) h.lease]
    refine Book.ext rfl (funext fun id => ?_) rfl rfl rfl
    simp only [Book.issue, Book.stop]
    by_cases hid : id = held.leaseId
    · subst hid
      rw [Function.update_self, if_pos (List.mem_singleton_self _), lease_of_lease h.lease]
      rfl
    · rw [Function.update_of_ne hid, if_neg (by simpa using hid)]
      rfl
  -- the lease is revoked
  generalize him1 : (im.touchLease held.lease.id).modify .lease held.leaseId (fun lease =>
    { lease with state := .revoked, revokedAt := now, reason }) = im1 at hstop
  -- one attachment less at its virtual accelerator
  have hvirtual : ((im1.touchVirtual held.record.id).modify .virtual held.virtualId fun v =>
      { v with activeAttachments := v.activeAttachments - 1, updatedAt := now }).book =
      (im.book.stop [held.leaseId]).assign held.virtualId
        { held.record.toSeat with active := held.record.activeAttachments - 1 } := by
    rw [book_modify_seat (i := im1.touchVirtual held.record.id)
      (g := fun q => { q with active := q.active - 1 }) (q := held.record.toSeat) ?_ fun _ => rfl]
    · rw [show (im1.touchVirtual held.record.id).book = im1.book from rfl, hstop]
      rfl
    · change im1.book.seat _ = _
      rw [hstop]
      exact seat_of_virtual h.owned.virtual
  have htenants : ((im1.touchVirtual held.record.id).modify .virtual held.virtualId fun v =>
      { v with activeAttachments := v.activeAttachments - 1, updatedAt := now }).state.tenants =
      im.state.tenants := by
    rw [← him1]
    rfl
  simp only [releaseLease, book_touchHeader]
  rw [him1, attachmentsActive_account _ fun _ => rfl]
  generalize ((im1.touchVirtual held.record.id).modify .virtual held.virtualId fun v =>
    { v with activeAttachments := v.activeAttachments - 1, updatedAt := now } : Impl σ) = im2
    at hvirtual htenants ⊢
  rw [htenants]
  -- and one less at its tenant, if that exists
  cases ht : im.state.tenants[held.lease.tenant]? with
  | none =>
    have haccount : im.book.account held.lease.tenant = 0 := by
      simp [Impl.book, VirtualizationState.book, ht]
    simp only [hvirtual]
    refine Book.ext rfl rfl ?_ rfl rfl
    change im.book.account = Function.update im.book.account held.lease.tenant
      (im.book.account held.lease.tenant - 1)
    rw [haccount, Nat.zero_sub, ← haccount, Function.update_eq_self]
  | some t =>
    have haccount : im.book.account held.lease.tenant = t.activeAttachments := by
      simp [Impl.book, VirtualizationState.book, ht]
    dsimp only
    rw [book_modify_tenant]
    have ht2 : (im2.touchTenant held.lease.tenant).state.tenants[held.lease.tenant]? = some t := by
      rw [← ht, ← htenants]
      rfl
    rw [ht2, show (im2.touchTenant held.lease.tenant).book = im2.book from rfl, hvirtual]
    refine Book.ext rfl rfl ?_ rfl rfl
    change Function.update im.book.account held.lease.tenant (t.activeAttachments - 1) =
      Function.update im.book.account held.lease.tenant (im.book.account held.lease.tenant - 1)
    rw [haccount]

/-- A lease ends, and with the last one the use of the virtual accelerator. -/
theorem turns_releaseLeaseAct (hw : im.state.WellKeyed) {operation : String} {reason : Text}
    {lastReason : String} {book : AccountingCounters → AccountingCounters} {held : Held}
    (h : held.Current im.state)
    (hR : ∀ n, R held.record.toSeat { held.record.toSeat with active := n } ∧
      (isLegalTransition held.record.state .provisioned = true →
        R held.record.toSeat { moved held.record.toSeat .provisioned with active := n })) :
    Turns R N tight fair im
      (releaseLeaseAct operation auth clock reason lastReason book held im).1 := by
  have hq := seat_of_virtual h.owned.virtual
  have hlease := lease_of_lease h.lease
  have hkeyed : held.record.id = held.virtualId := hw.keyed .virtual _ _ h.owned.virtual
  have hbook := book_releaseLease h reason clock.now book
  have hseat : held.lease.toLease.seat = held.virtualId := h.virtual.trans hkeyed
  generalize him1 : im.releaseLease held reason clock.now book = im1 at hbook
  -- without the transition the lease ends and the phase stays
  have hsame : held.record.activeAttachments - 1 ≠ 0 ∨
      lifecycleAllowsLeases held.record.state = false → Turns R N tight fair im im1 := by
    intro hlast
    rw [Turns, hbook]
    refine .single (Book.Step.finish hq (hR _).1 hlease hseat h.live (fun h0 hc => ?_)
      (fun _ => rfl) id)
    obtain hne | hno := hlast
    · exact hne h0
    · exact Bool.noConfusion (hno.symm.trans hc)
  simp only [releaseLeaseAct]
  rw [him1]
  split
  · -- the step is refused after the lease has ended
    rename_i im2 status hr
    split at hr
    · obtain ⟨_, ht, hno⟩ | ⟨hok, -⟩ := transition_unoccupied (c := clock)
        (hbook ▸ Book.seat_assign_self : im1.book.seat held.virtualId = some _) .provisioned rfl
        (txt lastReason)
      · rw [ht] at hr
        cases hr
        refine hsame (.inr ?_)
        have hno : isLegalTransition held.record.state .provisioned = false := hno
        revert hno
        cases held.record.state <;> decide
      · rw [hr] at hok
        cases hok
    · cases hr
  · rename_i im2 hr
    split at hr
    · rename_i h0
      obtain ⟨_, ht, -⟩ | ⟨-, hlegal, hbook2⟩ := transition_unoccupied (c := clock)
        (hbook ▸ Book.seat_assign_self : im1.book.seat held.virtualId = some _) .provisioned rfl
        (txt lastReason)
      · rw [ht] at hr
        cases hr
      · rw [hr] at hbook2
        rw [Turns, hbook2, hbook, Book.assign_assign]
        exact .single (Book.Step.finish hq ((hR _).2 hlegal) hlease hseat h.live
          (fun _ => Bool.false_ne_true) (fun hne => absurd h0 hne)
          (by rintro (h | h) <;> cases h))
    · rename_i hne
      cases hr
      exact hsame (.inl hne)

/-- Renewing a lease leaves the book of leases as it is. -/
theorem book_renewLeaseAct (target : LeaseId × LeaseRecord) :
    (renewLeaseAct auth clock target im).1.book = im.book := by
  simp only [renewLeaseAct, book_touchHeader]
  rw [book_account]
  · exact book_modify_lease_same fun _ => rfl
  · exact fun _ => rfl

/-! ### Migrations -/

/-- Planning a migration leaves the book of leases as it is. -/
theorem book_planMigrationAct (destination : BackingId) (klass : MigrationClass)
    (plan : Owned × BackingRecord) :
    (planMigrationAct auth destination klass clock plan im).1.book = im.book := by
  simp only [planMigrationAct, book_touchHeader]
  rw [book_account]
  · exact book_modify_virtual_same fun _ _ => rfl
  · exact fun _ => rfl

/-- Everything in use ends when a virtual accelerator begins to migrate. -/
theorem turns_prepareMigrationAct {f : InFlight} (h : f.toOwned.Current im.state)
    (hl : im.book.Leased leaseRules)
    (hR : isLegalTransition f.record.state .migrating = true → ∀ n,
      R f.record.toSeat { moved f.record.toSeat .migrating with active := n }) :
    Turns R N tight fair im (prepareMigrationAct auth clock f im).1 := by
  have hq := seat_of_virtual h.virtual
  simp only [prepareMigrationAct]
  obtain ⟨_, ht, -⟩ | ⟨hok, hlegal, hbook⟩ := transition_unoccupied (c := clock) hq .migrating
    rfl (txt "migration prepared; leases are drained before cutover")
  · rw [ht]
  · generalize im.transition clock f.virtualId .migrating
      (txt "migration prepared; leases are drained before cutover") = r at hok hbook ⊢
    obtain ⟨im1, result⟩ := r
    cases hok
    have hseat : im1.book.seat f.virtualId = some (moved f.record.toSeat .migrating) :=
      hbook ▸ Book.seat_assign_self
    have hnodup : f.record.toSeat.leases.Nodup := hl.nodup _ _ hq
    have hshut := book_fenceLeases_seat hseat hnodup
      (txt "migration drained the source backing; the lease is bound to the source generation")
      clock.now
    dsimp only
    refine turns_close h.virtual ?_ (im.leftOver_eq_zero (v := f.record)) rfl (hR hlegal _)
    rw [book_touchHeader, book_account]
    · rw [book_modify_migration, touchMigration, book_touch, book_put_assignment, touchAssignment,
        book_touch, book_takeId, hshut, hbook]
      exact Book.shut_assign (q := f.record.toSeat) (moved f.record.toSeat .migrating) rfl rfl
    · exact fun _ => rfl

/-- Moving authority at a cutover leaves the book of leases as it is. -/
theorem book_cutoverAuthority (im : Impl σ) (c : Cutover) (record : VirtualAcceleratorRecord)
    (now : UnixMicros) : (im.cutoverAuthority c record now).book = im.book := by
  simp only [cutoverAuthority, book_modify_backing, touchBacking, book_touch,
    book_modify_assignment, touchAssignment]
  rw [book_account]
  · rfl
  · exact fun _ => rfl

theorem book_commitMigrationAct {c : Cutover} (h : c.toOwned.Current im.state) :
    (commitMigrationAct auth clock c im).1.book = im.book.assign c.virtualId
      (rebound c.record.toSeat c.migration.destinationAssignment
        c.migration.plan.destinationBacking c.destinationAssignment.backingGeneration) := by
  have hbook : (im.rebindVirtual c clock.now).book = im.book.assign c.virtualId
      (rebound c.record.toSeat c.migration.destinationAssignment
        c.migration.plan.destinationBacking c.destinationAssignment.backingGeneration) := by
    simp only [rebindVirtual]
    rw [book_modify_virtual_same, book_rebuildProjection]
    · exact book_modify_seat (i := im.touchVirtual c.record.id)
        (g := fun q => rebound q c.migration.destinationAssignment
          c.migration.plan.destinationBacking c.destinationAssignment.backingGeneration)
        (seat_of_virtual h.virtual) fun _ => rfl
    · exact fun _ _ => rfl
  simp only [commitMigrationAct, book_touchHeader]
  rw [book_account]
  · rw [book_modify_migration, touchMigration, book_touch, book_cutoverAuthority, hbook]
  · exact fun _ => rfl

/-- A virtual accelerator that migrates is bound to the destination. -/
theorem turns_commitMigrationAct {c : Cutover} (h : c.toOwned.Current im.state)
    (hs : lifecycleAllowsLeases c.record.state = false)
    (hR : R c.record.toSeat (rebound c.record.toSeat c.migration.destinationAssignment
      c.migration.plan.destinationBacking c.destinationAssignment.backingGeneration)) :
    Turns R N tight fair im (commitMigrationAct auth clock c im).1 := by
  rw [Turns, book_commitMigrationAct h]
  refine .single (Book.Step.edit (q := c.record.toSeat) (seat_of_virtual h.virtual) hR nofun nofun
    fun _ hc => ?_)
  exact absurd (hs.symm.trans hc) nofun

/-- Completing a migration leaves the book of leases as it is. -/
theorem book_completeMigrationAct (f : InFlight) :
    (completeMigrationAct auth clock f im).1.book = im.book :=
  book_modify_virtual_same fun _ _ => rfl

/-- Failing the destination of a migration leaves the book of leases as it is. -/
@[simp]
theorem book_failDestination (im : Impl σ) (id : BackingAssignmentId) (reason : Text)
    (now : UnixMicros) : (im.failDestination id reason now).book = im.book := by
  unfold failDestination
  split <;> rfl

theorem book_abortMigrationAct {f : InFlight} (h : f.toOwned.Current im.state) (reason : Text) :
    (abortMigrationAct auth reason clock f im).1.book = if f.record.state = .migrating then
      im.book.assign f.virtualId (moved f.record.toSeat .provisioned) else im.book := by
  have hq := seat_of_virtual h.virtual
  generalize him1 : ((((im.failDestination f.migration.destinationAssignment
    (txt "migration aborted before cutover: " ++ reason) clock.now).touchMigration
    f.migration.plan.id).modify .migration f.migrationId fun m =>
      { m with
        state := .aborted
        sourceAuthoritative := true
        destinationAuthoritative := false
        completedAt := clock.now
        note := reason }).account fun a =>
      { a with migrationsAborted := a.migrationsAborted + 1 } : Impl σ) = im1
  have hbook : im1.book = im.book := by
    rw [← him1, book_account]
    · exact book_failDestination im _ _ clock.now
    · exact fun _ => rfl
  simp only [abortMigrationAct]
  rw [him1]
  by_cases hs : f.record.state = .migrating
  · simp only [hs, if_true]
    obtain ⟨_, -, hillegal⟩ | ⟨hok, -, hbook2⟩ := transition_unoccupied (c := clock) (hbook ▸ hq)
      .provisioned rfl
      (txt "migration aborted before cutover; the source backing remains authoritative")
    · rw [show f.record.toSeat.phase.state = .migrating from hs] at hillegal
      cases hillegal
    · split
      · rename_i hr
        rw [hr] at hok
        cases hok
      · rename_i im2 hr
        rw [hr] at hbook2
        rw [book_touchHeader, hbook2, hbook]
  · simp only [hs, if_false]
    exact hbook

/-- A virtual accelerator that migrates goes back to its source. -/
theorem turns_abortMigrationAct {f : InFlight} (h : f.toOwned.Current im.state) (reason : Text)
    (hR : f.record.state = .migrating →
      R f.record.toSeat (moved f.record.toSeat .provisioned)) :
    Turns R N tight fair im (abortMigrationAct auth reason clock f im).1 := by
  rw [Turns, book_abortMigrationAct h]
  split
  · rename_i hs
    refine .single (Book.Step.edit (q := f.record.toSeat) (seat_of_virtual h.virtual) (hR hs) nofun
      nofun fun _ hc => ?_)
    exact absurd (show lifecycleAllowsLeases f.record.state = true from hc)
      (by simp [hs, lifecycleAllowsLeases])
  · exact .refl

/-! ### Execution -/

/-- Reserving memory leaves the book of leases as it is. -/
theorem book_reserveAllocationAct (bytes : ℕ) (plan : Owned × LeaseRecord) :
    (reserveAllocationAct auth bytes plan im).1.book = im.book := by
  simp only [reserveAllocationAct, book_touchHeader]
  rw [book_account]
  · exact book_modify_virtual_same fun _ _ => rfl
  · exact fun _ => rfl

/-- Releasing memory leaves the book of leases as it is. -/
theorem book_releaseAllocationAct (bytes : ℕ)
    (target : VirtualAcceleratorId × VirtualAcceleratorRecord) :
    (releaseAllocationAct auth bytes target im).1.book = im.book := by
  simp only [releaseAllocationAct, book_touchHeader]
  rw [book_account]
  · exact book_modify_virtual_same fun _ _ => rfl
  · exact fun _ => rfl

/-- Counting kernels leaves the book of leases as it is. -/
theorem book_accountKernelAct (count : ℕ) (plan : Owned × LeaseRecord) :
    (accountKernelAct auth count plan im).1.book = im.book := by
  simp only [accountKernelAct, book_touchHeader]
  rw [book_account]
  · exact book_modify_virtual_same fun _ _ => rfl
  · exact fun _ => rfl

end Bodies

end Impl

end AcceleratorVirtualization
