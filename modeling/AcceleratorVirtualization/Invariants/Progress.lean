import AcceleratorVirtualization.Invariants.Acceptance
import AcceleratorVirtualization.Invariants.Fixtures
import AcceleratorVirtualization.Invariants.Histories
import AcceleratorVirtualization.Invariants.RecordOperations

/-!
# What an owner can do next

The owner of a virtual accelerator that has lost its authority can bind it again, but not to the
backing it is still recorded with; and a migration that was just planned can be prepared and
committed if the source of the plan is bound under the generation that its record carries.
-/

namespace AcceleratorVirtualization

open Refusal VirtualizationState

/-- The caller presents the current epoch and the current generations of the owner and the virtual
accelerator, and of the policy if of any, under a request that is not a replay. -/
structure Authority.Speaks (auth : Authority) (s : VirtualizationState) (id : VirtualAcceleratorId)
    (v : VirtualAcceleratorRecord) (t : TenantRecord) : Prop where
  epoch : auth.epoch = some s.epoch
  policyGeneration : ∀ generation, auth.policyGeneration = some generation →
    generation = s.policyGeneration
  tenant : auth.tenant = some v.owner
  tenantGeneration : auth.tenantGeneration = some t.generation
  virtualId : auth.virtualId = some id
  virtualGeneration : auth.virtualGeneration = some v.generation
  request : s.remembers auth = false

namespace Impl

variable {im : Impl Disk} {clock : Clock} {auth : Authority} {id : VirtualAcceleratorId}
variable {v : VirtualAcceleratorRecord} {t : TenantRecord}

/-- What is current passes the checks of the authority. -/
theorem checkAuthority_of_speaks (hp : auth.Speaks im.state id v t)
    (hstore : im.storeFailed = false) : im.checkAuthority auth = .ok () := by
  simp only [checkAuthority, guardStore_eq_ok.mpr hstore, checkEpoch_eq_ok.mpr hp.epoch,
    checkPolicy_eq_ok.mpr hp.policyGeneration]
  rfl

/-- The caller is the owner if it is recorded under its current generation. -/
theorem resolveOwned_of_speaks (hk : im.state.WellKeyed) (hv : im.state.virtuals[id]? = some v)
    (ht : im.state.tenants[v.owner]? = some t) (hfenced : t.fenced = false)
    (hp : auth.Speaks im.state id v t) {owned : Owned} :
    im.state.resolveOwned auth = .ok owned ↔
      v.ownerGeneration = t.generation ∧ owned = ⟨v.owner, t, id, v⟩ := by
  have htenant : im.state.resolveTenant auth = .ok (v.owner, t) :=
    resolveTenant_eq_ok.mpr ⟨hp.tenant, ht, hp.tenantGeneration⟩
  have hvirtual : im.state.resolveVirtual auth = .ok (id, v) :=
    resolveVirtual_eq_ok.mpr ⟨hp.virtualId, hv, hp.virtualGeneration⟩
  have howner : v.owner = t.id := (hk.keyed .tenant _ _ ht).symm
  simp only [resolveOwned, htenant, hvirtual, bind_eq_ok, pure_eq_ok]
  constructor
  · rintro ⟨_, ⟨⟩, _, ⟨⟩, _, ho, rfl⟩
    exact ⟨(requireOwner_eq_ok.mp ho).2.1, rfl⟩
  · rintro ⟨hgeneration, rfl⟩
    exact ⟨_, rfl, _, rfl, _, requireOwner_eq_ok.mpr ⟨howner, hgeneration, hfenced⟩, rfl⟩

theorem requireMutable_eq_ok {record : VirtualAcceleratorRecord} :
    requireMutable record = .ok () ↔ record.state ≠ .retired ∧ record.state ≠ .fenced := by
  simp only [requireMutable, guard_bind_eq_ok, guard_eq_ok, pure_eq_ok, and_true]

/-! ### Binding again -/

/-- Whether a virtual accelerator points to an assignment with authority. -/
def empowers (s : VirtualizationState) (v : VirtualAcceleratorRecord) : Bool :=
  valid v.assignment && s.assignments[v.assignment]?.any (·.authoritative)

/-- A virtual accelerator none of whose assignments has authority. -/
theorem empowers_eq_false (h : im.state.Sound (onLedger Custody.Ledger.Coherent))
    (hv : im.state.virtuals[id]? = some v)
    (hfree : ∀ (g : BackingAssignmentId) (a : BackingAssignment),
      im.state.assignments[g]? = some a →
      a.virtualId = id → a.authoritative = false) : empowers im.state v = false := by
  unfold empowers
  cases ha : im.state.assignments[v.assignment]? with
  | none => exact Bool.and_false _
  | some a =>
    by_cases h0 : v.assignment = 0
    · rw [h0]
      rfl
    · -- the assignment belongs to the virtual accelerator
      have hparty : im.state.ledger.party id = some v.toPointer := congrArg (Option.map _) hv
      have hcoherent : im.state.ledger.Coherent := h.holds
      obtain ⟨r, hr, hid, -⟩ := hcoherent.owned id v.toPointer v.assignment hparty (ref_of_ne h0)
      have hgrant : im.state.ledger.grant v.assignment = some a.toGrant :=
        congrArg (Option.map _) ha
      obtain rfl := Option.some.inj (hgrant.symm.trans hr)
      simp [hfree _ a ha hid]

/-- A backing can be assigned where there is no authority, unless it is the recorded one. -/
theorem checkBindable_eq_ok {backing : BackingRecord}
    (hstate : v.state = .provisioned ∨ v.state = .suspended)
    (hfree : empowers im.state v = false) :
    im.checkBindable v backing false = .ok () ↔ backing.id ≠ v.backing := by
  have hassignable : (decide (v.state = .provisioned) || decide (v.state = .suspended)) = true := by
    simpa using hstate
  unfold empowers at hfree
  simp only [checkBindable, guard_bind_eq_ok, guard_eq_ok, pure_eq_ok, hassignable, hfree,
    Bool.not_false, Bool.true_and, Bool.false_and, Bool.not_true, Bool.false_eq_true, not_false_iff,
    true_and, and_true]

/-- Whether the checks of an assignment pass, where there is no authority and the backing was
validated. -/
theorem assignBackingCheck_isOk {backing : BackingId} {b : BackingRecord} (hk : im.state.WellKeyed)
    (hstore : im.storeFailed = false) (hv : im.state.virtuals[id]? = some v)
    (hstate : v.state = .provisioned ∨ v.state = .suspended)
    (hfree : empowers im.state v = false) (ht : im.state.tenants[v.owner]? = some t)
    (hfenced : t.fenced = false) (hp : auth.Speaks im.state id v t)
    (hb : im.state.backings[backing]? = some b)
    (hvalid : validateBackingFor im.options.sorting b im.state.physical[b.physical]? v
      im.state.policy im.state =
      .ok ()) :
    (assignBackingCheck auth backing false im).isOk = true ↔
      v.ownerGeneration = t.generation ∧ backing ≠ v.backing := by
  have hbid : b.id = backing := hk.keyed .backing _ _ hb
  have hmutable : requireMutable v = .ok () := requireMutable_eq_ok.mpr (by
    obtain hs | hs := hstate <;> rw [hs] <;> exact ⟨nofun, nofun⟩)
  have hbindable := @checkBindable_eq_ok im v b hstate hfree
  rw [hbid] at hbindable
  simp only [isOk_iff, assignBackingCheck, bind_eq_ok, checkAuthority_of_speaks hp hstore,
    checkRequest_eq_ok.mpr hp.request, resolveOwned_of_speaks hk hv ht hfenced hp, hb, pure_eq_ok]
  constructor
  · rintro ⟨_, _, -, _, -, _, ⟨hgeneration, rfl⟩, _, -, _, hbind, -⟩
    exact ⟨hgeneration, hbindable.mp hbind⟩
  · rintro ⟨hgeneration, hne⟩
    exact ⟨_, (), trivial, (), trivial, _, ⟨hgeneration, rfl⟩, (), hmutable, (),
      hbindable.mpr hne, (), hvalid, rfl⟩

end Impl

/-- In every state of every run in which the store takes change sets, a virtual accelerator that is
provisioned or suspended and has no authority left: its owner can bind it to a backing that is
validated for it if and only if the owner is recorded under its current generation and the backing
is not the one that is still recorded. -/
theorem rebinds_iff {options : RuntimeOptions} {stored : Bool} {events : List Event}
    {im : Impl Disk} (h : (Impl.initial options stored).run events = some im)
    (hworking : im.working = true) {id : VirtualAcceleratorId} {v : VirtualAcceleratorRecord}
    {t : TenantRecord} {auth : Authority} (hv : im.state.virtuals[id]? = some v)
    (hstate : v.state = .provisioned ∨ v.state = .suspended)
    (hfree : ∀ (g : BackingAssignmentId) (a : BackingAssignment),
      im.state.assignments[g]? = some a →
      a.virtualId = id → a.authoritative = false)
    (ht : im.state.tenants[v.owner]? = some t) (hfenced : t.fenced = false)
    (hp : auth.Speaks im.state id v t) {backing : BackingId} {b : BackingRecord}
    (hb : im.state.backings[backing]? = some b)
    (hvalid : validateBackingFor im.options.sorting b im.state.physical[b.physical]? v
      im.state.policy im.state =
      .ok ()) (clock : Clock) (reason : Text) :
    ((im.answering (.ok ())).exec clock (.assignBacking auth backing reason)).2 = .ok () ↔
      v.ownerGeneration = t.generation ∧ backing ≠ v.backing := by
  have hcoherent := Impl.coherent_of_run h
  have hk := (hcoherent.answering (.ok ())).state.wellKeyed
  simp only [Impl.working, Impl.takes, Bool.and_eq_true, Bool.not_eq_true'] at hworking
  rw [Impl.exec_eq_ok_iff_admits rfl hk, and_iff_left hworking.2]
  exact Impl.assignBackingCheck_isOk hk hworking.1 hv hstate
    (Impl.empowers_eq_false hcoherent.state hv hfree) ht hfenced hp hb hvalid

namespace Sample

/-- The device of a virtual accelerator that is bound to backing 7 is lost, and comes back. -/
def bereft : List Event :=
  [.start clock, call (.registerAgent (txt "agent") [] 0 1),
    call (.registerPhysical anyone 1 4 device), call (.createTenant anyone (txt "tenant") []),
    call (.createVirtual anyone (txt "v") 11 1 contract), call (.assignBacking (owner 14 1) 7 []),
    call (.physicalLost 5 1 []), call (.registerPhysical anyone 1 4 device)]

/-- The owner, under the first policy. -/
def bereaved : Authority := { owner 14 2 with policyGeneration := some 1 }

/-- The virtual accelerator has no authority, and its owner presents all that is current for a
backing that is validated for it. -/
def forsaken (im : Impl Disk) (backing : BackingId) : Bool :=
  im.working && decide (im.state.epoch = 1) && decide (im.state.policyGeneration = 1) &&
    (im.state.assignments.toList.all fun entry =>
      decide (entry.2.virtualId ≠ 14) || !entry.2.authoritative) &&
    im.state.virtuals[14]?.any fun v =>
      decide (v.state = .provisioned) && decide (v.owner = 11) && decide (v.generation = 2) &&
        decide (v.backing = 7) &&
        (im.state.tenants[11]?.any fun t => decide (t.generation = 1) && !t.fenced) &&
        im.state.backings[backing]?.any fun b => decide (validateBackingFor im.options.sorting b
          im.state.physical[b.physical]? v im.state.policy im.state = .ok ())

/-- What the hypotheses of the theorem are there. -/
theorem hypotheses_of_forsaken {im : Impl Disk} {backing : BackingId}
    (h : forsaken im backing = true) :
    ∃ v t b, im.working = true ∧ im.state.virtuals[14]? = some v ∧ v.state = .provisioned ∧
      v.backing = 7 ∧
      (∀ (g : BackingAssignmentId) (a : BackingAssignment), im.state.assignments[g]? = some a →
        a.virtualId = 14 → a.authoritative = false) ∧
      im.state.tenants[v.owner]? = some t ∧ t.fenced = false ∧
      bereaved.Speaks im.state 14 v t ∧ im.state.backings[backing]? = some b ∧
      validateBackingFor im.options.sorting b im.state.physical[b.physical]? v im.state.policy
        im.state = .ok () := by
  simp only [forsaken, Bool.and_eq_true, Bool.not_eq_true', decide_eq_true_eq,
    Option.any_eq_true] at h
  obtain ⟨⟨⟨⟨hworking, hepoch⟩, hpolicy⟩, hfree⟩, v, hv, ⟨⟨⟨⟨hstate, howner⟩, hgeneration⟩,
    hbacking⟩, t, ht, htenant, hfenced⟩, b, hb, hvalid⟩ := h
  refine ⟨v, t, b, hworking, hv, hstate, hbacking, fun g a ha hid => ?_, howner ▸ ht, hfenced, ?_,
    hb, hvalid⟩
  · have hentry := List.all_eq_true.mp hfree (g, a)
      (Std.ExtTreeMap.mem_toList_iff_getElem?_eq_some.mpr ha)
    simpa [hid] using hentry
  · exact {
      epoch := congrArg some hepoch.symm
      policyGeneration := by
        rintro _ ⟨⟩
        exact hpolicy.symm
      tenant := congrArg some howner.symm
      tenantGeneration := congrArg some htenant.symm
      virtualId := rfl
      virtualGeneration := congrArg some hgeneration.symm
      request := rfl }

end Sample

/-- The virtual accelerator can be bound to the other backing of its device. -/
theorem rebinds_bereft : ∃ im, (Impl.initial {} true).run Sample.bereft = some im ∧
    ((im.answering (.ok ())).exec Sample.clock (.assignBacking Sample.bereaved 8 [])).2 = .ok () ∧
    ∃ v, im.state.virtuals[14]? = some v ∧ 8 ≠ v.backing := by
  have hrun : (((Impl.initial {} true).run Sample.bereft).any fun im => Sample.forsaken im 8 &&
      ((im.answering (.ok ())).exec Sample.clock
        (.assignBacking Sample.bereaved 8 [])).2.isOk) = true := by
    decide +kernel
  obtain ⟨im, him, hgood⟩ := (Option.any_eq_true _ _).mp hrun
  rw [Bool.and_eq_true, isOk_iff] at hgood
  obtain ⟨hforsaken, _, hok⟩ := hgood
  obtain ⟨v, t, b, hworking, hv, hstate, -, hfree, ht, hfenced, hp, hb, hvalid⟩ :=
    Sample.hypotheses_of_forsaken hforsaken
  have hiff := rebinds_iff him hworking hv (.inl hstate) hfree ht hfenced hp hb hvalid
    Sample.clock []
  exact ⟨im, him, hok, v, hv, (hiff.mp hok).2⟩

/-- It cannot be bound to the backing it had, although that is validated for it. -/
theorem not_rebinds_bereft : ∃ im v t b, (Impl.initial {} true).run Sample.bereft = some im ∧
    im.working = true ∧ im.state.virtuals[14]? = some v ∧ v.state = .provisioned ∧ v.backing = 7 ∧
    (∀ (g : BackingAssignmentId) (a : BackingAssignment), im.state.assignments[g]? = some a →
      a.virtualId = 14 → a.authoritative = false) ∧
    im.state.tenants[v.owner]? = some t ∧ t.fenced = false ∧ v.ownerGeneration = t.generation ∧
    Sample.bereaved.Speaks im.state 14 v t ∧ im.state.backings[7]? = some b ∧
    validateBackingFor im.options.sorting b im.state.physical[b.physical]? v im.state.policy
      im.state = .ok () ∧
    ((im.answering (.ok ())).exec Sample.clock (.assignBacking Sample.bereaved 7 [])).2 ≠
      .ok () := by
  have hrun : (((Impl.initial {} true).run Sample.bereft).any fun im => Sample.forsaken im 7 &&
      (im.state.virtuals[14]?.all fun v => im.state.tenants[v.owner]?.all fun t =>
        decide (v.ownerGeneration = t.generation)) &&
      !((im.answering (.ok ())).exec Sample.clock
        (.assignBacking Sample.bereaved 7 [])).2.isOk) = true := by
    decide +kernel
  obtain ⟨im, him, hbad⟩ := (Option.any_eq_true _ _).mp hrun
  rw [Bool.and_eq_true, Bool.and_eq_true, Bool.not_eq_true'] at hbad
  obtain ⟨⟨hforsaken, hgeneration⟩, hrefused⟩ := hbad
  obtain ⟨v, t, b, hworking, hv, hstate, hbacking, hfree, ht, hfenced, hp, hb, hvalid⟩ :=
    Sample.hypotheses_of_forsaken hforsaken
  have hcurrent : v.ownerGeneration = t.generation := by
    simpa [hv, ht] using hgeneration
  refine ⟨im, v, t, b, him, hworking, hv, hstate, hbacking, hfree, ht, hfenced, hcurrent, hp, hb,
    hvalid, fun hok => ?_⟩
  rw [hok] at hrefused
  cases hrefused

/-! ### Going on with a plan -/

theorem Authority.Presents.speaks {auth : Authority} {s : VirtualizationState} {id : MigrationId}
    {m : MigrationRecord} {v : VirtualAcceleratorRecord} {t : TenantRecord}
    (h : auth.Presents s id m v t) : auth.Speaks s m.plan.virtualId v t :=
  ⟨h.epoch, h.policyGeneration, h.tenant, h.tenantGeneration, h.virtualId, h.virtualGeneration,
    h.request⟩

/-- What the owner presents for a phase. -/
def Authority.current (s : VirtualizationState) (id : MigrationId) (m : MigrationRecord)
    (v : VirtualAcceleratorRecord) (t : TenantRecord) : Authority where
  epoch := some s.epoch
  policyGeneration := some s.policyGeneration
  tenant := some v.owner
  tenantGeneration := some t.generation
  virtualId := some m.plan.virtualId
  virtualGeneration := some v.generation
  migration := some id
  migrationGeneration := some m.plan.generation

theorem Authority.presents_current (s : VirtualizationState) (id : MigrationId)
    (m : MigrationRecord)
    (v : VirtualAcceleratorRecord) (t : TenantRecord) :
    (Authority.current s id m v t).Presents s id m v t :=
  ⟨rfl, fun _ h => (Option.some.inj h).symm, rfl, rfl, rfl, rfl, rfl, rfl, rfl⟩

namespace Impl

variable {im im' : Impl Disk} {clock : Clock} {auth : Authority}

/-- An operation that succeeds leaves what its body makes, up to the windows. -/
theorem operation_ok {α : Type} {b : Body Disk α} {a : α}
    (h : im.operation clock b = (im', .ok a)) :
    (∃ accepted, (b im.beginOp).2 = .ok accepted ∧ accepted.result = a) ∧
      (b im.beginOp).1.state.Alike True im'.state ∧
      im'.storeFailed = (b im.beginOp).1.storeFailed := by
  rw [operation_eq] at h
  generalize b im.beginOp = r at h ⊢
  obtain ⟨hstate, hanswer⟩ := Prod.mk.inj h
  generalize hsettled : r.1.settle clock (recorded r.2).1 (recorded r.2).2.1 (recorded r.2).2.2 = i
    at hstate hanswer
  have hfailed : i.storeFailed = r.1.storeFailed := by
    rw [← hsettled]
    unfold settle
    split <;> split <;> rfl
  have halike : r.1.state.Alike True i.state := hsettled ▸ alike_settle clock _ _ _
  obtain ⟨store, -, hcommit⟩ | ⟨store, status, -, hcommit⟩ := commit_cases i
  · rw [hcommit] at hstate hanswer
    subst hstate
    refine ⟨?_, halike.trans (alike_extended i), hfailed⟩
    cases hr : r.2 with
    | error refusal =>
      rw [hr] at hanswer
      cases hanswer
    | ok accepted =>
      rw [hr] at hanswer
      exact ⟨accepted, rfl, Except.ok.inj hanswer⟩
  · rw [hcommit] at hanswer
    cases hanswer

/-- The prologue of a phase passes, for the owner with all current generations. -/
theorem migrationPrologue_eq_ok {id : MigrationId} {m : MigrationRecord}
    {v : VirtualAcceleratorRecord} {t : TenantRecord} (hk : im.state.WellKeyed)
    (hstore : im.storeFailed = false) (hm : im.state.migrations[id]? = some m)
    (hbefore : migrationStateAfterCutover m.state = false)
    (hv : im.state.virtuals[m.plan.virtualId]? = some v) (ht : im.state.tenants[v.owner]? = some t)
    (hfenced : t.fenced = false) (hp : auth.Presents im.state id m v t) {f : InFlight} :
    migrationPrologue auth im = .ok f ↔ (v.ownerGeneration = t.generation ∧
      m.plan.Current v im.state) ∧ f = ⟨⟨v.owner, t, m.plan.virtualId, v⟩, id, m⟩ := by
  have hid : v.id = m.plan.virtualId := hk.keyed .virtual _ _ hv
  simp only [migrationPrologue, bind_eq_ok, checkAuthority_of_speaks hp.speaks hstore,
    checkRequest_eq_ok.mpr hp.request, resolveOwned_of_speaks hk hv ht hfenced hp.speaks,
      hp.migration,
    hp.migrationGeneration, hm, guard_bind_eq_ok, pure_eq_ok]
  constructor
  · rintro ⟨_, -, _, -, _, ⟨hgeneration, rfl⟩, -, -, _, hs, rfl⟩
    exact ⟨⟨hgeneration, (planStaleness_eq_ok hbefore).mp hs⟩, rfl⟩
  · rintro ⟨⟨hgeneration, hcurrent⟩, rfl⟩
    exact ⟨(), trivial, (), trivial, _, ⟨hgeneration, rfl⟩, fun h => h rfl, fun h => h hid.symm, (),
      (planStaleness_eq_ok hbefore).mpr hcurrent, rfl⟩

/-- A body that accepts has acted on what its check found. -/
theorem checked_ok {π α : Type} {context : Impl Disk → OpContext} {kind : AuditKind}
    {check : Impl Disk → Except Status π} {act : π → Body Disk α} {accepted : Accepted α}
    (h : (checked (fun im => orRefuse (context im) kind (check im)) act im).2 = .ok accepted) :
    ∃ plan, check im = .ok plan ∧ (act plan im).2 = .ok accepted ∧
      checked (fun im => orRefuse (context im) kind (check im)) act im = act plan im := by
  simp only [checked, orRefuse] at h ⊢
  cases hc : check im with
  | error status =>
    simp only [hc, Refusal.mapError_error] at h
    cases h
  | ok plan =>
    simp only [hc, Refusal.mapError_ok] at h
    exact ⟨plan, rfl, h, rfl⟩

theorem startable_of_migratable {v : VirtualAcceleratorRecord} {destination : BackingId}
    (h : im.checkMigratable v destination = .ok ()) :
    isLegalTransition v.state .migrating = true := by
  have hstart : (lifecycleRequiresBacking v.state || decide (v.state = .provisioned) ||
      decide (v.state = .suspended)) = true := by
    by_contra hno
    simp only [checkMigratable, Bool.not_eq_true] at h hno
    simp only [hno, Bool.not_false, if_true] at h
    generalize (Except.isOk _ && decide (v.state = .migrating)) = busy at h
    cases busy <;> cases h
  revert hstart
  cases v.state <;> decide

/-- A migration that was just planned, for a virtual accelerator as it was before. -/
structure Plans (im im' : Impl Disk) (m : MigrationRecord) (v : VirtualAcceleratorRecord)
    (t : TenantRecord) : Prop where
  startable : isLegalTransition v.state .migrating = true
  pointed : v.assignment ≠ 0
  virtual : im.state.virtuals[m.plan.virtualId]? = some v
  tenant : im.state.tenants[v.owner]? = some t
  current : v.ownerGeneration = t.generation
  active : t.fenced = false
  migration : im'.state.migrations[m.plan.id]? = some m
  state : m.state = .planned
  source : m.sourceAssignment = v.assignment
  named : ∃ g, im'.state.virtuals[m.plan.virtualId]? =
    some { v with migration := m.plan.id, migrationGeneration := g }
  fresh : ∀ w : VirtualAcceleratorRecord, (∃ g, w = { v with
      migration := m.plan.id, migrationGeneration := g }) → (m.plan.Current w im'.state ↔
    ∃ b : BackingRecord, im.state.backings[v.backing]? = some b ∧
      b.generation = v.backingGeneration)
  tenants : im'.state.tenants = im.state.tenants
  assignments : im'.state.assignments = im.state.assignments
  storeFailed : im'.storeFailed = im.storeFailed

theorem plans_of_ok (hk : im.state.WellKeyed) {destination : BackingId} {klass : MigrationClass}
    {m : MigrationRecord} (h : im.planMigration clock auth destination klass = (im', .ok m)) :
    ∃ v t, im.Plans im' m v t := by
  obtain ⟨⟨accepted, hbody, hresult⟩, halike, hfailed⟩ := operation_ok h
  obtain ⟨⟨owned, destinationBacking⟩, hcheck, hact, hsame⟩ := checked_ok hbody
  rw [planMigrationBody, hsame] at halike hfailed
  obtain ⟨hcurrent, hdestination, hassignment, hbacking⟩ := planMigrationCheck_ok hcheck
  have hmigratable : im.checkMigratable owned.record destination = .ok () := by
    simp only [planMigrationCheck, bind_eq_ok] at hcheck
    obtain ⟨-, -, -, -, _, -, -, -, _, hm, -, -, hcheck⟩ := hcheck
    split at hcheck
    · simp [throw_ne_ok] at hcheck
    · simp only [bind_eq_ok, guard_bind_eq_ok, pure_eq_ok] at hcheck
      obtain ⟨-, -, -, hplan⟩ := hcheck
      obtain ⟨rfl, -⟩ := Prod.mk.inj hplan
      exact hm
  have hid : owned.record.id = owned.virtualId := hk.keyed .virtual _ _ hcurrent.virtual
  have htid : owned.tenant.id = owned.tenantId := hk.keyed .tenant _ _ hcurrent.tenant
  have hpolicy : im'.state.policyGeneration = im.state.policyGeneration :=
    halike.policyGeneration.symm
  have hepoch : im'.state.epoch = im.state.epoch := halike.epoch.symm
  have htenants : im'.state.tenants = im.state.tenants := (halike.tenants trivial).symm
  have hbackings : im'.state.backings = im.state.backings :=
    (halike.entities .backing (by decide)).symm
  have hassignments : im'.state.assignments = im.state.assignments :=
    (halike.entities .assignment (by decide)).symm
  have hstore : im'.storeFailed = im.storeFailed := hfailed
  -- what is planned, and what it leaves
  simp only [planMigrationAct, Except.ok.injEq] at hact
  obtain ⟨hvirtualId, hstate, hsource, hplan⟩ : m.plan.virtualId = owned.record.id ∧
      m.state = .planned ∧ m.sourceAssignment = owned.record.assignment ∧
      m.plan.virtualGeneration = owned.record.generation ∧
      m.plan.contractGeneration = owned.record.contract.generation ∧
      m.plan.sourceBacking = owned.record.backing ∧
      m.plan.sourceBackingGeneration =
        (im.state.backings[owned.record.backing]?.getD {}).generation ∧
      m.plan.destinationBacking = destination ∧
      m.plan.destinationBackingGeneration = destinationBacking.generation ∧
      m.plan.tenant = owned.record.owner ∧
      m.plan.tenantGeneration = owned.record.ownerGeneration ∧
      m.plan.policyGeneration = im.state.policyGeneration ∧ m.plan.epoch = im.state.epoch := by
    rw [← hresult, ← hact]
    exact ⟨rfl, rfl, rfl, rfl, rfl, rfl, rfl, rfl, rfl, rfl, rfl, rfl, rfl⟩
  have hvirtuals : im'.state.virtuals = im.state.virtuals.modify owned.virtualId
      fun v => { v with migration := m.plan.id, migrationGeneration := m.plan.generation } := by
    rw [← hresult, ← hact]
    exact (halike.entities .virtual (by decide)).symm
  have hmigrations : im'.state.migrations = im.state.migrations.insert m.plan.id m := by
    rw [← hresult, ← hact]
    exact (halike.entities .migration (by decide)).symm
  obtain ⟨hvirtualGeneration, hcontract, hsourceBacking, hsourceGeneration, hdestinationBacking,
    hdestinationGeneration, hplanTenant, htenantGeneration, hplanPolicy, hplanEpoch⟩ := hplan
  have hvirtual : im.state.virtuals[owned.virtualId]? = some owned.record := hcurrent.virtual
  have hnamed : m.plan.virtualId = owned.virtualId := hvirtualId.trans hid
  have howner : im.state.tenants[owned.record.owner]? = some owned.tenant := by
    rw [hcurrent.owner, htid]
    exact hcurrent.tenant
  exact ⟨owned.record, owned.tenant, {
    startable := startable_of_migratable hmigratable
    pointed := hassignment
    virtual := hnamed ▸ hvirtual
    tenant := howner
    current := hcurrent.generation
    active := hcurrent.active
    migration := by
      rw [hmigrations]
      exact Std.ExtTreeMap.getElem?_insert_self
    state := hstate
    source := hsource
    named := by
      refine ⟨m.plan.generation, ?_⟩
      rw [hvirtuals, hnamed, Std.ExtTreeMap.getElem?_modify_self, hvirtual]
      rfl
    fresh := by
      rintro w ⟨g, rfl⟩
      constructor
      · intro hfresh
        obtain ⟨b, hb, hgeneration⟩ := hfresh.source
        rw [hbackings, hsourceBacking] at hb
        exact ⟨b, hb, hgeneration.trans hfresh.bound.2⟩
      · rintro ⟨b, hb, hgeneration⟩
        have hsame : m.plan.sourceBackingGeneration = b.generation := by
          rw [hsourceGeneration, hb]
          rfl
        exact {
          epoch := hplanEpoch.trans hepoch.symm
          policyGeneration := hplanPolicy.trans hpolicy.symm
          virtualGeneration := hvirtualGeneration
          contractGeneration := hcontract
          bound := ⟨hsourceBacking, hsame.trans hgeneration⟩
          source := ⟨b, by rw [hbackings, hsourceBacking, hb], hsame.symm⟩
          destination := ⟨destinationBacking, by rw [hbackings, hdestinationBacking]; exact
            hdestination, hdestinationGeneration.symm⟩
          tenant := ⟨owned.tenant, by rw [htenants, hplanTenant, howner], by
            rw [htenantGeneration, hcurrent.generation]⟩ }
    tenants := htenants
    assignments := hassignments
    storeFailed := hstore }⟩

/-- What the life cycle and the leases of a virtual accelerator leave alone. -/
def apart (im : Impl Disk) :=
  (im.state.assignments, im.state.migrations, im.state.epoch, im.state.policyGeneration,
    im.storeFailed)

theorem apart_transition (im : Impl Disk) (clock : Clock) (id : VirtualAcceleratorId)
    (target : VirtualLifecycleState) (reason : Text) :
    (im.transition clock id target reason).1.apart = im.apart := by
  have hcarry : ∀ (im : Impl Disk) (generation : Generation) (lease : LeaseId),
      (im.carryLease generation lease).apart = im.apart := by
    intro im generation lease
    unfold carryLease
    split
    · rfl
    · split <;> rfl
  unfold transition
  split
  · rfl
  · split
    · rfl
    · dsimp only
      split
      · exact foldl_unchanged (fun im lease => hcarry im _ lease) _ _
      · rfl

theorem apart_fenceLeases (im : Impl Disk) (id : VirtualAcceleratorId) (reason : Text)
    (now : UnixMicros) : (im.fenceLeases id reason now).apart = im.apart := by
  have hlease : ∀ (im : Impl Disk) (lease : LeaseId),
      (im.fenceLease reason now lease).apart = im.apart := by
    intro im lease
    unfold fenceLease
    split
    · rfl
    · split <;> rfl
  unfold fenceLeases
  split
  · rfl
  · rename_i record hr
    have hfold := foldl_unchanged (f := apart) hlease record.leases im
    dsimp only
    generalize record.leases.foldl
      (fun im lease => im.fenceLease reason now lease) im = im1 at hfold
    split
    · exact hfold
    · refine Eq.trans ?_ hfold
      split <;> rfl

/-- A preparation that goes through: the plan is for the virtual accelerator as it is then, the
source keeps its authority, and the destination has an assignment. -/
structure Prepares (im im' : Impl Disk) (f : InFlight) (m : MigrationRecord) : Prop where
  virtual : ∃ v : VirtualAcceleratorRecord, im'.state.virtuals[f.virtualId]? = some v ∧
    v.owner = f.record.owner ∧ v.ownerGeneration = f.record.ownerGeneration ∧
    v.backing = f.record.backing ∧ v.backingGeneration = f.record.backingGeneration ∧
    m.plan = { f.migration.plan with
      generation := f.migration.plan.generation + 1
      virtualGeneration := v.generation
      contractGeneration := v.contract.generation
      projectionGeneration := v.projection.generation }
  migration : im'.state.migrations[f.migrationId]? = some m
  state : m.state = .commitReady
  source : m.sourceAssignment = f.migration.sourceAssignment
  destination : (im'.state.assignments[m.destinationAssignment]?).isSome
  kept : ∀ (g : BackingAssignmentId) (a : BackingAssignment), im.state.assignments[g]? = some a →
    im'.state.assignments[g]? = some a
  fixtures : im'.fixtures.offer = im.fixtures.offer ∧ im'.fixtures.charter = im.fixtures.charter
  epoch : im'.state.epoch = im.state.epoch
  policyGeneration : im'.state.policyGeneration = im.state.policyGeneration
  storeFailed : im'.storeFailed = im.storeFailed

theorem prepares_of_legal (ht : Tracks im ∅ im) {f : InFlight} (hf : f.Current im.state)
    (hl : isLegalTransition f.record.state .migrating = true) :
    ∃ accepted, (prepareMigrationAct auth clock f im).2 = .ok accepted ∧
      im.Prepares (prepareMigrationAct auth clock f im).1 f accepted.result := by
  obtain ⟨hok, hmoved⟩ := transition_legal clock
    (txt "migration prepared; leases are drained before cutover") hf.owned.virtual hl
  have hapart := im.apart_transition clock f.virtualId .migrating
    (txt "migration prepared; leases are drained before cutover")
  have hfixtures := fixtures_transition im clock f.virtualId .migrating
    (txt "migration prepared; leases are drained before cutover")
  have htracks := ht.transition clock f.virtualId .migrating
    (txt "migration prepared; leases are drained before cutover")
  -- the transition to `migrating` goes through, as it is legal
  simp only [prepareMigrationAct]
  generalize im.transition clock f.virtualId .migrating
    (txt "migration prepared; leases are drained before cutover") = r at *
  obtain ⟨im1, status⟩ := r
  obtain rfl : status = .ok () := hok
  dsimp only
  -- the leases of the source are fenced
  have hmoved := hmoved.comp (im1.amends_fenceLeases f.virtualId
    (txt "migration drained the source backing; the lease is bound to the source generation")
    clock.now)
  have hapart := (im1.apart_fenceLeases f.virtualId
    (txt "migration drained the source backing; the lease is bound to the source generation")
    clock.now).trans hapart
  have hfixtures := (fixtures_fenceLeases im1 f.virtualId
    (txt "migration drained the source backing; the lease is bound to the source generation")
    clock.now).trans hfixtures
  have htracks := htracks.fenceLeases f.virtualId
    (txt "migration drained the source backing; the lease is bound to the source generation")
    clock.now
  generalize im1.fenceLeases f.virtualId
    (txt "migration drained the source backing; the lease is bound to the source generation")
    clock.now = im2 at *
  obtain ⟨v, hv, w, hw, n, hn⟩ := hmoved.some hf.owned.virtual
  obtain ⟨hassignments, hmigrations, hepoch, hpolicy, hstore⟩ : im2.state.assignments =
      im.state.assignments ∧ im2.state.migrations = im.state.migrations ∧
      im2.state.epoch = im.state.epoch ∧ im2.state.policyGeneration = im.state.policyGeneration ∧
      im2.storeFailed = im.storeFailed := by
    simpa only [apart, Prod.mk.injEq] using hapart
  have hm : im2.state.migrations[f.migrationId]? = some f.migration := by
    rw [hmigrations]
    exact hf.migration
  have hv' : im2.state.virtuals[f.virtualId]? = some v := hv
  -- the destination gets an assignment under an unused id
  have hfresh : im2.state.assignments[im2.nextId]? = none :=
    htracks.wellKeyed.fresh .assignment le_rfl
  refine ⟨_, rfl, ?_⟩
  rw [hv', Option.getD_some]
  have ha : (im2.prepareDestination f clock.now).id = im2.nextId := rfl
  generalize im2.prepareDestination f clock.now = a at ha
  generalize him3 : Impl.touchHeader _ = im3
  have hmap : im3.state.migrations[f.migrationId]? = some { f.migration with
      state := .commitReady
      destinationAssignment := a.id
      preparedAt := clock.now
      note := txt "prepared, source drained through SourceDraining and DestinationPrepared"
      plan := { f.migration.plan with
        generation := f.migration.plan.generation + 1
        virtualGeneration := v.generation
        contractGeneration := v.contract.generation
        projectionGeneration := v.projection.generation }
      sourceAuthoritative := true
      destinationAuthoritative := false } := by
    rw [← him3]
    exact (Std.ExtTreeMap.getElem?_modify_self ..).trans (congrArg (Option.map _) hm)
  have hthere : im3.state.assignments = im2.state.assignments.insert a.id a := by
    rw [← him3]
    rfl
  have hkept : im3.fixtures.offer = im2.fixtures.offer ∧
      im3.fixtures.charter = im2.fixtures.charter := by
    rw [← him3]
    exact ⟨rfl, rfl⟩
  have hsame : im3.state.virtuals = im2.state.virtuals ∧ im3.state.epoch = im2.state.epoch ∧
      im3.state.policyGeneration = im2.state.policyGeneration ∧
      im3.storeFailed = im2.storeFailed := by
    rw [← him3]
    exact ⟨rfl, rfl, rfl, rfl⟩
  obtain ⟨hvirtuals, hepoch', hpolicy', hstore'⟩ := hsame
  rw [hmap, Option.getD_some]
  exact {
    virtual := by
      refine ⟨v, by rw [hvirtuals, hv'], ?_⟩
      rw [hn, hw]
      exact ⟨rfl, rfl, rfl, rfl, rfl⟩
    migration := hmap
    state := rfl
    source := rfl
    destination := by
      rw [hthere]
      simp
    kept := by
      intro g b hb
      have hne : a.id ≠ g := by
        rintro rfl
        rw [← hassignments, ha, hfresh] at hb
        cases hb
      rw [hthere, Std.ExtTreeMap.getElem?_insert, if_neg (by simpa using hne), hassignments]
      exact hb
    fixtures := by
      rw [hkept.1, hkept.2, hfixtures]
      exact ⟨rfl, rfl⟩
    epoch := hepoch'.trans hepoch
    policyGeneration := hpolicy'.trans hpolicy
    storeFailed := hstore'.trans hstore }

/-- What a preparation leaves is the same up to the windows. -/
theorem Prepares.alike {im1 : Impl Disk} {f : InFlight} {m : MigrationRecord}
    (h : im.Prepares im1 f m) (ha : im1.state.Alike True im'.state)
    (hs : im'.storeFailed = im1.storeFailed) : im.Prepares im' f m := by
  have hvirtuals : im'.state.virtuals = im1.state.virtuals := (ha.entities .virtual nofun).symm
  have hmigrations : im'.state.migrations = im1.state.migrations :=
    (ha.entities .migration nofun).symm
  have hassignments : im'.state.assignments = im1.state.assignments :=
    (ha.entities .assignment nofun).symm
  have hbackings : im'.state.backings = im1.state.backings := (ha.entities .backing nofun).symm
  have htenants : im'.state.tenants = im1.state.tenants := (ha.tenants trivial).symm
  have hoffer : im'.fixtures.offer = im1.fixtures.offer := by
    simp only [Impl.fixtures, VirtualizationState.fixtures, hbackings]
  have hcharter : im'.fixtures.charter = im1.fixtures.charter := by
    simp only [Impl.fixtures, VirtualizationState.fixtures, htenants]
  exact {
    virtual := hvirtuals ▸ h.virtual
    migration := hmigrations ▸ h.migration
    state := h.state
    source := h.source
    destination := hassignments ▸ h.destination
    kept := hassignments ▸ h.kept
    fixtures := ⟨hoffer.trans h.fixtures.1, hcharter.trans h.fixtures.2⟩
    epoch := ha.epoch.symm.trans h.epoch
    policyGeneration := ha.policyGeneration.symm.trans h.policyGeneration
    storeFailed := hs.trans h.storeFailed }

/-- No operation opens or closes the store. -/
theorem takes_exec {op : Op} (hw : im.state.WellKeyed) : (im.exec clock op).1.takes = im.takes := by
  have hsame : ∀ i : Impl Disk, i.store = im.store → i.options = im.options →
      i.takes = im.takes := by
    intro i hstore hoptions
    simp only [takes, writable, answering, hstore, hoptions]
  have hdoes : Does (fun _ => True) im clock op := ⟨trivial, fun _ _ => trivial, fun _ => trivial⟩
  obtain hr | ⟨s, im', hwritten, -⟩ := exec_cases (fun _ _ _ _ => trivial) hw hdoes
  · exact hsame _ hr.store hr.options
  · obtain ⟨hoptions, ⟨-, -, ⟨hstore, -⟩ | ⟨d, image, hd, hopen, hstore⟩⟩ | ⟨-, hstore⟩⟩ :=
      hwritten.cases
    · exact hsame _ hstore hoptions
    · simp only [takes, writable, answering, hoptions, hstore, hd, Option.map_some]
    · exact hsame _ hstore hoptions

theorem takes_answering (answer : Check) : (im.answering answer).takes = im.takes := by
  unfold takes writable answering
  cases im.store <;> rfl

/-- An operation that leaves the store in working order leaves a state of a run. -/
theorem Kept.carried {op : Op} (h : Kept False (onLedger Custody.Ledger.Coherent) im)
    (hworking : im.working = true) (hfailed : im'.storeFailed = im.storeFailed)
    (hexec : ((im.answering (.ok ())).exec clock op).1 = im') :
    Kept False (onLedger Custody.Ledger.Coherent) im' ∧ im'.working = true := by
  constructor
  · have hrun : im.run [.op op clock (.ok ())] = some im' := congrArg some hexec
    exact coherent_run h hrun
  · have hk := (h.answering (.ok ())).state.wellKeyed
    have htakes := @takes_exec _ clock op hk
    rw [hexec, takes_answering] at htakes
    rw [working, hfailed, htakes]
    exact hworking

section Phases

variable {id : MigrationId} {m : MigrationRecord} {v : VirtualAcceleratorRecord} {t : TenantRecord}

/-- What is prepared was current, and its owner too. -/
theorem current_of_prepareMigration (hk : im.state.WellKeyed) (hstore : im.storeFailed = false)
    (hm : im.state.migrations[id]? = some m) (hplanned : m.state = .planned)
    (hv : im.state.virtuals[m.plan.virtualId]? = some v) (ht : im.state.tenants[v.owner]? = some t)
    (hfenced : t.fenced = false) (hp : auth.Presents im.state id m v t) {m' : MigrationRecord}
    (h : im.prepareMigration clock auth = (im', .ok m')) :
    v.ownerGeneration = t.generation ∧ m.plan.Current v im.state := by
  obtain ⟨⟨accepted, hbody, -⟩, -, -⟩ := operation_ok h
  obtain ⟨f, hcheck, -⟩ := checked_ok hbody
  have hbefore : migrationStateAfterCutover m.state = false := by rw [hplanned]; rfl
  simp only [prepareMigrationCheck, bind_eq_ok] at hcheck
  obtain ⟨f, hprologue, -⟩ := hcheck
  have hk' : im.beginOp.state.WellKeyed := hk
  exact ((migrationPrologue_eq_ok hk' hstore hm hbefore hv ht hfenced hp).mp hprologue).1

/-- What is current can be prepared. -/
theorem prepareMigration_of_current (hk : im.state.WellKeyed) (hstore : im.storeFailed = false)
    (hwritable : im.writable = true) (hm : im.state.migrations[id]? = some m)
    (hplanned : m.state = .planned) (hv : im.state.virtuals[m.plan.virtualId]? = some v)
    (ht : im.state.tenants[v.owner]? = some t) (hfenced : t.fenced = false)
    (hp : auth.Presents im.state id m v t) (hl : isLegalTransition v.state .migrating = true)
    (hgeneration : v.ownerGeneration = t.generation) (hcurrent : m.plan.Current v im.state) :
    ∃ im' m', im.prepareMigration clock auth = (im', .ok m') ∧
      im.Prepares im' ⟨⟨v.owner, t, m.plan.virtualId, v⟩, id, m⟩ m' := by
  have hbefore : migrationStateAfterCutover m.state = false := by rw [hplanned]; rfl
  have hk' : im.beginOp.state.WellKeyed := hk
  have hprologue := (migrationPrologue_eq_ok hk' hstore hm hbefore hv ht hfenced hp).mpr
    ⟨⟨hgeneration, hcurrent⟩, rfl⟩
  have hcheck : prepareMigrationCheck auth im.beginOp =
      .ok ⟨⟨v.owner, t, m.plan.virtualId, v⟩, id, m⟩ := by
    simp only [prepareMigrationCheck, hprologue, bind_eq_ok, guard_bind_eq_ok]
    exact ⟨_, rfl, fun h => h hplanned, rfl⟩
  have htracks : Tracks im.beginOp ∅ im.beginOp := Tracks.beginOp hk'
  obtain ⟨accepted, haccepted, hprepares⟩ :=
    @prepares_of_legal im.beginOp clock auth htracks _ (migrationPrologue_ok hprologue) hl
  have hsame : prepareMigrationBody auth clock im.beginOp =
      prepareMigrationAct auth clock ⟨⟨v.owner, t, m.plan.virtualId, v⟩, id, m⟩ im.beginOp := by
    simp only [prepareMigrationBody, checked, orRefuse, hcheck, Refusal.mapError_ok]
  -- the act succeeds and the store takes it
  have hok : (im.exec clock (.prepareMigration auth)).2 = .ok () := by
    refine (exec_eq_ok_iff rfl hk).mpr ⟨accepts_forget.mpr ⟨accepted, ?_⟩, hwritable⟩
    rw [hsame, haccepted]
  cases hr : im.prepareMigration clock auth with
  | mk im' answer =>
    cases answer with
    | error failure =>
      simp only [exec, hr] at hok
      cases hok
    | ok m' =>
      obtain ⟨⟨accepted', haccepted', rfl⟩, halike, hfailed⟩ := operation_ok hr
      rw [hsame] at haccepted' halike hfailed
      obtain rfl := Except.ok.inj (haccepted.symm.trans haccepted')
      have h := hprepares.alike halike hfailed
      exact ⟨im', _, rfl, h.virtual, h.migration, h.state, h.source, h.destination, h.kept,
        h.fixtures, h.epoch, h.policyGeneration, h.storeFailed⟩

/-- Whether the checks of a commit pass, for the owner with all current generations. -/
theorem commitMigrationCheck_isOk (hk : im.state.WellKeyed) (hstore : im.storeFailed = false)
    (hm : im.state.migrations[id]? = some m) (hready : m.state = .commitReady)
    (hv : im.state.virtuals[m.plan.virtualId]? = some v) (ht : im.state.tenants[v.owner]? = some t)
    (hfenced : t.fenced = false) (hp : auth.Presents im.state id m v t)
    (hdestination : (im.state.assignments[m.destinationAssignment]?).isSome) :
    (commitMigrationCheck auth im).isOk = true ↔
      (v.ownerGeneration = t.generation ∧ m.plan.Current v im.state) ∧
        ∃ a : BackingAssignment, im.state.assignments[m.sourceAssignment]? = some a ∧
          a.authoritative = true := by
  have hbefore : migrationStateAfterCutover m.state = false := by rw [hready]; rfl
  obtain ⟨d, hd⟩ := Option.isSome_iff_exists.mp hdestination
  rw [isOk_iff]
  constructor
  · rintro ⟨c, hc⟩
    simp only [commitMigrationCheck, bind_eq_ok, guard_bind_eq_ok] at hc
    obtain ⟨f, hprologue, -, hsource, -⟩ := hc
    obtain ⟨hgood, rfl⟩ :=
      (migrationPrologue_eq_ok hk hstore hm hbefore hv ht hfenced hp).mp hprologue
    exact ⟨hgood, by simpa [Option.any_eq_true] using hsource⟩
  · rintro ⟨hgood, a, ha, hauthoritative⟩
    have hprologue :=
      (migrationPrologue_eq_ok hk hstore hm hbefore hv ht hfenced hp).mpr ⟨hgood, rfl⟩
    refine ⟨⟨⟨⟨v.owner, t, m.plan.virtualId, v⟩, id, m⟩, d⟩, ?_⟩
    simp only [commitMigrationCheck, hprologue, bind_eq_ok, guard_bind_eq_ok]
    refine ⟨_, rfl, fun h => h hready, by simp [ha, hauthoritative], ?_⟩
    simp only [hd]
    rfl

end Phases

/-- The owner can prepare the migration and then commit it, presenting what is current each time,
if the store takes the change sets. -/
def GoesThrough (im : Impl Disk) (m : MigrationRecord) : Prop :=
  ∀ v t auth clock, im.state.virtuals[m.plan.virtualId]? = some v →
    im.state.tenants[v.owner]? = some t → auth.Presents im.state m.plan.id m v t →
    ∃ im' m', (im.answering (.ok ())).prepareMigration clock auth = (im', .ok m') ∧
      ∀ v' t' auth' clock', im'.state.virtuals[m'.plan.virtualId]? = some v' →
        im'.state.tenants[v'.owner]? = some t' → auth'.Presents im'.state m'.plan.id m' v' t' →
        ((im'.answering (.ok ())).exec clock' (.commitMigration auth')).2 = .ok ()

section Cutover

variable {id : MigrationId} {m m' : MigrationRecord} {v v' : VirtualAcceleratorRecord}
variable {t t' : TenantRecord}

/-- Preparing refreshes a plan that was current, and leaves the owner. -/
theorem Prepares.current (h : im.Prepares im' ⟨⟨v.owner, t, m.plan.virtualId, v⟩, id, m⟩ m')
    (ht : im.state.tenants[v.owner]? = some t) (hfenced : t.fenced = false)
    (hgeneration : v.ownerGeneration = t.generation) (hcurrent : m.plan.Current v im.state)
    (hv' : im'.state.virtuals[m'.plan.virtualId]? = some v')
    (ht' : im'.state.tenants[v'.owner]? = some t') :
    t'.fenced = false ∧ v'.ownerGeneration = t'.generation ∧ m'.plan.Current v' im'.state := by
  obtain ⟨w, hw, howner, hownerGeneration, hbacking, hbackingGeneration, hplan⟩ := h.virtual
  obtain rfl : w = v' := by
    rw [hplan] at hv'
    exact Option.some.inj (hw.symm.trans hv')
  -- what is offered and chartered is as before
  have hoffer : ∀ (x : BackingId) (b : BackingRecord), im.state.backings[x]? = some b →
      ∃ b', im'.state.backings[x]? = some b' ∧ b'.generation = b.generation := by
    intro x b hb
    have hx : (im'.state.backings[x]?).map BackingRecord.offer = some b.offer :=
      (congrFun h.fixtures.1 x).trans (congrArg (Option.map BackingRecord.offer) hb)
    obtain ⟨b', hb', ho⟩ := Option.map_eq_some_iff.mp hx
    exact ⟨b', hb', (congrArg BackingRecord.generation ho :)⟩
  have hcharter : ∀ (x : TenantId) (u : TenantRecord), im.state.tenants[x]? = some u →
      ∃ u', im'.state.tenants[x]? = some u' ∧ u'.generation = u.generation ∧
        u'.fenced = u.fenced := by
    intro x u hu
    have hx : (im'.state.tenants[x]?).map TenantRecord.charter = some u.charter :=
      (congrFun h.fixtures.2 x).trans (congrArg (Option.map TenantRecord.charter) hu)
    obtain ⟨u', hu', hc⟩ := Option.map_eq_some_iff.mp hx
    exact ⟨u', hu', (congrArg TenantRecord.generation hc :), (congrArg TenantRecord.fenced hc :)⟩
  obtain ⟨u, hu, hugeneration, hufenced⟩ := hcharter _ _ ht
  obtain rfl : u = t' := by
    rw [howner] at ht'
    exact Option.some.inj (hu.symm.trans ht')
  refine ⟨hufenced.trans hfenced, hownerGeneration.trans (hgeneration.trans hugeneration.symm), ?_⟩
  obtain ⟨b, hb, hbgeneration⟩ := hcurrent.source
  obtain ⟨b', hb', hbgeneration'⟩ := hoffer _ _ hb
  obtain ⟨d, hd, hdgeneration⟩ := hcurrent.destination
  obtain ⟨d', hd', hdgeneration'⟩ := hoffer _ _ hd
  obtain ⟨o, ho, hogeneration⟩ := hcurrent.tenant
  obtain ⟨o', ho', hogeneration', -⟩ := hcharter _ _ ho
  rw [hplan]
  exact {
    epoch := hcurrent.epoch.trans h.epoch.symm
    policyGeneration := hcurrent.policyGeneration.trans h.policyGeneration.symm
    virtualGeneration := rfl
    contractGeneration := rfl
    bound := ⟨hcurrent.bound.1.trans hbacking.symm,
      hcurrent.bound.2.trans hbackingGeneration.symm⟩
    source := ⟨b', hb', hbgeneration'.trans hbgeneration⟩
    destination := ⟨d', hd', hdgeneration'.trans hdgeneration⟩
    tenant := ⟨o', ho', hogeneration'.trans hogeneration⟩ }

/-- The source of what was prepared is the assignment it was planned from. -/
theorem Prepares.carries {im0 : Impl Disk} {f : InFlight} {g : BackingAssignmentId}
    {a : BackingAssignment} (h : im.Prepares im' f m') (hsource : f.migration.sourceAssignment = g)
    (hassignments : im.state.assignments = im0.state.assignments)
    (ha : im0.state.assignments[g]? = some a) :
    im'.state.assignments[m'.sourceAssignment]? = some a := by
  rw [h.source, hsource]
  exact h.kept g a (hassignments ▸ ha)

theorem Prepares.owned (h : im.Prepares im' ⟨⟨v.owner, t, m.plan.virtualId, v⟩, id, m⟩ m')
    (ht : im.state.tenants[v.owner]? = some t) :
    ∃ v' t', im'.state.virtuals[m'.plan.virtualId]? = some v' ∧
      im'.state.tenants[v'.owner]? = some t' := by
  obtain ⟨v', hv', howner, -, -, -, hplan⟩ := h.virtual
  have hx : (im'.state.tenants[v.owner]?).map TenantRecord.charter = some t.charter :=
    (congrFun h.fixtures.2 v.owner).trans (congrArg (Option.map TenantRecord.charter) ht)
  obtain ⟨t', ht', -⟩ := Option.map_eq_some_iff.mp hx
  refine ⟨v', t', ?_, ?_⟩
  · rw [hplan]
    exact hv'
  · rw [howner]
    exact ht'

/-- Once prepared, a migration can be committed if and only if its source still has authority. -/
theorem commits_iff (hk : im'.state.WellKeyed) (hworking : im'.working = true)
    (h : im.Prepares im' ⟨⟨v.owner, t, m.plan.virtualId, v⟩, id, m⟩ m') (hid : m.plan.id = id)
    (ht : im.state.tenants[v.owner]? = some t) (hfenced : t.fenced = false)
    (hgeneration : v.ownerGeneration = t.generation) (hcurrent : m.plan.Current v im.state)
    (hv' : im'.state.virtuals[m'.plan.virtualId]? = some v')
    (ht' : im'.state.tenants[v'.owner]? = some t')
    (hp : auth.Presents im'.state m'.plan.id m' v' t') :
    ((im'.answering (.ok ())).exec clock (.commitMigration auth)).2 = .ok () ↔
      ∃ a : BackingAssignment, im'.state.assignments[m'.sourceAssignment]? = some a ∧
        a.authoritative = true := by
  have hsame : m'.plan.id = id := by
    obtain ⟨w, -, -, -, -, -, hplan⟩ := h.virtual
    rw [hplan]
    exact hid
  obtain ⟨hfenced', hgeneration', hcurrent'⟩ :=
    h.current ht hfenced hgeneration hcurrent hv' ht'
  have hm : im'.state.migrations[m'.plan.id]? = some m' := hsame ▸ h.migration
  simp only [working, takes, Bool.and_eq_true, Bool.not_eq_true'] at hworking
  have hchecks := @commitMigrationCheck_isOk (im'.answering (.ok ())) auth _ _ _ _ hk hworking.1 hm
    h.state hv' ht' hfenced' hp h.destination
  have hk' : (im'.answering (.ok ())).state.WellKeyed := hk
  rw [exec_eq_ok_iff_admits rfl hk', and_iff_left hworking.2]
  exact hchecks.trans (and_iff_right ⟨hgeneration', hcurrent'⟩)

end Cutover

end Impl

/-- What a virtual accelerator points to is known. -/
theorem VirtualizationState.assigned {s : VirtualizationState}
    (h : s.onLedger Custody.Ledger.Coherent) {id : VirtualAcceleratorId}
    {v : VirtualAcceleratorRecord} (hv : s.virtuals[id]? = some v) (hne : v.assignment ≠ 0) :
    ∃ a : BackingAssignment, s.assignments[v.assignment]? = some a := by
  have hparty : s.ledger.party id = some v.toPointer := congrArg (Option.map _) hv
  obtain ⟨r, hr, -⟩ := h.owned id _ v.assignment hparty (ref_of_ne hne)
  obtain ⟨a, ha, -⟩ := Option.map_eq_some_iff.mp hr
  exact ⟨a, ha⟩

/-- In every state of every run in which the store takes change sets, a migration that was just
planned can be prepared and committed if and only if the virtual accelerator is bound to its backing
under the generation that the backing has, and the assignment it points to has authority. -/
theorem goesThrough_iff {options : RuntimeOptions} {stored : Bool} {events : List Event}
    {im im' : Impl Disk} (h : (Impl.initial options stored).run events = some im)
    (hworking : im.working = true) {clock : Clock} {auth : Authority} {destination : BackingId}
    {klass : MigrationClass} {m : MigrationRecord} {v : VirtualAcceleratorRecord}
    (hplan : (im.answering (.ok ())).planMigration clock auth destination klass = (im', .ok m))
    (hv : im.state.virtuals[m.plan.virtualId]? = some v) :
    im'.GoesThrough m ↔
      (∃ b : BackingRecord, im.state.backings[v.backing]? = some b ∧
        b.generation = v.backingGeneration) ∧
      ∃ a : BackingAssignment, im.state.assignments[v.assignment]? = some a ∧
        a.authoritative = true := by
  have hcoherent := Impl.coherent_of_run h
  have hk := (hcoherent.answering (.ok ())).state.wellKeyed
  obtain ⟨v, t, hplans⟩ := Impl.plans_of_ok hk hplan
  obtain rfl := Option.some.inj (hv.symm.trans hplans.virtual)
  have hexec : ((im.answering (.ok ())).exec clock (.planMigration auth destination klass)).1 =
      im' := congrArg Prod.fst hplan
  obtain ⟨hcoherent', hworking'⟩ := hcoherent.carried hworking hplans.storeFailed hexec
  have hk' := (hcoherent'.answering (.ok ())).state.wellKeyed
  obtain ⟨hstore', htakes'⟩ : im'.storeFailed = false ∧ im'.takes = true := by
    simpa [Impl.working] using hworking'
  obtain ⟨w, hw, hfresh, ht, hlegal, howner⟩ : ∃ w : VirtualAcceleratorRecord,
      im'.state.virtuals[m.plan.virtualId]? = some w ∧
      (m.plan.Current w im'.state ↔ ∃ b : BackingRecord,
        im.state.backings[v.backing]? = some b ∧ b.generation = v.backingGeneration) ∧
      im'.state.tenants[w.owner]? = some t ∧ isLegalTransition w.state .migrating = true ∧
      w.ownerGeneration = t.generation := by
    obtain ⟨g, hw⟩ := hplans.named
    exact ⟨_, hw, hplans.fresh _ ⟨g, rfl⟩, hplans.tenants ▸ hplans.tenant, hplans.startable,
      hplans.current⟩
  -- the state after a preparation, and what it makes of the commit
  have hphase : ∀ {auth : Authority} {clock : Clock} {im2 : Impl Disk} {m2 : MigrationRecord},
      (im'.answering (.ok ())).prepareMigration clock auth = (im2, .ok m2) →
      im2.storeFailed = im'.storeFailed → im2.state.WellKeyed ∧ im2.working = true := by
    intro auth clock im2 m2 hprepare hfailed
    have hexec2 : ((im'.answering (.ok ())).exec clock (.prepareMigration auth)).1 = im2 :=
      congrArg Prod.fst hprepare
    obtain ⟨hcoherent2, hworking2⟩ := hcoherent'.carried hworking' hfailed hexec2
    exact ⟨hcoherent2.state.wellKeyed, hworking2⟩
  constructor
  · intro hgoes
    have hp := Authority.presents_current im'.state m.plan.id m w t
    obtain ⟨im2, m2, hprepare, hcommit⟩ := hgoes w t _ clock hw ht hp
    obtain ⟨-, hcurrent⟩ := Impl.current_of_prepareMigration hk' hstore' hplans.migration
      hplans.state hw ht hplans.active hp hprepare
    refine ⟨hfresh.mp hcurrent, ?_⟩
    obtain ⟨im3, m3, hprepare', hprepares⟩ := Impl.prepareMigration_of_current hk' hstore' htakes'
      hplans.migration hplans.state hw ht hplans.active hp hlegal howner hcurrent
    obtain ⟨rfl, hanswer⟩ := Prod.mk.inj (hprepare.symm.trans hprepare')
    obtain rfl := Except.ok.inj hanswer
    obtain ⟨hk2, hworking2⟩ := hphase hprepare hprepares.storeFailed
    obtain ⟨v2, t2, hv2, ht2⟩ := hprepares.owned ht
    have hp2 := Authority.presents_current im2.state m2.plan.id m2 v2 t2
    obtain ⟨a, ha, hauthoritative⟩ := (Impl.commits_iff hk2 hworking2 hprepares rfl ht hplans.active
      howner hcurrent hv2 ht2 hp2).mp (hcommit v2 t2 _ clock hv2 ht2 hp2)
    obtain ⟨a', ha'⟩ := VirtualizationState.assigned hcoherent.state.holds hv hplans.pointed
    obtain rfl := Option.some.inj
      (ha.symm.trans (hprepares.carries hplans.source hplans.assignments ha'))
    exact ⟨a, ha', hauthoritative⟩
  · rintro ⟨hbinding, a, ha, hauthoritative⟩ w' u auth1 clock1 hw' hu hp
    obtain rfl := Option.some.inj (hw.symm.trans hw')
    obtain rfl := Option.some.inj (ht.symm.trans hu)
    have hcurrent := hfresh.mpr hbinding
    obtain ⟨im2, m2, hprepare, hprepares⟩ :=
      @Impl.prepareMigration_of_current _ clock1 _ _ _ _ _ hk'
      hstore' htakes' hplans.migration hplans.state hw ht hplans.active hp hlegal howner hcurrent
    refine ⟨im2, m2, hprepare, fun v2 t2 auth2 clock2 hv2 ht2 hp2 => ?_⟩
    obtain ⟨hk2, hworking2⟩ := hphase hprepare hprepares.storeFailed
    refine (Impl.commits_iff hk2 hworking2 hprepares rfl ht hplans.active howner hcurrent hv2 ht2
      hp2).mpr ⟨a, ?_, hauthoritative⟩
    exact hprepares.carries hplans.source hplans.assignments ha

namespace Sample

/-- A virtual accelerator that is assigned backing 7. -/
def settled : List Event :=
  [.start clock, call (.registerAgent (txt "agent") [] 0 1),
    call (.registerPhysical anyone 1 4 device), call (.createTenant anyone (txt "tenant") []),
    call (.createVirtual anyone (txt "v") 11 1 contract), call (.assignBacking (owner 14 1) 7 [])]

/-- Its backing is then replaced by backing 8, which it is bound to under generation 2. -/
def replaced : List Event := settled ++ [call (.replaceBacking (owner 14 2) 8 [])]

/-- What the owner plans next. -/
def plans (im : Impl Disk) (generation : ℕ) (destination : BackingId) :
    Impl Disk × Except Failure MigrationRecord :=
  (im.answering (.ok ())).planMigration clock (owner 14 generation) destination .rebindOnly

/-- The migration is planned, and whether it can be prepared. -/
def prepares (im : Impl Disk) (generation : ℕ) (destination : BackingId) (answer : Bool) : Bool :=
  im.working && match plans im generation destination with
    | (_, .error _) => false
    | (im', .ok m) => im'.state.virtuals[m.plan.virtualId]?.any fun v =>
      im'.state.tenants[v.owner]?.any fun t =>
        decide (((im'.answering (.ok ())).prepareMigration clock
          (.current im'.state m.plan.id m v t)).2.isOk = answer)

end Sample

/-- The first backing of a virtual accelerator is bound under the generation it has. -/
theorem goesThrough_settled : ∃ im im' m, (Impl.initial {} true).run Sample.settled = some im ∧
    Sample.plans im 2 8 = (im', .ok m) ∧ im'.GoesThrough m := by
  have hrun : (((Impl.initial {} true).run Sample.settled).any fun im => im.working &&
      match (Sample.plans im 2 8).2 with
      | .error _ => false
      | .ok m => im.state.virtuals[m.plan.virtualId]?.any fun v =>
        (im.state.backings[v.backing]?.any fun b => decide (b.generation = v.backingGeneration)) &&
          im.state.assignments[v.assignment]?.any fun a => a.authoritative) = true := by
    decide +kernel
  obtain ⟨im, him, hgood⟩ := (Option.any_eq_true _ _).mp hrun
  rw [Bool.and_eq_true] at hgood
  obtain ⟨hworking, hgood⟩ := hgood
  cases hplan : Sample.plans im 2 8 with
  | mk im' answer =>
    cases answer with
    | error failure => simp [hplan] at hgood
    | ok m =>
      simp only [hplan, Option.any_eq_true, Bool.and_eq_true, decide_eq_true_eq] at hgood
      obtain ⟨v, hv, hbinding, hauthoritative⟩ := hgood
      exact ⟨im, im', m, him, hplan,
        (goesThrough_iff him hworking hplan hv).mpr ⟨hbinding, hauthoritative⟩⟩

/-- After a replacement the binding has another generation than the backing, so that a migration
back to the first backing is planned but cannot be prepared. -/
theorem not_goesThrough_replaced : ∃ im im' m,
    (Impl.initial {} true).run Sample.replaced = some im ∧ im.working = true ∧
    Sample.plans im 3 7 = (im', .ok m) ∧ ¬ im'.GoesThrough m := by
  have hrun : (((Impl.initial {} true).run Sample.replaced).any fun im =>
      Sample.prepares im 3 7 false) = true := by
    decide +kernel
  obtain ⟨im, him, hbad⟩ := (Option.any_eq_true _ _).mp hrun
  rw [Sample.prepares, Bool.and_eq_true] at hbad
  obtain ⟨hworking, hbad⟩ := hbad
  cases hplan : Sample.plans im 3 7 with
  | mk im' answer =>
    cases answer with
    | error failure => simp [hplan] at hbad
    | ok m =>
      simp only [hplan, Option.any_eq_true, decide_eq_true_eq] at hbad
      obtain ⟨v, hv, t, ht, hrefused⟩ := hbad
      refine ⟨im, im', m, him, hworking, hplan, fun hgoes => ?_⟩
      obtain ⟨im2, m2, hprepare, -⟩ := hgoes v t _ Sample.clock hv ht
        (Authority.presents_current im'.state m.plan.id m v t)
      rw [hprepare] at hrefused
      cases hrefused

end AcceleratorVirtualization
