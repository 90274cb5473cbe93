import AcceleratorVirtualization.Invariants.Replay

/-!
# What is accepted

An operation succeeds if and only if its checks pass, its act goes through and the change set is
taken. For the operations below the act always goes through, so that what they accept is what their
checks say, and what the checks leave out is not enforced: an abort looks at everything the plan
was built from, the use of a lease looks at no date, and the use of a backing looks at what was
recorded about its evidence when it was registered and not at its age.
-/

namespace AcceleratorVirtualization

open VirtualizationState Refusal

/-- Whether the checks of an operation decide alone: those that bind or use a backing, those that
use a lease, and the abort of a migration. -/
def Op.judged : Op → Bool
  | .assignBacking .. | .replaceBacking .. | .planMigration .. | .commitMigration ..
  | .abortMigration .. | .attach _ | .renewLease _ | .reserveAllocation .. | .accountKernel .. =>
    true
  | _ => false

namespace Impl

variable {im : Impl Disk} {clock : Clock} {op : Op} {auth : Authority}

/-! ### Operations that succeed -/

theorem answered_eq_ok {outcome : Except Refusal (Accepted Unit)} {check : Check} :
    answered outcome check = .ok () ↔ (∃ a, outcome = .ok a) ∧ check = .ok () := by
  cases check with
  | error status => simp [answered]
  | ok u => cases outcome <;> simp [answered]

/-- An operation succeeds if and only if its body accepts and the change set is taken. -/
theorem exec_eq_ok_iff {b : Body Disk Unit} (hb : body clock (im.resolve op) = some b)
    (hw : im.state.WellKeyed) :
    (im.exec clock op).2 = .ok () ↔ (∃ a, (b im.beginOp).2 = .ok a) ∧ im.writable = true := by
  obtain ⟨m, ht, -⟩ := tracks_body hb hw
  have hwritable : (b im.beginOp).1.writable = im.writable := by
    unfold writable
    rw [ht.store, ht.options]
    rfl
  rw [exec_of_resolve hb, operation_eq, answered_eq_ok, ← hwritable]
  generalize b im.beginOp = r
  rw [commit_eq_ok_iff, writable_settle]
  simp [ChangeSet.empty, (settles r.1 clock _ _ _).header]

theorem accepts_forget {α : Type} {body : Body Disk α} :
    (∃ a, (Body.forget body im).2 = .ok a) ↔ ∃ a, (body im).2 = .ok a := by
  simp only [Body.forget]
  cases (body im).2 <;> simp [Except.map]

/-- A body whose act always goes through accepts what its check lets pass. -/
theorem accepts_checked {π α : Type} {context : Impl Disk → OpContext} {kind : AuditKind}
    {check : Impl Disk → Except Status π} {act : π → Body Disk α}
    (hact : ∀ plan, check im = .ok plan → ∀ refusal, (act plan im).2 ≠ .error refusal) :
    (∃ a, (checked (fun im => orRefuse (context im) kind (check im)) act im).2 = .ok a) ↔
      (check im).isOk = true := by
  simp only [checked, orRefuse]
  cases hc : check im with
  | error status => simp [Refusal.mapError_error, Except.isOk, Except.toBool]
  | ok plan =>
    simp only [Refusal.mapError_ok, Except.isOk, Except.toBool, iff_true]
    cases ha : (act plan im).2 with
    | error refusal => exact absurd ha (hact plan hc refusal)
    | ok a => exact ⟨a, rfl⟩

/-- Whether the checks of such an operation let it pass. -/
def admits (im : Impl Disk) : Op → Bool
  | .assignBacking auth backing _ => (assignBackingCheck auth backing false im).isOk
  | .replaceBacking auth backing _ => (assignBackingCheck auth backing true im).isOk
  | .planMigration auth destination klass => (planMigrationCheck auth destination klass im).isOk
  | .commitMigration auth => (commitMigrationCheck auth im).isOk
  | .abortMigration auth _ => (abortMigrationCheck auth im).isOk
  | .attach auth => (attachCheck auth im).isOk
  | .renewLease auth => (renewLeaseCheck auth im).isOk
  | .reserveAllocation auth bytes => (reserveAllocationCheck auth bytes im).isOk
  | .accountKernel auth _ => (accountKernelCheck auth im).isOk
  | _ => false

/-- The act of such an operation goes through, so it succeeds if and only if its checks pass and
the change set is taken. -/
theorem exec_eq_ok_iff_admits (hop : op.judged = true) (hw : im.state.WellKeyed) :
    (im.exec clock op).2 = .ok () ↔ im.admits op = true ∧ im.writable = true := by
  cases op <;> simp only [Op.judged, Bool.false_eq_true] at hop
  case assignBacking | replaceBacking | planMigration | commitMigration | renewLease |
      reserveAllocation =>
    refine (exec_eq_ok_iff rfl hw).trans (and_congr_left fun _ => ?_)
    exact accepts_forget.trans (accepts_checked fun _ _ _ => by rintro ⟨⟩)
  case accountKernel =>
    refine (exec_eq_ok_iff rfl hw).trans (and_congr_left fun _ => ?_)
    exact accepts_checked fun _ _ _ => by rintro ⟨⟩
  case attach =>
    refine (exec_eq_ok_iff rfl hw).trans (and_congr_left fun _ => ?_)
    refine accepts_forget.trans (accepts_checked fun owned hc refusal => ?_)
    exact attachAct_accepts (attachCheck_ok hc).1 (checkAttachable_ok (attachCheck_ok hc).2).1
  case abortMigration =>
    refine (exec_eq_ok_iff rfl hw).trans (and_congr_left fun _ => ?_)
    refine accepts_forget.trans (accepts_checked fun f hc refusal => ?_)
    exact abortMigrationAct_accepts (abortMigrationCheck_ok hc).1.owned

/-! ### What the checks of authority ask for -/

theorem guardStore_eq_ok : im.guardStore = .ok () ↔ im.storeFailed = false := by
  simp only [guardStore, guard_eq_ok, pure_eq_ok, and_true, Bool.not_eq_true]

end Impl

namespace VirtualizationState

variable {s : VirtualizationState} {auth : Authority}

theorem checkEpoch_eq_ok : s.checkEpoch auth = .ok () ↔ auth.epoch = some s.epoch := by
  unfold checkEpoch
  split
  · rename_i hnone
    simp [hnone]
  · rename_i epoch hepoch
    simp only [guard_eq_ok, pure_eq_ok, and_true, not_not, hepoch, Option.some.injEq]

theorem checkPolicy_eq_ok : s.checkPolicy auth = .ok () ↔
    ∀ generation, auth.policyGeneration = some generation → generation = s.policyGeneration := by
  unfold checkPolicy
  split
  · rename_i hnone
    simp [hnone]
  · rename_i generation hgeneration
    simp only [guard_eq_ok, pure_eq_ok, and_true, not_not, hgeneration, Option.some.injEq,
      forall_eq']

theorem checkRequest_eq_ok : s.checkRequest auth = .ok () ↔ s.remembers auth = false := by
  unfold checkRequest remembers
  split
  · rename_i hnone
    simp [hnone]
  · rename_i request hrequest
    simp only [hrequest, Option.any_some, List.any_eq_false]
    split
    · rename_i hfind
      simpa using hfind
    · rename_i r hfind
      have hr := List.find?_some hfind
      simp only [reduceCtorEq, false_iff, not_forall]
      exact ⟨r, List.mem_of_find?_eq_some hfind, by simpa using hr⟩

/-- A tenant is resolved if and only if its generation is the presented one. -/
theorem resolveTenant_eq_ok {id : TenantId} {t : TenantRecord} :
    s.resolveTenant auth = .ok (id, t) ↔ auth.tenant = some id ∧ s.tenants[id]? = some t ∧
      auth.tenantGeneration = some t.generation := by
  unfold resolveTenant
  constructor
  · intro h
    split at h
    · cases h
    · rename_i id' hid
      split at h
      · cases h
      · rename_i t' ht
        split at h
        · cases h
        · rename_i generation hg
          split at h
          · cases h
          · rename_i heq
            cases h
            exact ⟨hid, ht, hg.trans (congrArg some (not_not.mp heq))⟩
  · rintro ⟨hid, ht, hg⟩
    simp only [hid, ht, hg, ne_eq, not_true, if_false]

theorem resolveVirtual_eq_ok {id : VirtualAcceleratorId} {v : VirtualAcceleratorRecord} :
    s.resolveVirtual auth = .ok (id, v) ↔ auth.virtualId = some id ∧ s.virtuals[id]? = some v ∧
      auth.virtualGeneration = some v.generation := by
  unfold resolveVirtual
  constructor
  · intro h
    split at h
    · cases h
    · rename_i id' hid
      split at h
      · cases h
      · rename_i v' hv
        split at h
        · cases h
        · rename_i generation hg
          split at h
          · cases h
          · rename_i heq
            cases h
            exact ⟨hid, hv, hg.trans (congrArg some (not_not.mp heq))⟩
  · rintro ⟨hid, hv, hg⟩
    simp only [hid, hv, hg, ne_eq, not_true, if_false]

end VirtualizationState

theorem requireOwner_eq_ok {record : VirtualAcceleratorRecord} {tenant : TenantRecord} :
    requireOwner record tenant = .ok () ↔ record.owner = tenant.id ∧
      record.ownerGeneration = tenant.generation ∧ tenant.fenced = false := by
  simp only [requireOwner, guard_bind_eq_ok, guard_eq_ok, pure_eq_ok, ne_eq, not_not, and_true,
    Bool.not_eq_true]

/-! ### Aborting a migration -/

/-- Nothing a plan was built from has moved on, and its source is still the binding. -/
structure MigrationPlan.Current (plan : MigrationPlan) (record : VirtualAcceleratorRecord)
    (s : VirtualizationState) : Prop where
  epoch : plan.epoch = s.epoch
  policyGeneration : plan.policyGeneration = s.policyGeneration
  virtualGeneration : plan.virtualGeneration = record.generation
  contractGeneration : plan.contractGeneration = record.contract.generation
  bound : plan.sourceBacking = record.backing ∧
    plan.sourceBackingGeneration = record.backingGeneration
  source : ∃ b : BackingRecord, s.backings[plan.sourceBacking]? = some b ∧
    b.generation = plan.sourceBackingGeneration
  destination : ∃ b : BackingRecord, s.backings[plan.destinationBacking]? = some b ∧
    b.generation = plan.destinationBackingGeneration
  tenant : ∃ t : TenantRecord, s.tenants[plan.tenant]? = some t ∧
    t.generation = plan.tenantGeneration

/-- Before the cutover a plan is not stale if and only if nothing has moved on. -/
theorem planStaleness_eq_ok {m : MigrationRecord} {record : VirtualAcceleratorRecord}
    {s : VirtualizationState} (h : migrationStateAfterCutover m.state = false) :
    planStaleness m record s = .ok () ↔ m.plan.Current record s := by
  constructor
  · intro hok
    simp only [planStaleness, guard_bind_eq_ok, h] at hok
    obtain ⟨hepoch, hpolicy, hvirtual, hcontract, hbound, hok⟩ := hok
    cases hs : s.backings[m.plan.sourceBacking]? with
    | none => simp [hs, throw, throwThe, MonadExceptOf.throw, bind, Except.bind] at hok
    | some source =>
      simp only [hs, guard_bind_eq_ok] at hok
      obtain ⟨hsource, hok⟩ := hok
      cases hd : s.backings[m.plan.destinationBacking]? with
      | none => simp [hd, throw, throwThe, MonadExceptOf.throw, bind, Except.bind] at hok
      | some destination =>
        simp only [hd, guard_bind_eq_ok] at hok
        obtain ⟨hdestination, hok⟩ := hok
        cases ht : s.tenants[m.plan.tenant]? with
        | none => simp [ht, throw, throwThe, MonadExceptOf.throw] at hok
        | some tenant =>
          simp only [ht, guard_eq_ok] at hok
          exact {
            epoch := not_not.mp hepoch
            policyGeneration := not_not.mp hpolicy
            virtualGeneration := not_not.mp hvirtual
            contractGeneration := not_not.mp hcontract
            bound := by simpa using hbound
            source := ⟨source, hs, not_not.mp hsource⟩
            destination := ⟨destination, hd, not_not.mp hdestination⟩
            tenant := ⟨tenant, ht, not_not.mp hok.1⟩ }
  · intro hc
    obtain ⟨source, hs, hsource⟩ := hc.source
    obtain ⟨destination, hd, hdestination⟩ := hc.destination
    obtain ⟨tenant, ht, htenant⟩ := hc.tenant
    simp only [planStaleness, guard_bind_eq_ok, h, hs, hd, ht, guard_eq_ok, pure_eq_ok, hsource,
      hdestination, htenant, hc.epoch, hc.policyGeneration, hc.virtualGeneration,
      hc.contractGeneration]
    simp [hc.bound]

/-- The caller presents the current epoch and the current generations of the owner, the virtual
accelerator and the migration, and of the policy if of any, under a request that is not a replay. -/
structure Authority.Presents (auth : Authority) (s : VirtualizationState) (id : MigrationId)
    (m : MigrationRecord) (v : VirtualAcceleratorRecord) (t : TenantRecord) : Prop where
  epoch : auth.epoch = some s.epoch
  policyGeneration : ∀ generation, auth.policyGeneration = some generation →
    generation = s.policyGeneration
  tenant : auth.tenant = some v.owner
  tenantGeneration : auth.tenantGeneration = some t.generation
  virtualId : auth.virtualId = some m.plan.virtualId
  virtualGeneration : auth.virtualGeneration = some v.generation
  migration : auth.migration = some id
  migrationGeneration : auth.migrationGeneration = some m.plan.generation
  request : s.remembers auth = false

namespace Impl

variable {im : Impl Disk} {clock : Clock} {op : Op} {auth : Authority}

/-- The store can take a change set: it is open if it is written to. -/
def takes (im : Impl Disk) : Bool := (im.answering (.ok ())).writable

/-- The store takes change sets, and no write has failed. -/
def working (im : Impl Disk) : Bool := !im.storeFailed && im.takes

theorem takes_of_writable {answer : Check} (h : (im.answering answer).writable = true) :
    im.takes = true := by
  unfold takes writable answering at *
  cases hd : im.store with
  | none => rfl
  | some d =>
    simp only [hd, Option.map_some, Bool.or_eq_true, Bool.and_eq_true] at h ⊢
    exact h.imp_right fun h => ⟨h.1, rfl⟩

/-- Whether the checks of an abort pass, for the owner with all current generations. -/
theorem abortMigrationCheck_isOk {id : MigrationId} {m : MigrationRecord}
    {v : VirtualAcceleratorRecord} {t : TenantRecord} (hk : im.state.WellKeyed)
    (hstore : im.storeFailed = false) (hm : im.state.migrations[id]? = some m)
    (hopen : migrationStateIsTerminal m.state = false)
    (hbefore : migrationStateAfterCutover m.state = false)
    (hv : im.state.virtuals[m.plan.virtualId]? = some v) (ht : im.state.tenants[v.owner]? = some t)
    (hfenced : t.fenced = false) (hp : auth.Presents im.state id m v t) :
    (abortMigrationCheck auth im).isOk = true ↔
      v.ownerGeneration = t.generation ∧ m.plan.Current v im.state := by
  have hauthority : im.checkAuthority auth = .ok () := by
    simp only [checkAuthority, guardStore_eq_ok.mpr hstore, checkEpoch_eq_ok.mpr hp.epoch,
      checkPolicy_eq_ok.mpr hp.policyGeneration]
    rfl
  have hrequest := checkRequest_eq_ok.mpr hp.request
  have htenant : im.state.resolveTenant auth = .ok (v.owner, t) :=
    resolveTenant_eq_ok.mpr ⟨hp.tenant, ht, hp.tenantGeneration⟩
  have hvirtual : im.state.resolveVirtual auth = .ok (m.plan.virtualId, v) :=
    resolveVirtual_eq_ok.mpr ⟨hp.virtualId, hv, hp.virtualGeneration⟩
  have hid : v.id = m.plan.virtualId := hk.keyed .virtual _ _ hv
  have howner : v.owner = t.id := (hk.keyed .tenant _ _ ht).symm
  have howned : im.state.resolveOwned auth =
      (requireOwner v t).map fun _ => ⟨v.owner, t, m.plan.virtualId, v⟩ := by
    simp only [resolveOwned, htenant, hvirtual]
    change (requireOwner v t >>= fun _ => pure _) = _
    cases requireOwner v t <;> rfl
  rw [isOk_iff, ← planStaleness_eq_ok hbefore]
  constructor
  · rintro ⟨f, hf⟩
    obtain ⟨_, hprologue, -⟩ := bind_eq_ok.mp hf
    simp only [migrationPrologue, hauthority, hrequest, howned, bind_eq_ok, hp.migration,
      hp.migrationGeneration, hm, guard_bind_eq_ok] at hprologue
    obtain ⟨_, -, _, -, owned, ho, -, -, _, hs, -⟩ := hprologue
    cases hr : requireOwner v t with
    | error status =>
      rw [hr] at ho
      cases ho
    | ok u =>
      rw [hr] at ho
      cases ho
      exact ⟨(requireOwner_eq_ok.mp hr).2.1, hs⟩
  · rintro ⟨hgeneration, hfresh⟩
    rw [requireOwner_eq_ok.mpr ⟨howner, hgeneration, hfenced⟩] at howned
    refine ⟨⟨⟨v.owner, t, m.plan.virtualId, v⟩, id, m⟩, ?_⟩
    simp only [abortMigrationCheck, migrationPrologue, hauthority, hrequest, howned, Except.map,
      bind_eq_ok, hp.migration, hp.migrationGeneration, hm, guard_bind_eq_ok, pure_eq_ok]
    refine ⟨_, ⟨(), trivial, (), trivial, _, rfl, fun h => h rfl, fun h =>
      h hid.symm, (), hfresh, rfl⟩,
      ?_⟩
    simp [hopen, hbefore]

end Impl

/-- In every state of every run in which the store takes change sets, the owner of the virtual
accelerator of a migration that is open and before its cutover can abort it if and only if it is
recorded under its current generation and nothing the plan was built from has moved on. -/
theorem aborts_iff {options : RuntimeOptions} {stored : Bool} {events : List Event}
    {im : Impl Disk} (h : (Impl.initial options stored).run events = some im)
    (hworking : im.working = true) {id : MigrationId} {m : MigrationRecord}
    {v : VirtualAcceleratorRecord} {t : TenantRecord} {auth : Authority}
    (hm : im.state.migrations[id]? = some m) (hopen : migrationStateIsTerminal m.state = false)
    (hbefore : migrationStateAfterCutover m.state = false)
    (hv : im.state.virtuals[m.plan.virtualId]? = some v) (ht : im.state.tenants[v.owner]? = some t)
    (hfenced : t.fenced = false) (hp : auth.Presents im.state id m v t) (clock : Clock)
    (reason : Text) :
    ((im.answering (.ok ())).exec clock (.abortMigration auth reason)).2 = .ok () ↔
      v.ownerGeneration = t.generation ∧ m.plan.Current v im.state := by
  have hk := ((Impl.coherent_of_run h).answering (.ok ())).state.wellKeyed
  simp only [Impl.working, Impl.takes, Bool.and_eq_true, Bool.not_eq_true'] at hworking
  rw [Impl.exec_eq_ok_iff_admits rfl hk, and_iff_left hworking.2]
  exact Impl.abortMigrationCheck_isOk hk hworking.1 hm hopen hbefore hv ht hfenced hp

namespace Sample

/-- The authority over the planned migration, under the first policy. -/
def aborter (generation : ℕ) : Authority :=
  { mover 14 generation 28 1 with policyGeneration := some 1 }

/-- The migration is open before its cutover, and the owner of its virtual accelerator presents all
that is current. -/
def inFlight (im : Impl Disk) (generation : ℕ) : Bool :=
  im.working && decide (im.state.epoch = 1) && decide (im.state.policyGeneration = 1) &&
    im.state.migrations[28]?.any fun m =>
      !migrationStateIsTerminal m.state && !migrationStateAfterCutover m.state &&
      decide (m.plan.virtualId = 14) && decide (m.plan.generation = 1) &&
      im.state.virtuals[14]?.any fun v =>
        decide (v.owner = 11) && decide (v.generation = generation) &&
        im.state.tenants[11]?.any fun t => decide (t.generation = 1) && !t.fenced

theorem presents_of_inFlight {im : Impl Disk} {generation : ℕ} (h : inFlight im generation = true) :
    ∃ m v t, im.working = true ∧ im.state.migrations[28]? = some m ∧
      migrationStateIsTerminal m.state = false ∧ migrationStateAfterCutover m.state = false ∧
      im.state.virtuals[m.plan.virtualId]? = some v ∧ im.state.tenants[v.owner]? = some t ∧
      t.fenced = false ∧ (aborter generation).Presents im.state 28 m v t := by
  simp only [inFlight, Bool.and_eq_true, Bool.not_eq_true', decide_eq_true_eq,
    Option.any_eq_true] at h
  obtain ⟨⟨⟨hworking, hepoch⟩, hpolicy⟩, m, hm, ⟨⟨⟨hopen, hbefore⟩, hvirtual⟩, hmigration⟩, v, hv,
    ⟨howner, hgeneration⟩, t, ht, htenant, hfenced⟩ := h
  refine ⟨m, v, t, hworking, hm, hopen, hbefore, hvirtual ▸ hv, howner ▸ ht, hfenced, ?_⟩
  exact {
    epoch := congrArg some hepoch.symm
    policyGeneration := by
      rintro _ ⟨⟩
      exact hpolicy.symm
    tenant := congrArg some howner.symm
    tenantGeneration := congrArg some htenant.symm
    virtualId := congrArg some hvirtual.symm
    virtualGeneration := congrArg some hgeneration.symm
    migration := rfl
    migrationGeneration := congrArg some hmigration.symm
    request := rfl }

/-- The contract of the virtual accelerator is updated after its migration was planned. -/
def amended : List Event :=
  planned ++ [call (.updateContract (owner 14 2) { contract with exclusivityRequired := true })]

end Sample

/-- A migration that was just planned can be aborted, and its plan is current. -/
theorem aborts_planned : ∃ im m v, (Impl.initial {} true).run Sample.planned = some im ∧
    im.state.migrations[28]? = some m ∧ im.state.virtuals[m.plan.virtualId]? = some v ∧
    ((im.answering (.ok ())).exec Sample.clock (.abortMigration (Sample.aborter 2) [])).2 = .ok () ∧
    m.plan.Current v im.state := by
  have hrun : (((Impl.initial {} true).run Sample.planned).any fun im =>
      Sample.inFlight im 2 && ((im.answering (.ok ())).exec Sample.clock
        (.abortMigration (Sample.aborter 2) [])).2.isOk) = true := by
    decide +kernel
  obtain ⟨im, him, hgood⟩ := (Option.any_eq_true _ _).mp hrun
  rw [Bool.and_eq_true, isOk_iff] at hgood
  obtain ⟨hinFlight, _, hok⟩ := hgood
  obtain ⟨m, v, t, hworking, hm, hopen, hbefore, hv, ht, hfenced, hp⟩ :=
    Sample.presents_of_inFlight hinFlight
  have hiff := aborts_iff him hworking hm hopen hbefore hv ht hfenced hp Sample.clock []
  exact ⟨im, m, v, him, hm, hv, hok, (hiff.mp hok).2⟩

/-- Once the contract was updated, the owner can neither abort the migration nor prepare, commit or
complete it, and can plan no other one. -/
theorem not_aborts_amended : ∃ im m v t, (Impl.initial {} true).run Sample.amended = some im ∧
    im.working = true ∧ im.state.migrations[28]? = some m ∧
    migrationStateIsTerminal m.state = false ∧ migrationStateAfterCutover m.state = false ∧
    im.state.virtuals[m.plan.virtualId]? = some v ∧ im.state.tenants[v.owner]? = some t ∧
    t.fenced = false ∧ (Sample.aborter 3).Presents im.state 28 m v t ∧
    ∀ op ∈ [Op.abortMigration (Sample.aborter 3) [], .prepareMigration (Sample.aborter 3),
        .commitMigration (Sample.aborter 3), .completeMigration (Sample.aborter 3),
        .planMigration (Sample.aborter 3) 8 .rebindOnly],
      ((im.answering (.ok ())).exec Sample.clock op).2 ≠ .ok () := by
  have hrun : (((Impl.initial {} true).run Sample.amended).any fun im =>
      Sample.inFlight im 3 && [Op.abortMigration (Sample.aborter 3) [],
        .prepareMigration (Sample.aborter 3), .commitMigration (Sample.aborter 3),
        .completeMigration (Sample.aborter 3),
        .planMigration (Sample.aborter 3) 8 .rebindOnly].all fun op =>
          !((im.answering (.ok ())).exec Sample.clock op).2.isOk) = true := by
    decide +kernel
  obtain ⟨im, him, hbad⟩ := (Option.any_eq_true _ _).mp hrun
  rw [Bool.and_eq_true, List.all_eq_true] at hbad
  obtain ⟨hinFlight, hrefused⟩ := hbad
  obtain ⟨m, v, t, hworking, hm, hopen, hbefore, hv, ht, hfenced, hp⟩ :=
    Sample.presents_of_inFlight hinFlight
  refine ⟨im, m, v, t, him, hworking, hm, hopen, hbefore, hv, ht, hfenced, hp, fun op hop hok => ?_⟩
  have hno := hrefused op hop
  rw [hok] at hno
  cases hno

/-! ### Leases past their time -/

/-- Since when a lease is held: its last renewal, or its grant. -/
def LeaseRecord.heldSince (l : LeaseRecord) : UnixMicros :=
  if l.renewals = 0 then l.grantedAt else l.renewedAt

/-- The lease an operation works under. -/
def Op.under : Op → Option LeaseId
  | .renewLease auth | .reserveAllocation auth _ | .accountKernel auth _ => auth.lease
  | _ => none

namespace Impl

variable {im : Impl Disk} {clock : Clock} {op : Op} {auth : Authority}

/-- The policy limits leases, and the lease has been held for longer. -/
def overdue (im : Impl Disk) (now : UnixMicros) (lease : LeaseRecord) : Bool :=
  decide (0 < im.state.policy.maxLeaseDurationMicros) &&
    decide (lease.heldSince + im.state.policy.maxLeaseDurationMicros < now)

/-- Nothing succeeds under the lease once it is overdue. -/
def Expires (im : Impl Disk) (id : LeaseId) (lease : LeaseRecord) (now : UnixMicros) : Prop :=
  im.overdue now lease = true → ∀ op clock answer, op.under = some id → clock.now = now →
    ((im.answering answer).exec clock op).2 ≠ .ok ()

/-- Somebody can use leases: an owner that is not fenced, of a virtual accelerator that is recorded
under its current generation. -/
def Represented (s : VirtualizationState) : Prop :=
  ∃ (x : VirtualAcceleratorId) (v : VirtualAcceleratorRecord) (t : TenantRecord),
    s.virtuals[x]? = some v ∧ s.tenants[v.owner]? = some t ∧ v.ownerGeneration = t.generation ∧
      t.fenced = false

theorem represented_of_current {owned : Owned} (hk : im.state.WellKeyed)
    (h : owned.Current im.state) : Represented im.state := by
  have hid : owned.tenant.id = owned.tenantId := hk.keyed .tenant _ _ h.tenant
  refine ⟨_, _, owned.tenant, h.virtual, ?_, h.generation, h.active⟩
  rw [h.owner, hid]
  exact h.tenant

/-- What the three operations ask for in common: the store takes mutations, the lease is live, and
the caller is the owner of some virtual accelerator. -/
theorem used_of_admits (hk : im.state.WellKeyed) (h : im.admits op = true) {id : LeaseId}
    (hop : op.under = some id) : im.storeFailed = false ∧ Represented im.state ∧
      ∃ lease, im.state.leases[id]? = some lease ∧ leaseStateIsLive lease.state = true := by
  cases op <;> simp only [Op.under, reduceCtorEq] at hop <;> obtain ⟨a, ha⟩ := isOk_iff.mp h
  case renewLease auth =>
    simp only [renewLeaseCheck, bind_eq_ok, checkAuthority, hop] at ha
    obtain ⟨_, ⟨_, hstore, -⟩, _, -, owned, ho, ha⟩ := ha
    refine ⟨guardStore_eq_ok.mp hstore, represented_of_current hk (resolveOwned_ok ho), ?_⟩
    cases hl : im.state.leases[id]? with
    | none => simp [hl, throw_ne_ok] at ha
    | some lease =>
      simp only [hl] at ha
      split at ha
      · simp [throw, throwThe, MonadExceptOf.throw, bind, Except.bind] at ha
      · simp only [guard_bind_eq_ok] at ha
        exact ⟨lease, rfl, by simpa using ha.2.2.1⟩
  case reserveAllocation auth bytes =>
    simp only [reserveAllocationCheck, bind_eq_ok, checkAuthority] at ha
    obtain ⟨_, ⟨_, hstore, -⟩, owned, ho, lease, hl, -⟩ := ha
    refine ⟨guardStore_eq_ok.mp hstore, represented_of_current hk (resolveOwned_ok ho), lease, ?_⟩
    unfold checkExecutionLease at hl
    split at hl
    · rename_i id' generation hid hgeneration
      obtain rfl := Option.some.inj (hop.symm.trans hid)
      split at hl
      · cases hl
      · rename_i lease' hlease
        simp only [guard_bind_eq_ok, pure_eq_ok] at hl
        obtain ⟨-, hlive, -, -, -, -, rfl⟩ := hl
        simp only [Bool.or_eq_true, not_or, Bool.not_eq_true'] at hlive
        exact ⟨hlease, by simpa using hlive.2⟩
    · cases hl
  case accountKernel auth count =>
    simp only [accountKernelCheck, bind_eq_ok, hop] at ha
    obtain ⟨_, hstore, _, -, owned, ho, ha⟩ := ha
    refine ⟨guardStore_eq_ok.mp hstore, represented_of_current hk (resolveOwned_ok ho), ?_⟩
    cases hl : im.state.leases[id]? with
    | none => simp [hl, throw_ne_ok] at ha
    | some lease =>
      simp only [hl, guard_bind_eq_ok] at ha
      exact ⟨lease, rfl, by simpa using ha.1⟩

/-- Whoever owns a virtual accelerator can have kernels counted under a live lease. -/
theorem admits_accountKernel (hk : im.state.WellKeyed) (hstore : im.storeFailed = false)
    (hr : Represented im.state) {id : LeaseId} {lease : LeaseRecord}
    (hl : im.state.leases[id]? = some lease) (hlive : leaseStateIsLive lease.state = true) :
    ∃ auth : Authority, auth.lease = some id ∧ im.admits (.accountKernel auth 0) = true := by
  obtain ⟨x, v, t, hv, ht, hgeneration, hfenced⟩ := hr
  let auth : Authority := {
    epoch := some im.state.epoch
    tenant := some v.owner, tenantGeneration := some t.generation
    virtualId := some x, virtualGeneration := some v.generation
    lease := some id }
  have howner : v.owner = t.id := (hk.keyed .tenant _ _ ht).symm
  have hepoch : im.state.checkEpoch auth = .ok () := checkEpoch_eq_ok.mpr rfl
  have htenant : im.state.resolveTenant auth = .ok (v.owner, t) :=
    resolveTenant_eq_ok.mpr ⟨rfl, ht, rfl⟩
  have hvirtual : im.state.resolveVirtual auth = .ok (x, v) :=
    resolveVirtual_eq_ok.mpr ⟨rfl, hv, rfl⟩
  have hrequire : requireOwner v t = .ok () :=
    requireOwner_eq_ok.mpr ⟨howner, hgeneration, hfenced⟩
  have howned : im.state.resolveOwned auth = .ok ⟨v.owner, t, x, v⟩ := by
    simp only [resolveOwned, htenant, hvirtual]
    change (requireOwner v t >>= fun _ => pure _) = _
    rw [hrequire]
    rfl
  refine ⟨auth, rfl, isOk_iff.mpr ⟨(⟨v.owner, t, x, v⟩, lease), ?_⟩⟩
  simp only [accountKernelCheck, bind_eq_ok, guardStore_eq_ok.mpr hstore, hepoch, howned]
  refine ⟨(), trivial, (), trivial, _, rfl, ?_⟩
  simp only [auth, hl, guard_bind_eq_ok, pure_eq_ok, hlive]
  simp

end Impl

/-- In every state of every run, nothing succeeds under a lease that is overdue if and only if the
store takes no change sets, or the lease was ended for another reason, or nobody is left to use it:
that it is overdue plays no part. -/
theorem expires_iff {options : RuntimeOptions} {stored : Bool} {events : List Event}
    {im : Impl Disk} (h : (Impl.initial options stored).run events = some im) {id : LeaseId}
    {lease : LeaseRecord} (hl : im.state.leases[id]? = some lease) (now : UnixMicros) :
    im.Expires id lease now ↔ im.overdue now lease = false ∨ im.working = false ∨
      leaseStateIsLive lease.state = false ∨ ¬ Impl.Represented im.state := by
  have hk : ∀ answer, (im.answering answer).state.WellKeyed := fun answer =>
    ((Impl.coherent_of_run h).answering answer).state.wellKeyed
  constructor
  · intro hexpires
    by_contra hno
    simp only [not_or, Bool.not_eq_false, not_not] at hno
    obtain ⟨hoverdue, hworking, hlive, hr⟩ := hno
    simp only [Impl.working, Bool.and_eq_true, Bool.not_eq_true'] at hworking
    -- the expired lease still serves an accounting of no kernels
    obtain ⟨auth, hlease, hadmits⟩ := Impl.admits_accountKernel (hk (.ok ())) hworking.1 hr hl hlive
    refine hexpires hoverdue (.accountKernel auth 0) { now } (.ok ()) hlease rfl ?_
    exact (Impl.exec_eq_ok_iff_admits rfl (hk (.ok ()))).mpr ⟨hadmits, hworking.2⟩
  · intro hcond hoverdue op clock answer hop hnow hok
    have hjudged : op.judged = true := by
      cases op <;> first | rfl | cases hop
    obtain ⟨hadmits, hwritable⟩ := (Impl.exec_eq_ok_iff_admits hjudged (hk answer)).mp hok
    -- whatever uses the lease finds it live and its holder in place
    obtain ⟨hstore, hr, lease', hl', hlive⟩ := Impl.used_of_admits (hk answer) hadmits hop
    obtain rfl := Option.some.inj (hl'.symm.trans hl)
    obtain hc | hc | hc | hc := hcond
    · exact absurd (hc.symm.trans hoverdue) nofun
    · rw [Impl.working, Impl.takes_of_writable hwritable, Bool.and_true, Bool.not_eq_false'] at hc
      exact absurd (hc.symm.trans hstore) nofun
    · exact absurd (hc.symm.trans hlive) nofun
    · exact hc hr

namespace Sample

/-- Leases are held for ten microseconds, and evidence is trusted for as long. -/
def hasty : VirtualizationPolicy :=
  { VirtualizationPolicy.defaultPolicy with maxLeaseDurationMicros := 10, evidenceMaxAgeMicros :=
    10 }

/-- A virtual accelerator 14 with backing 7, under that policy. -/
def hastened : List Event :=
  [.start clock, call (.registerAgent (txt "agent") [] 0 1),
    call (.registerPhysical anyone 1 4 device), call (.createTenant anyone (txt "tenant") []),
    call (.createVirtual anyone (txt "v") 11 1 contract), call (.assignBacking (owner 14 1) 7 []),
    call (.setPolicy anyone hasty)]

/-- It is attached under lease 27. -/
def leased : List Event := hastened ++ [call (.attach (owner 14 2))]

/-- The authority over that lease. -/
def tenure : Authority := { owner 14 3 with lease := some 27, leaseGeneration := some 1 }

end Sample

/-- Under a lease that was given back nothing succeeds, also when it is overdue. -/
theorem expires_detached : ∃ im lease,
    (Impl.initial {} true).run (Sample.leased ++ [Sample.call (.detach Sample.tenure)]) = some im ∧
    im.state.leases[27]? = some lease ∧ im.overdue 100 lease = true ∧ im.Expires 27 lease 100 := by
  have hrun :
    (((Impl.initial {} true).run (Sample.leased ++ [Sample.call (.detach Sample.tenure)])).any
      fun im => im.state.leases[27]?.any fun lease =>
        im.overdue 100 lease && !leaseStateIsLive lease.state) = true := by
    decide +kernel
  obtain ⟨im, him, hgood⟩ := (Option.any_eq_true _ _).mp hrun
  obtain ⟨lease, hl, hgood⟩ := (Option.any_eq_true _ _).mp hgood
  rw [Bool.and_eq_true, Bool.not_eq_true'] at hgood
  exact ⟨im, lease, him, hl, hgood.1, (expires_iff him hl 100).mpr (.inr (.inr (.inl hgood.2)))⟩

/-- A lease that was granted for ten microseconds at time zero is renewed at time 100, and memory is
reserved and kernels are counted under it. -/
theorem not_expires_leased : ∃ im lease, (Impl.initial {} true).run Sample.leased = some im ∧
    im.state.leases[27]? = some lease ∧ im.overdue 100 lease = true ∧
    (∀ op ∈ [Op.renewLease Sample.tenure, .reserveAllocation Sample.tenure 64,
        .accountKernel Sample.tenure 1],
      op.under = some 27 ∧ (im.exec { now := 100 } op).2.isOk = true) ∧
    ¬ im.Expires 27 lease 100 := by
  have hrun : (((Impl.initial {} true).run Sample.leased).any fun im =>
      im.state.leases[27]?.any fun lease => im.overdue 100 lease &&
        ([Op.renewLease Sample.tenure, .reserveAllocation Sample.tenure 64,
          .accountKernel Sample.tenure 1].all fun op =>
            decide (op.under = some 27) && (im.exec { now := 100 } op).2.isOk) &&
        ((im.answering (.ok ())).exec { now := 100 } (.renewLease Sample.tenure)).2.isOk) =
          true := by
    decide +kernel
  obtain ⟨im, him, hbad⟩ := (Option.any_eq_true _ _).mp hrun
  obtain ⟨lease, hl, hbad⟩ := (Option.any_eq_true _ _).mp hbad
  rw [Bool.and_eq_true, Bool.and_eq_true, List.all_eq_true] at hbad
  obtain ⟨⟨hoverdue, hops⟩, hrenewed⟩ := hbad
  obtain ⟨_, hok⟩ := isOk_iff.mp hrenewed
  refine ⟨im, lease, him, hl, hoverdue, fun op hop => ?_, fun hexpires => ?_⟩
  · have hgood := hops op hop
    rw [Bool.and_eq_true, decide_eq_true_eq] at hgood
    exact hgood
  · exact hexpires hoverdue (.renewLease Sample.tenure) { now := 100 } (.ok ()) rfl rfl hok

/-! ### Evidence past its time -/

namespace Impl

variable {im : Impl Disk} {auth : Authority} {op : Op}

/-- The backing an operation binds a virtual accelerator to, or lets it use. -/
def relies (im : Impl Disk) : Op → Option BackingId
  | .assignBacking _ backing _ | .replaceBacking _ backing _ | .planMigration _ backing _ =>
    some backing
  | .commitMigration auth =>
    (auth.migration.bind (im.state.migrations[·]?)).map (·.plan.destinationBacking)
  | .attach auth => (auth.virtualId.bind (im.state.virtuals[·]?)).map (·.backing)
  | _ => none

/-- The policy limits the age of evidence, and the evidence for the backing is older. -/
def outdated (im : Impl Disk) (now : UnixMicros) (backing : BackingId) : Bool :=
  decide (0 < im.state.policy.evidenceMaxAgeMicros) && im.state.backings[backing]?.any fun b =>
    decide (b.evidenceAt < now - im.state.policy.evidenceMaxAgeMicros)

/-- The same process, with the evidence for every backing as of `now`. -/
def restamped (im : Impl Disk) (now : UnixMicros) : Impl Disk :=
  { im with state := { im.state with
      backings := im.state.backings.map fun _ b => { b with evidenceAt := now } } }

theorem backings_restamped (now : UnixMicros) (id : BackingId) :
    (im.restamped now).state.backings[id]? =
      im.state.backings[id]?.map fun b => { b with evidenceAt := now } :=
  Std.ExtTreeMap.getElem?_map

/-- There no evidence is too old. -/
theorem outdated_restamped (now : UnixMicros) (backing : BackingId) :
    (im.restamped now).outdated now backing = false := by
  have hnow : ¬ now < now - im.state.policy.evidenceMaxAgeMicros :=
    not_lt.mpr (sub_le_self now (Int.natCast_nonneg _))
  unfold outdated
  rw [backings_restamped]
  cases im.state.backings[backing]? with
  | none => exact Bool.and_false _
  | some b => exact (congrArg _ (decide_eq_false hnow)).trans (Bool.and_false _)

/-- The checks that follow decide alike, and so do the sequences. -/
theorem isOk_bind {ε α β γ : Type} {x : Except ε α} {f : α → Except ε β} {g : α → Except ε γ}
    (h : ∀ a, (f a).isOk = (g a).isOk) : (x >>= f).isOk = (x >>= g).isOk := by
  cases x with
  | error e => rfl
  | ok a => exact h a

theorem assignBackingCheck_restamped (now : UnixMicros) (backing : BackingId) (replacing : Bool) :
    (assignBackingCheck auth backing replacing (im.restamped now)).isOk =
      (assignBackingCheck auth backing replacing im).isOk := by
  unfold assignBackingCheck
  refine isOk_bind fun _ => isOk_bind fun _ => isOk_bind fun owned => isOk_bind fun _ => ?_
  rw [backings_restamped]
  cases im.state.backings[backing]? with
  | none => rfl
  | some b => exact isOk_bind fun _ => isOk_bind fun _ => rfl

theorem planMigrationCheck_restamped (now : UnixMicros) (destination : BackingId)
    (klass : MigrationClass) :
    (planMigrationCheck auth destination klass (im.restamped now)).isOk =
      (planMigrationCheck auth destination klass im).isOk := by
  unfold planMigrationCheck
  refine isOk_bind fun _ => isOk_bind fun _ => isOk_bind fun owned => isOk_bind fun _ =>
    isOk_bind fun _ => isOk_bind fun _ => ?_
  rw [backings_restamped]
  cases im.state.backings[destination]? with
  | none => rfl
  | some b =>
    refine isOk_bind fun _ => ?_
    change Except.isOk (if im.state.migrations.size ≥ im.state.policy.maxMigrations then _ else _) =
      Except.isOk (if im.state.migrations.size ≥ im.state.policy.maxMigrations then _ else _)
    split <;> rfl

theorem checkAttachable_restamped (now : UnixMicros) (v : VirtualAcceleratorRecord) :
    (im.restamped now).checkAttachable v = im.checkAttachable v := by
  unfold checkAttachable
  rw [backings_restamped]
  cases im.state.backings[v.backing]? <;> rfl

theorem planStaleness_restamped (now : UnixMicros) (m : MigrationRecord)
    (v : VirtualAcceleratorRecord) :
    planStaleness m v (im.restamped now).state = planStaleness m v im.state := by
  simp only [planStaleness, backings_restamped]
  cases im.state.backings[m.plan.sourceBacking]? <;>
    cases im.state.backings[m.plan.destinationBacking]? <;> rfl

theorem commitMigrationCheck_restamped (now : UnixMicros) :
    commitMigrationCheck auth (im.restamped now) = commitMigrationCheck auth im := by
  have hprologue : migrationPrologue auth (im.restamped now) = migrationPrologue auth im := by
    unfold migrationPrologue
    simp only [planStaleness_restamped]
    rfl
  unfold commitMigrationCheck
  rw [hprologue]
  rfl

/-- No check of an operation that relies on a backing looks at the dates of the evidence. -/
theorem admits_restamped (now : UnixMicros) {backing : BackingId}
    (h : im.relies op = some backing) : (im.restamped now).admits op = im.admits op := by
  cases op <;> simp only [relies, reduceCtorEq] at h
  case assignBacking => exact assignBackingCheck_restamped ..
  case replaceBacking => exact assignBackingCheck_restamped ..
  case planMigration => exact planMigrationCheck_restamped ..
  case commitMigration => exact congrArg Except.isOk (commitMigrationCheck_restamped ..)
  case attach auth =>
    simp only [admits, attachCheck, checkAttachable_restamped]
    rfl

/-- The operation does not succeed where it relies on evidence that is too old. -/
def ReliesOnFresh (im : Impl Disk) (clock : Clock) (op : Op) : Prop :=
  ∀ backing, im.relies op = some backing → im.outdated clock.now backing = true →
    ∀ answer, ((im.answering answer).exec clock op).2 ≠ .ok ()

end Impl

/-- In every state of every run, an operation does not succeed on evidence that is too old if and
only if the store takes no change sets, or the operation would be refused with fresh evidence too:
that it is too old plays no part. -/
theorem reliesOnFresh_iff {options : RuntimeOptions} {stored : Bool} {events : List Event}
    {im : Impl Disk} (h : (Impl.initial options stored).run events = some im) (clock : Clock)
    (op : Op) : im.ReliesOnFresh clock op ↔
      (∀ backing, im.relies op = some backing → im.outdated clock.now backing = false) ∨
        im.takes = false ∨ (im.restamped clock.now).admits op = false := by
  have hk : ∀ answer, (im.answering answer).state.WellKeyed := fun answer =>
    ((Impl.coherent_of_run h).answering answer).state.wellKeyed
  have hjudged : ∀ backing, im.relies op = some backing → op.judged = true := by
    intro backing hrelies
    cases op <;> first | rfl | cases hrelies
  have hadmits : ∀ answer, (im.answering answer).admits op = im.admits op := by
    intro answer
    cases op <;> rfl
  constructor
  · intro hfresh
    by_contra hno
    simp only [not_or, not_forall, Bool.not_eq_false] at hno
    obtain ⟨⟨backing, hrelies, houtdated⟩, htakes, hok⟩ := hno
    -- the checks would say the same if the evidence were of this moment
    rw [Impl.admits_restamped clock.now hrelies] at hok
    refine hfresh backing hrelies houtdated (.ok ()) ?_
    exact (Impl.exec_eq_ok_iff_admits (hjudged backing hrelies) (hk (.ok ()))).mpr
      ⟨(hadmits _).trans hok, htakes⟩
  · intro hcond backing hrelies houtdated answer hok
    obtain ⟨hadmitted, hwritable⟩ :=
      (Impl.exec_eq_ok_iff_admits (hjudged backing hrelies) (hk answer)).mp hok
    rw [hadmits, ← Impl.admits_restamped clock.now hrelies] at hadmitted
    obtain hc | hc | hc := hcond
    · exact absurd ((hc backing hrelies).symm.trans houtdated) nofun
    · exact absurd (hc.symm.trans (Impl.takes_of_writable hwritable)) nofun
    · exact absurd (hc.symm.trans hadmitted) nofun

/-- An attachment under a superseded generation is refused, however old the evidence is. -/
theorem reliesOnFresh_superseded : ∃ im, (Impl.initial {} true).run Sample.hastened = some im ∧
    im.outdated 100 7 = true ∧ im.ReliesOnFresh { now := 100 } (.attach (Sample.owner 14 1)) := by
  have hrun : (((Impl.initial {} true).run Sample.hastened).any fun im =>
      im.outdated 100 7 && !(im.restamped 100).admits (.attach (Sample.owner 14 1))) = true := by
    decide +kernel
  obtain ⟨im, him, hgood⟩ := (Option.any_eq_true _ _).mp hrun
  rw [Bool.and_eq_true, Bool.not_eq_true'] at hgood
  exact ⟨im, him, hgood.1, (reliesOnFresh_iff him _ _).mpr (.inr (.inr hgood.2))⟩

/-- Evidence from time zero that is to be trusted for ten microseconds is relied on at time 100: the
virtual accelerator is attached, its backing is replaced and a migration is planned. -/
theorem not_reliesOnFresh_hastened : ∃ im, (Impl.initial {} true).run Sample.hastened = some im ∧
    ∀ op ∈ [Op.attach (Sample.owner 14 2), .replaceBacking (Sample.owner 14 2) 8 [],
        .planMigration (Sample.owner 14 2) 8 .rebindOnly],
      (im.relies op).any (im.outdated 100) = true ∧ ¬ im.ReliesOnFresh { now := 100 } op := by
  have hrun : (((Impl.initial {} true).run Sample.hastened).any fun im =>
      [Op.attach (Sample.owner 14 2), .replaceBacking (Sample.owner 14 2) 8 [],
        .planMigration (Sample.owner 14 2) 8 .rebindOnly].all fun op =>
          (im.relies op).any (im.outdated 100) &&
            ((im.answering (.ok ())).exec { now := 100 } op).2.isOk) = true := by
    decide +kernel
  obtain ⟨im, him, hbad⟩ := (Option.any_eq_true _ _).mp hrun
  rw [List.all_eq_true] at hbad
  refine ⟨im, him, fun op hop => ?_⟩
  have hop' := hbad op hop
  rw [Bool.and_eq_true] at hop'
  refine ⟨hop'.1, fun hfresh => ?_⟩
  obtain ⟨backing, hrelies, houtdated⟩ := (Option.any_eq_true _ _).mp hop'.1
  obtain ⟨_, hok⟩ := isOk_iff.mp hop'.2
  exact hfresh backing hrelies houtdated (.ok ()) hok

end AcceleratorVirtualization
