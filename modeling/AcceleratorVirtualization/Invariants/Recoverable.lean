import AcceleratorVirtualization.Invariants.Counts
import AcceleratorVirtualization.Invariants.Demands
import AcceleratorVirtualization.Invariants.Roots

/-!
# What a start accepts

A state is validated before it is trusted, and a start that finds it untrustworthy is refused. What
a run leaves is refused for its size alone: a policy may be set below what there is already, and a
tenant may come to list a virtual accelerator twice. Everything else the validation asks for holds
in every state that a run reaches and in every image that it leaves.
-/

namespace AcceleratorVirtualization

open VirtualizationState Custody References Refusal

namespace Impl

variable {σ : Type} {im : Impl σ}

/-! ### Bodies keep the records rooted -/

section

variable {s : VirtualizationState} {owned : Owned}

theorem has_virtual_of_current (hw : s.WellKeyed) (ho : owned.Current s) :
    Has s.find (.virtual, owned.record.id) := by
  have hid : owned.record.id = owned.virtualId := hw.keyed .virtual _ _ ho.virtual
  rw [hid]
  exact has_of_find ho.virtual

theorem has_tenant_of_current (hw : s.WellKeyed) (ho : owned.Current s) :
    Has s.find (.tenant, owned.tenant.id) := by
  have hid : owned.tenant.id = owned.tenantId := hw.keyed .tenant _ _ ho.tenant
  rw [hid]
  exact has_of_find ho.tenant

theorem has_owner_of_current (hw : s.WellKeyed) (ho : owned.Current s) :
    Has s.find (.tenant, owned.record.owner) :=
  ho.owner ▸ has_tenant_of_current hw ho

/-- The destination of a plan that is not stale is there. -/
theorem has_destination_of_current {m : InFlight} (hm : m.Current s) :
    Has s.find (.backing, m.migration.plan.destinationBacking) := by
  obtain ⟨b, hb⟩ := (planStaleness_ok hm.fresh).2.1
  exact has_of_find (k := .backing) hb

end

theorem rooted_body {clock : Clock} {op : Op} {b : Body σ Unit} (hb : body clock op = some b)
    (hw : im.state.WellKeyed) (h : im.state.Rooted) : (b im.beginOp).1.state.Rooted := by
  have hs : Tracks im ∅ im.beginOp := .beginOp hw
  have hg : Grounds im.state.find im.beginOp := .refl h
  suffices Grounds im.state.find (b im.beginOp).1 from Scheme.Follows.rooted this
  cases op <;> simp only [body, Option.some.injEq, reduceCtorEq] at hb <;> subst hb
  case registerPhysical =>
    exact fst_checked hg fun _ _ => grounds_registerPhysicalAct hs hg _ _ _
  case physicalLost => exact fst_checked hg fun _ _ => grounds_physicalLostAct hg
  case setPolicy => exact fst_checked hg fun _ _ => grounds_setPolicyAct hg _
  case createTenant => exact fst_checked hg fun _ _ => grounds_createTenantAct hg _ _
  case fenceTenant => exact fst_checked hg fun _ _ => grounds_fenceTenantAct hg _ _ _
  case transferOwnership auth newOwner newGeneration =>
    refine fst_checked hg fun t ht => grounds_transferOwnershipAct hg _ ?_
    have hfound := (transferOwnershipCheck_ok ht).2.1
    have hid : t.destination.id = newOwner := hw.keyed .tenant _ _ hfound
    rw [hid]
    exact has_of_find (k := .tenant) hfound
  case createVirtual =>
    refine fst_checked hg fun t ht => grounds_createVirtualAct hg _ _ _ _ ?_
    exact has_of_find (k := .tenant) (createVirtualCheck_ok ht).1
  case updateContract => exact fst_checked hg fun _ _ => grounds_updateContractAct hg _
  case activate | resume =>
    exact fst_checked hg fun _ _ =>
      hg.transitionAct _ clock _ _ _ fun _ hi => hi.recomputeDerivedAccounting
  case drain | resolveRecovery =>
    exact fst_checked hg fun _ _ => hg.transitionAct _ clock _ _ _ fun _ hi => hi
  case suspend => exact fst_checked hg fun _ _ => grounds_suspendAct hg _
  case fenceVirtual => exact fst_checked hg fun _ _ => grounds_fenceVirtualAct hg _
  case retireVirtual =>
    refine fst_checked hg fun o ho => grounds_retireVirtualAct hg _ ?_
    exact has_owner_of_current hw (notRetiredCheck_ok ho).1
  case assignBacking | replaceBacking =>
    refine fst_checked hg fun plan hplan => ?_
    obtain ⟨ho, hbacking, -, -⟩ := assignBackingCheck_ok hplan
    refine grounds_assignBackingAct hg (has_virtual_of_current hw ho) ?_
    have hid := hw.keyed .backing _ _ hbacking
    exact (show plan.2.id = _ from hid) ▸ has_of_find (k := .backing) hbacking
  case attach =>
    refine fst_checked hg fun o ho => ?_
    have hcurrent := (attachCheck_ok ho).1
    exact grounds_attachAct hg (has_virtual_of_current hw hcurrent)
      (has_tenant_of_current hw hcurrent)
  case renewLease => exact fst_checked hg fun _ _ => grounds_renewLeaseAct hg
  case detach | revokeLease => exact fst_checked hg fun _ _ => grounds_releaseLeaseAct hg _ _ _ _
  case planMigration =>
    refine fst_checked hg fun plan hplan => ?_
    obtain ⟨ho, hbacking, -, hne⟩ := planMigrationCheck_ok hplan
    -- the record names its own backing, which is the source
    have hsits := h .virtual _ _ ho.virtual
    exact grounds_planMigrationAct hg (has_virtual_of_current hw ho)
      (hsits.named _ (RecordKind.mem_names_virtual.mpr (.inr ⟨hne, rfl⟩)))
      (has_of_find (k := .backing) hbacking)
  case prepareMigration =>
    refine fst_checked hg fun m hm => ?_
    have hcurrent := (prepareMigrationCheck_ok hm).1
    exact grounds_prepareMigrationAct hg (.beginOp hs.wellKeyed) hcurrent
      (has_of_find (k := .virtual) hcurrent.owned.virtual) (has_destination_of_current hcurrent)
  case commitMigration =>
    exact fst_checked hg fun c hc => grounds_commitMigrationAct hg
      (has_destination_of_current (commitMigrationCheck_ok hc).1)
  case completeMigration => exact fst_checked hg fun _ _ => grounds_completeMigrationAct hg
  case abortMigration => exact fst_checked hg fun _ _ => grounds_abortMigrationAct hg _
  case reserveAllocation | accountKernel =>
    exact fst_checked hg fun _ _ => (((hg.touch _ _).modify .virtual _ _ fun _ => by rfl).account
      _).touchHeader
  case releaseAllocation =>
    exact fst_checked hg fun _ _ => (((hg.touch _ _).modify .virtual _ _ fun _ => by rfl).account
      _).touchHeader

end Impl

/-! ### What was submitted is valid -/

/-- The policy, if there is one, and the contracts that have an identity pass their checks. -/
structure Demands.Valid (D : Demands) : Prop where
  policy : valid D.generation = true → D.policy.validate = .ok ()
  contracts : ∀ id c, D.contract id = some c → valid c.id = true → c.validate = .ok ()

/-- What an operation may change of what is asked for: nothing, the policy, or one contract. -/
inductive Demands.Asks (D : Demands) : Demands → Prop
  | refl : Asks D D
  | policy {policy : VirtualizationPolicy} (h : policy.validate = .ok ()) :
    Asks D { D with policy, generation := D.generation + 1 }
  | contract (id : ℕ) {contract : ResourceContract} (h : contract.validate = .ok ()) :
    Asks D (D.write id contract)

theorem Demands.Valid.asks {D D' : Demands} (h : D.Valid) (ha : D.Asks D') : D'.Valid := by
  cases ha with
  | refl => exact h
  | policy hpolicy => exact ⟨fun _ => hpolicy, h.contracts⟩
  | contract id hcontract =>
    refine ⟨h.policy, fun id' c hid hvalid => ?_⟩
    obtain rfl | hne := eq_or_ne id' id
    · simp only [Demands.write, Function.update_self] at hid
      obtain rfl := Option.some.inj hid
      exact hcontract
    · simp only [Demands.write, Function.update_of_ne hne] at hid
      exact h.contracts id' c hid hvalid

/-- What is governed stays so. -/
theorem Demands.Asks.governed {D D' : Demands} (h : D.Asks D') (hg : valid D.generation = true) :
    valid D'.generation = true := by
  cases h with
  | refl => exact hg
  | policy _ => exact decide_eq_true (Nat.succ_ne_zero _)
  | contract id _ => exact hg

namespace Impl

variable {σ : Type} {im : Impl σ}

/-- A body asks for what was asked for before, for a policy or for a contract. -/
theorem asks_body {clock : Clock} {op : Op} {b : Body σ Unit} (hb : body clock op = some b) :
    im.demands.Asks (b im.beginOp).1.demands := by
  have h0 : im.demands.Asks im.beginOp.demands := .refl
  cases hop : op.submits with
  | false => exact (demands_body hb hop).symm ▸ h0
  | true =>
    cases op <;> simp only [Op.submits, Bool.false_eq_true] at hop <;>
      simp only [body, Option.some.injEq] at hb <;> subst hb
    case setPolicy auth policy =>
      refine fst_checked (p := fun im' : Impl σ => im.demands.Asks im'.demands) h0
        fun plan hplan => ?_
      obtain ⟨-, hvalid⟩ := setPolicyCheck_ok hplan
      rw [demands_setPolicyAct]
      exact .policy hvalid
    case createVirtual auth name owner ownerGeneration contract =>
      refine fst_checked (p := fun im' : Impl σ => im.demands.Asks im'.demands) h0
        fun tenant ht => ?_
      obtain ⟨-, hvalid, -⟩ := createVirtualCheck_ok ht
      obtain ⟨id, generation, hwritten⟩ :=
        @demands_createVirtualAct _ im.beginOp auth clock name owner ownerGeneration contract tenant
      rw [hwritten]
      exact .contract _ hvalid
    case updateContract auth contract =>
      refine fst_checked (p := fun im' : Impl σ => im.demands.Asks im'.demands) h0
        fun owned ho => ?_
      obtain ⟨hcurrent, hvalid, -⟩ := updateContractCheck_ok ho
      obtain ⟨-, hsame⟩ | ⟨_, _, -, hwritten⟩ :=
        @demands_updateContractAct _ im.beginOp auth clock contract owned hcurrent
      · rw [hsame]
        exact h0
      · rw [hwritten]
        exact .contract _ hvalid

theorem valid_body {clock : Clock} {op : Op} {b : Body σ Unit} (hb : body clock op = some b)
    (h : im.demands.Valid) : (b im.beginOp).1.demands.Valid :=
  h.asks (asks_body hb)

/-- A start sets the default policy if there is none. -/
theorem valid_startBody (h : im.demands.Valid) (clock : Clock) (recovered : Bool) :
    (im.startBody clock recovered).demands.Valid := by
  have hsame : (im.startBody clock recovered).demands = (im.enterEpoch recovered).demands :=
    congrArg Dossier.demands (dossier_startBody clock recovered)
  rw [hsame]
  simp only [enterEpoch]
  split
  · exact ⟨fun _ => VirtualizationPolicy.validate_defaultPolicy, h.contracts⟩
  · split
    · exact ⟨h.policy, h.contracts⟩
    · exact ⟨h.policy, h.contracts⟩

end Impl

/-! ### What the validation asks for -/

/-- What the validation asks of the scalars. -/
structure VirtualizationState.Entered (s : VirtualizationState) : Prop where
  schema : s.schema = schemaVersion
  epoch : valid s.epoch = true
  governed : valid s.policyGeneration = true

/-- What a run can break of a trustworthy state. -/
structure VirtualizationState.Sized (s : VirtualizationState) : Prop where
  virtuals : s.virtuals.size ≤ s.policy.maxVirtualAccelerators
  tenants : s.tenants.size ≤ s.policy.maxTenants
  owned : ∀ (t : TenantId) (tenant : TenantRecord), s.tenants[t]? = some tenant →
    tenant.owned.length ≤ s.virtuals.size

/-- What a run does not break. -/
structure VirtualizationState.Sturdy (s : VirtualizationState) : Prop where
  consistent : s.Consistent
  rooted : s.Rooted
  submitted : s.demands.Valid

namespace VirtualizationState

variable {s : VirtualizationState}

theorem forRecords_eq_ok {α : Type} {map : IdMap α} {check : α → Check} :
    forRecords map check = .ok () ↔ ∀ (id : ℕ) (r : α), map[id]? = some r → check r = .ok () := by
  rw [forRecords, forM_eq_ok, values_eq_map_toList]
  simp only [List.mem_map, Prod.exists, exists_eq_right, forall_exists_index,
    Std.ExtTreeMap.mem_toList_iff_getElem?_eq_some]
  exact forall_comm

theorem mem_of_has {k : RecordKind} {id : ℕ} (h : Has s.find (k, id)) : id ∈ s.entities k :=
  Std.ExtTreeMap.isSome_getElem?_iff_mem.mp h

theorem validateHeader_eq_ok :
    s.validateHeader = .ok () ↔
      s.Entered ∧ s.nextSequence ≠ 0 ∧ s.policy.validate = .ok () := by
  simp only [validateHeader, guard_bind_eq_ok, not_not, Bool.not_eq_true', Bool.not_eq_false]
  constructor
  · rintro ⟨hschema, hepoch, hsequence, hgoverned, hpolicy⟩
    refine ⟨⟨hschema, hepoch, hgoverned⟩, hsequence, ?_⟩
    cases hv : s.policy.validate with
    | error status => simp [hv, throw_ne_ok] at hpolicy
    | ok _ => rfl
  · rintro ⟨⟨hschema, hepoch, hgoverned⟩, hsequence, hpolicy⟩
    exact ⟨hschema, hepoch, hsequence, hgoverned, by simp [hpolicy, pure_eq_ok]⟩

theorem validateVirtual_eq_ok {r : VirtualAcceleratorRecord} :
    s.validateVirtual r = .ok () ↔ valid r.generation = true ∧ r.owner ∈ s.tenants ∧
      (valid r.contract.id = true → r.contract.validate = .ok ()) ∧
      (lifecycleRequiresBacking r.state = true → valid r.backing = true ∧ r.backing ∈ s.backings ∧
        s.assignments[r.assignment]?.any (·.authoritative) = true) ∧
      r.activeAttachments ≤ r.leases.length := by
  simp only [validateVirtual, guard_bind_eq_ok]
  cases hv : valid r.contract.id <;> cases hc : r.contract.validate <;>
    cases hr : lifecycleRequiresBacking r.state <;>
    simp only [Bool.false_eq_true, if_false, if_true, guard_bind_eq_ok, guard_eq_ok, pure_eq_ok,
      bind_eq_ok, throw_ne_ok, false_and, exists_false] <;> simp [and_assoc]

/-- A virtual accelerator of a sturdy state is trusted. -/
theorem Sturdy.validateVirtual (h : s.Sturdy) (hw : s.WellKeyed) {id : VirtualAcceleratorId}
    {v : VirtualAcceleratorRecord} (hv : s.virtuals[id]? = some v) :
    s.validateVirtual v = .ok () := by
  obtain ⟨hdated, hnamed⟩ := h.rooted .virtual id v hv
  obtain ⟨-, hcounted⟩ := h.consistent.attachments.counted id v hv
  refine validateVirtual_eq_ok.mpr ⟨hdated, ?_, ?_, fun hrequires => ?_, ?_⟩
  · exact mem_of_has (hnamed _ (RecordKind.mem_names_virtual.mpr (.inl rfl)))
  · exact h.submitted.contracts id v.contract (congrArg (Option.map _) hv)
  · have hallows : lifecycleAllowsLeases v.state = true := hrequires
    obtain ⟨a, b, ha, hauth, -, hb⟩ := h.consistent.backed hv hallows
    refine ⟨?_, Std.ExtTreeMap.mem_iff_isSome_getElem?.mpr (by rw [hb]; rfl),
      by rw [ha]; exact hauth⟩
    have hpos := (hw.issued .backing v.backing b hb).1
    exact decide_eq_true hpos.ne'
  · rw [hcounted]
    exact List.length_filter_le _ _

/-- What is asked of a state in which no record is to blame. -/
theorem Sturdy.validateState_eq_ok (h : s.Sturdy) (hw : s.WellKeyed) :
    s.validateState = .ok () ↔ s.Entered ∧ s.Sized := by
  -- what a record names exists, and what must be valid is
  have hnamed : ∀ {k : RecordKind} {id : ℕ} {r : k.Record}, s.find k id = some r →
      ∀ n ∈ k.names r, n.2 ∈ s.entities n.1 :=
    fun hr n hn => mem_of_has ((h.rooted _ _ _ hr).named n hn)
  have hdated : ∀ {k : RecordKind} {id : ℕ} {r : k.Record}, s.find k id = some r →
      k.dated r = true := fun hr => (h.rooted _ _ _ hr).fit
  simp only [validateState, bind_eq_ok, guard_bind_eq_ok, guard_eq_ok, pure_eq_ok, and_true,
    Unique.exists_iff, PUnit.default_eq_unit, forRecords_eq_ok, validateHeader_eq_ok]
  constructor
  · rintro ⟨⟨hentered, -, -⟩, htenants, -, -, -, -, -, -, hv, ht⟩
    refine ⟨hentered, Nat.le_of_not_lt hv, Nat.le_of_not_lt ht, fun t tenant hfound => ?_⟩
    have hcheck := htenants t tenant hfound
    simp only [validateTenant, guard_bind_eq_ok, guard_eq_ok] at hcheck
    exact Nat.le_of_not_lt hcheck.2.1
  · rintro ⟨hentered, hsized⟩
    refine ⟨⟨hentered, hw.started.ne', h.submitted.policy hentered.governed⟩, ?_, ?_, ?_, ?_, ?_,
      ?_, ?_, Nat.not_lt.mpr hsized.virtuals, Nat.not_lt.mpr hsized.tenants⟩
    · intro id r hr
      have hd : valid r.generation = true := hdated (k := .tenant) hr
      simp [validateTenant, guard_eq_ok, pure_eq_ok, hd, hsized.owned id r hr]
    · intro id r hr
      have hd : valid r.generation = true := hdated (k := .physical) hr
      simp [validatePhysical, pure_eq_ok, hd]
    · intro id r hr
      have hd : valid r.generation = true := hdated (k := .backing) hr
      have hphysical : r.physical ∈ s.physical :=
        hnamed (k := .backing) hr _ List.mem_cons_self
      simp [validateBacking, pure_eq_ok, hd, hphysical]
    · exact fun id r hr => h.validateVirtual hw hr
    · intro id r hr
      have hd : valid r.generation = true := hdated (k := .lease) hr
      have hvirtual : r.virtualId ∈ s.virtuals := hnamed (k := .lease) hr _ List.mem_cons_self
      have htenant : r.tenant ∈ s.tenants :=
        hnamed (k := .lease) hr (.tenant, r.tenant) (by simp [RecordKind.names])
      simp [validateLease, pure_eq_ok, hd, hvirtual, htenant]
    · intro id r hr
      have hvirtual : r.virtualId ∈ s.virtuals := hnamed (k := .assignment) hr _ List.mem_cons_self
      have hbacking : r.backing ∈ s.backings :=
        hnamed (k := .assignment) hr (.backing, r.backing) (by simp [RecordKind.names])
      simp [validateAssignment, pure_eq_ok, hvirtual, hbacking]
    · intro id r hr
      have hvirtual : r.plan.virtualId ∈ s.virtuals :=
        hnamed (k := .migration) hr _ List.mem_cons_self
      have hsource : r.plan.sourceBacking ∈ s.backings :=
        hnamed (k := .migration) hr (.backing, r.plan.sourceBacking) (by simp [RecordKind.names])
      have hdestination : r.plan.destinationBacking ∈ s.backings :=
        hnamed (k := .migration) hr (.backing, r.plan.destinationBacking)
          (by simp [RecordKind.names])
      simp [validateMigration, pure_eq_ok, hvirtual, hsource, hdestination]

/-! ### Runs -/

/-- The tenants are known by their standing. -/
theorem has_of_alike {T : Prop} {t : VirtualizationState} (h : s.Alike T t) {n : RecordKind × ℕ}
    (hn : Has s.find n) : Has t.find n := by
  obtain ⟨k, id⟩ := n
  by_cases hk : k = .tenant
  · subst hk
    have hstanding := congrArg Option.isSome (h.standing id)
    simp only [Option.isSome_map] at hstanding
    exact hstanding.symm.trans hn
  · simp only [Has, find] at hn ⊢
    rwa [← h.entities k hk]

theorem respects_sturdy {T : Prop} : Respects T Sturdy := by
  intro s t h hs
  refine ⟨Impl.respects_consistent h hs.consistent, fun k id r hr => ?_, ?_⟩
  · by_cases hk : k = .tenant
    · subst hk
      have hstanding := h.standing id
      rw [show t.tenants[id]? = some r from hr, Option.map_some, Option.map_eq_some_iff]
        at hstanding
      obtain ⟨r', hr', heq⟩ := hstanding
      have hdated : valid r'.generation = true := (hs.rooted .tenant id r' hr').fit
      refine ⟨?_, fun n hn => ?_⟩
      · exact (congrArg (fun tenant : TenantRecord => valid tenant.generation) heq).symm.trans
          hdated
      · cases hn
    · have hfound : s.find k id = some r := by
        rw [find, h.entities k hk]
        exact hr
      exact (hs.rooted k id r hfound).mono fun n => has_of_alike h
  · have hv : s.virtuals = t.virtuals := h.entities .virtual (by decide)
    have hdemands : t.demands = s.demands := by
      simp only [demands, hv, h.policy, h.policyGeneration]
    rw [hdemands]
    exact hs.submitted

theorem sturdy_empty : ({} : VirtualizationState).Sturdy where
  consistent := Impl.consistent_empty
  rooted k id r hr := by
    have hnone : ({} : VirtualizationState).find k id = none := by
      cases k <;> simp [find, entities]
    rw [hnone] at hr
    cases hr
  submitted := by
    constructor
    · intro hgoverned
      cases hgoverned
    · simp [demands]

end VirtualizationState

namespace Impl

variable {im : Impl Disk}

theorem invariant_sturdy {T : Prop} : Invariant T Sturdy where
  respects := respects_sturdy
  empty := sturdy_empty
  classified {i} now h := by
    have hg : Grounds i.state.find (i.classified now).1 :=
      grounds_classified (.refl h.holds.rooted) now
    refine ⟨consistent_classified h.wellKeyed h.holds.consistent now, hg.rooted, ?_⟩
    have hsame : (i.classified now).1.state.demands = i.state.demands := demands_classified i now
    rw [hsame]
    exact h.holds.submitted
  shutdown {i} clock h := by
    have hg : Grounds i.state.find (i.shutdownBody clock) :=
      grounds_shutdownBody (.refl h.holds.rooted)
    refine ⟨consistent_shutdownBody h.wellKeyed h.holds.consistent clock, hg.rooted, ?_⟩
    have hsame : (i.shutdownBody clock).state.demands = i.state.demands :=
      demands_shutdownBody clock
    rw [hsame]
    exact h.holds.submitted

theorem sturdy_startBody {base : Impl Disk} (hs : base.state.Sound Sturdy) (clock : Clock)
    (recovered : Bool) : (base.startBody clock recovered).state.Sturdy := by
  have hg : Grounds base.state.find (base.startBody clock recovered) :=
    grounds_startBody (.refl hs.holds.rooted) recovered
  exact ⟨consistent_startBody hs.wellKeyed hs.holds.consistent clock recovered, hg.rooted,
    valid_startBody hs.holds.submitted clock recovered⟩

theorem keeps_sturdy (h : Kept False Sturdy im) (event : Event) : Keeps False Sturdy im event where
  body op clock answer _ b hb _ := by
    have hs := (h.answering answer).state
    exact ⟨consistent_body hb hs.wellKeyed hs.holds.consistent,
      rooted_body hb hs.wellKeyed hs.holds.rooted, valid_body hb hs.holds.submitted⟩
  start clock _ base recovered hs _ := sturdy_startBody hs clock recovered
  written := False.elim

theorem sturdy_of_run {options : RuntimeOptions} {stored : Bool} {events : List Event}
    (h : (initial options stored).run events = some im) : Kept False Sturdy im :=
  (kept_initial invariant_sturdy options stored).of_run invariant_sturdy
    (fun _ event hk => keeps_sturdy hk event) h

end Impl

end AcceleratorVirtualization
