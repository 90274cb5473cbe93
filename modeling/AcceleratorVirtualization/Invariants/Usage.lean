import AcceleratorVirtualization.Invariants.Acceptance
import AcceleratorVirtualization.Invariants.Attachments

/-!
# Who may use a virtual accelerator

Memory is reserved and kernels are counted under a lease. Reserving compares everything the lease
is bound to with what is current. Counting kernels looks at the generation of the lease, and only
if one is presented, so the lease of another virtual accelerator is as good as the right one.
-/

namespace AcceleratorVirtualization

open VirtualizationState Refusal

/-- The authority under which an operation uses a virtual accelerator. -/
def Op.uses : Op → Option Authority
  | .reserveAllocation auth _ | .accountKernel auth _ => some auth
  | _ => none

namespace VirtualizationState

variable {s : VirtualizationState} {auth : Authority}

/-- The lease and the virtual accelerator that an authority names belong together: the lease is
presented with its generation, is live, was granted to the tenant named for the virtual accelerator
named, under what is current, and the virtual accelerator can execute. -/
structure RightLease (s : VirtualizationState) (auth : Authority) (v : VirtualAcceleratorRecord)
    (lease : LeaseRecord) : Prop where
  virtual : auth.virtualId.bind (s.virtuals[·]?) = some v
  presented : auth.lease.bind (s.leases[·]?) = some lease
  generation : auth.leaseGeneration = some lease.generation
  live : leaseStateIsLive lease.state = true
  virtualId : auth.virtualId = some lease.virtualId
  tenant : auth.tenant = some lease.tenant
  virtualGeneration : lease.virtualGeneration = v.generation
  backingGeneration : lease.backingGeneration = v.backingGeneration
  policyGeneration : lease.policyGeneration = s.policyGeneration
  epoch : lease.epoch = s.epoch
  state : v.state = .attached ∨ v.state = .active

/-- What counting kernels compares: the authority presents the current epoch, a tenant and a virtual
accelerator of that tenant with their generations, and a live lease, with its generation if it
presents any. -/
structure Compares (s : VirtualizationState) (auth : Authority) (v : VirtualAcceleratorRecord)
    (t : TenantRecord) (lease : LeaseRecord) : Prop where
  epoch : auth.epoch = some s.epoch
  tenant : auth.tenant.bind (s.tenants[·]?) = some t
  tenantGeneration : auth.tenantGeneration = some t.generation
  virtual : auth.virtualId.bind (s.virtuals[·]?) = some v
  virtualGeneration : auth.virtualGeneration = some v.generation
  owner : v.owner = t.id
  ownerGeneration : v.ownerGeneration = t.generation
  unfenced : t.fenced = false
  presented : auth.lease.bind (s.leases[·]?) = some lease
  live : leaseStateIsLive lease.state = true
  leaseGeneration : ∀ generation, auth.leaseGeneration = some generation →
    generation = lease.generation

/-- The lease presented with its generation is one of the virtual accelerator named, nothing that it
is bound to has been superseded, and the virtual accelerator can execute. -/
def leaseFits (s : VirtualizationState) (auth : Authority) : Bool :=
  auth.leaseGeneration.isSome && (auth.lease.bind (s.leases[·]?)).any fun lease =>
    decide (auth.virtualId = some lease.virtualId) && s.virtuals[lease.virtualId]?.any fun v =>
      decide (lease.virtualGeneration = v.generation) &&
        decide (lease.backingGeneration = v.backingGeneration) &&
        decide (lease.policyGeneration = s.policyGeneration) && decide (lease.epoch = s.epoch) &&
        decide (v.state = .attached ∨ v.state = .active)

theorem RightLease.leaseFits {v : VirtualAcceleratorRecord} {lease : LeaseRecord}
    (h : s.RightLease auth v lease) : s.leaseFits auth = true := by
  have hv : s.virtuals[lease.virtualId]? = some v := by simpa [h.virtualId] using h.virtual
  have hstate := h.state
  simp only [VirtualizationState.leaseFits, h.presented, h.generation, h.virtualId, hv,
    Option.isSome_some, Option.any_some, h.virtualGeneration, h.backingGeneration,
    h.policyGeneration, h.epoch, hstate, decide_true, Bool.and_self]

/-- What is left to compare: whose lease it is, and whether all that it is bound to is current. Its
tenant is the owner of its virtual accelerator anyway. -/
theorem Consistent.rightLease (hs : s.Consistent) (hw : s.WellKeyed)
    {v : VirtualAcceleratorRecord} {t : TenantRecord} {lease : LeaseRecord}
    (h : s.Compares auth v t lease) (hfits : s.leaseFits auth = true) :
    s.RightLease auth v lease := by
  obtain ⟨x, hvirtual, hv⟩ := Option.bind_eq_some_iff.mp h.virtual
  obtain ⟨y, htenant, ht⟩ := Option.bind_eq_some_iff.mp h.tenant
  obtain ⟨id, hlease, hl⟩ := Option.bind_eq_some_iff.mp h.presented
  simp only [leaseFits, h.presented, Option.any_some, Bool.and_eq_true, decide_eq_true_eq,
    Option.any_eq_true] at hfits
  obtain ⟨hpresented, hown, v', hv', ⟨⟨⟨hvg, hbg⟩, hpg⟩, hepoch⟩, hstate⟩ := hfits
  obtain rfl : x = lease.virtualId := Option.some.inj (hvirtual.symm.trans hown)
  obtain rfl : v' = v := Option.some.inj (hv'.symm.trans hv)
  have howner : lease.tenant = v'.owner :=
    hs.leased.owner id _ _ (lease_of_record hl) h.live (seat_of_record hv)
  have hid : t.id = y := hw.keyed .tenant _ _ ht
  obtain ⟨generation, hgeneration⟩ := Option.isSome_iff_exists.mp hpresented
  exact {
    virtual := h.virtual
    presented := h.presented
    generation := h.leaseGeneration generation hgeneration ▸ hgeneration
    live := h.live
    virtualId := hown
    tenant := by rw [htenant, howner, h.owner, hid]
    virtualGeneration := hvg
    backingGeneration := hbg
    policyGeneration := hpg
    epoch := hepoch
    state := hstate }

end VirtualizationState

/-! ### What the two operations compare -/

namespace Impl

variable {im : Impl Disk} {auth : Authority}

/-- Whoever is resolved as the owner is named by the authority. -/
theorem named_of_resolveOwned {s : VirtualizationState} {owned : Owned}
    (h : s.resolveOwned auth = .ok owned) : auth.virtualId = some owned.virtualId ∧
      auth.tenant = some owned.tenantId := by
  simp only [resolveOwned, bind_eq_ok, pure_eq_ok] at h
  obtain ⟨t, ht, v, hv, _, -, rfl⟩ := h
  exact ⟨(resolveVirtual_eq_ok.mp hv).1, (resolveTenant_eq_ok.mp ht).1⟩

/-- A lease that authorises work is the one presented, and all that it is bound to is current. -/
theorem checkExecutionLease_ok {owned : Owned} {lease : LeaseRecord}
    (h : im.checkExecutionLease auth owned = .ok lease) :
    auth.lease.bind (im.state.leases[·]?) = some lease ∧
      auth.leaseGeneration = some lease.generation ∧ lease.virtualId = owned.record.id ∧
      lease.tenant = owned.tenant.id ∧ leaseStateIsLive lease.state = true ∧
      lease.virtualGeneration = owned.record.generation ∧
      lease.backingGeneration = owned.record.backingGeneration ∧
      lease.policyGeneration = im.state.policyGeneration ∧ lease.epoch = im.state.epoch := by
  unfold checkExecutionLease at h
  split at h
  · rename_i id generation hid hgeneration
    split at h
    · cases h
    · rename_i lease' hlease
      simp only [guard_bind_eq_ok, pure_eq_ok, ne_eq, not_not, Bool.or_eq_true, not_or,
        decide_eq_true_eq, Bool.not_eq_true', Bool.not_eq_false] at h
      obtain ⟨hg, ⟨⟨hv, ht⟩, hlive⟩, hvg, hbg, hpg, hepoch, rfl⟩ := h
      refine ⟨by rw [hid, Option.bind_some, hlease], hg ▸ hgeneration, hv, ht, hlive, hvg, hbg, hpg,
        hepoch⟩
  · cases h

/-- What is found when memory may be reserved. -/
theorem reserveAllocationCheck_granted {bytes : ℕ} {owned : Owned} {lease : LeaseRecord}
    (h : reserveAllocationCheck auth bytes im = .ok (owned, lease)) :
    im.state.resolveOwned auth = .ok owned ∧ im.checkExecutionLease auth owned = .ok lease ∧
      (im.options.enforceMemoryBudget = true → 0 < owned.record.contract.memoryCeilingBytes →
        owned.record.allocatedBytes + bytes ≤ owned.record.contract.memoryCeilingBytes) ∧
      (owned.record.state = .attached ∨ owned.record.state = .active) := by
  simp only [reserveAllocationCheck, bind_eq_ok] at h
  obtain ⟨_, -, owned', ho, lease', hl, h⟩ := h
  split at h
  · rename_i hceiling
    simp only [guard_bind_eq_ok, pure_eq_ok, Prod.mk.injEq, Bool.or_eq_true, decide_eq_true_eq,
      not_or, Bool.and_eq_true, ne_eq] at h
    obtain ⟨⟨hbytes, hsum⟩, hstate, rfl, rfl⟩ := h
    exact ⟨ho, hl, fun _ _ => by omega, by tauto⟩
  · rename_i hceiling
    simp only [guard_bind_eq_ok, pure_eq_ok, Prod.mk.injEq, Bool.and_eq_true, decide_eq_true_eq,
      ne_eq] at h
    obtain ⟨hstate, rfl, rfl⟩ := h
    refine ⟨ho, hl, fun henforced hpositive => absurd ?_ hceiling, by tauto⟩
    simp [henforced, hpositive]

/-- Reserving memory compares everything. -/
theorem rightLease_of_reserveAllocationCheck {bytes : ℕ} {owned : Owned} {lease : LeaseRecord}
    (hk : im.state.WellKeyed) (h : reserveAllocationCheck auth bytes im = .ok (owned, lease)) :
    im.state.RightLease auth owned.record lease := by
  obtain ⟨ho, hl, -, hstate⟩ := reserveAllocationCheck_granted h
  obtain ⟨hvirtual, htenant⟩ := named_of_resolveOwned ho
  have hcurrent := resolveOwned_ok ho
  have hid : owned.record.id = owned.virtualId := hk.keyed .virtual _ _ hcurrent.virtual
  have htid : owned.tenant.id = owned.tenantId := hk.keyed .tenant _ _ hcurrent.tenant
  obtain ⟨hpresented, hgeneration, hown, ht, hlive, hvg, hbg, hpg, hepoch⟩ :=
    checkExecutionLease_ok hl
  exact {
    virtual := by rw [hvirtual, Option.bind_some, hcurrent.virtual]
    presented := hpresented
    generation := hgeneration
    live := hlive
    virtualId := by rw [hvirtual, hown, hid]
    tenant := by rw [htenant, ht, htid]
    virtualGeneration := hvg
    backingGeneration := hbg
    policyGeneration := hpg
    epoch := hepoch
    state := hstate }

/-- Who an authority resolves to as the owner. -/
theorem resolveOwned_eq_ok {s : VirtualizationState} {owned : Owned} :
    s.resolveOwned auth = .ok owned ↔
      s.resolveTenant auth = .ok (owned.tenantId, owned.tenant) ∧
      s.resolveVirtual auth = .ok (owned.virtualId, owned.record) ∧
      requireOwner owned.record owned.tenant = .ok () := by
  simp only [resolveOwned, bind_eq_ok, pure_eq_ok]
  constructor
  · rintro ⟨t, ht, v, hv, _, howner, rfl⟩
    exact ⟨ht, hv, howner⟩
  · rintro ⟨ht, hv, howner⟩
    exact ⟨_, ht, _, hv, (), howner, rfl⟩

/-- Counting kernels is refused if and only if the store has failed or one of these does not
hold. -/
theorem accountKernelCheck_isOk :
    (accountKernelCheck auth im).isOk = true ↔ im.storeFailed = false ∧
      ∃ v t lease, im.state.Compares auth v t lease := by
  rw [isOk_iff]
  simp only [accountKernelCheck, bind_eq_ok]
  constructor
  · rintro ⟨plan, _, hstore, _, hepoch, owned, ho, h⟩
    obtain ⟨ht, hv, howner⟩ := resolveOwned_eq_ok.mp ho
    obtain ⟨htenant, ht, htgeneration⟩ := resolveTenant_eq_ok.mp ht
    obtain ⟨hvirtual, hv, hvgeneration⟩ := resolveVirtual_eq_ok.mp hv
    obtain ⟨howner, hogeneration, hunfenced⟩ := requireOwner_eq_ok.mp howner
    split at h
    · simp [throw_ne_ok] at h
    · rename_i id hid
      split at h
      · simp [throw_ne_ok] at h
      · rename_i lease hl
        simp only [guard_bind_eq_ok, pure_eq_ok, Bool.not_eq_true', Bool.not_eq_false,
          Option.any_eq_true, decide_eq_true_eq, not_exists, not_and, not_not] at h
        exact ⟨guardStore_eq_ok.mp hstore, owned.record, owned.tenant, lease, {
          epoch := checkEpoch_eq_ok.mp hepoch
          tenant := by rw [htenant, Option.bind_some, ht]
          tenantGeneration := htgeneration
          virtual := by rw [hvirtual, Option.bind_some, hv]
          virtualGeneration := hvgeneration
          owner := howner
          ownerGeneration := hogeneration
          unfenced := hunfenced
          presented := by rw [hid, Option.bind_some, hl]
          live := h.1
          leaseGeneration := h.2.1 }⟩
  · rintro ⟨hstore, v, t, lease, h⟩
    obtain ⟨x, hvirtual, hv⟩ := Option.bind_eq_some_iff.mp h.virtual
    obtain ⟨y, htenant, ht⟩ := Option.bind_eq_some_iff.mp h.tenant
    obtain ⟨id, hlease, hl⟩ := Option.bind_eq_some_iff.mp h.presented
    refine ⟨(⟨y, t, x, v⟩, lease), (), guardStore_eq_ok.mpr hstore, (),
      checkEpoch_eq_ok.mpr h.epoch, ⟨y, t, x, v⟩, resolveOwned_eq_ok.mpr
        ⟨resolveTenant_eq_ok.mpr ⟨htenant, ht, h.tenantGeneration⟩,
          resolveVirtual_eq_ok.mpr ⟨hvirtual, hv, h.virtualGeneration⟩,
          requireOwner_eq_ok.mpr ⟨h.owner, h.ownerGeneration, h.unfenced⟩⟩, ?_⟩
    simp only [hlease, hl, guard_bind_eq_ok, pure_eq_ok, Bool.not_eq_true', Bool.not_eq_false,
      Option.any_eq_true, decide_eq_true_eq, not_exists, not_and, not_not, and_true]
    exact ⟨h.live, h.leaseGeneration⟩

/-- The operation uses a virtual accelerator under the right lease, or does not succeed. -/
def UsesRightLease (im : Impl Disk) (clock : Clock) (op : Op) : Prop :=
  ∀ auth, op.uses = some auth → ∀ answer, ((im.answering answer).exec clock op).2 = .ok () →
    ∃ v lease, im.state.RightLease auth v lease

end Impl

/-- In every state of every run, reserving memory asks for the right lease, and counting kernels
does so if and only if the store takes no change sets, or something that it compares does not hold,
or what it does not compare fits. -/
theorem usesRightLease_iff {options : RuntimeOptions} {stored : Bool} {events : List Event}
    {im : Impl Disk} (h : (Impl.initial options stored).run events = some im) (clock : Clock)
    (op : Op) : im.UsesRightLease clock op ↔
      ∀ auth count, op = .accountKernel auth count →
        im.working = false ∨ (∀ v t lease, ¬ im.state.Compares auth v t lease) ∨
          im.state.leaseFits auth = true := by
  have hs : im.state.Consistent := (Impl.consistent_of_run h).state.holds
  have hk : ∀ answer, (im.answering answer).state.WellKeyed := fun answer =>
    ((Impl.coherent_of_run h).answering answer).state.wellKeyed
  constructor
  · rintro huses auth count rfl
    by_contra hno
    simp only [not_or, Bool.not_eq_false, not_forall, not_not] at hno
    obtain ⟨hworking, ⟨v, t, lease, hcompares⟩, hfits⟩ := hno
    simp only [Impl.working, Bool.and_eq_true, Bool.not_eq_true'] at hworking
    have hadmits : (im.answering (.ok ())).admits (.accountKernel auth count) = true :=
      Impl.accountKernelCheck_isOk.mpr ⟨hworking.1, v, t, lease, hcompares⟩
    obtain ⟨v, lease, hright⟩ := huses auth rfl (.ok ())
      ((Impl.exec_eq_ok_iff_admits rfl (hk (.ok ()))).mpr ⟨hadmits, hworking.2⟩)
    exact hfits hright.leaseFits
  · intro hcond auth hop answer hok
    cases op <;> simp only [Op.uses, reduceCtorEq, Option.some.injEq] at hop <;> subst hop
    -- the reservation compares tenant and virtual accelerator itself
    case reserveAllocation auth bytes =>
      obtain ⟨hadmits, -⟩ := (Impl.exec_eq_ok_iff_admits rfl (hk answer)).mp hok
      obtain ⟨⟨owned, lease⟩, hcheck⟩ := isOk_iff.mp hadmits
      exact ⟨_, lease, Impl.rightLease_of_reserveAllocationCheck (hk answer) hcheck⟩
    -- the accounting of kernels looks at the state and the generation of the lease alone
    case accountKernel auth count =>
      obtain ⟨hadmits, hwritable⟩ := (Impl.exec_eq_ok_iff_admits rfl (hk answer)).mp hok
      obtain ⟨hstore, v, t, lease, hcompares⟩ := Impl.accountKernelCheck_isOk.mp hadmits
      obtain hworking | hrefused | hfits := hcond _ _ rfl
      · rw [Impl.working, Impl.takes_of_writable hwritable, Bool.and_true,
          Bool.not_eq_false'] at hworking
        exact absurd (hworking.symm.trans hstore) (by decide)
      · exact absurd hcompares (hrefused v t lease)
      · exact ⟨v, lease, hs.rightLease (hk answer) hcompares hfits⟩

namespace Sample

/-- A second tenant has a virtual accelerator 33, which nobody has attached. -/
def lodged : List Event :=
  leased ++ [call (.createTenant anyone (txt "other") []),
    call (.createVirtual anyone (txt "w") 30 1 contract)]

/-- The second tenant presents the lease of the first. -/
def lodger : Authority :=
  { anyone with
    tenant := some 30, tenantGeneration := some 1
    virtualId := some 33, virtualGeneration := some 1
    lease := some 27 }

end Sample

/-- Under the lease of the virtual accelerator named, and with its generation, kernels are rightly
counted. -/
theorem usesRightLease_tenure : ∃ im, (Impl.initial {} true).run Sample.leased = some im ∧
    ((im.answering (.ok ())).exec Sample.clock (.accountKernel Sample.tenure 1)).2.isOk = true ∧
    im.UsesRightLease Sample.clock (.accountKernel Sample.tenure 1) := by
  have hrun : (((Impl.initial {} true).run Sample.leased).any fun im =>
      ((im.answering (.ok ())).exec Sample.clock (.accountKernel Sample.tenure 1)).2.isOk &&
        im.state.leaseFits Sample.tenure) = true := by
    decide +kernel
  obtain ⟨im, him, hgood⟩ := (Option.any_eq_true _ _).mp hrun
  rw [Bool.and_eq_true] at hgood
  refine ⟨im, him, hgood.1, (usesRightLease_iff him _ _).mpr fun auth count hop => ?_⟩
  obtain ⟨rfl, rfl⟩ := Op.accountKernel.inj hop
  exact .inr (.inr hgood.2)

/-- Kernels are counted for a virtual accelerator that is not attached, under the live lease of
another virtual accelerator of another tenant. -/
theorem not_usesRightLease_lodger : ∃ im, (Impl.initial {} true).run Sample.lodged = some im ∧
    (∃ lease, im.state.leases[27]? = some lease ∧ lease.virtualId = 14 ∧ lease.tenant = 11) ∧
    (∃ v, im.state.virtuals[33]? = some v ∧ v.state = .provisioned ∧ v.owner = 30) ∧
    ((im.answering (.ok ())).exec Sample.clock (.accountKernel Sample.lodger 1)).2.isOk = true ∧
    ¬ im.UsesRightLease Sample.clock (.accountKernel Sample.lodger 1) := by
  have hrun : (((Impl.initial {} true).run Sample.lodged).any fun im =>
      (im.state.leases[27]?.any fun lease =>
        decide (lease.virtualId = 14) && decide (lease.tenant = 11)) &&
      (im.state.virtuals[33]?.any fun v =>
        decide (v.state = .provisioned) && decide (v.owner = 30)) &&
      ((im.answering (.ok ())).exec Sample.clock (.accountKernel Sample.lodger 1)).2.isOk) =
        true := by
    decide +kernel
  obtain ⟨im, him, hbad⟩ := (Option.any_eq_true _ _).mp hrun
  simp only [Bool.and_eq_true] at hbad
  obtain ⟨⟨hlease, hvirtual⟩, hok⟩ := hbad
  obtain ⟨lease, hl, hlease⟩ := (Option.any_eq_true _ _).mp hlease
  obtain ⟨v, hv, hvirtual⟩ := (Option.any_eq_true _ _).mp hvirtual
  simp only [Bool.and_eq_true, decide_eq_true_eq] at hlease hvirtual
  refine ⟨im, him, ⟨lease, hl, hlease⟩, ⟨v, hv, hvirtual⟩, hok, fun huses => ?_⟩
  obtain ⟨_, hok⟩ := isOk_iff.mp hok
  obtain ⟨_, _, hright⟩ := huses Sample.lodger rfl (.ok ()) hok
  exact absurd hright.generation nofun

end AcceleratorVirtualization
