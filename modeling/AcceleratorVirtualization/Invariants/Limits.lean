import AcceleratorVirtualization.Invariants.Acceptance
import AcceleratorVirtualization.Invariants.Census

/-!
# The limits of the policy

The checks of the operations that make a tenant, a virtual accelerator, a lease or a migration look
at the limit of the policy; those of the operations that make an assignment or evidence do not. A
run stays within all limits as long as the latter find room and no policy lowers a limit.
-/

namespace AcceleratorVirtualization

open VirtualizationState Refusal Custody

namespace Impl

variable {σ : Type} {im im' : Impl σ}

/-! ### Every operation -/

/-- Whether the policy leaves room for the assignment or the evidence that an operation makes.
No check of the operation asks this. -/
def leavesRoom (im : Impl σ) : Op → Bool
  | .registerPhysical auth agent boot d => !(registerPhysicalCheck auth agent boot d im).isOk ||
      im.state.evidence.size < im.state.policy.maxEvidenceRecords
  | .assignBacking auth backing _ => !(assignBackingCheck auth backing false im).isOk ||
      im.state.assignments.size < im.state.policy.maxAssignments
  | .replaceBacking auth backing _ => !(assignBackingCheck auth backing true im).isOk ||
      im.state.assignments.size < im.state.policy.maxAssignments
  | .prepareMigration auth => !(prepareMigrationCheck auth im).isOk ||
      im.state.assignments.size < im.state.policy.maxAssignments
  | _ => true

/-- Whether an operation lowers no limit of the policy. -/
def keepsLimits (im : Impl σ) : Op → Bool
  | .setPolicy auth policy => !(setPolicyCheck auth policy im).isOk ||
      RecordKind.all.all fun k => im.state.policy.limit k ≤ policy.limit k
  | _ => true

theorem room_of_leavesRoom {α : Type} {check : Except Status α} {n limit : ℕ} {plan : α}
    (h : (!check.isOk || decide (n < limit)) = true) (hcheck : check = .ok plan) : n < limit := by
  subst hcheck
  simpa [Except.isOk, Except.toBool] using h

theorem createTenantCheck_room {auth : Authority} {name externalSubject : Text}
    (h : createTenantCheck auth name externalSubject im = .ok ()) :
    im.state.tenants.size < im.state.policy.maxTenants := by
  simp only [createTenantCheck, bind_eq_ok, guard_bind_eq_ok, guard_eq_ok] at h
  obtain ⟨-, -, -, -, -, -, -, -, -, -, -, hroom, -⟩ := h
  omega

theorem createVirtualCheck_room {auth : Authority} {name : Text} {owner : TenantId}
    {ownerGeneration : Generation} {contract : ResourceContract} {tenant : TenantRecord}
    (h : createVirtualCheck auth name owner ownerGeneration contract im = .ok tenant) :
    im.state.virtuals.size < im.state.policy.maxVirtualAccelerators := by
  simp only [createVirtualCheck, bind_eq_ok] at h
  obtain ⟨_, -, _, -, h⟩ := h
  split at h
  · simp [throw_ne_ok] at h
  · simp only [guard_bind_eq_ok, bind_eq_ok, pure_eq_ok] at h
    obtain ⟨-, -, -, -, _, -, hroom, -⟩ := h
    omega

theorem attachCheck_room {auth : Authority} {owned : Owned} (h : attachCheck auth im = .ok owned) :
    im.state.leases.size < im.state.policy.maxLeases := by
  simp only [attachCheck, bind_eq_ok] at h
  obtain ⟨_, -, _, -, _, -, _, -, _, hattach, -⟩ := h
  simp only [checkAttachable, guard_bind_eq_ok] at hattach
  obtain ⟨-, -, -, h⟩ := hattach
  split at h
  · simp [throw, throwThe, MonadExceptOf.throw, bind, Except.bind] at h
  · simp only [guard_bind_eq_ok, guard_eq_ok] at h
    obtain ⟨-, -, hroom, -⟩ := h
    omega

theorem planMigrationCheck_room {auth : Authority} {destination : BackingId}
    {klass : MigrationClass} {plan : Owned × BackingRecord}
    (h : planMigrationCheck auth destination klass im = .ok plan) :
    im.state.migrations.size < im.state.policy.maxMigrations := by
  simp only [planMigrationCheck, bind_eq_ok] at h
  obtain ⟨_, -, _, -, _, -, _, -, _, -, _, -, h⟩ := h
  split at h
  · simp [throw_ne_ok] at h
  · simp only [guard_bind_eq_ok, bind_eq_ok, pure_eq_ok] at h
    obtain ⟨_, -, hroom, -⟩ := h
    omega

/-- A record that is made finds room, by the checks of the operation that makes it or otherwise. -/
theorem room_of_makes {op : Op} {k : RecordKind} (hk : op.made = some k) (hm : im.makes op = true)
    (hroom : k = .assignment ∨ k = .evidence → im.leavesRoom op = true) :
    im.census.count k < im.census.limit k := by
  cases op <;> cases hk
  case createTenant =>
    obtain ⟨_, ho⟩ := isOk_iff.mp hm
    exact createTenantCheck_room ho
  case createVirtual =>
    obtain ⟨_, ho⟩ := isOk_iff.mp hm
    exact createVirtualCheck_room ho
  case attach =>
    obtain ⟨_, ho⟩ := isOk_iff.mp hm
    exact attachCheck_room ho
  case planMigration =>
    obtain ⟨_, ho⟩ := isOk_iff.mp hm
    exact planMigrationCheck_room ho
  case registerPhysical | assignBacking | replaceBacking | prepareMigration =>
    obtain ⟨_, ho⟩ := isOk_iff.mp hm
    exact room_of_leavesRoom (hroom (by decide)) ho

/-- The body of an operation keeps the limits if it lowers none and, should these include the one of
the assignments or of the evidence, finds room. -/
theorem within_body {K : Set RecordKind} {clock : Clock} {op : Op} {b : Body σ Unit}
    (hb : body clock op = some b) (hw : im.state.WellKeyed) (h : im.census.Within K)
    (hroom : .assignment ∈ K ∨ .evidence ∈ K → im.leavesRoom op = true)
    (hkeeps : im.keepsLimits op = true) : (b im.beginOp).1.census.Within K := by
  refine census_body hb hw h (fun auth policy updated hop ho => ?_) fun k c hk hm hg => ?_
  · subst hop
    obtain ⟨rfl, -⟩ := setPolicyCheck_ok ho
    simp only [keepsLimits, ho, Except.isOk, Except.toBool, Bool.not_true, Bool.false_or,
      List.all_eq_true, decide_eq_true_eq] at hkeeps
    exact ⟨fun k hk => (h.count k hk).trans (hkeeps k (by cases k <;> decide)), by rintro ⟨⟩⟩
  · refine h.grown hg fun hmem => room_of_makes hk hm fun hkind => hroom ?_
    obtain rfl | rfl := hkind
    · exact .inl hmem
    · exact .inr hmem

end Impl

/-! ### Runs -/

/-- The numbers of records are at most what the policy permits. -/
structure VirtualizationState.Bounded (s : VirtualizationState) : Prop where
  tenants : s.tenants.size ≤ s.policy.maxTenants
  virtuals : s.virtuals.size ≤ s.policy.maxVirtualAccelerators
  leases : s.leases.size ≤ s.policy.maxLeases
  assignments : s.assignments.size ≤ s.policy.maxAssignments
  migrations : s.migrations.size ≤ s.policy.maxMigrations
  evidence : s.evidence.size ≤ s.policy.maxEvidenceRecords

theorem VirtualizationState.bounded_of_within {s : VirtualizationState}
    (h : s.census.Within .univ) : s.Bounded :=
  ⟨h.count .tenant trivial, h.count .virtual trivial, h.count .lease trivial,
    h.count .assignment trivial, h.count .migration trivial, h.count .evidence trivial⟩

/-- Tenants that may own different things are as many. -/
theorem VirtualizationState.Alike.census {T : Prop} {s t : VirtualizationState} (h : s.Alike T t) :
    s.census = t.census := by
  have htenants : s.tenants.map (fun _ r => r.standing) = t.tenants.map fun _ r => r.standing := by
    refine Std.ExtTreeMap.ext_getElem? fun id => ?_
    rw [Std.ExtTreeMap.getElem?_map, Std.ExtTreeMap.getElem?_map]
    exact h.standing id
  refine census_congr (fun k => ?_) h.policy h.policyGeneration
  obtain rfl | hk := eq_or_ne k .tenant
  · have hsize := congrArg Std.ExtTreeMap.size htenants
    rwa [Std.ExtTreeMap.size_map, Std.ExtTreeMap.size_map] at hsize
  · rw [h.entities k hk]

/-- The limits of these kinds are kept. -/
def VirtualizationState.Limited (K : Set RecordKind) (s : VirtualizationState) : Prop :=
  s.census.Within K

theorem VirtualizationState.respects_limited {T : Prop} {K : Set RecordKind} :
    Respects T (Limited K) := by
  intro s t h hs
  exact Census.Within.of_eq hs h.census.symm

namespace Impl

variable {im im' : Impl Disk} {K : Set RecordKind}

/-- Whether an event finds room for the assignment or the evidence it makes, or is not written. -/
def roomy (im : Impl Disk) : Event → Bool
  | .op op _ answer => !(im.answering answer).writable ||
    (im.answering answer).leavesRoom ((im.answering answer).resolve op)
  | _ => true

/-- Whether an event lowers no limit of the policy, or is not written. -/
def unlowered (im : Impl Disk) : Event → Bool
  | .op op _ answer => !(im.answering answer).writable || (im.answering answer).keepsLimits op
  | _ => true

theorem keepsLimits_resolve {op : Op} : im.keepsLimits (im.resolve op) = im.keepsLimits op := by
  cases op <;> try rfl
  simp only [resolve]
  split
  · split <;> rfl
  · rfl

theorem invariant_limited {T : Prop} : Invariant T (Limited K) where
  respects := respects_limited
  empty := by
    refine ⟨fun k _ => ?_, fun _ => rfl⟩
    cases k <;> exact Nat.zero_le _
  classified now h := Census.Within.of_eq h.holds (census_classified _ now)
  shutdown clock h := Census.Within.of_eq h.holds (census_shutdownBody _ clock)

theorem keeps_limited (h : Kept False (Limited K) im) {event : Event}
    (hlimits : im.unlowered event = true)
    (hroom : .assignment ∈ K ∨ .evidence ∈ K → im.roomy event = true) :
    Keeps False (Limited K) im event where
  body op clock answer hevent b hb hwritable := by
    subst hevent
    have hsound := (h.answering answer).state
    exact within_body hb hsound.wellKeyed hsound.holds
      (fun hkinds => of_writable (hroom hkinds) hwritable)
        (keepsLimits_resolve.trans (of_writable hlimits hwritable))
  start clock _ _ recovered hs _ := within_startBody hs.holds clock recovered
  written := nofun

end Impl

/-- In every state of a run that lowers no limit, and in which every assignment and all evidence
find room, the limits of the policy are kept. -/
theorem bounded_of_run {options : RuntimeOptions} {stored : Bool} {events : List Event}
    {im : Impl Disk} (h : (Impl.initial options stored).run events = some im)
    (hlimits : (Impl.initial options stored).throughout Impl.unlowered events = true)
    (hroom : (Impl.initial options stored).throughout Impl.roomy events = true) :
    im.state.Bounded := by
  have hi : Impl.Invariant False (Limited .univ) := Impl.invariant_limited
  have hkept := (Impl.kept_initial hi options stored).run hi
    (c := fun im event => im.unlowered event && im.roomy event)
    (fun im event hk hc => by
      rw [Bool.and_eq_true] at hc
      exact Impl.keeps_limited hk hc.1 fun _ => hc.2) h (Impl.throughout_and hlimits hroom)
  exact bounded_of_within hkept.state.holds

/-- A tenant with two virtual accelerators, one of which is bound and plans to move. -/
theorem bounded_planned : ∃ im, (Impl.initial {} true).run Sample.planned = some im ∧
    im.state.Bounded ∧ im.state.virtuals.size = 2 := by
  have hrun : (((Impl.initial {} true).run Sample.planned).any fun im =>
      decide (im.state.virtuals.size = 2)) = true := by
    decide +kernel
  have hlimits : (Impl.initial {} true).throughout Impl.unlowered Sample.planned = true := by
    decide +kernel
  have hroom : (Impl.initial {} true).throughout Impl.roomy Sample.planned = true := by
    decide +kernel
  obtain ⟨im, him, hsize⟩ := (Option.any_eq_true _ _).mp hrun
  exact ⟨im, him, bounded_of_run him hlimits hroom, of_decide_eq_true hsize⟩

namespace Impl

/-! ### Evidence without end -/

variable {agent : AgentId} {boot : AgentBootId} {d : PhysicalDeviceDescriptor}
variable {auth : Authority} {im im' : Impl Disk}

/-- Without a store, an agent can register a device that is known and has no backings. -/
structure Reregisters (auth : Authority) (agent : AgentId) (boot : AgentBootId)
    (d : PhysicalDeviceDescriptor) (im : Impl Disk) : Prop where
  store : im.store = none
  wellKeyed : im.state.WellKeyed
  accepted : registerPhysicalCheck auth agent boot d im = .ok ()
  known : ∃ (key : PhysicalDeviceId) (r : PhysicalDeviceRecord),
    im.state.physical[key]? = some r ∧ r.stableKey = d.stableKey
  bare : ∀ (key : PhysicalDeviceId) r, im.state.physical[key]? = some r → r.backings = []

/-- What a registration of a known device without backings leaves alone. -/
structure Refreshed (im im' : Impl Disk) : Prop where
  store : im'.store = im.store
  failure : (im'.storeFailed, im'.storeFailure) = (im.storeFailed, im.storeFailure)
  agents : im'.agents = im.agents
  header : (im'.state.epoch, im'.state.policy) = (im.state.epoch, im.state.policy)
  size : im'.state.physical.size = im.state.physical.size
  device : ∀ key : PhysicalDeviceId,
    im'.state.physical[key]?.map (fun r => (r.stableKey, r.backings)) =
      im.state.physical[key]?.map fun r => (r.stableKey, r.backings)
  evidence : im'.state.evidence.size = im.state.evidence.size + 1

theorem commit_of_none (h : im.store = none) :
    im.commit = ({ im.extended with changes := {}, undo := {} }, .ok ()) := by
  have hstore : im.extended.persistChanges = (none, .ok ()) := by
    rw [persistChanges, show im.extended.store = none from h]
  obtain ⟨store, hp, hc⟩ | ⟨store, status, hp, -⟩ := commit_cases im
  · rw [hstore] at hp
    obtain ⟨rfl, -⟩ := Prod.mk.inj hp
    rw [hc]
    simp [extended, h]
  · rw [hstore] at hp
    cases hp

theorem registerPhysicalCheck_refreshed (h : Refreshed im im') (hr : auth.request = none) :
    registerPhysicalCheck auth agent boot d im' = registerPhysicalCheck auth agent boot d im := by
  obtain ⟨hfailed, hreason⟩ := Prod.mk.inj h.failure
  obtain ⟨hepoch, -⟩ := Prod.mk.inj h.header
  simp only [registerPhysicalCheck, guardStore, checkEpoch, checkRequest, hr, hfailed, hreason,
    h.agents, hepoch, h.size]

/-- The slot of a known device is found again. -/
theorem locateDevice_known {key : PhysicalDeviceId} {target : PhysicalDeviceRecord}
    (hfound : im.findDevice d.stableKey = some (key, target)) :
    ∃ (im1 : Impl Disk) (changed : Bool) (r : PhysicalDeviceRecord),
      im.locateDevice d = (im1, key, changed) ∧ im1.store = im.store ∧
      (im1.storeFailed, im1.storeFailure) = (im.storeFailed, im.storeFailure) ∧
        im1.agents = im.agents ∧
      (im1.state.epoch, im1.state.policy) = (im.state.epoch, im.state.policy) ∧
        im1.nextId = im.nextId ∧
      im1.state.evidence = im.state.evidence ∧
      im1.state.physical.size = im.state.physical.size ∧ im1.state.physical[key]? = some r ∧
      ∀ j : PhysicalDeviceId,
        im1.state.physical[j]?.map (fun r => (r.stableKey, r.backings)) =
          im.state.physical[j]?.map fun r => (r.stableKey, r.backings) := by
  have htarget : im.state.physical[key]? = some target :=
    Std.ExtTreeMap.mem_toList_iff_getElem?_eq_some.mp (List.mem_of_find?_eq_some hfound)
  simp only [locateDevice, hfound]
  cases samePhysicalIdentity target d
  · refine ⟨_, _, { target with generation := target.generation + 1 }, rfl, rfl, rfl, rfl, rfl,
      rfl, rfl, Std.ExtTreeMap.size_modify, ?_, map_modify_part fun _ => rfl⟩
    change (im.state.physical.modify key _)[key]? = _
    rw [Std.ExtTreeMap.getElem?_modify_self, htarget]
    rfl
  · exact ⟨_, _, target, rfl, rfl, rfl, rfl, rfl, rfl, rfl, rfl, htarget, fun _ => rfl⟩

theorem refreshed_describeDevice {key : PhysicalDeviceId} {target : PhysicalDeviceRecord}
    (hw : im.state.WellKeyed) (hfound : im.findDevice d.stableKey = some (key, target))
    (agent : AgentId) (boot : AgentBootId) (now : UnixMicros) :
    Refreshed im (im.describeDevice agent boot d now).1 ∧
      (im.describeDevice agent boot d now).2.1 = key := by
  have hfresh : im.nextId ∉ im.state.evidence := by
    rw [Std.ExtTreeMap.mem_iff_isSome_getElem?,
      show im.state.evidence[im.nextId]? = none from hw.fresh .evidence le_rfl]
    exact nofun
  obtain ⟨im1, changed, r, hlocate, hstore, hfailed, hagents, hheader, hid, hevidence, hsize, hr,
    hview⟩ := locateDevice_known hfound
  simp only [describeDevice, hlocate]
  generalize him2 : im1.takeId.modify .physical key _ = im2
  have hphysical : im2.state.physical =
      im1.state.physical.modify key fun r => r.describe agent boot d im1.nextId now := by
    rw [← him2]
    rfl
  have hdevice : (im2.state.physical[key]?.getD {}).evidence = im.nextId := by
    rw [hphysical, Std.ExtTreeMap.getElem?_modify_self, hr, ← hid]
    rfl
  have hsame : im2.store = im1.store ∧
    (im2.storeFailed, im2.storeFailure) = (im1.storeFailed, im1.storeFailure) ∧
      im2.agents = im1.agents ∧
        (im2.state.epoch, im2.state.policy) = (im1.state.epoch, im1.state.policy) ∧
      im2.state.evidence = im1.state.evidence := by
    rw [← him2]
    exact ⟨rfl, rfl, rfl, rfl, rfl⟩
  obtain ⟨hstore', hfailed', hagents', hheader', hevidence'⟩ := hsame
  refine ⟨⟨hstore'.trans hstore, hfailed'.trans hfailed, hagents'.trans hagents,
    hheader'.trans hheader, ?_, fun j => ?_, ?_⟩, trivial⟩
  · change im2.state.physical.size = _
    rw [hphysical, Std.ExtTreeMap.size_modify, hsize]
  · change im2.state.physical[j]?.map _ = _
    rw [hphysical, ← hview j]
    refine map_modify_part ?_ j
    exact fun _ => rfl
  · change (im2.state.evidence.insert _ _).size = _
    rw [Std.ExtTreeMap.size_insert, if_neg, hevidence', hevidence]
    rw [hevidence', hevidence, hdevice]
    exact hfresh

theorem Refreshed.reregisters (h : Refreshed im im') (hi : Reregisters auth agent boot d im)
    (hw : im'.state.WellKeyed) (hr : auth.request = none) : Reregisters auth agent boot d im' where
  store := h.store.trans hi.store
  wellKeyed := hw
  accepted := (registerPhysicalCheck_refreshed h hr).trans hi.accepted
  known := by
    obtain ⟨key, r, hk, hs⟩ := hi.known
    have hdevice := h.device key
    rw [hk] at hdevice
    obtain ⟨r', hk', heq⟩ := Option.map_eq_some_iff.mp hdevice
    exact ⟨key, r', hk', (Prod.mk.inj heq).1.trans hs⟩
  bare key r hk := by
    have hdevice := h.device key
    rw [hk] at hdevice
    obtain ⟨r', hk', heq⟩ := Option.map_eq_some_iff.mp hdevice.symm
    exact (Prod.mk.inj heq).2.symm.trans (hi.bare key r' hk')

/-- The act of a registration without backings is the description of the device. -/
theorem refreshed_registerPhysicalAct (hi : Reregisters auth agent boot d im)
    (hd : d.backings = []) (clock : Clock) :
    Refreshed im (registerPhysicalAct auth agent boot d clock () im).1 := by
  obtain ⟨key, r, hk, hs⟩ := hi.known
  have hsome : (im.findDevice d.stableKey).isSome := by
    rw [findDevice, List.find?_isSome]
    exact ⟨(key, r), Std.ExtTreeMap.mem_toList_iff_getElem?_eq_some.mpr hk, by simpa using hs⟩
  obtain ⟨⟨key', target⟩, hfound⟩ := Option.isSome_iff_exists.mp hsome
  obtain ⟨hrefreshed, hkey⟩ := refreshed_describeDevice hi.wellKeyed hfound agent boot
    clock.now
  simp only [registerPhysicalAct]
  generalize im.describeDevice agent boot d clock.now = described at hrefreshed hkey ⊢
  obtain ⟨im1, key1, changed⟩ := described
  have hbare : (im1.state.physical[key1]?.getD {}).backings = [] := by
    cases hk1 : im1.state.physical[key1]? with
    | none => rfl
    | some r1 =>
      have hdevice := hrefreshed.device key1
      rw [show im1.state.physical[key1]? = some r1 from hk1] at hdevice
      obtain ⟨r', hk', heq⟩ := Option.map_eq_some_iff.mp hdevice.symm
      exact (Prod.mk.inj heq).2.symm.trans (hi.bare key1 r' hk')
  have hsettle : im1.settleBackings key1 changed d clock.now = im1 := by
    simp only [settleBackings, hd, List.foldl_nil, hbare]
    split <;> rfl
  rw [hsettle]
  exact ⟨hrefreshed.store, hrefreshed.failure, hrefreshed.agents, hrefreshed.header,
    hrefreshed.size, hrefreshed.device, hrefreshed.evidence⟩

theorem registerPhysical_accepted (hi : Reregisters auth agent boot d im) (clock : Clock) :
    (im.exec clock (.registerPhysical auth agent boot d)).1 =
      (((registerPhysicalAct auth agent boot d clock () im.beginOp).1.settle clock
        (recorded (registerPhysicalAct auth agent boot d clock () im.beginOp).2).1
        (recorded (registerPhysicalAct auth agent boot d clock () im.beginOp).2).2.1
        (recorded
          (registerPhysicalAct auth agent boot d clock () im.beginOp).2).2.2).commit).1 := by
  have hbody : registerPhysicalBody auth agent boot d clock im.beginOp =
      registerPhysicalAct auth agent boot d clock () im.beginOp := by
    simp only [registerPhysicalBody, checked]
    rw [show registerPhysicalCheck auth agent boot d im.beginOp = .ok () from hi.accepted]
    rfl
  simp only [exec, forget, registerPhysical, operation_eq, hbody]

theorem refreshed_exec (hi : Reregisters auth agent boot d im) (hd : d.backings = [])
    (clock : Clock) :
    Refreshed im (im.exec clock (.registerPhysical auth agent boot d)).1 := by
  have hbegun : Reregisters auth agent boot d im.beginOp :=
    ⟨hi.store, hi.wellKeyed, hi.accepted, hi.known, hi.bare⟩
  have hact : Refreshed im (registerPhysicalAct auth agent boot d clock () im.beginOp).1 :=
    have h := refreshed_registerPhysicalAct hbegun hd clock
    ⟨h.store, h.failure, h.agents, h.header, h.size, h.device, h.evidence⟩
  rw [registerPhysical_accepted hi clock]
  generalize registerPhysicalAct auth agent boot d clock () im.beginOp = r at hact ⊢
  obtain ⟨im1, answer⟩ := r
  have hs := settles im1 clock (recorded answer).1 (recorded answer).2.1 (recorded answer).2.2
  have hframe : ∀ (context : OpContext) (status : Status) (kind : AuditKind),
      (im1.settle clock context status kind).agents = im1.agents ∧
        ((im1.settle clock context status kind).storeFailed,
          (im1.settle clock context status kind).storeFailure) =
          (im1.storeFailed, im1.storeFailure) := by
    intro context status kind
    unfold settle
    split <;> split <;> exact ⟨rfl, rfl⟩
  obtain ⟨hagents, hfailure⟩ := hframe (recorded answer).1 (recorded answer).2.1
    (recorded answer).2.2
  generalize im1.settle clock (recorded answer).1 (recorded answer).2.1 (recorded answer).2.2 = im2
    at hs hagents hfailure ⊢
  rw [commit_of_none (hs.store.trans (hact.store.trans hi.store))]
  have hphysical : im2.state.physical = im1.state.physical := congrFun hs.entities .physical
  have hevidence : im2.state.evidence = im1.state.evidence := congrFun hs.entities .evidence
  have hheader : (im2.state.epoch, im2.state.policy) = (im1.state.epoch, im1.state.policy) := by
    rw [hs.epoch, hs.policy]
  refine ⟨hs.store.trans hact.store, hfailure.trans hact.failure, hagents.trans hact.agents,
    hheader.trans hact.header, ?_, fun key => ?_, ?_⟩
  · exact (congrArg Std.ExtTreeMap.size hphysical).trans hact.size
  · change im2.state.physical[key]?.map _ = _
    rw [hphysical]
    exact hact.device key
  · exact (congrArg Std.ExtTreeMap.size hevidence).trans hact.evidence

/-- Registered again and again, a device leaves any amount of evidence. -/
theorem evidence_run (hk : Kept False (onLedger Ledger.Coherent) im)
    (hi : Reregisters auth agent boot d im) (hd : d.backings = []) (hr : auth.request = none)
    (clock : Clock) (n : ℕ) : ∃ im',
      im.run (.replicate n (.op (.registerPhysical auth agent boot d) clock (.ok ()))) = some im' ∧
      im'.state.evidence.size = im.state.evidence.size + n ∧
        im'.state.policy = im.state.policy := by
  induction n generalizing im with
  | zero => exact ⟨im, rfl, rfl, rfl⟩
  | succ n ih =>
    have hstep : im.step (.op (.registerPhysical auth agent boot d) clock (.ok ())) =
        some (im.exec clock (.registerPhysical auth agent boot d)).1 := by
      have hsame : im.answering (.ok ()) = im := by
        simp only [answering, hi.store, Option.map_none]
        rw [← hi.store]
      rw [step, hsame]
    have hrefreshed := refreshed_exec hi hd clock
    have hk' := coherent_run hk (show im.run [_] = some _ by rw [run, List.foldlM_cons, hstep]; rfl)
    obtain ⟨im', hrun, hsize, hpolicy⟩ :=
      ih hk' (hrefreshed.reregisters hi hk'.state.wellKeyed hr)
    refine ⟨im', ?_, ?_, hpolicy.trans (Prod.mk.inj hrefreshed.header).2⟩
    · rw [List.replicate_succ, run, List.foldlM_cons, hstep]
      exact hrun
    · rw [hsize, hrefreshed.evidence]
      omega

end Impl

namespace Sample

/-- A device without backings. -/
def bareDevice : PhysicalDeviceDescriptor := { device with backings := [] }

/-- An agent registers the device. -/
def equipped : List Event :=
  [.start clock, call (.registerAgent (txt "agent") [] 0 1),
    call (.registerPhysical anyone 1 4 bareDevice)]

/-- And registers it `n` times more. -/
def reregistered (n : ℕ) : List Event :=
  equipped ++ .replicate n (call (.registerPhysical anyone 1 4 bareDevice))

end Sample

/-- Every registration leaves evidence, and none asks whether there is room. -/
theorem evidence_reregistered (n : ℕ) : ∃ im,
    (Impl.initial {} false).run (Sample.reregistered n) = some im ∧
    (Impl.initial {} false).throughout Impl.unlowered (Sample.reregistered n) = true ∧
    im.state.evidence.size = n + 1 ∧ im.state.policy.maxEvidenceRecords = 65536 := by
  have hrun : ((Impl.initial {} false).run Sample.equipped).any (fun im =>
      im.store.isNone &&
        ((Impl.registerPhysicalCheck Sample.anyone 1 4 Sample.bareDevice im).isOk &&
        ((im.state.physical.toList.any fun e => e.2.stableKey = Sample.bareDevice.stableKey) &&
          ((im.state.physical.toList.all fun e => e.2.backings = []) &&
            decide (im.state.evidence.size = 1 ∧
              im.state.policy.maxEvidenceRecords = 65536))))) = true := by
    decide +kernel
  obtain ⟨im, him, hgood⟩ := (Option.any_eq_true _ _).mp hrun
  simp only [Bool.and_eq_true, Option.isNone_iff_eq_none, List.any_eq_true, List.all_eq_true,
    decide_eq_true_eq, isOk_iff] at hgood
  obtain ⟨hstore, ⟨_, haccepted⟩, ⟨entry, hentry, hkey⟩, hbare, hone, hlimit⟩ := hgood
  have hkept := Impl.coherent_of_run him
  have hi : Impl.Reregisters Sample.anyone 1 4 Sample.bareDevice im := by
    refine ⟨hstore, hkept.state.wellKeyed, haccepted, ⟨entry.1, entry.2, ?_, hkey⟩, ?_⟩
    · exact Std.ExtTreeMap.mem_toList_iff_getElem?_eq_some.mp hentry
    · intro key r hr
      exact hbare (key, r) (Std.ExtTreeMap.mem_toList_iff_getElem?_eq_some.mpr hr)
  obtain ⟨im', hrun', hsize, hpolicy⟩ :=
    Impl.evidence_run hkept hi rfl rfl Sample.clock n
  refine ⟨im', ?_, Impl.throughout_of_forall (fun event hevent im => ?_) _, ?_, ?_⟩
  · rw [Sample.reregistered, Impl.run, List.foldlM_append]
    rw [Impl.run] at him
    rw [him]
    exact hrun'
  · rw [Sample.reregistered, List.mem_append, List.mem_replicate] at hevent
    obtain hevent | ⟨-, rfl⟩ := hevent
    · simp only [Sample.equipped, List.mem_cons, List.not_mem_nil, or_false] at hevent
      obtain rfl | rfl | rfl := hevent
      · rfl
      all_goals exact Bool.or_true _
    · exact Bool.or_true _
  · rw [hsize, hone]
    omega
  · rw [hpolicy, hlimit]

/-- The default policy permits 65536 records of evidence. -/
theorem not_bounded_reregistered : ∃ im,
    (Impl.initial {} false).run (Sample.reregistered 65536) = some im ∧
    (Impl.initial {} false).throughout Impl.unlowered (Sample.reregistered 65536) = true ∧
    ¬ im.state.Bounded := by
  obtain ⟨im, hrun, hlimits, hsize, hpolicy⟩ := evidence_reregistered 65536
  refine ⟨im, hrun, hlimits, fun hbounded => ?_⟩
  have hevidence := hbounded.evidence
  omega

end AcceleratorVirtualization
