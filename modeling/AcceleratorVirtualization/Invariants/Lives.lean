import AcceleratorVirtualization.Invariants.Accepted
import AcceleratorVirtualization.Invariants.BookResets
import AcceleratorVirtualization.Invariants.Evolution
import AcceleratorVirtualization.Invariants.Operations

/-!
# The life of a virtual accelerator under every operation

Every body is a run of steps of the book, and every virtual accelerator evolves along the course of
the operation. Three things do not hold of every operation, and each has its condition: leases
stay bound to the generations (`tight`, where the operation is `steady`), the counts stay in balance
(`fair`, where it is `evenHanded`), and a fenced virtual accelerator stays sealed (`sealed`, where
it is `sealing`).
-/

namespace AcceleratorVirtualization

open Leasing VirtualizationState

namespace Impl

variable {σ : Type} {im : Impl σ}

/-! ### Conditions -/

/-- The virtual accelerator whose authoritative assignment a backing records. -/
def recordedHolder (im : Impl σ) (id : BackingId) : Option VirtualAcceleratorRecord :=
  match im.state.backings[id]? with
  | none => none
  | some backing =>
    match im.state.assignments[backing.activeAssignment]? with
    | none => none
    | some a => if a.authoritative then im.state.virtuals[a.virtualId]? else none

/-- The virtual accelerators that a registration sends to recovery, because another device is
described under the key of a known one. -/
def uprooted (im : Impl σ) (d : PhysicalDeviceDescriptor) : List VirtualAcceleratorRecord :=
  match im.findDevice d.stableKey with
  | none => []
  | some (_, device) =>
    if samePhysicalIdentity device d then [] else device.backings.filterMap im.recordedHolder

theorem mem_uprooted {d : PhysicalDeviceDescriptor} {key : PhysicalDeviceId}
    {device : PhysicalDeviceRecord} (hf : im.findDevice d.stableKey = some (key, device))
    (hd : samePhysicalIdentity device d = false) {id : BackingId} (hid : id ∈ device.backings)
    {x : VirtualAcceleratorId} {v : VirtualAcceleratorRecord} (hr : im.Records id x)
    (hv : im.state.virtuals[x]? = some v) : v ∈ im.uprooted d := by
  obtain ⟨b, a, hb, ha, hauth, rfl⟩ := hr
  simp only [uprooted, hf, hd, Bool.false_eq_true, if_false, List.mem_filterMap]
  exact ⟨id, hid, by simp only [recordedHolder, hb, ha, hauth, if_true, hv]⟩

/-- No operation changes the generations under a lease in use: no registration of another device
under the key of one whose recorded holders are in use, and no new contract for a virtual
accelerator in use. -/
def steady (im : Impl σ) : Op → Bool
  | .registerPhysical auth agent boot d =>
    !(registerPhysicalCheck auth agent boot d im).isOk ||
      (im.uprooted d).all fun v => !lifecycleAllowsLeases v.state
  | .updateContract auth contract =>
    match updateContractCheck auth contract im with
    | .error _ => true
    | .ok owned =>
      !(im.probeContract owned.record (contract.normalize im.options.sorting)).2.isOk ||
      !lifecycleAllowsLeases owned.record.state
  | _ => true

/-- No operation takes more off an account than it ends: the tenant that gives a virtual
accelerator away uses no other. -/
def evenHanded (im : Impl σ) : Op → Bool
  | .transferOwnership auth newOwner newGeneration =>
    match transferOwnershipCheck auth newOwner newGeneration im with
    | .error _ => true
    | .ok t => im.state.virtuals.toList.all fun (id, v) =>
      decide (v.owner = t.tenantId → id ≠ t.virtualId → v.activeAttachments = 0)
  | _ => true

/-- Whether a policy, when its turn comes in the revalidation, takes the backing of a virtual
accelerator away. -/
def withdrawsFrom (im : Impl σ) (policy : VirtualizationPolicy) (now : UnixMicros)
    (id : VirtualAcceleratorId) : Bool :=
  let before := ((im.superseded policy now).state.virtuals.keys.takeWhile (· ≠ id)).foldl
    (revalidateVirtual (im.nextPolicy policy) now) (im.superseded policy now)
  match before.state.virtuals[id]? with
  | none => false
  | some v =>
    !backingSatisfies before.options.sorting ((before.touchVirtual v.id).modify .virtual id
      (detachForPolicy (im.nextPolicy policy) now)).state (im.nextPolicy policy)
      (detachForPolicy (im.nextPolicy policy) now v)

/-- No operation touches what is fenced: no registration of another device under the key of one
whose recorded holder is fenced, no policy that takes the backing of a fenced virtual accelerator
away, and no transfer of one. -/
def sealing (im : Impl σ) (now : UnixMicros) : Op → Bool
  | .registerPhysical auth agent boot d =>
    !(registerPhysicalCheck auth agent boot d im).isOk ||
      (im.uprooted d).all fun v => v.state ≠ .fenced
  | .setPolicy auth policy =>
    match setPolicyCheck auth policy im with
    | .error _ => true
    | .ok updated => im.state.virtuals.toList.all fun (id, v) =>
      decide (v.state = .fenced → im.beginOp.withdrawsFrom updated now id = false)
  | .transferOwnership auth newOwner newGeneration =>
    match transferOwnershipCheck auth newOwner newGeneration im with
    | .error _ => true
    | .ok t => t.record.state ≠ .fenced
  | _ => true

/-! ### Courses of the phases -/

variable {D : VirtualLifecycleState → VirtualLifecycleState → Prop} {grants sealed : Prop}
variable {q q' : Seat ℕ ℕ Phase}

/-- The legal steps out of the fence are to recovery and to retirement, and a retired virtual
accelerator has none. -/
theorem not_fenced_of_legal {s target : VirtualLifecycleState}
    (hl : isLegalTransition s target = true) (ht : target ≠ .retired)
    (hr : target ≠ .recoveryRequired) : s ≠ .retired ∧ s ≠ .fenced := by
  revert hl ht hr
  cases s <;> cases target <;> decide

/-- A legal life-cycle step to a phase that is not in use. -/
theorem evolves_legal {target : VirtualLifecycleState} (hs : q'.phase.state = target)
    (hl : isLegalTransition q.phase.state target = true)
    (hg : q.phase.generation < q'.phase.generation) (ht : target ≠ .retired)
    (ho : lifecycleAllowsLeases target = false) (hr : target ≠ .recoveryRequired) :
    Evolves (towards target) grants sealed q q' := by
  obtain ⟨hretired, hfenced⟩ := not_fenced_of_legal hl ht hr
  subst hs
  exact .of_step (.inr ⟨rfl, hl⟩) hg hretired ho (fun h => absurd h ht) fun _ h => absurd h hfenced

/-- A legal life-cycle step between phases that are in use. -/
theorem evolves_carried {target : VirtualLifecycleState}
    (hl : isLegalTransition q.phase.state target = true)
    (hq : lifecycleAllowsLeases q.phase.state = true) (ht : target ≠ .retired)
    (hr : target ≠ .recoveryRequired) :
    Evolves (towards target) grants sealed q (moved q target) := by
  obtain ⟨hretired, hfenced⟩ := not_fenced_of_legal hl ht hr
  exact ⟨.inr ⟨rfl, hl⟩, Nat.le_succ _, fun _ => Nat.lt_succ_self _, fun h => absurd h hretired,
    fun h => absurd h ht, fun _ _ => ⟨hq, rfl⟩, fun _ h => absurd h hfenced⟩

/-- Nothing changes but the counts. -/
theorem evolves_active (hD : ∀ s, D s s) (n : ℕ) :
    Evolves D grants sealed q { q with active := n } :=
  .of_state hD rfl (Nat.le_refl _) rfl fun _ _ => ⟨rfl, rfl, rfl⟩

/-- A new binding. -/
theorem evolves_rebound {a : BackingAssignmentId} {b : BackingId} {g : Generation} {n : ℕ}
    (hl : q.phase.state = .provisioned ∨ isLegalTransition q.phase.state .provisioned = true) :
    Evolves (towards .provisioned) grants sealed q
      ⟨q.owner, (rebound q a b g).phase, n, q.leases⟩ := by
  have hq : q.phase.state ≠ .retired ∧ q.phase.state ≠ .fenced := by
    obtain h | h := hl
    · rw [h]
      decide
    · exact not_fenced_of_legal h nofun nofun
  refine .of_step ?_ (Nat.lt_succ_self _) hq.1 rfl nofun fun _ h => absurd h hq.2
  obtain h | h := hl
  · exact .inl h.symm
  · exact .inr ⟨rfl, h⟩

/-- What is in use can be interrupted in any way. -/
theorem isLegalTransition_of_allowsLeases {s target : VirtualLifecycleState}
    (hs : lifecycleAllowsLeases s = true)
    (ht : target = .provisioned ∨ target = .fenced ∨ target = .recoveryRequired) :
    isLegalTransition s target = true := by
  revert hs ht
  cases s <;> cases target <;> decide

/-- The owner of a virtual accelerator is fenced. -/
theorem evolves_evicted {generation : Generation} {n : ℕ} :
    Evolves (towards .fenced) grants sealed q
      ⟨q.owner, evicted q.phase generation, n, q.leases⟩ := by
  by_cases hs : lifecycleRequiresBacking q.phase.state = true
  · simp only [evicted, hs, if_true]
    exact evolves_legal rfl (isLegalTransition_of_allowsLeases hs (.inr (.inl rfl)))
      (Nat.lt_succ_self _) nofun rfl nofun
  · simp only [evicted, hs]
    exact .of_state (towards_refl _) rfl (Nat.le_refl _) rfl fun _ _ => ⟨rfl, rfl, rfl⟩

/-- A virtual accelerator changes hands. -/
theorem evolves_handedOver {t : TenantId} {generation : Generation} {n : ℕ}
    (hf : sealed → q.phase.state ≠ .fenced) :
    Evolves (towards .provisioned) grants sealed q
      ⟨t, handedOver q.phase generation, n, q.leases⟩ := by
  by_cases hs : lifecycleRequiresBacking q.phase.state = true
  · simp only [handedOver, hs, if_true]
    exact evolves_legal rfl (isLegalTransition_of_allowsLeases hs (.inl rfl)) (Nat.lt_succ_self _)
      (by rintro ⟨⟩) rfl (by rintro ⟨⟩)
  · simp only [handedOver, hs]
    exact .of_state (towards_refl _) rfl (Nat.le_succ _) rfl fun h hc => absurd hc (hf h)

/-- The device of a virtual accelerator is lost. -/
theorem evolves_interrupted {n : ℕ} :
    Evolves (towards .recoveryRequired) grants sealed q
      ⟨q.owner, interrupted q.phase, n, q.leases⟩ := by
  by_cases hs : lifecycleRequiresBacking q.phase.state = true
  · have hlegal := isLegalTransition_of_allowsLeases hs (.inr (.inr rfl))
    simp only [interrupted, hs, if_true]
    refine .of_step (.inr ⟨rfl, hlegal⟩) (Nat.lt_succ_self _) (fun hc => ?_) rfl (by rintro ⟨⟩)
      fun _ hc => ?_ <;> simp [hc, lifecycleRequiresBacking] at hs
  · simp only [interrupted, hs]
    exact .of_state (towards_refl _) rfl (Nat.le_refl _) rfl fun _ _ => ⟨rfl, rfl, rfl⟩

/-- A virtual accelerator is sent to recovery. -/
theorem evolves_recovery (hq : q.phase.state ≠ .retired) (hf : sealed → q.phase.state ≠ .fenced) :
    Evolves (towards .recoveryRequired) grants sealed q (moved q .recoveryRequired) := by
  refine .of_step ?_ (Nat.lt_succ_self _) hq rfl nofun fun h hc => absurd hc (hf h)
  by_cases hr : q.phase.state = .recoveryRequired
  · exact .inl hr.symm
  · exact .inr ⟨rfl, isLegalTransition_recoveryRequired hq hr⟩

/-- What is in use is released. -/
theorem evolves_parked (hD : ∀ s, D s s)
    (hd : ∀ s, lifecycleAllowsLeases s = true → D s .provisioned) :
    Evolves D grants sealed q (parked q) := by
  by_cases hs : lifecycleRequiresBacking q.phase.state = true
  · have hparked : (parked q).phase = { q.phase with
        state := .provisioned, generation := q.phase.generation + 1 } := by
      simp only [parked, hs, if_true]
    refine .of_step ?_ ?_ (fun hc => ?_) ?_ ?_ fun _ hc => ?_
    · rw [hparked]
      exact hd _ hs
    · rw [hparked]
      exact Nat.lt_succ_self _
    · simp [hc, lifecycleRequiresBacking] at hs
    · rw [hparked]
      rfl
    · rw [hparked]
      rintro ⟨⟩
    · simp [hc, lifecycleRequiresBacking] at hs
  · have hparked : parked q = { q with active := 0 } := by
      simp only [parked, hs]
      rfl
    rw [hparked]
    exact evolves_active hD 0

/-- A policy takes the binding away from what it released. -/
theorem evolves_unbacked (hq : q.phase.state ≠ .retired) (hf : sealed → q.phase.state ≠ .fenced) :
    Evolves revalidates grants sealed q (unbacked (parked q)) := by
  refine .of_step (.inr (.inr ⟨hq, rfl⟩)) ?_ hq rfl nofun fun h hc => absurd hc (hf h)
  unfold unbacked parked
  split
  · exact Nat.lt_succ_of_lt (Nat.lt_succ_self _)
  · exact Nat.lt_succ_self _

/-! ### Every body -/

/-- A virtual accelerator as it is created. -/
def Fresh (q : Seat ℕ ℕ Phase) : Prop :=
  q.phase.state = .provisioned ∧ q.phase.binding = (0, 0)

theorem takeWhile_of_nodup {α : Type} [DecidableEq α] {l l₁ l₂ : List α} {x : α} (h : l.Nodup)
    (hl : l = l₁ ++ x :: l₂) : l.takeWhile (· ≠ x) = l₁ := by
  have hx : ∀ y ∈ l₁, y ≠ x := by
    rintro y hy rfl
    rw [hl, List.nodup_append] at h
    exact h.2.2 y hy y List.mem_cons_self rfl
  rw [hl, List.takeWhile_append_of_pos fun y hy => by simpa using hx y hy]
  simp

/-- A policy that leaves the fenced alone. -/
theorem not_fenced_of_withdraws {auth : Authority} {policy updated : VirtualizationPolicy}
    {now : UnixMicros} (hs : im.sealing now (.setPolicy auth policy) = true)
    (hcheck : setPolicyCheck auth policy im = .ok updated) {x : VirtualAcceleratorId}
    {l₁ l₂ : List VirtualAcceleratorId} (hq : im.book.seat x = some q)
    (hkeys : (im.beginOp.superseded updated now).state.virtuals.keys = l₁ ++ x :: l₂)
    (hw : withdraws (im.beginOp.nextPolicy updated) now (l₁.foldl (revalidateVirtual
      (im.beginOp.nextPolicy updated) now) (im.beginOp.superseded updated now)) x) :
    q.phase.state ≠ .fenced := by
  obtain ⟨v, hv, rfl⟩ := virtual_of_seat hq
  intro hc
  simp only [sealing, hcheck, List.all_eq_true, decide_eq_true_eq] at hs
  have hno := hs (x, v) (Std.ExtTreeMap.mem_toList_iff_getElem?_eq_some.mpr hv) hc
  obtain ⟨v1, hv1, hsat⟩ := hw
  simp only [withdrawsFrom, takeWhile_of_nodup Std.ExtTreeMap.nodup_keys hkeys, hv1, hsat] at hno
  cases hno

/-- What an operation does to the virtual accelerators. -/
abbrev Lives (op : Op) (sealed tight fair : Prop) (im im' : Impl σ) : Prop :=
  Turns (Evolves op.course op.grants sealed) Fresh tight fair im im'

variable {tight fair : Prop} {clock : Clock} {op : Op} {b : Body σ Unit}

theorem lives_registerPhysical {auth : Authority} {agent : AgentId} {boot : AgentBootId}
    {d : PhysicalDeviceDescriptor} (hw : im.state.WellKeyed)
    (hok : registerPhysicalCheck auth agent boot d im = .ok ())
    (htight : tight → im.steady (.registerPhysical auth agent boot d) = true)
    (hsealed : sealed → im.sealing clock.now (.registerPhysical auth agent boot d) = true) :
    Lives (.registerPhysical auth agent boot d) sealed tight fair im
      (registerPhysicalAct auth agent boot d clock () im.beginOp).1 := by
  refine turns_registerPhysicalAct (Tracks.beginOp hw)
    (P := fun s => (tight → lifecycleAllowsLeases s = false) ∧ (sealed → s ≠ .fenced))
    ⟨fun _ => rfl, fun _ => nofun⟩ (fun key device hf hd id hid x v hr hv => ?_)
    (fun ht s hs => hs.1 ht) fun q hq hs => evolves_recovery hq hs.2
  have hmem := mem_uprooted hf hd hid hr hv
  constructor
  · intro ht
    have hsteady := htight ht
    simp only [steady, hok, Except.isOk, Except.toBool, Bool.not_true, Bool.false_or,
      List.all_eq_true] at hsteady
    simpa using hsteady v hmem
  · intro hs
    have hsealing := hsealed hs
    simp only [sealing, hok, Except.isOk, Except.toBool, Bool.not_true, Bool.false_or,
      List.all_eq_true] at hsealing
    simpa using hsealing v hmem

theorem lives_setPolicy {auth : Authority} {policy updated : VirtualizationPolicy}
    (hl : im.book.Leased leaseRules) (hok : setPolicyCheck auth policy im = .ok updated)
    (hsealed : sealed → im.sealing clock.now (.setPolicy auth policy) = true) :
    Lives (.setPolicy auth policy) sealed tight fair im
      (setPolicyAct auth clock updated im.beginOp).1 :=
  turns_setPolicyAct (i := im.beginOp) hl (fun _ => .refl (fun _ => .inl rfl) _)
    (fun _ _ => evolves_parked (fun _ => .inl rfl) fun _ hs => .inr (.inl ⟨hs, rfl⟩))
    fun _ _ _ _ hq hr hkeys hwith => evolves_unbacked hr fun hs =>
      not_fenced_of_withdraws (hsealed hs) hok hq hkeys hwith

theorem lives_transferOwnership {auth : Authority} {newOwner : TenantId}
    {newGeneration : Generation} {t : Transfer} (hl : im.book.Leased leaseRules)
    (hok : transferOwnershipCheck auth newOwner newGeneration im = .ok t)
    (hfair : fair → im.evenHanded (.transferOwnership auth newOwner newGeneration) = true)
    (hsealed : sealed →
      im.sealing clock.now (.transferOwnership auth newOwner newGeneration) = true) :
    Lives (.transferOwnership auth newOwner newGeneration) sealed tight fair im
      (transferOwnershipAct auth newOwner clock t im.beginOp).1 := by
  refine turns_transferOwnershipAct (i := im.beginOp) hl (transferOwnershipCheck_ok hok).1
    (fun hf x q hq ho hx => ?_) (evolves_handedOver fun hs => ?_)
  · have heven := hfair hf
    obtain ⟨v, hv, rfl⟩ := virtual_of_seat hq
    simp only [evenHanded, hok, List.all_eq_true, decide_eq_true_eq] at heven
    exact heven (x, v) (Std.ExtTreeMap.mem_toList_iff_getElem?_eq_some.mpr hv) ho hx
  · have hsealing := hsealed hs
    simp only [sealing, hok, decide_eq_true_eq] at hsealing
    exact hsealing

theorem lives_updateContract {auth : Authority} {contract : ResourceContract} {owned : Owned}
    (hok : updateContractCheck auth contract im = .ok owned)
    (htight : tight → im.steady (.updateContract auth contract) = true) :
    Lives (.updateContract auth contract) sealed tight fair im
      (updateContractAct auth contract clock owned im.beginOp).1 := by
  obtain ⟨ho, -, hmutable⟩ := updateContractCheck_ok hok
  refine turns_updateContractAct (i := im.beginOp) ho (fun contract => ?_) fun ht hprobe => ?_
  · exact .of_state (towards_refl _) rfl (Nat.le_succ _) rfl fun _ hc =>
      absurd hc (requireMutable_ok hmutable).2
  · have hsteady := htight ht
    have hprobe' :
      (im.probeContract owned.record (contract.normalize im.options.sorting)).2 = .ok () := by
      have hstate : im.beginOp.state = im.state := rfl
      have hnext : im.beginOp.nextId = im.nextId := rfl
      simp only [probeContract, hstate, hnext] at hprobe ⊢
      split at hprobe <;> rename_i hbacking <;> simp only
      exact hprobe
    simpa [steady, hok, hprobe', Except.isOk, Except.toBool] using hsteady

/-- A virtual accelerator that may be bound anew. -/
theorem unoccupied_of_bindable {value : VirtualAcceleratorRecord} {backing : BackingRecord}
    {replacing : Bool} (h : im.checkBindable value backing replacing = .ok ()) :
    (replacing = false → lifecycleAllowsLeases value.state = false) ∧
      (value.state = .provisioned ∨ isLegalTransition value.state .provisioned = true) := by
  obtain ⟨-, -, -, hs⟩ := checkBindable_ok h
  obtain hs | hs | ⟨hr, hs⟩ := hs
  · exact ⟨fun _ => by rw [hs]; rfl, .inl hs⟩
  · exact ⟨fun _ => by rw [hs]; rfl, .inr (by rw [hs]; rfl)⟩
  · refine ⟨fun hc => ?_, .inr (isLegalTransition_provisioned hs)⟩
    rw [hc] at hr
    cases hr

theorem lives_assignBackingAct (im : Impl σ) {operation : String} {auth : Authority}
    {backing : BackingId}
    {replacing : Bool} {reason : Text} {plan : Owned × BackingRecord}
    (h : plan.1.Current im.state) (hl : im.book.Leased leaseRules)
    (hbind : im.checkBindable plan.1.record plan.2 replacing = .ok ()) :
    Turns (Evolves (towards .provisioned) grants sealed) Fresh tight fair im
      (assignBackingAct operation auth backing replacing reason clock plan im).1 := by
  obtain ⟨hs, hlegal⟩ := unoccupied_of_bindable hbind
  exact turns_assignBackingAct h hl hs fun _ _ _ n => evolves_rebound (n := n) hlegal

theorem lives_commitMigrationAct (im : Impl σ) {auth : Authority} {c : Cutover}
    (h : c.toOwned.Current im.state) (hs : c.record.state = .migrating) :
    Turns (Evolves (towards .provisioned) grants sealed) Fresh tight fair im
      (commitMigrationAct auth clock c im).1 := by
  have hlegal : isLegalTransition c.record.toSeat.phase.state .provisioned = true := by
    rw [show c.record.toSeat.phase.state = .migrating from hs]
    rfl
  exact turns_commitMigrationAct h (by rw [hs]; rfl)
    (evolves_rebound (n := c.record.activeAttachments) (.inr hlegal))

/-- A virtual accelerator comes into use. -/
theorem evolves_attached {lease : LeaseId} (hg : grants)
    (hs : q.phase.state = .provisioned ∨ q.phase.state = .suspended) :
    Evolves (towards .attached) grants sealed q (attached q lease) where
  state := .inr ⟨rfl, by obtain hs | hs := hs <;> rw [hs] <;> rfl⟩
  generation := Nat.le_succ _
  advances _ := Nat.lt_succ_self _
  final h := by obtain hs | hs := hs <;> rw [hs] at h <;> cases h
  retired := nofun
  bound h := absurd hg h
  fenced _ h := by obtain hs | hs := hs <;> rw [hs] at h <;> cases h

/-- Every body is a run of steps of the book, along the course of the operation. A commit has to
find the virtual accelerator migrating. -/
theorem lives_body (hb : body clock op = some b) (hw : im.state.WellKeyed)
    (hl : im.book.Leased leaseRules)
    (hmoving : ∀ auth c, op = .commitMigration auth → commitMigrationCheck auth im = .ok c →
      c.record.state = .migrating)
    (htight : tight → im.steady op = true)
    (hfair : fair → im.Rostered ∧ im.evenHanded op = true)
    (hsealed : sealed → im.sealing clock.now op = true) :
    Lives op sealed tight fair im (b im.beginOp).1 := by
  have h : Lives op sealed tight fair im im.beginOp := .of_book rfl
  have hw' : im.beginOp.state.WellKeyed := hw
  have hl' : im.beginOp.book.Leased leaseRules := hl
  have hrecompute : ∀ im : Impl σ, Lives op sealed tight fair im im.recomputeDerivedAccounting :=
    turns_recompute
  have hsame : ∀ im : Impl σ, Lives op sealed tight fair im im := fun _ => .refl
  have hrostered : fair → im.beginOp.Rostered := fun hf =>
    ⟨(hfair hf).1.nodup, (hfair hf).1.owned, (hfair hf).1.listed⟩
  -- one case per operation, its check first and then what it does to the book
  cases op <;> simp only [body, Option.some.injEq, reduceCtorEq] at hb <;> subst hb
  case registerPhysical =>
    exact fst_checked h fun _ ho => lives_registerPhysical hw ho htight hsealed
  case physicalLost =>
    exact fst_checked h fun _ _ => turns_physicalLostAct hl' hrostered
      fun q n => evolves_interrupted
  case setPolicy => exact fst_checked h fun _ ho => lives_setPolicy hl ho hsealed
  case createTenant => exact fst_checked h fun _ _ => turns_createTenantAct hw' _ _
  case fenceTenant =>
    exact fst_checked h fun _ ho => turns_fenceTenantAct hl' (fenceTenantCheck_ok ho)
      hrostered fun q n => evolves_evicted
  case transferOwnership =>
    exact fst_checked h fun _ ho => lives_transferOwnership hl ho (fun hf => (hfair hf).2) hsealed
  case createVirtual =>
    exact fst_checked h fun _ _ => turns_createVirtualAct hw' _ _ _ _ _ fun _ hs hbind =>
      ⟨hs, hbind⟩
  case updateContract => exact fst_checked h fun _ ho => lives_updateContract ho htight
  case activate =>
    refine fst_checked h fun owned ho => ?_
    obtain ⟨ho, hs⟩ := activateCheck_ok ho
    refine turns_transitionAct ho.virtual hrecompute (fun hlegal => ?_) (fun _ => ?_)
      (by rintro (h | h) <;> cases h)
    · exact evolves_carried hlegal
        (by rw [show owned.record.toSeat.phase.state = .attached from hs]; rfl) (by rintro ⟨⟩)
        (by rintro ⟨⟩)
    · rw [hs]
      rfl
  case drain =>
    refine fst_checked h fun owned ho => ?_
    have hcurrent := drainCheck_ok ho
    have hlegal : isLegalTransition owned.record.state .draining = true →
        lifecycleAllowsLeases owned.record.state = true := by
      cases owned.record.state <;> simp [isLegalTransition, VirtualLifecycleState.allowed,
        lifecycleAllowsLeases]
    refine turns_transitionAct hcurrent.virtual hsame (fun hl => ?_) (fun hl => hlegal hl)
      (by rintro (h | h) <;> cases h)
    exact evolves_carried hl (hlegal hl) (by rintro ⟨⟩) (by rintro ⟨⟩)
  case resolveRecovery =>
    refine fst_checked h fun owned ho => ?_
    obtain ⟨hcurrent, hs⟩ := resolveRecoveryCheck_ok ho
    refine turns_transitionAct hcurrent.virtual hsame (fun hl => ?_) (fun _ => by rw [hs]; rfl)
      (by rintro (h | h) <;> cases h)
    exact evolves_legal rfl hl (Nat.lt_succ_self _) (by rintro ⟨⟩) rfl (by rintro ⟨⟩)
  case suspend =>
    refine fst_checked h fun owned ho => ?_
    obtain ⟨hcurrent, hs, h0⟩ := suspendCheck_ok ho
    refine turns_suspendAct hcurrent hs h0 _
      (evolves_legal rfl ?_ (Nat.lt_succ_self _) (by rintro ⟨⟩) rfl (by rintro ⟨⟩))
    change isLegalTransition owned.record.state .suspended = true
    obtain hs | hs := hs <;> rw [hs] <;> rfl
  case resume =>
    refine fst_checked h fun owned ho => ?_
    obtain ⟨hcurrent, hs⟩ := resumeCheck_ok ho
    refine turns_transitionAct hcurrent.virtual hrecompute (fun hl => ?_) (fun _ => by rw [hs]; rfl)
      (by rintro (h | h) <;> cases h)
    exact evolves_legal rfl hl (Nat.lt_succ_self _) (by rintro ⟨⟩) rfl (by rintro ⟨⟩)
  case fenceVirtual =>
    refine fst_checked h fun owned ho => turns_fenceVirtualAct (notRetiredCheck_ok ho).1 hl' _
      fun n => ⟨evolves_active (towards_refl _) n, fun hl => ?_⟩
    exact evolves_legal rfl hl (Nat.lt_succ_self _) (by rintro ⟨⟩) rfl (by rintro ⟨⟩)
  case retireVirtual =>
    refine fst_checked h fun owned ho => ?_
    obtain ⟨hcurrent, hs⟩ := notRetiredCheck_ok ho
    refine turns_retireVirtualAct hcurrent hl' hs _ (.of_step (.inr ⟨rfl, ?_⟩) (Nat.lt_succ_self _)
      hs rfl (fun _ => rfl) fun _ _ => rfl)
    change isLegalTransition owned.record.state .retired = true
    revert hs
    cases owned.record.state <;> decide
  case assignBacking =>
    refine fst_checked h fun plan ho => ?_
    obtain ⟨hcurrent, -, hbind, -⟩ := assignBackingCheck_ok ho
    exact lives_assignBackingAct im.beginOp hcurrent hl' hbind
  case replaceBacking =>
    refine fst_checked h fun plan ho => ?_
    obtain ⟨hcurrent, -, hbind, -⟩ := assignBackingCheck_ok ho
    exact lives_assignBackingAct im.beginOp hcurrent hl' hbind
  case attach auth =>
    refine fst_checked h fun owned ho => ?_
    obtain ⟨hcurrent, hattach⟩ := attachCheck_ok ho
    obtain ⟨hs, -⟩ := checkAttachable_ok hattach
    exact turns_attachAct hw' hcurrent hs (evolves_attached ⟨auth, rfl⟩ hs)
  case renewLease => exact fst_checked h fun _ _ => .of_book (book_renewLeaseAct _)
  case detach =>
    refine fst_checked h fun held ho => turns_releaseLeaseAct hw' (resolveLeaseFor_ok ho)
      fun n => ⟨evolves_active (towards_refl _) n, fun hl => ?_⟩
    exact evolves_legal rfl hl (Nat.lt_succ_self _) (by rintro ⟨⟩) rfl (by rintro ⟨⟩)
  case revokeLease =>
    refine fst_checked h fun held ho => turns_releaseLeaseAct hw' (resolveLeaseFor_ok ho)
      fun n => ⟨evolves_active (towards_refl _) n, fun hl => ?_⟩
    exact evolves_legal rfl hl (Nat.lt_succ_self _) (by rintro ⟨⟩) rfl (by rintro ⟨⟩)
  case planMigration => exact fst_checked h fun _ _ => .of_book (book_planMigrationAct _ _ _)
  case prepareMigration auth =>
    refine fst_checked h fun f ho => ?_
    have hturns : Lives (.prepareMigration auth) sealed tight fair im.beginOp
        (prepareMigrationAct auth clock f im.beginOp).1 := by
      refine turns_prepareMigrationAct (prepareMigrationCheck_ok ho).1.owned hl' fun hl n => ?_
      exact evolves_legal rfl hl (Nat.lt_succ_self _) (by rintro ⟨⟩) rfl (by rintro ⟨⟩)
    exact hturns
  case commitMigration auth =>
    refine fst_checked h fun c ho => ?_
    exact lives_commitMigrationAct im.beginOp (commitMigrationCheck_ok ho).1.owned
      (hmoving auth c rfl ho)
  case completeMigration => exact fst_checked h fun _ _ => .of_book (book_completeMigrationAct _)
  case abortMigration =>
    refine fst_checked h fun f ho => turns_abortMigrationAct (abortMigrationCheck_ok ho).1.owned _
      fun hs => ?_
    refine evolves_legal rfl ?_ (Nat.lt_succ_self _) (by rintro ⟨⟩) rfl (by rintro ⟨⟩)
    rw [show f.record.toSeat.phase.state = .migrating from hs]
    rfl
  case reserveAllocation =>
    exact fst_checked h fun _ _ => .of_book (book_reserveAllocationAct _ _)
  case releaseAllocation =>
    exact fst_checked h fun _ _ => .of_book (book_releaseAllocationAct _ _)
  case accountKernel => exact fst_checked h fun _ _ => .of_book (book_accountKernelAct _ _)

end Impl

end AcceleratorVirtualization
