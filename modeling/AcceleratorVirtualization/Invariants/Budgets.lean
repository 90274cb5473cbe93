import AcceleratorVirtualization.Invariants.Acceptance
import AcceleratorVirtualization.Invariants.Chronicle
import AcceleratorVirtualization.Invariants.Contracts
import AcceleratorVirtualization.Invariants.Generations
import AcceleratorVirtualization.Invariants.Ledger
import AcceleratorVirtualization.Invariants.Usage

/-!
# Memory budgets

What a virtual accelerator has reserved is counted in a 64-bit word. Beside a run this follows the
sum of what was reserved and released, as an integer. The word is that sum and stays under the
ceiling of the contract, as long as no contract is replaced by one whose ceiling is under what is
reserved, and no sum leaves the word where there is no ceiling.
-/

namespace AcceleratorVirtualization

open VirtualizationState Refusal

/-! ### The sum -/

/-- What was reserved and not released, for every virtual accelerator. -/
abbrev Tally := VirtualAcceleratorId → ℤ

namespace Tally

/-- The tally with `bytes` more under one id. -/
def add (g : Tally) (id : VirtualAcceleratorId) (bytes : ℤ) : Tally :=
  Function.update g id (g id + bytes)

/-- A call that succeeds is added. -/
def hear (g : Tally) (im : Impl Disk) (clock : Clock) : Op → Tally
  | .reserveAllocation auth bytes =>
    match (im.reserveAllocation clock auth bytes).2 with
    | .ok _ => g.add (auth.virtualId.getD 0) bytes
    | .error _ => g
  | .releaseAllocation auth bytes =>
    match (im.releaseAllocation clock auth bytes).2 with
    | .ok _ => g.add (auth.virtualId.getD 0) (-bytes)
    | .error _ => g
  | _ => g

end Tally

/-- The sum for every virtual accelerator in a run. -/
def tallied (options : RuntimeOptions) (stored : Bool) (events : List Event) : Tally :=
  (Beside.along Tally.hear (fun _ => 0) ⟨fun _ => 0, fun _ => 0⟩ (Impl.initial options stored)
    events).live

/-- The budgets hold: a ceiling is not under what is reserved, and what is reserved is the sum. -/
def VirtualizationState.Budgeted (g : Tally) (s : VirtualizationState) : Prop :=
  ∀ (x : VirtualAcceleratorId) (v : VirtualAcceleratorRecord), s.virtuals[x]? = some v →
    (v.contract.memoryCeilingBytes ≠ 0 → v.allocatedBytes ≤ v.contract.memoryCeilingBytes) ∧
      (v.allocatedBytes : ℤ) = g x

/-! ### Reservations -/

/-- The ceiling and what is reserved under it. -/
structure Reservation where
  ceiling : ℕ
  allocated : ℕ

/-- The ceiling and the allocated bytes of a record. -/
def VirtualAcceleratorRecord.reservation (v : VirtualAcceleratorRecord) : Reservation :=
  ⟨v.contract.memoryCeilingBytes, v.allocatedBytes⟩

/-- The reservation of the virtual accelerator under an id. -/
def VirtualizationState.reservation (s : VirtualizationState) (id : VirtualAcceleratorId) :
    Option Reservation :=
  s.virtuals[id]?.map (·.reservation)

/-- A reservation is balanced with a sum: it is the sum, and stays under the ceiling, a 64-bit word.
What is not there has reserved nothing. -/
def Balanced (total : ℤ) : Option Reservation → Prop
  | none => total = 0
  | some r => (r.allocated : ℤ) = total ∧ (r.ceiling ≠ 0 → r.allocated ≤ r.ceiling) ∧
    r.ceiling < 2 ^ 64

namespace VirtualizationState

variable {g : Tally} {s t : VirtualizationState}

/-- Every reservation is balanced. -/
def Balances (g : Tally) (s : VirtualizationState) : Prop :=
  ∀ id, Balanced (g id) (s.reservation id)

theorem Balances.congr (h : s.Balances g) (hr : t.reservation = s.reservation) : t.Balances g := by
  intro id
  rw [hr]
  exact h id

/-- One reservation and its sum are replaced. -/
theorem Balances.write (h : s.Balances g) {id : VirtualAcceleratorId} {total : ℤ}
    {r : Reservation} (hr : t.reservation = Function.update s.reservation id (some r))
    (hb : Balanced total (some r)) : t.Balances (Function.update g id total) := by
  intro id'
  rw [hr]
  by_cases hid : id' = id
  · subst hid
    simpa using hb
  · simpa [hid] using h id'

/-- One reservation is replaced, and its sum stays. -/
theorem Balances.replace (h : s.Balances g) {id : VirtualAcceleratorId} {r : Reservation}
    (hr : t.reservation = Function.update s.reservation id (some r))
    (hb : Balanced (g id) (some r)) : t.Balances g := by
  have hw := h.write hr hb
  rwa [Function.update_eq_self] at hw

theorem Balances.budgeted (h : s.Balances g) : s.Budgeted g := by
  intro x v hv
  have hx := h x
  simp only [reservation, hv, Option.map_some, Balanced] at hx
  exact ⟨hx.2.1, hx.1⟩

theorem Alike.reservation {T : Prop} (h : s.Alike T t) : t.reservation = s.reservation := by
  have hv : s.virtuals = t.virtuals := h.entities .virtual nofun
  funext id
  simp only [VirtualizationState.reservation, hv]

theorem respects_balances {T : Prop} : Respects T (Balances g) :=
  fun _ _ h hs => hs.congr h.reservation

theorem balances_empty : ({} : VirtualizationState).Balances (fun _ => 0) := by
  intro id
  simp [reservation, Balanced]

end VirtualizationState

/-! ### What changes a reservation -/

/-- Whether an operation changes ceilings or what is reserved. -/
def Op.budgets : Op → Bool
  | .createVirtual .. | .updateContract .. | .reserveAllocation .. | .releaseAllocation .. => true
  | _ => false

namespace Impl

variable {σ : Type} {im im' : Impl σ}

/-- What is reserved stays while the contract may change. -/
theorem reservation_of_course {t : Terms} (hc : Course t im im') (ht : t.sizes)
    {x : VirtualAcceleratorId} {v : VirtualAcceleratorRecord}
    (hv : im.state.virtuals[x]? = some v) :
    im'.state.reservation x = (im'.demands.contract x).map fun contract =>
      ⟨contract.memoryCeilingBytes, v.allocatedBytes⟩ := by
  obtain ⟨v', hv', hrevised⟩ := hc.kept x v hv
  simp only [demands, VirtualizationState.demands, reservation, hv', Option.map_some,
    VirtualAcceleratorRecord.reservation, hrevised.sized ht]

/-- A reservation stays when the contract and what is reserved do. -/
theorem reservation_of_contract {t : Terms} (hc : Course t im im') (ht : t.sizes)
    {x : VirtualAcceleratorId} (hd : im'.demands.contract x = im.demands.contract x) :
    im'.state.reservation x = im.state.reservation x := by
  cases hx : im.state.virtuals[x]? with
  | none =>
    have hnone : im'.demands.contract x = none := by
      rw [hd]
      simp [demands, VirtualizationState.demands, hx]
    have hx' : im'.state.virtuals[x]? = none := Option.map_eq_none_iff.mp hnone
    rw [reservation, reservation, hx, hx']
  | some v =>
    rw [reservation_of_course hc ht hx, hd]
    simp [demands, VirtualizationState.demands, reservation, hx,
      VirtualAcceleratorRecord.reservation]

theorem reservations_of_contracts {t : Terms} (hc : Course t im im') (ht : t.sizes)
    (hd : im'.demands.contract = im.demands.contract) :
    im'.state.reservation = im.state.reservation :=
  funext fun _ => reservation_of_contract hc ht (congrFun hd _)

/-- The record of a virtual accelerator that is there is changed. -/
theorem reservation_modify {id : VirtualAcceleratorId} {v : VirtualAcceleratorRecord}
    {f : VirtualAcceleratorRecord → VirtualAcceleratorRecord} {g : Reservation → Reservation}
    (hv : im.state.virtuals[id]? = some v) (hf : ∀ v, (f v).reservation = g v.reservation)
    (hm : im'.state.virtuals = im.state.virtuals.modify id f) :
    im'.state.reservation =
      Function.update im.state.reservation id (some (g v.reservation)) := by
  have hview := map_modify im.state.virtuals id f (·.reservation) g hf
  funext x
  rw [reservation, hm]
  refine (congrFun hview x).trans ?_
  rw [hv]
  rfl

section Bodies

variable {clock : Clock} {op : Op} {b : Body σ Unit}

/-- Neither a policy nor any other of these operations changes a contract. -/
theorem contract_of_budgets (hb : body clock op = some b) (hop : op.budgets = false) :
    (b im).1.demands.contract = im.demands.contract := by
  cases hs : op.submits with
  | false => exact congrArg Demands.contract (demands_body hb hs)
  | true =>
    cases op <;>
      simp only [Op.submits, Op.budgets, Bool.false_eq_true, Bool.true_eq_false] at hs hop
    case setPolicy auth policy =>
      simp only [body, Option.some.injEq] at hb
      subst hb
      refine fst_checked (p := fun im' : Impl σ => im'.demands.contract = im.demands.contract) rfl
        fun updated _ => ?_
      have hset := congrArg Demands.contract (@demands_setPolicyAct _ im auth clock updated)
      exact hset

/-- An operation that neither contracts nor reserves leaves the reservations. -/
theorem reservation_body (hb : body clock op = some b) (hw : im.state.WellKeyed)
    (h : im.state.Paced) (hop : op.budgets = false) :
    (b im.beginOp).1.state.reservation = im.state.reservation := by
  have hcourse : Course ⟨False, False, False, False, True⟩ im (b im.beginOp).1 := by
    refine course_body hb hw (fun auth c _ hok => cutover_of_paced hw h hok) False.elim False.elim
      False.elim False.elim fun _ => ?_
    cases op <;> first | rfl | cases hop
  exact reservations_of_contracts hcourse trivial (contract_of_budgets hb hop)

end Bodies

theorem reservation_classified (im : Impl σ) (now : UnixMicros) :
    (im.classified now).1.state.reservation = im.state.reservation :=
  reservations_of_contracts (t := ⟨False, False, False, False, True⟩)
    (revises_classified im now).course trivial
    (congrArg Demands.contract (demands_classified im now))

theorem reservation_startBody (im : Impl σ) (clock : Clock) (recovered : Bool) :
    (im.startBody clock recovered).state.reservation = im.state.reservation :=
  reservations_of_contracts (t := ⟨False, False, False, False, True⟩)
    (revises_startBody im clock recovered).course trivial (demands_startBody clock recovered).1

theorem reservation_shutdownBody (im : Impl σ) (clock : Clock) :
    (im.shutdownBody clock).state.reservation = im.state.reservation :=
  reservations_of_contracts (t := ⟨False, False, False, False, True⟩)
    (revises_shutdownBody im clock).course trivial
    (congrArg Demands.contract (demands_shutdownBody clock))

/-! ### The four operations -/

section Acts

variable {auth : Authority} {clock : Clock}

theorem reservation_createVirtualAct {name : Text} {owner : TenantId}
    {ownerGeneration : Generation} {contract : ResourceContract} {tenant : TenantRecord} :
    (createVirtualAct auth name owner ownerGeneration contract clock tenant
      im).1.state.reservation =
      Function.update im.state.reservation im.nextId (some ⟨contract.memoryCeilingBytes, 0⟩) := by
  generalize hact :
    (createVirtualAct auth name owner ownerGeneration contract clock tenant im).1 = im1
  have hvirtuals : ∃ v : VirtualAcceleratorRecord,
      v.reservation = ⟨contract.memoryCeilingBytes, 0⟩ ∧
        im1.state.virtuals = im.state.virtuals.insert im.nextId v := by
    rw [← hact]
    exact ⟨_, rfl, rfl⟩
  obtain ⟨v, hv, hvirtuals⟩ := hvirtuals
  rw [← hv]
  have hview := map_insert im.state.virtuals im.nextId v (·.reservation)
  funext x
  rw [reservation, hvirtuals]
  exact congrFun hview x

/-- A new contract that is taken has another ceiling for what is reserved. -/
theorem reservation_updateContractAct {contract : ResourceContract} {owned : Owned}
    {accepted : Accepted VirtualAcceleratorRecord} (ho : owned.Current im.state)
    (h : (updateContractAct auth contract clock owned im).2 = .ok accepted) :
    (updateContractAct auth contract clock owned im).1.state.reservation =
      Function.update im.state.reservation owned.virtualId
        (some ⟨contract.memoryCeilingBytes, owned.record.allocatedBytes⟩) := by
  obtain ⟨⟨refusal, hrefused⟩, -⟩ | ⟨_, id, -, hd⟩ :=
    @demands_updateContractAct _ im auth clock contract owned ho
  · rw [hrefused] at h
    cases h
  · have hcourse : Course ⟨False, False, False, False, True⟩ im
        (updateContractAct auth contract clock owned im).1 := revises_updateContractAct.course
    replace hd := congrArg Demands.contract hd
    funext x
    by_cases hx : x = owned.virtualId
    · subst hx
      have hnew := (congrFun hd owned.virtualId).trans (Function.update_self ..)
      rw [reservation_of_course hcourse trivial ho.virtual, Function.update_self]
      exact congrArg (Option.map _) hnew
    · rw [Function.update_of_ne hx]
      refine reservation_of_contract hcourse trivial ((congrFun hd x).trans ?_)
      exact Function.update_of_ne hx ..

/-- A contract that the backing does not take leaves the reservations. -/
theorem reservation_updateContractAct_refused {contract : ResourceContract} {owned : Owned}
    {refusal : Refusal} (ho : owned.Current im.state)
    (h : (updateContractAct auth contract clock owned im).2 = .error refusal) :
    (updateContractAct auth contract clock owned im).1.state.reservation =
    im.state.reservation := by
  have hcourse : Course ⟨False, False, False, False, True⟩ im
      (updateContractAct auth contract clock owned im).1 := revises_updateContractAct.course
  obtain ⟨-, hd⟩ | ⟨_, id, haccepted, -⟩ :=
    @demands_updateContractAct _ im auth clock contract owned ho
  · exact reservations_of_contracts hcourse trivial (congrArg Demands.contract hd)
  · rw [haccepted] at h
    cases h

theorem reservation_reserveAllocationAct {bytes : ℕ} {plan : Owned × LeaseRecord}
    (ho : plan.1.Current im.state) :
    (reserveAllocationAct auth bytes plan im).1.state.reservation =
      Function.update im.state.reservation plan.1.virtualId
        (some ⟨plan.1.record.contract.memoryCeilingBytes,
          (plan.1.record.allocatedBytes + bytes) % 2 ^ 64⟩) :=
  reservation_modify (g := fun r => ⟨r.ceiling, (r.allocated + bytes) % 2 ^ 64⟩) ho.virtual
    (fun _ => rfl) rfl

theorem reservation_releaseAllocationAct {bytes : ℕ}
    {target : VirtualAcceleratorId × VirtualAcceleratorRecord}
    (hv : im.state.virtuals[target.1]? = some target.2) :
    (releaseAllocationAct auth bytes target im).1.state.reservation =
      Function.update im.state.reservation target.1
        (some ⟨target.2.contract.memoryCeilingBytes, target.2.allocatedBytes - bytes⟩) :=
  reservation_modify (g := fun r => ⟨r.ceiling, r.allocated - bytes⟩) hv (fun _ => rfl) rfl

end Acts

end Impl

/-! ### One operation -/

/-- The ceiling of a submitted contract is a 64-bit word. -/
def Op.worded : Op → Bool
  | .createVirtual _ _ _ _ contract | .updateContract _ contract =>
    contract.memoryCeilingBytes < 2 ^ 64
  | _ => true

namespace Impl

variable {im im' : Impl Disk} {clock : Clock} {op : Op} {auth : Authority} {g : Tally}

/-- Whether an operation, if it goes through, neither takes a ceiling under what is reserved nor
takes a sum without a ceiling out of its word. -/
def prudent (im : Impl Disk) : Op → Bool
  | .updateContract auth contract =>
    match updateContractCheck auth contract im with
    | .error _ => true
    | .ok owned =>
      !(im.probeContract owned.record (contract.normalize im.options.sorting)).2.isOk ||
      !im.writable ||
      decide (contract.memoryCeilingBytes = 0) ||
      decide (owned.record.allocatedBytes ≤ contract.memoryCeilingBytes)
  | .reserveAllocation auth bytes =>
    match reserveAllocationCheck auth bytes im with
    | .error _ => true
    | .ok (owned, _) => !im.writable || decide (owned.record.contract.memoryCeilingBytes ≠ 0) ||
      decide (owned.record.allocatedBytes + bytes < 2 ^ 64)
  | _ => true

/-- A body that answers nothing has nothing to forget. -/
theorem forget_of_unit {σ : Type} (b : Body σ Unit) : b.forget = b := by
  funext im
  rcases hb : b im with ⟨im', refusal | accepted⟩ <;> simp [Body.forget, hb, Except.map]

/-- An operation whose answer is a success had a store that takes change sets. -/
theorem writable_of_operation {α : Type} {b : Body Disk α} {a : α} (hw : im.state.WellKeyed)
    (hb : body clock (im.resolve op) = some b.forget) (h : (im.operation clock b).2 = .ok a) :
    im.writable = true := by
  refine ((exec_eq_ok_iff hb hw).mp ?_).2
  rw [exec_of_resolve hb, ← operation_forget]
  simp only [forget, h, Except.map]

theorem balances_createVirtual {name : Text} {owner : TenantId} {ownerGeneration : Generation}
    {contract : ResourceContract} (h : im.state.Balances g) (hw : im.state.WellKeyed)
    (hword : contract.memoryCeilingBytes < 2 ^ 64) :
    (im.createVirtual clock auth name owner ownerGeneration contract).1.state.Balances g := by
  have hr :=
    @view_checked_operation _ clock (.createVirtual auth name owner ownerGeneration contract)
    _ reservation (fun _ _ _ h => h.reservation) _ _ _ _ _ _ hw rfl
  obtain ⟨tenant, accepted, -, -, -, hd⟩ | ⟨-, hd | ⟨tenant, refusal, -, hrefused, -⟩⟩ := hr
  · have hnone : im.state.reservation im.beginOp.nextId = none := by
      rw [reservation, show im.state.virtuals[im.beginOp.nextId]? = none from
        hw.fresh .virtual le_rfl]
      rfl
    have hzero := h im.beginOp.nextId
    rw [hnone] at hzero
    refine h.replace (hd.trans reservation_createVirtualAct) ?_
    rw [show g im.beginOp.nextId = 0 from hzero]
    exact ⟨rfl, fun _ => Nat.zero_le _, hword⟩
  · exact h.congr hd
  · cases hrefused

theorem balances_updateContract {contract : ResourceContract} (h : im.state.Balances g)
    (hw : im.state.WellKeyed) (hword : contract.memoryCeilingBytes < 2 ^ 64)
    (hp : im.prudent (.updateContract auth contract) = true) :
    (im.updateContract clock auth contract).1.state.Balances g := by
  have hr := @view_checked_operation _ clock (.updateContract auth contract)
    _ reservation (fun _ _ _ h => h.reservation) _ _ _ _ _ _ hw rfl
  obtain ⟨owned, accepted, hc, hacc, hok, hd⟩ | ⟨-, hd | ⟨owned, refusal, hc, hrefused, hd⟩⟩ := hr
  · have ho := (updateContractCheck_ok hc).1
    have hprobe : (im.probeContract owned.record (contract.normalize im.options.sorting)).2.isOk =
        true := by
      rw [← @probeContract_of_state im im.beginOp rfl rfl]
      exact probeContract_of_updateContractAct hacc
    have hwritable : im.writable = true :=
      @writable_of_operation _ _ (.updateContract auth contract) _ _ _ hw rfl hok
    have hcheck : updateContractCheck auth contract im = .ok owned := hc
    simp only [prudent, hcheck, hprobe, hwritable, Bool.not_true, Bool.false_or, Bool.or_eq_true,
      decide_eq_true_eq] at hp
    have hbalanced := h owned.virtualId
    rw [reservation, show im.state.virtuals[owned.virtualId]? = _ from ho.virtual] at hbalanced
    refine h.replace (hd.trans (reservation_updateContractAct ho hacc)) ⟨hbalanced.1, ?_, hword⟩
    exact fun hne => hp.resolve_left hne
  · exact h.congr hd
  · exact h.congr
      (hd.trans (reservation_updateContractAct_refused (updateContractCheck_ok hc).1 hrefused))

theorem balances_reserveAllocation {bytes : ℕ} (h : im.state.Balances g) (hw : im.state.WellKeyed)
    (henforced : im.options.enforceMemoryBudget = true)
    (hp : im.prudent (.reserveAllocation auth bytes) = true) :
    (im.reserveAllocation clock auth bytes).1.state.Balances
      (g.hear im clock (.reserveAllocation auth bytes)) := by
  have hr := @view_checked_operation _ clock (.reserveAllocation auth bytes)
    _ reservation (fun _ _ _ h => h.reservation) _ _ _ _ _ _ hw rfl
  simp only [Tally.hear]
  obtain ⟨⟨owned, lease⟩, accepted, hc, -, hok, hd⟩ |
    ⟨⟨failure, hfailed⟩, hd | ⟨plan, refusal, -, hrefused, -⟩⟩ := hr
  · rw [show (im.reserveAllocation clock auth bytes).2 = _ from hok]
    have hcheck : reserveAllocationCheck auth bytes im = .ok (owned, lease) := hc
    obtain ⟨howned, -, hceiling, -⟩ := reserveAllocationCheck_granted hcheck
    have ho := reserveAllocationCheck_ok hc
    have hwritable : im.writable = true :=
      @writable_of_operation _ _ (.reserveAllocation auth bytes) _ _ _ hw rfl hok
    simp only [prudent, hcheck, hwritable, Bool.not_true, Bool.false_or, Bool.or_eq_true,
      decide_eq_true_eq] at hp
    have hbalanced := h owned.virtualId
    rw [reservation, show im.state.virtuals[owned.virtualId]? = _ from ho.virtual] at hbalanced
    obtain ⟨htotal, -, hword⟩ := hbalanced
    simp only [VirtualAcceleratorRecord.reservation] at htotal hword
    -- under a ceiling the sum stays a word because the ceiling is one
    have hsum : owned.record.allocatedBytes + bytes < 2 ^ 64 ∧
        (owned.record.contract.memoryCeilingBytes ≠ 0 →
          owned.record.allocatedBytes + bytes ≤ owned.record.contract.memoryCeilingBytes) := by
      have hunder := fun hne : owned.record.contract.memoryCeilingBytes ≠ 0 =>
        hceiling henforced (Nat.pos_of_ne_zero hne)
      refine ⟨hp.elim (fun hne => ?_) id, hunder⟩
      exact (hunder hne).trans_lt hword
    dsimp only
    rw [(named_of_resolveOwned howned).1, Option.getD_some]
    refine h.write (hd.trans (reservation_reserveAllocationAct ho)) ?_
    simp only [Nat.mod_eq_of_lt hsum.1]
    refine ⟨?_, hsum.2, hword⟩
    simp [← htotal]
  · rw [show (im.reserveAllocation clock auth bytes).2 = _ from hfailed]
    exact h.congr hd
  · cases hrefused

/-- What is released was reserved by the virtual accelerator that is named. -/
theorem releaseAllocationCheck_granted {bytes : ℕ}
    {target : VirtualAcceleratorId × VirtualAcceleratorRecord}
    (h : releaseAllocationCheck auth bytes im = .ok target) :
    auth.virtualId = some target.1 ∧ bytes ≤ target.2.allocatedBytes := by
  simp only [releaseAllocationCheck, bind_eq_ok] at h
  obtain ⟨_, -, _, -, tenant, -, h⟩ := h
  split at h
  · cases h
  · rename_i id hid
    split at h
    · cases h
    · simp only [bind_eq_ok, guard_bind_eq_ok, pure_eq_ok] at h
      obtain ⟨_, -, hbytes, rfl⟩ := h
      exact ⟨hid, Nat.not_lt.mp hbytes⟩

theorem balances_releaseAllocation {bytes : ℕ} (h : im.state.Balances g) (hw : im.state.WellKeyed) :
    (im.releaseAllocation clock auth bytes).1.state.Balances
      (g.hear im clock (.releaseAllocation auth bytes)) := by
  have hr := @view_checked_operation _ clock (.releaseAllocation auth bytes)
    _ reservation (fun _ _ _ h => h.reservation) _ _ _ _ _ _ hw
    (congrArg some (forget_of_unit (releaseAllocationBody auth bytes)).symm)
  simp only [Tally.hear]
  obtain ⟨target, accepted, hc, -, hok, hd⟩ |
    ⟨⟨failure, hfailed⟩, hd | ⟨plan, refusal, -, hrefused, -⟩⟩ := hr
  · rw [show (im.releaseAllocation clock auth bytes).2 = _ from hok]
    obtain ⟨hid, hbytes⟩ := releaseAllocationCheck_granted hc
    have hv := releaseAllocationCheck_ok hc
    have hbalanced := h target.1
    rw [reservation, show im.state.virtuals[target.1]? = _ from hv] at hbalanced
    obtain ⟨htotal, hunder, hword⟩ := hbalanced
    dsimp only
    rw [hid, Option.getD_some]
    refine h.write (hd.trans (reservation_releaseAllocationAct hv)) ⟨?_, fun hne => ?_, hword⟩
    · simp only [VirtualAcceleratorRecord.reservation] at htotal
      dsimp only
      omega
    · exact (Nat.sub_le ..).trans (hunder hne)
  · rw [show (im.releaseAllocation clock auth bytes).2 = _ from hfailed]
    exact h.congr hd
  · cases hrefused

/-- An operation that neither contracts nor reserves adds nothing. -/
theorem hear_of_budgets (hop : op.budgets = false) : g.hear im clock op = g := by
  cases op <;> first | rfl | cases hop

theorem budgets_resolve : (im.resolve op).budgets = op.budgets := by
  cases op <;> try rfl
  simp only [resolve]
  split
  · split <;> rfl
  · rfl

/-- The reservations stay balanced with what succeeds. -/
theorem balances_exec (h : im.state.Balances g) (hs : im.state.Sound Paced)
    (henforced : im.options.enforceMemoryBudget = true) (hword : op.worded = true)
    (hp : im.prudent op = true) :
    (im.exec clock op).1.state.Balances (g.hear im clock op) := by
  cases hop : op.budgets with
  | true =>
    cases op
    case createVirtual => exact balances_createVirtual h hs.wellKeyed (of_decide_eq_true hword)
    case updateContract =>
      exact balances_updateContract h hs.wellKeyed (of_decide_eq_true hword) hp
    case reserveAllocation => exact balances_reserveAllocation h hs.wellKeyed henforced hp
    case releaseAllocation => exact balances_releaseAllocation h hs.wellKeyed
    all_goals cases hop
  | false =>
    rw [hear_of_budgets hop]
    refine state_exec respects_balances hs.wellKeyed h fun _ => ⟨h, fun b hb => ?_, fun _ => ?_⟩
    · exact h.congr (reservation_body hb hs.wellKeyed hs.holds (budgets_resolve.trans hop))
    · exact h.congr (reservation_classified im clock.now)

/-! ### Runs -/

/-- Whether the memory budgets are enforced. -/
def budgeting (im : Impl Disk) (_ : Event) : Bool := im.options.enforceMemoryBudget

/-- Whether an event is a prudent operation. -/
def prudently (im : Impl Disk) : Event → Bool
  | .op op _ answer => (im.answering answer).prudent op
  | _ => true

end Impl

/-- Whether the ceiling that an event submits is a 64-bit word. -/
def Event.worded : Event → Bool
  | .op operation _ _ => operation.worded
  | _ => true

namespace Impl

variable {im : Impl Disk}

theorem recounts_balances (hk : Kept False Paced im) {event : Event}
    (hbudgeting : im.budgeting event = true) (hword : event.worded = true)
    (hp : im.prudently event = true) : Recounts Tally.hear (fun _ => 0) Balances im event where
  respects _ _ := respects_balances
  empty := balances_empty
  op op clock answer hevent g hg := by
    subst hevent
    exact @balances_exec (im.answering answer) _ _ _ hg
      (hk.answering answer).state hbudgeting hword hp
  classified g i now hg := hg.congr (reservation_classified i now)
  start g i clock recovered hg := hg.congr (reservation_startBody i clock recovered)
  shutdown g i clock hg := hg.congr (reservation_shutdownBody i clock)

end Impl

/-- With budgets enforced, in every state of a run in which every replacement of a contract and
every reservation without a ceiling is prudent, no ceiling is under what is reserved, and what is
reserved is the sum of the reservations and releases that succeeded. -/
theorem budgeted_of_run {options : RuntimeOptions} {stored : Bool} {events : List Event}
    {im : Impl Disk} (h : (Impl.initial options stored).run events = some im)
    (henforced : (Impl.initial options stored).throughout Impl.budgeting events = true)
    (hword : (Impl.initial options stored).throughout (fun _ event => event.worded) events = true)
    (hp : (Impl.initial options stored).throughout Impl.prudently events = true) :
    im.state.Budgeted (tallied options stored events) := by
  have hc := Impl.throughout_and (Impl.throughout_and henforced hword) hp
  have hinitial : Recounted Balances Paced ⟨fun _ => 0, fun _ => 0⟩
      (Impl.initial options stored) := .initial Impl.invariant_paced balances_empty options stored
  refine (hinitial.run Impl.invariant_paced (fun i event hk _ => Impl.keeps_paced hk event)
    (fun i event hk hcond => ?_) h hc).live.budgeted
  simp only [Bool.and_eq_true] at hcond
  exact Impl.recounts_balances hk hcond.1.1 hcond.1.2 hcond.2

namespace Sample

/-- Under lease 27, virtual accelerator 14 reserves memory. Its contract has no ceiling. -/
def charged (bytes : ℕ) : List Event := leased ++ [call (.reserveAllocation tenure bytes)]

/-- The contract is replaced by one with a ceiling. -/
def capped (ceiling : ℕ) : Event :=
  call (.updateContract (owner 14 3)
    { contract with memoryCeilingBytes := ceiling, oversubscriptionAllowed := true })

/-- Of 64 bytes 16 are released before there is a ceiling of 48. -/
def refunded : List Event := charged 64 ++ [call (.releaseAllocation tenure 16), capped 48]

/-- Of 64 bytes none are released before there is a ceiling of 32. -/
def undercut : List Event := charged 64 ++ [capped 32]

/-- One byte more is reserved than a word counts. -/
def wrapped : List Event := charged (2 ^ 64 - 1) ++ [call (.reserveAllocation tenure 1)]

end Sample

theorem budgeted_refunded : ∃ im v, (Impl.initial {} true).run Sample.refunded = some im ∧
    im.state.virtuals[14]? = some v ∧ v.contract.memoryCeilingBytes = 48 ∧
    im.state.Budgeted (tallied {} true Sample.refunded) := by
  have hrun : (((Impl.initial {} true).run Sample.refunded).any fun im =>
      im.state.virtuals[14]?.any fun v => decide (v.contract.memoryCeilingBytes = 48)) = true := by
    decide +kernel
  obtain ⟨im, him, hv⟩ := (Option.any_eq_true _ _).mp hrun
  obtain ⟨v, hv, hceiling⟩ := (Option.any_eq_true _ _).mp hv
  exact ⟨im, v, him, hv, of_decide_eq_true hceiling, budgeted_of_run him (by decide +kernel)
    (by decide +kernel) (by decide +kernel)⟩

/-- A ceiling comes under what is reserved; and without a ceiling the word is left, so that nothing
seems to be reserved. -/
theorem not_budgeted_undercut :
    (∃ im, (Impl.initial {} true).run Sample.undercut = some im ∧
      (Impl.initial {} true).throughout Impl.budgeting Sample.undercut = true ∧
      ¬ im.state.Budgeted (tallied {} true Sample.undercut)) ∧
    ∃ im, (Impl.initial {} true).run Sample.wrapped = some im ∧
      (Impl.initial {} true).throughout Impl.budgeting Sample.wrapped = true ∧
      ¬ im.state.Budgeted (tallied {} true Sample.wrapped) := by
  constructor
  · have hrun : (((Impl.initial {} true).run Sample.undercut).any fun im =>
        im.state.virtuals[14]?.any fun v => decide (v.contract.memoryCeilingBytes ≠ 0) &&
          decide (v.contract.memoryCeilingBytes < v.allocatedBytes)) = true := by
      decide +kernel
    obtain ⟨im, him, hbad⟩ := (Option.any_eq_true _ _).mp hrun
    obtain ⟨v, hv, hbad⟩ := (Option.any_eq_true _ _).mp hbad
    simp only [Bool.and_eq_true, decide_eq_true_eq] at hbad
    exact ⟨im, him, by decide +kernel, fun hb => hbad.2.not_ge ((hb 14 v hv).1 hbad.1)⟩
  · have hrun : (((Impl.initial {} true).run Sample.wrapped).any fun im =>
        im.state.virtuals[14]?.any fun v =>
          decide ((v.allocatedBytes : ℤ) ≠ tallied {} true Sample.wrapped 14)) = true := by
      decide +kernel
    obtain ⟨im, him, hbad⟩ := (Option.any_eq_true _ _).mp hrun
    obtain ⟨v, hv, hbad⟩ := (Option.any_eq_true _ _).mp hbad
    exact ⟨im, him, by decide +kernel, fun hb => of_decide_eq_true hbad (hb 14 v hv).2⟩

end AcceleratorVirtualization
