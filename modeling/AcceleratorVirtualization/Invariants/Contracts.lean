import AcceleratorVirtualization.Invariants.Alarms
import AcceleratorVirtualization.Invariants.Submissions

/-!
# The generations of a contract

A plan is stamped with the generation of the contract it was made under, and is refused once the
contract in force has another. An update does not count up from the contract in force, it counts up
from the generation that is submitted with the new one.
-/

namespace AcceleratorVirtualization

open VirtualizationState Refusal

/-! ### Contracts and the plans made under them -/

namespace VirtualizationState

variable {s t u : VirtualizationState}

/-- Contracts stay, or are replaced by contracts of a later generation. -/
def Supersedes (s u : VirtualizationState) : Prop :=
  ∀ x c, s.demands.contract x = some c → ∃ c', u.demands.contract x = some c' ∧
    (c' = c ∨ c.generation < c'.generation)

theorem Supersedes.of_contract (h : u.demands.contract = s.demands.contract) : Supersedes s u :=
  fun _ c hc => ⟨c, h ▸ hc, .inl rfl⟩

theorem Supersedes.trans (h : Supersedes s t) (h' : Supersedes t u) : Supersedes s u := by
  intro x c hc
  obtain ⟨c', hc', hg⟩ := h x c hc
  obtain ⟨c'', hc'', hg'⟩ := h' x c' hc'
  refine ⟨c'', hc'', ?_⟩
  obtain rfl | hg := hg
  · exact hg'
  · obtain rfl | hg' := hg'
    · exact .inr hg
    · exact .inr (hg.trans hg')

/-- One contract is written, where there was none or one of an earlier generation. -/
theorem Supersedes.of_write {x : ℕ} {c : ResourceContract}
    (h : u.demands.contract = Function.update s.demands.contract x (some c))
    (hc : ∀ c', s.demands.contract x = some c' → c'.generation < c.generation) :
    Supersedes s u := by
  intro y c' hc'
  by_cases hy : y = x
  · subst hy
    exact ⟨c, by rw [h, Function.update_self], .inr (hc c' hc')⟩
  · exact ⟨c', by rw [h, Function.update_of_ne hy, hc'], .inl rfl⟩

/-- No plan is stamped with a generation that its virtual accelerator's contract has not reached. -/
def Stamped (s : VirtualizationState) : Prop :=
  ∀ (key : MigrationId) (m : MigrationRecord), s.migrations[key]? = some m →
    ∃ c, s.demands.contract m.plan.virtualId = some c ∧
      m.plan.contractGeneration ≤ c.generation

/-- Plans keep their stamp, or get the one of the contract in force. -/
def Restamps (s u : VirtualizationState) : Prop :=
  ∀ (key : MigrationId) (m' : MigrationRecord), u.migrations[key]? = some m' →
    (∃ m, s.migrations[key]? = some m ∧ m'.plan.virtualId = m.plan.virtualId ∧
      m'.plan.contractGeneration = m.plan.contractGeneration) ∨
    ∃ c, s.demands.contract m'.plan.virtualId = some c ∧
      m'.plan.contractGeneration = c.generation

theorem Restamps.of_migrations
    (h : ∀ key : MigrationId, u.migrations[key]? = s.migrations[key]?) : Restamps s u :=
  fun key m' hm' => .inl ⟨m', h key ▸ hm', rfl, rfl⟩

/-- What is stamped stays so while contracts only move on. -/
theorem Stamped.step (h : s.Stamped) (hr : Restamps s u) (hs : Supersedes s u) : u.Stamped := by
  intro key m' hm'
  obtain ⟨m, hm, hid, hg⟩ | ⟨c, hc, hg⟩ := hr key m' hm'
  · obtain ⟨c, hc, hle⟩ := h key m hm
    obtain ⟨c', hc', hnext⟩ := hs _ c hc
    refine ⟨c', hid ▸ hc', hg ▸ hle.trans ?_⟩
    obtain rfl | hlt := hnext
    · exact le_rfl
    · exact hlt.le
  · obtain ⟨c', hc', hnext⟩ := hs _ c hc
    refine ⟨c', hc', hg ▸ ?_⟩
    obtain rfl | hlt := hnext
    · exact le_rfl
    · exact hlt.le

/-- One migration is changed. -/
theorem Restamps.modify {id : MigrationId} {f : MigrationRecord → MigrationRecord}
    {M : IdMap MigrationRecord} (hM : ∀ key : MigrationId, M[key]? = s.migrations[key]?)
    (h : ∀ key : MigrationId, u.migrations[key]? = (M.modify id f)[key]?)
    (hf : ∀ m, s.migrations[id]? = some m → (f m).plan.virtualId = m.plan.virtualId ∧
      ((f m).plan.contractGeneration = m.plan.contractGeneration ∨
        ∃ c, s.demands.contract m.plan.virtualId = some c ∧
          (f m).plan.contractGeneration = c.generation)) :
    Restamps s u := by
  intro key m' hm'
  rw [h, Std.ExtTreeMap.getElem?_modify] at hm'
  split at hm'
  · rename_i heq
    obtain rfl := Nat.compare_eq_eq.mp heq
    obtain ⟨m, hm, rfl⟩ := Option.map_eq_some_iff.mp hm'
    rw [hM] at hm
    obtain ⟨hid, hkept | ⟨c, hc, hg⟩⟩ := hf m hm
    · exact .inl ⟨m, hm, hid, hkept⟩
    · exact .inr ⟨c, hid ▸ hc, hg⟩
  · rw [hM] at hm'
    exact .inl ⟨m', hm', rfl, rfl⟩

end VirtualizationState

/-! ### Migrations under way -/

namespace Impl

variable {σ : Type} {im im' : Impl σ}

/-- The record that a phase of a migration reads its stamp from has the contract in force. -/
theorem contract_of_demands {f : InFlight} (hw : im.state.WellKeyed) (hf : f.Current im.state)
    (h : im'.demands.contract = im.demands.contract) :
    im.state.demands.contract f.migration.plan.virtualId =
      some (im'.state.virtuals[f.virtualId]?.getD {}).contract := by
  have hid : f.record.id = f.virtualId := hw.keyed .virtual _ _ hf.owned.virtual
  have hbefore : im.state.demands.contract f.virtualId = some f.record.contract :=
    congrArg (Option.map VirtualAcceleratorRecord.contract) hf.owned.virtual
  have hafter : im'.state.demands.contract f.virtualId = some f.record.contract :=
    (congrFun h f.virtualId).trans hbefore
  obtain ⟨v, hv, hc⟩ := Option.map_eq_some_iff.mp
    (show (im'.state.virtuals[f.virtualId]?).map (·.contract) = some f.record.contract from hafter)
  rw [hf.virtual, hid, hbefore, hv, Option.getD_some, hc]

section Phases

variable {auth : Authority} {clock : Clock} {f : InFlight}

theorem restamps_prepareMigrationAct (hw : im.state.WellKeyed) (hf : f.Current im.state) :
    Restamps im.state (prepareMigrationAct auth clock f im).1.state := by
  have ht := (Confined.refl (closed_unfiled im.state)).transition (x := f.virtualId) nofun clock
    .migrating (txt "migration prepared; leases are drained before cutover")
  have hd := demands_transition im clock f.virtualId .migrating
    (txt "migration prepared; leases are drained before cutover")
  simp only [prepareMigrationAct]
  split <;> rename_i him <;> rw [him] at ht hd
  · exact .of_migrations (migrations_of_confined ht)
  · have hdrained := Confined.fenceLeases ht (x := f.virtualId) nofun
      (txt "migration drained the source backing; the lease is bound to the source generation")
      clock.now
    refine .modify (migrations_of_confined hdrained) (fun _ => rfl) fun m hm => ⟨rfl, .inr ?_⟩
    obtain rfl := Option.some.inj (hf.migration.symm.trans hm)
    refine ⟨_, contract_of_demands hw hf ?_, rfl⟩
    rw [demands_fenceLeases]
    exact congrArg Demands.contract hd

theorem restamps_completeMigrationAct :
    Restamps im.state (completeMigrationAct auth clock f im).1.state :=
  .modify (fun _ => rfl) (fun _ => rfl) fun _ _ => ⟨rfl, .inl rfl⟩

theorem restamps_abortMigrationAct (reason : Text) :
    Restamps im.state (abortMigrationAct auth reason clock f im).1.state := by
  obtain ⟨M, hM, h⟩ := migrations_abortMigrationAct reason
  exact .modify hM h fun _ _ => ⟨rfl, .inl rfl⟩

theorem restamps_commitMigrationAct {c : Cutover} (hw : im.state.WellKeyed)
    (hc : c.toInFlight.Current im.state) :
    Restamps im.state (commitMigrationAct auth clock c im).1.state := by
  refine .modify (fun _ => rfl) (fun _ => rfl) fun m hm => ⟨rfl, .inr ?_⟩
  obtain rfl := Option.some.inj (hc.migration.symm.trans hm)
  exact ⟨_, contract_of_demands hw hc (congrArg Demands.contract (demands_rebindVirtual im c _)),
    rfl⟩

end Phases

section Bodies

variable {clock : Clock} {op : Op} {b : Body σ Unit}

/-- A plan is stamped with the contract in force. -/
theorem restamps_planMigrationAct {auth : Authority} {destination : BackingId}
    {klass : MigrationClass} {plan : Owned × BackingRecord} (hw : im.state.WellKeyed)
    (ho : plan.1.Current im.state) :
    Restamps im.state (planMigrationAct auth destination klass clock plan im).1.state := by
  intro key m hm
  change (im.state.migrations.insert im.nextId _)[key]? = some m at hm
  rw [Std.ExtTreeMap.getElem?_insert] at hm
  split at hm
  · obtain rfl := Option.some.inj hm
    have hid : plan.1.record.id = plan.1.virtualId := hw.keyed .virtual _ _ ho.virtual
    refine .inr ⟨plan.1.record.contract, ?_, rfl⟩
    change (im.state.virtuals[plan.1.record.id]?).map _ = _
    rw [hid, ho.virtual, Option.map_some]
  · exact .inl ⟨m, hm, rfl, rfl⟩

theorem restamps_checked {π α : Type} {context : Impl σ → OpContext} {kind : AuditKind}
    {check : Impl σ → Except Status π} {act : π → Body σ α}
    (hact : ∀ plan, check im = .ok plan → Restamps im.state (act plan im).1.state) :
    Restamps im.state
      (checked (fun im => orRefuse (context im) kind (check im)) act im).1.state :=
  fst_checked (p := fun im' => Restamps im.state im'.state) (.of_migrations fun _ => rfl) hact

/-- Only plans and the phases of a migration stamp. -/
theorem restamps_body (hb : body clock op = some b) (hw : im.state.WellKeyed) :
    Restamps im.state (b im.beginOp).1.state := by
  have hs : Tracks im.beginOp ∅ im.beginOp := .beginOp (show im.beginOp.state.WellKeyed from hw)
  change Restamps im.beginOp.state _
  replace hw : im.beginOp.state.WellKeyed := hw
  generalize im.beginOp = i at hs hw
  by_cases hplan : ∃ auth destination klass, op = .planMigration auth destination klass
  · obtain ⟨auth, destination, klass, rfl⟩ := hplan
    simp only [body, Option.some.injEq] at hb
    subst hb
    exact restamps_checked fun plan hok =>
      restamps_planMigrationAct hw (planMigrationCheck_ok hok).1
  · cases hphase : op.phase
    · exact .of_migrations (migrations_of_confined (confined_body hb hs (closed_unfiled _)
        (fun _ hk _ _ => hk) (reaches_unfiled hphase fun auth destination klass heq =>
          hplan ⟨auth, destination, klass, heq⟩)))
    · cases op <;> simp only [Op.phase, Bool.false_eq_true] at hphase <;>
        simp only [body, Option.some.injEq] at hb <;> subst hb
      case prepareMigration =>
        exact restamps_checked fun f hok => restamps_prepareMigrationAct hw
          (prepareMigrationCheck_ok hok).1
      case commitMigration =>
        exact restamps_checked fun c hok => restamps_commitMigrationAct hw
          (commitMigrationCheck_ok hok).1
      case completeMigration => exact restamps_checked fun _ _ => restamps_completeMigrationAct
      case abortMigration => exact restamps_checked fun _ _ => restamps_abortMigrationAct _

/-- Whether an update of the contract, if it is accepted, submits a generation that is not behind
the one in force and that has a successor. -/
def raises (im : Impl σ) : Op → Bool
  | .updateContract auth contract =>
    match updateContractCheck auth contract im with
    | .error _ => true
    | .ok owned =>
      !(im.probeContract owned.record (contract.normalize im.options.sorting)).2.isOk ||
      decide (owned.record.contract.generation ≤ contract.generation ∧
        contract.generation + 1 < 2 ^ 64)
  | _ => true

theorem supersedes_checked {π α : Type} {context : Impl σ → OpContext} {kind : AuditKind}
    {check : Impl σ → Except Status π} {act : π → Body σ α}
    (hact : ∀ plan, check im = .ok plan → Supersedes im.state (act plan im).1.state) :
    Supersedes im.state
      (checked (fun im => orRefuse (context im) kind (check im)) act im).1.state :=
  fst_checked (p := fun im' => Supersedes im.state im'.state) (.of_contract rfl) hact

/-- An update that goes through had the backing accept the new contract. -/
theorem probeContract_of_updateContractAct {auth : Authority} {contract : ResourceContract}
    {owned : Owned} {accepted : Accepted VirtualAcceleratorRecord}
    (h : (updateContractAct auth contract clock owned im).2 = .ok accepted) :
    (im.probeContract owned.record (contract.normalize im.options.sorting)).2.isOk = true := by
  simp only [updateContractAct] at h
  split at h
  · cases h
  · rename_i hprobe
    rw [hprobe]
    rfl

/-- Then contracts only move on. -/
theorem supersedes_body (hb : body clock op = some b) (hw : im.state.WellKeyed)
    (hr : im.beginOp.raises op = true) : Supersedes im.state (b im.beginOp).1.state := by
  change Supersedes im.beginOp.state _
  replace hw : im.beginOp.state.WellKeyed := hw
  generalize im.beginOp = i at hw hr
  cases hop : op.submits
  · exact .of_contract (congrArg Demands.contract (demands_body hb hop))
  · cases op <;> simp only [Op.submits, Bool.false_eq_true] at hop <;>
      simp only [body, Option.some.injEq] at hb <;> subst hb
    case setPolicy auth policy =>
      refine supersedes_checked fun updated _ => .of_contract ?_
      have hset := @demands_setPolicyAct _ i auth clock updated
      exact (congrArg Demands.contract hset).trans rfl
    case createVirtual auth name owner ownerGeneration contract =>
      refine supersedes_checked fun tenant _ => ?_
      obtain ⟨id, generation, hd⟩ := @demands_createVirtualAct _ i auth clock name owner
        ownerGeneration contract tenant
      refine .of_write (congrArg Demands.contract hd) fun c hc => ?_
      have hnone : i.state.virtuals[i.nextId]? = none := hw.fresh .virtual le_rfl
      change (i.state.virtuals[i.nextId]?).map _ = some c at hc
      rw [hnone] at hc
      cases hc
    case updateContract auth contract =>
      refine supersedes_checked fun owned hok => ?_
      have hcurrent := (updateContractCheck_ok hok).1
      obtain ⟨-, hd⟩ | ⟨accepted, id, hacc, hd⟩ :=
        @demands_updateContractAct _ i auth clock contract owned hcurrent
      · exact .of_contract (congrArg Demands.contract hd)
      · refine .of_write (congrArg Demands.contract hd) fun c hc => ?_
        obtain rfl : owned.record.contract = c :=
          Option.some.inj ((congrArg (Option.map _) hcurrent.virtual).symm.trans hc)
        have hprobe := probeContract_of_updateContractAct hacc
        simp only [raises, hok, hprobe, Bool.not_true, Bool.false_or, decide_eq_true_eq] at hr
        obtain ⟨hle, hlt⟩ := hr
        change _ < (contract.generation + 1) % 2 ^ 64
        rw [Nat.mod_eq_of_lt hlt]
        exact Nat.lt_succ_of_le hle

end Bodies

/-! ### Starts -/

theorem restamps_classifyMigration (now : UnixMicros) (acc : Impl σ × Bool) (key : MigrationId) :
    Restamps acc.1.state (classifyMigration now acc key).1.state := by
  simp only [classifyMigration]
  split
  · exact .of_migrations fun _ => rfl
  · rename_i m hm
    split
    · exact .of_migrations fun _ => rfl
    · split
      · exact .modify (fun _ => rfl) (fun _ => rfl) fun _ _ => ⟨rfl, .inl rfl⟩
      · split
        · exact .of_migrations fun _ => rfl
        · refine .modify (fun _ => rfl) (fun j => congrArg (fun M : IdMap MigrationRecord => M[j]?)
            (migrations_abortRecovered acc.1 now key m)) fun _ _ => ⟨rfl, .inl rfl⟩

theorem stamped_classified (h : im.state.Stamped) (now : UnixMicros) :
    (im.classified now).1.state.Stamped := by
  refine List.foldlRecOn _ _ (motive := fun acc : Impl σ × Bool => acc.1.state.Stamped) h
    fun acc hacc key _ => ?_
  exact hacc.step (restamps_classifyMigration now acc key)
    (.of_contract (congrArg Demands.contract (demands_classifyMigration now acc key)))

theorem stamped_of_unfiled (h : im.state.Stamped) (hc : Confined unfiled im im')
    (hd : im'.demands.contract = im.demands.contract) : im'.state.Stamped :=
  h.step (.of_migrations (migrations_of_confined hc)) (.of_contract hd)

end Impl

namespace VirtualizationState

variable {s t : VirtualizationState}

theorem respects_stamped {T : Prop} : Respects T Stamped := by
  intro s t h hs key m hm
  have hm' : s.migrations[key]? = some m := by
    rw [show s.migrations = t.migrations from h.entities .migration nofun]
    exact hm
  obtain ⟨c, hc, hle⟩ := hs key m hm'
  exact ⟨c, (congrFun (congrArg Demands.contract h.demands) _).trans hc, hle⟩

end VirtualizationState

namespace Impl

variable {im im' : Impl Disk}

/-- Whether an event is no update of a contract that goes back. -/
def raising (im : Impl Disk) : Event → Bool
  | .op op _ answer => !(im.answering answer).writable ||
    (im.answering answer).raises ((im.answering answer).resolve op)
  | _ => true

/-- What the backing says of a contract depends on the state and on the options. -/
theorem probeContract_of_state (h : im'.state = im.state) (ho : im'.options = im.options)
    (record : VirtualAcceleratorRecord) (contract : ResourceContract) :
    (im'.probeContract record contract).2 = (im.probeContract record contract).2 := by
  unfold probeContract nextId
  rw [h, ho]
  cases im.state.backings[record.backing]? <;> rfl

theorem raises_beginOp {op : Op} : im.beginOp.raises op = im.raises op := by
  cases op <;> try rfl
  case updateContract auth contract =>
    have hprobe := @probeContract_of_state im im.beginOp rfl rfl
    simp only [raises, hprobe]
    rfl

theorem raises_answering {op : Op} (answer : Check) :
    (im.answering answer).raises op = im.raises op := by
  cases op <;> try rfl
  case updateContract auth contract =>
    have hprobe := @probeContract_of_state im (im.answering answer) rfl rfl
    simp only [raises, hprobe]
    rfl

theorem invariant_stamped {T : Prop} : Invariant T Stamped where
  respects := respects_stamped
  empty := fun key m hm => by simp at hm
  classified now h := stamped_classified h.holds now
  shutdown clock h := stamped_of_unfiled h.holds
    (confined_shutdownBody (closed_unfiled _) (fun _ _ hk _ _ => hk) clock)
    (congrArg Demands.contract (demands_shutdownBody clock))

theorem keeps_stamped (h : Kept False Stamped im) {event : Event}
    (hr : im.raising event = true) : Keeps False Stamped im event where
  body op clock answer hevent b hb hwritable := by
    subst hevent
    have hs := (h.answering answer).state
    exact hs.holds.step (restamps_body hb hs.wellKeyed)
      (supersedes_body hb hs.wellKeyed (raises_beginOp.trans (of_writable hr hwritable)))
  start clock _ base recovered hs _ := stamped_of_unfiled hs.holds
    (confined_startBody (closed_unfiled _) (fun _ _ hk _ _ => hk) clock recovered)
    (demands_startBody clock recovered).1
  written := nofun

theorem carries_supersedes (h : Kept False Stamped im) {event : Event}
    (hr : im.raising event = true) : Carries Stamped Supersedes im event where
  refl _ := .of_contract rfl
  trans _ _ _ := .trans
  congr s s' t t' hs ht h x c hc := by
    simp only [VirtualizationState.demands, hs.1, ← ht.1] at hc ⊢
    exact h x c hc
  blank s t hs x c hc := by
    simp only [blank, Bool.and_eq_true, Std.ExtTreeMap.isEmpty_iff] at hs
    simp [VirtualizationState.demands, hs.1.1] at hc
  respects := respects_stamped
  body op clock answer hevent b hb hwritable := by
    subst hevent
    exact supersedes_body hb (h.answering answer).state.wellKeyed
      (raises_beginOp.trans (of_writable hr hwritable))
  classified clock _ i hi := ⟨stamped_classified hi.holds clock.now,
    .of_contract (congrArg Demands.contract (demands_classified i clock.now))⟩
  start clock _ i recovered hi := ⟨stamped_of_unfiled hi.holds
      (confined_startBody (closed_unfiled _) (fun _ _ hk _ _ => hk) clock recovered)
      (demands_startBody clock recovered).1,
    .of_contract (demands_startBody clock recovered).1⟩
  shutdown clock _ i _ := .of_contract (congrArg Demands.contract (demands_shutdownBody clock))

/-! ### Updates -/

/-- An update that succeeds passed its checks and had the backing accept the new contract, which
then has the successor of the generation that was submitted. -/
theorem updateContract_succeeded {clock : Clock} {auth : Authority} {contract : ResourceContract}
    (hw : im.state.WellKeyed) (hok : (im.exec clock (.updateContract auth contract)).2 = .ok ()) :
    ∃ owned, updateContractCheck auth contract im = .ok owned ∧
      (im.probeContract owned.record (contract.normalize im.options.sorting)).2.isOk = true ∧
      ∃ c, (im.exec clock (.updateContract auth contract)).1.state.demands.contract
          owned.virtualId = some c ∧ c.generation = (contract.generation + 1) % 2 ^ 64 := by
  have hr := @demands_checked_operation _ clock (.updateContract auth contract) _ _ _ _ _ _ hw rfl
  obtain ⟨owned, accepted, hc, hacc, -, hd⟩ | ⟨⟨failure, hfailed⟩, -⟩ := hr
  · have hcurrent := (updateContractCheck_ok hc).1
    refine ⟨owned, hc, ?_, ?_⟩
    · have hprobe := probeContract_of_updateContractAct hacc
      rwa [@probeContract_of_state im im.beginOp rfl rfl] at hprobe
    · obtain ⟨⟨refusal, hrefused⟩, -⟩ | ⟨_, id, -, hupdate⟩ :=
        @demands_updateContractAct _ im.beginOp auth clock contract owned hcurrent
      · rw [hrefused] at hacc
        cases hacc
      · have hafter := congrFun (congrArg Demands.contract (hd.trans hupdate)) owned.virtualId
        exact ⟨_, hafter.trans (Function.update_self ..), rfl⟩
  · change (forget (im.updateContract clock auth contract)).2 = .ok () at hok
    rw [forget, show (im.updateContract clock auth contract).2 = _ from hfailed] at hok
    cases hok

/-- An update that passes its checks and whose contract the backing accepts goes through. -/
theorem updateContract_admitted {clock : Clock} {auth : Authority} {contract : ResourceContract}
    {owned : Owned} (hw : im.state.WellKeyed)
    (hc : updateContractCheck auth contract im = .ok owned)
    (hp : (im.probeContract owned.record (contract.normalize im.options.sorting)).2.isOk = true)
    (hwritable : im.writable = true) :
    (im.exec clock (.updateContract auth contract)).2 = .ok () := by
  refine (exec_eq_ok_iff rfl hw).mpr ⟨accepts_forget.mpr ?_, hwritable⟩
  have hcheck : updateContractCheck auth contract im.beginOp = .ok owned := hc
  have hp' : (im.beginOp.probeContract owned.record
      (contract.normalize im.beginOp.options.sorting)).2.isOk = true := by
    rw [@probeContract_of_state im im.beginOp rfl rfl]
    exact hp
  simp only [updateContractBody, checked, orRefuse, hcheck, Refusal.mapError_ok, updateContractAct]
  split
  · rename_i hprobe
    rw [hprobe] at hp'
    cases hp'
  · exact ⟨_, rfl⟩

theorem virtualId_of_updateContractCheck {auth : Authority} {contract : ResourceContract}
    {owned : Owned} (h : updateContractCheck auth contract im = .ok owned) :
    auth.virtualId = some owned.virtualId := by
  simp only [updateContractCheck, bind_eq_ok, pure_eq_ok] at h
  obtain ⟨-, -, -, -, _, ho, _, -, _, -, rfl⟩ := h
  exact virtualId_of_resolveOwned ho

/-- An update that succeeds takes the contract to a later generation. -/
def GrowsContract (im : Impl Disk) (clock : Clock) (auth : Authority)
    (contract : ResourceContract) :
    Prop :=
  ∀ answer, ((im.answering answer).exec clock (.updateContract auth contract)).2 = .ok () →
    ∀ (x : VirtualAcceleratorId) (v v' : VirtualAcceleratorRecord), auth.virtualId = some x →
      im.state.virtuals[x]? = some v →
      ((im.answering answer).exec clock (.updateContract auth contract)).1.state.virtuals[x]? =
        some v' → v.contract.generation < v'.contract.generation

/-- A plan made by then is stale once the contract has been replaced, by its contract generation. -/
def Outdates (im im' : Impl Disk) : Prop :=
  ∀ (key : MigrationId) (m m' : MigrationRecord) (v v' : VirtualAcceleratorRecord),
    im.lasting.migrations[key]? = some m → im.lasting.virtuals[m.plan.virtualId]? = some v →
    im'.state.migrations[key]? = some m' → m'.plan = m.plan →
    im'.state.virtuals[m.plan.virtualId]? = some v' → v'.contract ≠ v.contract →
    m'.plan.contractGeneration < v'.contract.generation ∧
      planStaleness m' v' im'.state ≠ .ok ()

end Impl

/-- In every state of every run, an update of a contract takes it to a later generation if and only
if the store takes no change sets, or it is refused, or it submits a generation that is not behind
the one in force and that has a successor. Along a run whose updates do, a plan that was made under
an earlier contract is stale by its contract generation. -/
theorem growsContract_iff {options : RuntimeOptions} {stored : Bool} {events : List Event}
    {im : Impl Disk} (h : (Impl.initial options stored).run events = some im) :
    (∀ clock auth contract, contract.generation < 2 ^ 64 →
      (im.GrowsContract clock auth contract ↔
        im.takes = false ∨ im.raises (.updateContract auth contract) = true)) ∧
    ((Impl.initial options stored).throughout Impl.raising events = true →
      ∀ later im', im.throughout Impl.raising later = true →
        im.throughout Impl.lossless later = true → im.run later = some im' → im.Outdates im') := by
  have hw : ∀ answer, (im.answering answer).state.WellKeyed := fun answer =>
    ((Impl.coherent_of_run h).answering answer).state.wellKeyed
  refine ⟨fun clock auth contract hword => ⟨fun hgrows => ?_, fun hcond answer hok => ?_⟩,
    fun hraise later im' hraise' hlossless hrun => ?_⟩
  · by_contra hno
    simp only [not_or, Bool.not_eq_false, Impl.raises] at hno
    obtain ⟨htakes, hback⟩ := hno
    split at hback
    · exact hback rfl
    · rename_i owned hc
      simp only [Bool.or_eq_true, Bool.not_eq_true', not_or, Bool.not_eq_false,
        decide_eq_true_eq] at hback
      -- the call that lowers the generation would be accepted by a working store
      have hprobe := (@Impl.probeContract_of_state im (im.answering (.ok ())) rfl rfl owned.record
        (contract.normalize im.options.sorting)).symm ▸ hback.1
      have hok : ((im.answering (.ok ())).exec clock (.updateContract auth contract)).2 = .ok () :=
        Impl.updateContract_admitted (hw (.ok ())) hc hprobe htakes
      obtain ⟨owned', hc', -, c, hafter, hgeneration⟩ :=
        Impl.updateContract_succeeded (hw (.ok ())) hok
      obtain rfl : owned' = owned := Except.ok.inj (hc'.symm.trans hc)
      obtain ⟨v', hv', rfl⟩ := Option.map_eq_some_iff.mp hafter
      have hcurrent := (Impl.updateContractCheck_ok hc).1
      have hlt := hgrows (.ok ()) hok owned'.virtualId owned'.record v'
        (Impl.virtualId_of_updateContractCheck hc) hcurrent.virtual hv'
      rw [hgeneration] at hlt
      refine hback.2 ?_
      obtain hlast | hlast := Nat.lt_or_eq_of_le (Nat.succ_le_of_lt hword)
      · rw [Nat.mod_eq_of_lt hlast] at hlt
        exact ⟨Nat.le_of_lt_succ hlt, hlast⟩
      · rw [show contract.generation + 1 = 2 ^ 64 from hlast, Nat.mod_self] at hlt
        cases hlt
  · intro x v v' hx hv hv'
    obtain ⟨owned, hc, hp, c, hafter, hgeneration⟩ := Impl.updateContract_succeeded (hw answer) hok
    obtain rfl : owned.virtualId = x :=
      Option.some.inj ((Impl.virtualId_of_updateContractCheck hc).symm.trans hx)
    obtain rfl : owned.record = v :=
      Option.some.inj ((Impl.updateContractCheck_ok hc).1.virtual.symm.trans hv)
    obtain rfl : v'.contract = c :=
      Option.some.inj ((congrArg (Option.map _) hv').symm.trans hafter)
    obtain htakes | hraises := hcond
    · have hwritable : (im.answering answer).writable = true :=
        ((Impl.exec_eq_ok_iff rfl (hw answer)).mp hok).2
      exact absurd (htakes.symm.trans (Impl.takes_of_writable hwritable)) nofun
    · rw [← Impl.raises_answering answer] at hraises
      simp only [Impl.raises, hc, hp, Bool.not_true, Bool.false_or, decide_eq_true_eq] at hraises
      obtain ⟨hle, hlt⟩ := hraises
      rw [hgeneration, Nat.mod_eq_of_lt hlt]
      exact Nat.lt_succ_of_le hle
  · have hi : Impl.Invariant False Stamped := Impl.invariant_stamped
    have hcon := Impl.consistent_of_run h
    -- what a plan recorded is a lower bound from then on
    have hk : Impl.Kept False Stamped im := (Impl.kept_initial hi options stored).run hi
      (fun _ _ hk hc => Impl.keeps_stamped hk hc) h hraise
    have hs : Supersedes im.lasting im'.lasting := Impl.Carries.run hi
      (fun _ _ hk hc => Impl.keeps_stamped hk hc) (fun _ _ hk hc => Impl.carries_supersedes hk hc)
      (fun _ => .of_contract rfl) (fun _ _ _ => .trans) hk hcon hrun hlossless hraise'
    have hlasts : im'.Lasts := Impl.lasts_run hcon (Impl.lasts_of_run h) hrun
    intro key m m' v v' hm hv hm' hplan hv' hne
    obtain ⟨c, hc, hle⟩ := (Impl.sound_lasting hk).holds key m hm
    obtain rfl : v.contract = c := Option.some.inj ((congrArg (Option.map _) hv).symm.trans hc)
    obtain ⟨c', hc', hnext⟩ := hs _ _ hc
    have hlast : im'.lasting.virtuals[m.plan.virtualId]? = some v' := hlasts.virtuals hv'
    obtain rfl : v'.contract = c' :=
      Option.some.inj ((congrArg (Option.map _) hlast).symm.trans hc')
    have hlt : m'.plan.contractGeneration < v'.contract.generation :=
      (hplan ▸ hle).trans_lt (hnext.resolve_left hne)
    refine ⟨hlt, fun hfresh => ?_⟩
    simp only [planStaleness, guard_bind_eq_ok] at hfresh
    exact hlt.ne (not_not.mp hfresh.2.2.2.1)

namespace Sample

/-- The contract of virtual accelerator 14 is replaced by one that is submitted with a
generation. -/
def renewed (generation : Generation) : Op :=
  .updateContract (owner 14 2) { contract with generation }

end Sample

/-- The first contract is replaced by one that is submitted with its generation. -/
theorem growsContract_renewed : ∃ im im', (Impl.initial {} true).run Sample.planned = some im ∧
    im.run [Sample.call (Sample.renewed 1)] = some im' ∧
    im.GrowsContract Sample.clock (Sample.owner 14 2) { Sample.contract with generation := 1 } ∧
    im.Outdates im' := by
  have hrun : (((Impl.initial {} true).run Sample.planned).any fun im =>
      im.raises (Sample.renewed 1) && (im.run [Sample.call (Sample.renewed 1)]).isSome &&
        im.throughout Impl.raising [Sample.call (Sample.renewed 1)] &&
        im.throughout Impl.lossless [Sample.call (Sample.renewed 1)]) = true := by
    decide +kernel
  have hraise : (Impl.initial {} true).throughout Impl.raising Sample.planned = true := by
    decide +kernel
  obtain ⟨im, him, hgood⟩ := (Option.any_eq_true _ _).mp hrun
  simp only [Bool.and_eq_true] at hgood
  obtain ⟨⟨⟨hraises, hsome⟩, hlater⟩, hlossless⟩ := hgood
  obtain ⟨im', him'⟩ := Option.isSome_iff_exists.mp hsome
  obtain ⟨hgrows, houtdates⟩ := growsContract_iff him
  exact ⟨im, im', him, him', (hgrows _ _ _ (by decide)).mpr (.inr hraises),
    houtdates hraise _ im' hlater hlossless him'⟩

/-- Submitted with generation zero, the contract that replaces the first one has its generation, and
the plan made under the first one has the generation of the contract in force. -/
theorem not_growsContract_renewed : ∃ im im',
    (Impl.initial {} true).run Sample.planned = some im ∧
    im.run [Sample.call (Sample.renewed 0)] = some im' ∧
    ¬ im.GrowsContract Sample.clock (Sample.owner 14 2) { Sample.contract with generation := 0 } ∧
    ¬ im.Outdates im' := by
  have hrun : (((Impl.initial {} true).run Sample.planned).any fun im =>
      let (im', result) := (im.answering (.ok ())).exec Sample.clock (Sample.renewed 0)
      result.isOk && im.state.virtuals[14]?.any fun v => im.lasting.virtuals[14]?.any fun w =>
        im'.state.virtuals[14]?.any fun v' => im.lasting.migrations[28]?.any fun m =>
          im'.state.migrations[28]?.any fun m' =>
            decide (v'.contract.generation = v.contract.generation ∧ m.plan.virtualId = 14 ∧
              m'.plan = m.plan ∧ v'.contract.id ≠ w.contract.id ∧
              m'.plan.contractGeneration = v'.contract.generation)) = true := by
    decide +kernel
  obtain ⟨im, him, hbad⟩ := (Option.any_eq_true _ _).mp hrun
  dsimp only at hbad
  rw [Bool.and_eq_true] at hbad
  obtain ⟨hok, hbad⟩ := hbad
  obtain ⟨v, hv, hbad⟩ := (Option.any_eq_true _ _).mp hbad
  obtain ⟨w, hw, hbad⟩ := (Option.any_eq_true _ _).mp hbad
  obtain ⟨v', hv', hbad⟩ := (Option.any_eq_true _ _).mp hbad
  obtain ⟨m, hm, hbad⟩ := (Option.any_eq_true _ _).mp hbad
  obtain ⟨m', hm', hbad⟩ := (Option.any_eq_true _ _).mp hbad
  obtain ⟨hsame, hid, hplan, hne, hstamp⟩ := of_decide_eq_true hbad
  obtain ⟨_, hok⟩ := isOk_iff.mp hok
  refine ⟨im, _, him, rfl, fun hgrows => ?_, fun houtdates => ?_⟩
  · exact (hgrows (.ok ()) hok 14 v v' rfl hv hv').ne' hsame
  · have hstale := (houtdates 28 m m' w v' hm (hid.symm ▸ hw) hm' hplan (hid.symm ▸ hv')
      fun heq => hne (congrArg ResourceContract.id heq)).1
    exact hstale.ne hstamp

end AcceleratorVirtualization
