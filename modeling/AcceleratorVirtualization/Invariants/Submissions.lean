import AcceleratorVirtualization.Invariants.Acceptance
import AcceleratorVirtualization.Invariants.Chronicle
import AcceleratorVirtualization.Invariants.Demands
import AcceleratorVirtualization.Invariants.Histories
import AcceleratorVirtualization.Invariants.Requirements

/-!
# What was submitted

A policy and a contract are recorded as they are after the merging of their requirements. Beside a
run this follows the lists of requirements as they were submitted: those of the policy that was
accepted last, and for every virtual accelerator those of its contract that was accepted last. A
process that starts over its store goes on from what the store was told.
-/

namespace AcceleratorVirtualization

open Refusal VirtualizationState

/-- A list of requirements as it was submitted, and the sort it was merged with. -/
structure Petition where
  asked : List IsolationRequirement := []
  sorting : Sorting := .insertion

/-- What is kept of it. -/
def Petition.kept (l : Petition) : List IsolationRequirement :=
  normalizeRequirements l.sorting l.asked

/-- The requirements as they were submitted last: with the policy, if one was, and with the contract
of every virtual accelerator. -/
structure Submitted where
  policy : Option Petition := none
  contract : VirtualAcceleratorId → Petition := fun _ => { }

namespace Submitted

/-- All that is required for a virtual accelerator. -/
def required (g : Submitted) (id : VirtualAcceleratorId) : List IsolationRequirement :=
  (g.contract id).asked ++ (g.policy.map (·.asked)).getD []

/-- What is kept of it where it is merged, with the policy in force if none was submitted. -/
def merged (g : Submitted) (sorting : Sorting) (inForce : VirtualizationPolicy)
    (id : VirtualAcceleratorId) : List IsolationRequirement :=
  normalizeRequirements sorting
    ((g.contract id).kept ++ (g.policy.map (·.kept)).getD inForce.requiredIsolation)

/-- A contract is submitted to a process with this sort. -/
def enter (g : Submitted) (id : VirtualAcceleratorId) (contract : ResourceContract)
    (sorting : Sorting) : Submitted :=
  { g with contract := Function.update g.contract id ⟨contract.requiredIsolation, sorting⟩ }

/-- A call that is accepted is heard. -/
def hear (g : Submitted) (im : Impl Disk) (clock : Clock) : Op → Submitted
  | .setPolicy auth policy =>
    match (im.setPolicy clock auth policy).2 with
    | .ok _ => { g with policy := some ⟨policy.requiredIsolation, im.options.sorting⟩ }
    | .error _ => g
  | .createVirtual auth name owner ownerGeneration contract =>
    match (im.createVirtual clock auth name owner ownerGeneration contract).2 with
    | .ok v => g.enter v.id contract im.options.sorting
    | .error _ => g
  | .updateContract auth contract =>
    match (im.updateContract clock auth contract).2 with
    | .ok _ => g.enter (auth.virtualId.getD 0) contract im.options.sorting
    | .error _ => g
  | _ => g

end Submitted

/-- What the process was told, and what of it the image of its store has. -/
structure Hearsay where
  live : Submitted := {}
  stored : Submitted := {}

namespace Hearsay

/-- What has been heard after an event: a call adds what it submitted, a start falls back on what
was stored. -/
def after (h : Hearsay) (im : Impl Disk) : Event → Hearsay
  | .op op clock answer =>
    let live := h.live.hear (im.answering answer) clock op
    { live, stored := if im.keepsImage then live else h.stored }
  | .start _ =>
    if im.running then h
    else
      let live := match im.store with
        | none => h.live
        | some d => if d.image.isSome then h.stored else {}
      { live, stored := live }
  | .shutdown _ => if im.running then { h with stored := h.live } else h
  | .compact => if im.store.any (·.opened) then { h with stored := h.live } else h
  | .boot _ => { h with live := {} }

/-- What was submitted in a run. -/
def along (h : Hearsay) (im : Impl Disk) : List Event → Hearsay
  | [] => h
  | event :: events =>
    match im.step event with
    | some im' => (h.after im event).along im' events
    | none => h

end Hearsay

/-! ### What is recorded -/

/-- What is recorded are the submitted requirements, merged. -/
structure Demands.Follows (g : Submitted) (D : Demands) : Prop where
  policy : ∀ l, g.policy = some l →
    valid D.generation = true ∧ D.policy.requiredIsolation = l.kept
  contract : ∀ id c, D.contract id = some c → c.requiredIsolation = (g.contract id).kept

namespace Demands

variable {g : Submitted} {D : Demands} {sorting : Sorting}

theorem Follows.write (h : D.Follows g) {id : ℕ} {recorded contract : ResourceContract}
    (hc : recorded.requiredIsolation =
      normalizeRequirements sorting contract.requiredIsolation) :
    (D.write id recorded).Follows (g.enter id contract sorting) := by
  refine ⟨h.policy, fun id' c hid' => ?_⟩
  by_cases hid : id' = id
  · subst hid
    obtain rfl : recorded = c := by simpa [Demands.write] using hid'
    simpa [Submitted.enter, Petition.kept] using hc
  · have hold : D.contract id' = some c := by simpa [Demands.write, hid] using hid'
    simpa [Submitted.enter, hid] using h.contract id' c hold

theorem Follows.enterPolicy (h : D.Follows g) {generation : Generation}
    {recorded policy : VirtualizationPolicy} (hg : valid generation = true)
    (hp : recorded.requiredIsolation = normalizeRequirements sorting policy.requiredIsolation) :
    Follows { g with policy := some ⟨policy.requiredIsolation, sorting⟩ }
      { D with policy := recorded, generation } := by
  refine ⟨?_, h.contract⟩
  rintro _ ⟨⟩
  exact ⟨hg, hp⟩

end Demands

namespace VirtualizationState

variable {g : Submitted} {s t : VirtualizationState}

/-- The demands of the state are those that were submitted. -/
def Follows (g : Submitted) (s : VirtualizationState) : Prop := s.demands.Follows g

theorem Follows.congr (h : s.Follows g) (hd : t.demands = s.demands) : t.Follows g := by
  rw [Follows, hd]
  exact h

theorem Alike.demands {T : Prop} (h : s.Alike T t) : t.demands = s.demands := by
  have hv : s.virtuals = t.virtuals := h.entities .virtual nofun
  simp only [VirtualizationState.demands, h.policy, h.policyGeneration, hv]

theorem respects_follows {T : Prop} : Respects T (Follows g) := fun _ _ h hs => hs.congr h.demands

theorem follows_empty : ({} : VirtualizationState).Follows {} :=
  ⟨nofun, fun id c hc => by simp [VirtualizationState.demands] at hc⟩

end VirtualizationState

namespace Impl

variable {im s im' : Impl Disk} {r : Impl Disk × Except Failure Unit} {clock : Clock} {op : Op}

/-- An operation that checks before it acts leaves of what is asked what its act makes of it; if it
is refused, or the store does not take the change set, it fails and leaves everything. -/
theorem demands_checked_operation {π α : Type} {context : Impl Disk → OpContext} {kind : AuditKind}
    {check : Impl Disk → Except Status π} {act : π → Body Disk α} (hw : im.state.WellKeyed)
    (hb : body clock (im.resolve op) =
      some (Body.forget (checked (fun im => orRefuse (context im) kind (check im)) act))) :
    let r := im.operation clock (checked (fun im => orRefuse (context im) kind (check im)) act)
    (∃ plan accepted, check im.beginOp = .ok plan ∧ (act plan im.beginOp).2 = .ok accepted ∧
      r.2 = .ok accepted.result ∧ r.1.demands = (act plan im.beginOp).1.demands) ∨
    (∃ failure, r.2 = .error failure) ∧
      (r.1.demands = im.demands ∨ ∃ plan refusal, check im.beginOp = .ok plan ∧
        (act plan im.beginOp).2 = .error refusal ∧
        r.1.demands = (act plan im.beginOp).1.demands) :=
  view_checked_operation (fun _ _ _ h => h.demands) hw hb

/-! ### What is heard is recorded -/

variable {g : Submitted}

theorem virtualId_of_resolveOwned {s : VirtualizationState} {auth : Authority} {o : Owned}
    (h : s.resolveOwned auth = .ok o) : auth.virtualId = some o.virtualId := by
  simp only [resolveOwned, bind_eq_ok, pure_eq_ok] at h
  obtain ⟨t, -, v, hv, _, -, rfl⟩ := h
  exact (resolveVirtual_eq_ok.mp hv).1

theorem follows_setPolicy {auth : Authority} {policy : VirtualizationPolicy}
    (h : im.state.Follows g) (hw : im.state.WellKeyed) :
    (im.setPolicy clock auth policy).1.state.Follows
      (g.hear im clock (.setPolicy auth policy)) := by
  have hr := @demands_checked_operation _ clock (.setPolicy auth policy) _ _ _ _ _ _ hw rfl
  simp only [Submitted.hear]
  obtain ⟨updated, accepted, hc, hacc, hok, hd⟩ |
    ⟨⟨failure, hfailed⟩, hd | ⟨plan, refusal, -, hrefused, -⟩⟩ := hr
  · obtain ⟨rfl, -⟩ := setPolicyCheck_ok hc
    rw [show (im.setPolicy clock auth policy).2 = _ from hok]
    refine Follows.congr ?_ hd
    have hset := @demands_setPolicyAct _ im.beginOp auth clock
      (policy.normalize im.beginOp.options.sorting)
    rw [Follows, show (setPolicyAct auth clock (policy.normalize im.beginOp.options.sorting)
      im.beginOp).1.state.demands = _ from hset]
    exact Demands.Follows.enterPolicy h (by simp [valid]) rfl
  · rw [show (im.setPolicy clock auth policy).2 = _ from hfailed]
    exact h.congr hd
  · cases hrefused

theorem follows_createVirtual {auth : Authority} {name : Text} {owner : TenantId}
    {ownerGeneration : Generation} {contract : ResourceContract} (h : im.state.Follows g)
    (hw : im.state.WellKeyed) :
    (im.createVirtual clock auth name owner ownerGeneration contract).1.state.Follows
      (g.hear im clock (.createVirtual auth name owner ownerGeneration contract)) := by
  have hr := @demands_checked_operation _ clock
    (.createVirtual auth name owner ownerGeneration contract) _ _ _ _ _ _ hw rfl
  simp only [Submitted.hear]
  obtain ⟨tenant, accepted, hc, hacc, hok, hd⟩ |
    ⟨⟨failure, hfailed⟩, hd | ⟨plan, refusal, -, hrefused, -⟩⟩ := hr
  · rw [show (im.createVirtual clock auth name owner ownerGeneration contract).2 = _ from hok]
    obtain ⟨id, generation, hcreate⟩ := @demands_createVirtualAct _ im.beginOp auth clock
      name owner ownerGeneration contract tenant
    have hid : accepted.result.id = im.beginOp.nextId := by
      simp only [createVirtualAct, Except.ok.injEq] at hacc
      rw [← hacc]
      rfl
    refine Follows.congr ?_ hd
    rw [Follows, show (createVirtualAct auth name owner ownerGeneration contract clock tenant
      im.beginOp).1.state.demands = _ from hcreate]
    dsimp only
    rw [hid]
    exact Demands.Follows.write h rfl
  · rw [show (im.createVirtual clock auth name owner ownerGeneration contract).2 = _ from hfailed]
    exact h.congr hd
  · cases hrefused

theorem follows_updateContract {auth : Authority} {contract : ResourceContract}
    (h : im.state.Follows g) (hw : im.state.WellKeyed) :
    (im.updateContract clock auth contract).1.state.Follows
      (g.hear im clock (.updateContract auth contract)) := by
  have hr := @demands_checked_operation _ clock (.updateContract auth contract) _ _ _ _ _ _ hw rfl
  simp only [Submitted.hear]
  obtain ⟨owned, accepted, hc, hacc, hok, hd⟩ |
    ⟨⟨failure, hfailed⟩, hd | ⟨owned, refusal, hc, hrefused, hd⟩⟩ := hr
  · rw [show (im.updateContract clock auth contract).2 = _ from hok]
    have hcurrent := (updateContractCheck_ok hc).1
    obtain ⟨⟨refusal, hrefused⟩, -⟩ | ⟨_, id, -, hupdate⟩ :=
      @demands_updateContractAct _ im.beginOp auth clock contract owned hcurrent
    · rw [hrefused] at hacc
      cases hacc
    · refine Follows.congr ?_ hd
      rw [Follows, show (updateContractAct auth contract clock owned im.beginOp).1.state.demands = _
        from hupdate]
      have hid : auth.virtualId = some owned.virtualId := by
        simp only [updateContractCheck, bind_eq_ok, pure_eq_ok] at hc
        obtain ⟨-, -, -, -, _, ho, _, -, _, -, rfl⟩ := hc
        exact virtualId_of_resolveOwned ho
      dsimp only
      rw [hid, Option.getD_some]
      exact Demands.Follows.write h rfl
  · rw [show (im.updateContract clock auth contract).2 = _ from hfailed]
    exact h.congr hd
  · rw [show (im.updateContract clock auth contract).2 = _ from hfailed]
    obtain ⟨-, hsame⟩ | ⟨_, id, hacc, -⟩ := @demands_updateContractAct _ im.beginOp auth clock
      contract owned (updateContractCheck_ok hc).1
    · exact h.congr (hd.trans hsame)
    · rw [hacc] at hrefused
      cases hrefused

/-- An operation that submits nothing is heard by nobody. -/
theorem hear_of_silent {op : Op} (hop : op.submits = false) : g.hear im clock op = g := by
  cases op <;> first | rfl | cases hop

theorem submits_resolve : (im.resolve op).submits = op.submits := by
  cases op <;> try rfl
  simp only [resolve]
  split
  · split <;> rfl
  · rfl

/-- What is recorded follows what was submitted. -/
theorem follows_exec (h : im.state.Follows g) (hw : im.state.WellKeyed) :
    (im.exec clock op).1.state.Follows (g.hear im clock op) := by
  cases hop : op.submits with
  | true =>
    cases op
    case setPolicy => exact follows_setPolicy h hw
    case createVirtual => exact follows_createVirtual h hw
    case updateContract => exact follows_updateContract h hw
    all_goals cases hop
  | false =>
    rw [hear_of_silent hop]
    refine state_exec respects_follows hw h fun _ => ⟨h, fun b hb => ?_, fun _ => ?_⟩
    · exact h.congr (demands_body hb (submits_resolve.trans hop))
    · exact h.congr (demands_classified im clock.now)

/-- A start goes on from what the image or the state follows, and sets a policy only if there is
none. -/
theorem follows_startBody (h : im.state.Follows g) (clock : Clock) (recovered : Bool) :
    (im.startBody clock recovered).state.Follows g := by
  obtain ⟨hcontract, hpolicy⟩ := @demands_startBody _ im clock recovered
  refine ⟨fun l hl => ?_, fun id c hc => h.contract id c ?_⟩
  · obtain ⟨hvalid, hmerged⟩ := h.policy l hl
    obtain ⟨hgeneration, hrequired⟩ := hpolicy hvalid
    exact ⟨(congrArg valid hgeneration).trans hvalid, hrequired.trans hmerged⟩
  · exact (congrFun hcontract id).symm.trans hc

/-- The state follows what was heard, and the image what is stored of it. -/
structure Heard (h : Hearsay) (im : Impl Disk) : Prop where
  kept : Kept False (fun _ => True) im
  live : im.state.Follows h.live
  stored : ∀ d image, im.store = some d → d.image = some image → image.Follows h.stored

theorem invariant_true : Invariant False (fun _ : VirtualizationState => True) :=
  ⟨fun _ _ _ _ => trivial, trivial, fun _ _ => trivial, fun _ _ => trivial⟩

theorem keeps_true (im : Impl Disk) (event : Event) : Keeps False (fun _ => True) im event :=
  ⟨fun _ _ _ _ _ _ _ => trivial, fun _ _ _ _ _ _ => trivial, nofun⟩

/-- What was heard is kept beside the run. -/
theorem heard_iff {h : Hearsay} :
    Heard h im ↔ Recounted Follows (fun _ => True) ⟨h.live, h.stored⟩ im :=
  ⟨fun hh => ⟨hh.kept, hh.live, hh.stored⟩, fun hh => ⟨hh.kept, hh.live, hh.stored⟩⟩

theorem after_eq (h : Hearsay) (im : Impl Disk) (event : Event) :
    Beside.after Submitted.hear {} ⟨h.live, h.stored⟩ im event =
      ⟨(h.after im event).live, (h.after im event).stored⟩ := by
  cases event <;> simp only [Beside.after, Hearsay.after] <;> split <;> rfl

theorem recounts_follows (hk : Kept False (fun _ => True) im) (event : Event) :
    Recounts Submitted.hear {} Follows im event where
  respects _ _ := respects_follows
  empty := follows_empty
  op _ _ answer _ _ hg := follows_exec hg (hk.answering answer).state.wellKeyed
  classified _ i now hg := hg.congr (demands_classified i now)
  start _ _ clock recovered hg := follows_startBody hg clock recovered
  shutdown _ _ clock hg := hg.congr (demands_shutdownBody clock)

variable {h : Hearsay} {event : Event}

theorem Heard.step (hh : Heard h im) (hs : im.step event = some im') :
    Heard (h.after im event) im' := by
  have hstep := (heard_iff.mp hh).step invariant_true (recounts_follows hh.kept event)
    (keeps_true im event) hs
  rw [after_eq] at hstep
  exact heard_iff.mpr hstep

/-- After a run the state follows what was submitted in it. -/
theorem Heard.run {events : List Event} (hh : Heard h im) (hr : im.run events = some im') :
    Heard (h.along im events) im' := by
  induction events generalizing im h with
  | nil =>
    cases hr
    exact hh
  | cons event events ih =>
    simp only [run, List.foldlM_cons, Option.bind_eq_bind, Option.bind_eq_some_iff] at hr
    obtain ⟨im1, hstep, hrest⟩ := hr
    simp only [Hearsay.along, hstep]
    exact ih (hh.step hstep) hrest

theorem heard_initial (options : RuntimeOptions) (stored : Bool) :
    Heard {} (initial options stored) := by
  refine ⟨kept_initial invariant_true options stored, follows_empty, fun d image hd himage => ?_⟩
  unfold initial at hd
  split at hd <;> cases hd
  cases himage

end Impl

/-! ### Isolation -/

/-- Who binds a virtual accelerator to which backing, or plans to. -/
def Op.binds : Op → Option (Authority × BackingId)
  | .assignBacking auth backing _ | .replaceBacking auth backing _
  | .planMigration auth backing _ => some (auth, backing)
  | _ => none

namespace Impl

/-- The check of an operation that binds. -/
theorem assignBackingCheck_validated {im : Impl Disk} {auth : Authority} {backing : BackingId}
    {replacing : Bool} {plan : Owned × BackingRecord}
    (h : assignBackingCheck auth backing replacing im = .ok plan) :
    im.state.resolveOwned auth = .ok plan.1 ∧ im.state.backings[backing]? = some plan.2 ∧
      validateBackingFor im.options.sorting plan.2 im.state.physical[plan.2.physical]?
        plan.1.record im.state.policy im.state = .ok () := by
  simp only [assignBackingCheck, bind_eq_ok] at h
  obtain ⟨-, -, -, -, _, ho, -, -, h⟩ := h
  split at h
  · simp [throw_ne_ok] at h
  · simp only [bind_eq_ok, pure_eq_ok] at h
    obtain ⟨-, -, _, hv, rfl⟩ := h
    exact ⟨ho, by assumption, hv⟩

/-- The check of an operation that plans to bind. -/
theorem planMigrationCheck_validated {im : Impl Disk} {auth : Authority} {destination : BackingId}
    {klass : MigrationClass} {plan : Owned × BackingRecord}
    (h : planMigrationCheck auth destination klass im = .ok plan) :
    im.state.resolveOwned auth = .ok plan.1 ∧ im.state.backings[destination]? = some plan.2 ∧
      validateBackingFor im.options.sorting plan.2 im.state.physical[plan.2.physical]?
        plan.1.record im.state.policy im.state = .ok () := by
  simp only [planMigrationCheck, bind_eq_ok] at h
  obtain ⟨-, -, -, -, _, ho, -, -, -, -, -, -, h⟩ := h
  split at h
  · simp [throw_ne_ok] at h
  · simp only [bind_eq_ok, guard_bind_eq_ok, pure_eq_ok] at h
    obtain ⟨_, hv, -, rfl⟩ := h
    exact ⟨ho, by assumption, hv⟩

/-- What an operation binds, or plans to bind, was validated for the virtual accelerator. -/
theorem validated_of_binds {im : Impl Disk} {clock : Clock} {op : Op} {auth : Authority}
    {backing : BackingId} (hw : im.state.WellKeyed) (hop : op.binds = some (auth, backing))
    (hok : (im.exec clock op).2 = .ok ()) {id : VirtualAcceleratorId}
    (hid : auth.virtualId = some id) :
    ∃ v b, im.state.virtuals[id]? = some v ∧ im.state.backings[backing]? = some b ∧
      validateBackingFor im.options.sorting b im.state.physical[b.physical]? v im.state.policy
        im.state = .ok () := by
  have hjudged : op.judged = true := by cases op <;> first | rfl | cases hop
  obtain ⟨hadmits, -⟩ := (exec_eq_ok_iff_admits hjudged hw).mp hok
  obtain ⟨plan, ho, hb, hv⟩ : ∃ plan : Owned × BackingRecord,
      im.state.resolveOwned auth = .ok plan.1 ∧ im.state.backings[backing]? = some plan.2 ∧
      validateBackingFor im.options.sorting plan.2 im.state.physical[plan.2.physical]?
        plan.1.record im.state.policy im.state = .ok () := by
    cases op <;> cases hop
    case assignBacking =>
      obtain ⟨plan, hc⟩ := isOk_iff.mp hadmits
      exact ⟨plan, assignBackingCheck_validated hc⟩
    case replaceBacking =>
      obtain ⟨plan, hc⟩ := isOk_iff.mp hadmits
      exact ⟨plan, assignBackingCheck_validated hc⟩
    case planMigration =>
      obtain ⟨plan, hc⟩ := isOk_iff.mp hadmits
      exact ⟨plan, planMigrationCheck_validated hc⟩
  have hcurrent := resolveOwned_ok ho
  have hsame : plan.1.virtualId = id :=
    Option.some.inj ((virtualId_of_resolveOwned ho).symm.trans hid)
  exact ⟨plan.1.record, plan.2, hsame ▸ hcurrent.virtual, hb, hv⟩

end Impl

/-- Whatever was submitted in a run before: if a backing is then assigned to a virtual accelerator,
or replaces its backing, or is the destination of a planned migration, it meets all requirements of
the contract and of the policy as they were submitted last, if none of them gave way to a weaker one
where they were merged. -/
theorem isolation_of_run {options : RuntimeOptions} {stored : Bool} {events : List Event}
    {im : Impl Disk} (h : (Impl.initial options stored).run events = some im) {op : Op}
    {auth : Authority} {backing : BackingId} (hop : op.binds = some (auth, backing))
    {clock : Clock} {answer : Check} (hok : ((im.answering answer).exec clock op).2 = .ok ())
    {id : VirtualAcceleratorId} (hid : auth.virtualId = some id)
    (hcovers : covers
      ((({} : Hearsay).along (Impl.initial options stored) events).live.merged im.options.sorting
        im.state.policy id)
      ((({} : Hearsay).along (Impl.initial options stored) events).live.required id) = true) :
    ∃ b, im.state.backings[backing]? = some b ∧ b.isolation.Meets
      ((({} : Hearsay).along (Impl.initial options stored) events).live.required id) := by
  have hheard := (Impl.heard_initial options stored).run h
  obtain ⟨v, b, hv, hb, hok⟩ := @Impl.validated_of_binds (im.answering answer) _ _ _ _
    hheard.kept.state.wellKeyed hop hok _ hid
  have hfollows := hheard.live
  generalize (({} : Hearsay).along (Impl.initial options stored) events).live = g at *
  -- what the record holds is what was submitted last, less what normalising drops
  have hcontract : v.contract.requiredIsolation = (g.contract id).kept := by
    have hrecord : im.state.virtuals[id]? = some v := hv
    exact hfollows.contract id v.contract (congrArg (Option.map _) hrecord)
  have hpolicy : im.state.policy.requiredIsolation =
      (g.policy.map (·.kept)).getD im.state.policy.requiredIsolation := by
    cases hp : g.policy with
    | none => rfl
    | some l => exact (hfollows.policy l hp).2
  have hmerged : normalizeRequirements im.options.sorting
      (v.contract.requiredIsolation ++ im.state.policy.requiredIsolation) =
        g.merged im.options.sorting im.state.policy id := by
    rw [Submitted.merged, ← hcontract, ← hpolicy]
  exact ⟨b, hb, meets_of_validated (hmerged ▸ hcovers) hok⟩

/-- Under every sort none gives way to a weaker one, if those of each dimension are equally
strict. -/
theorem covers_of_unanimous {g : Submitted} {l : Petition} (hp : g.policy = some l)
    {id : VirtualAcceleratorId} (h : unanimous (g.required id) = true) (sorting : Sorting)
    (inForce : VirtualizationPolicy) :
    covers (g.merged sorting inForce id) (g.required id) = true := by
  unfold Submitted.required at h ⊢
  unfold Submitted.merged
  rw [hp] at h ⊢
  exact (covers_iff_unanimous _ _).mpr h _ _ _

/-- Where the lists keep their order, if and only if of each dimension the strictest requirement is
listed first, those of the contract before those of the policy. -/
theorem covers_of_insertion {g : Submitted} {l : Petition} (hp : g.policy = some l)
    {id : VirtualAcceleratorId} (hc : (g.contract id).sorting = .insertion)
    (hl : l.sorting = .insertion) (inForce : VirtualizationPolicy) :
    covers (g.merged .insertion inForce id) (g.required id) = strictestFirst (g.required id) := by
  unfold Submitted.required Submitted.merged Petition.kept
  rw [hp, Option.map_some, Option.map_some, Option.getD_some, Option.getD_some, hc, hl]
  exact covers_insertion _ _

namespace Sample

/-- The default policy is submitted, and a virtual accelerator whose contract has the
requirements. -/
def demanding (l : List IsolationRequirement) : List Event :=
  [.start clock, call (.registerAgent (txt "agent") [] 0 1),
    call (.registerPhysical anyone 1 4 device), call (.createTenant anyone (txt "tenant") []),
    call (.setPolicy anyone VirtualizationPolicy.defaultPolicy),
    call (.createVirtual anyone (txt "v") 11 1 { contract with requiredIsolation := l })]

/-- The first assignment of the virtual accelerator. -/
def assigned : Op := .assignBacking (owner 17 1) 7 []

/-- Whether the backing is assigned after that, and what was submitted by then and was kept. -/
def accepts (l : List IsolationRequirement)
    (p : List IsolationRequirement → List IsolationRequirement → Bool) : Bool :=
  ((Impl.initial {} true).run (demanding l)).any fun im =>
    let g := (({} : Hearsay).along (Impl.initial {} true) (demanding l)).live
    ((im.answering (.ok ())).exec clock assigned).2 = .ok () &&
      p (g.merged im.options.sorting im.state.policy 17) (g.required 17)

end Sample

/-- The contract asks for some isolation twice, and of the tenant state as the policy does. -/
theorem isolation_demanding : ∃ im, (Impl.initial {} true).run
    (Sample.demanding [⟨.tenantState, .partially⟩, ⟨.tenantState, .shared⟩]) = some im ∧
    ∃ b, im.state.backings[7]? = some b ∧ b.isolation.Meets
      ((({} : Hearsay).along (Impl.initial {} true) (Sample.demanding
        [⟨.tenantState, .partially⟩, ⟨.tenantState, .shared⟩])).live.required 17) := by
  have hrun : Sample.accepts [⟨.tenantState, .partially⟩, ⟨.tenantState, .shared⟩] covers =
      true := by
    decide +kernel
  obtain ⟨im, him, hp⟩ := (Option.any_eq_true _ _).mp hrun
  obtain ⟨hok, hcovers⟩ := Bool.and_eq_true_iff.mp hp
  exact ⟨im, him, @isolation_of_run _ _ _ _ him Sample.assigned _ _ rfl _ _ (of_decide_eq_true hok)
    _ rfl hcovers⟩

/-- The contract asks for some isolation of the tenant state and then for all of it, and a backing
that has some is assigned. -/
theorem not_isolation_demanding : ∃ im b, (Impl.initial {} true).run
    (Sample.demanding [⟨.tenantState, .partially⟩, ⟨.tenantState, .isolated⟩]) = some im ∧
    ((im.answering (.ok ())).exec Sample.clock Sample.assigned).2 = .ok () ∧
    im.state.backings[7]? = some b ∧ ¬ b.isolation.Meets
      ((({} : Hearsay).along (Impl.initial {} true) (Sample.demanding
        [⟨.tenantState, .partially⟩, ⟨.tenantState, .isolated⟩])).live.required 17) := by
  have hrun : (((Impl.initial {} true).run (Sample.demanding
      [⟨.tenantState, .partially⟩, ⟨.tenantState, .isolated⟩])).any fun im =>
      decide (((im.answering (.ok ())).exec Sample.clock Sample.assigned).2 = .ok ()) &&
        im.state.backings[7]?.any fun b =>
          !((({} : Hearsay).along (Impl.initial {} true) (Sample.demanding
            [⟨.tenantState, .partially⟩, ⟨.tenantState, .isolated⟩])).live.required 17).all fun r =>
              isolationStateAtLeast (b.isolation.stateOf r.dimension) r.minimum) = true := by
    decide +kernel
  obtain ⟨im, him, hp⟩ := (Option.any_eq_true _ _).mp hrun
  obtain ⟨hok, hbacking⟩ := Bool.and_eq_true_iff.mp hp
  obtain ⟨b, hb, hnot⟩ := (Option.any_eq_true _ _).mp hbacking
  refine ⟨im, b, him, of_decide_eq_true hok, hb, fun hmeets => ?_⟩
  rw [List.all_eq_true.mpr hmeets] at hnot
  cases hnot

end AcceleratorVirtualization
