import AcceleratorVirtualization.Invariants.Generations
import AcceleratorVirtualization.Invariants.Rollback
import AcceleratorVirtualization.Lib.Rosters

/-!
# Owners and what they own

A virtual accelerator names its owner and the generation of that tenant, and a tenant lists what it
owns. Five operations change the two; what they do is a step of a registry. The lists are sorted and
complete in every state of a run in which every transfer is written. They list nothing but what is
not retired, and the generations agree, if besides nothing that is retired changes hands and no
tenant is fenced that owns a retired virtual accelerator.
-/

namespace AcceleratorVirtualization

open VirtualizationState Rosters Revision Refusal

/-! ### The view -/

/-- The deed of a virtual accelerator: its owner, the generation of that ownership, and whether it
still stands. -/
def VirtualAcceleratorRecord.deed (v : VirtualAcceleratorRecord) : Deed TenantId Generation where
  holder := v.owner
  generation := v.ownerGeneration
  standing := v.state ≠ .retired

/-- The roster of a tenant. -/
def TenantRecord.roster (t : TenantRecord) : Roster VirtualAcceleratorId Generation :=
  ⟨t.owned, t.generation⟩

/-- The deeds and rosters of a state. -/
def VirtualizationState.registry (s : VirtualizationState) : Registry ℕ ℕ ℕ where
  deed id := s.virtuals[id]?.map (·.deed)
  roster id := s.tenants[id]?.map (·.roster)

/-- Ownership as a virtual accelerator tells it and as its owner tells it is the same. -/
structure VirtualizationState.OwnershipClosed (s : VirtualizationState) : Prop where
  sorted : ∀ (t : TenantId) (tenant : TenantRecord), s.tenants[t]? = some tenant →
    tenant.owned.Pairwise (· < ·)
  listed : ∀ (t : TenantId) (tenant : TenantRecord), s.tenants[t]? = some tenant →
    ∀ x, x ∈ tenant.owned ↔ ∃ v : VirtualAcceleratorRecord,
      s.virtuals[x]? = some v ∧ v.owner = t ∧ v.state ≠ .retired
  current : ∀ (x : VirtualAcceleratorId) (v : VirtualAcceleratorRecord), s.virtuals[x]? = some v →
    ∃ tenant : TenantRecord, s.tenants[v.owner]? = some tenant ∧
      v.ownerGeneration = tenant.generation

namespace VirtualizationState

variable {s t : VirtualizationState} {x : VirtualAcceleratorId} {v : VirtualAcceleratorRecord}
variable {id : TenantId} {tenant : TenantRecord}

theorem deed_of_virtual (h : s.virtuals[x]? = some v) : s.registry.deed x = some v.deed := by
  simp only [registry, h, Option.map_some]

theorem roster_of_tenant (h : s.tenants[id]? = some tenant) :
    s.registry.roster id = some tenant.roster := by
  simp only [registry, h, Option.map_some]

theorem ownershipClosed_of_registry (h : s.registry.Closed) : s.OwnershipClosed where
  sorted t tenant ht := h.sorted t _ (roster_of_tenant ht)
  listed t tenant ht x := by
    rw [show tenant.owned = tenant.roster.members from rfl, h.mem_iff (roster_of_tenant ht)]
    constructor
    · rintro ⟨d, hd, hholder, hstanding⟩
      obtain ⟨v, hv, rfl⟩ := Option.map_eq_some_iff.mp hd
      exact ⟨v, hv, hholder, of_decide_eq_true hstanding⟩
    · rintro ⟨v, hv, ho, hs⟩
      exact ⟨v.deed, deed_of_virtual hv, ho, decide_eq_true hs⟩
  current x v hv := by
    obtain ⟨c, hc, -⟩ := h.held x _ (deed_of_virtual hv)
    have hcurrent := h.current x _ c (deed_of_virtual hv) hc
    obtain ⟨tenant, ht, rfl⟩ := Option.map_eq_some_iff.mp hc
    exact ⟨tenant, ht, hcurrent⟩

theorem Alike.registry (h : s.Alike True t) : t.registry = s.registry := by
  have hv : s.virtuals = t.virtuals := h.entities .virtual nofun
  simp only [VirtualizationState.registry, hv, h.tenants trivial]

theorem registry_empty : ({} : VirtualizationState).registry = ⟨fun _ => none, fun _ => none⟩ := by
  simp [registry]

end VirtualizationState

namespace Impl

variable {σ : Type} {im im' : Impl σ}

/-- The deeds and rosters in memory. -/
def registry (im : Impl σ) : Registry ℕ ℕ ℕ := im.state.registry

/-! ### Parts of the view -/

/-- The charters of the tenants decide their rosters. -/
theorem roster_eq (im : Impl σ) :
    im.registry.roster = fun id => (im.fixtures.charter id).map TenantRecord.roster := by
  funext id
  simp only [registry, VirtualizationState.registry, fixtures, VirtualizationState.fixtures,
    Option.map_map]
  rfl

theorem roster_of_charter (h : im'.fixtures.charter = im.fixtures.charter) :
    im'.registry.roster = im.registry.roster := by
  rw [roster_eq, roster_eq, h]

/-- A tenant whose charter is changed has its roster changed. -/
theorem roster_amend_tenant {F : Fixtures} {R : Registry ℕ ℕ ℕ} {id : TenantId}
    {f : TenantRecord → TenantRecord}
    {g : Roster VirtualAcceleratorId Generation → Roster VirtualAcceleratorId Generation}
    (h : R.roster = fun id => (F.charter id).map TenantRecord.roster)
    (hf : ∀ t, (f t).roster = g t.roster) :
    (R.amend id g).roster = fun id' => ((F.amend id f).charter id').map TenantRecord.roster := by
  funext id'
  rw [Registry.roster_amend, h]
  simp only [Fixtures.amend, Function.update_apply]
  split
  · rw [Option.map_map, Option.map_map]
    exact congrArg (Option.map · _) (funext fun t => (hf t).symm)
  · rfl

theorem deed_of_virtuals (h : im'.state.virtuals = im.state.virtuals) :
    im'.registry.deed = im.registry.deed := by
  funext x
  simp only [registry, VirtualizationState.registry, h]

/-- What is revised with its owner and without being retired keeps its deed. -/
theorem deed_of_revises {t : Terms} (h : Revises t im im') (ho : t.owners) (hr : t.retirements) :
    im'.registry.deed = im.registry.deed := by
  funext x
  have hx := h x
  simp only [virtualRecord] at hx
  simp only [registry, VirtualizationState.registry]
  generalize im.state.virtuals[x]? = o, im'.state.virtuals[x]? = o' at hx
  cases hx with
  | none => rfl
  | @some v v' hrevised =>
    obtain ⟨howner, hgeneration⟩ := hrevised.owner ho
    have hstanding : decide (v'.state ≠ .retired) = decide (v.state ≠ .retired) :=
      decide_eq_decide.mpr (not_congr (hrevised.retired hr))
    simp only [Option.map_some, VirtualAcceleratorRecord.deed, howner, hgeneration, hstanding]

/-- One virtual accelerator gets another deed. -/
theorem deed_of_amends {x : VirtualAcceleratorId} {v : VirtualAcceleratorRecord}
    {d : Deed TenantId Generation} (h : Amends x (fun w w' => w = v → w'.deed = d) im im')
    (hv : im.state.virtuals[x]? = some v) :
    im'.registry.deed = (im.registry.record x d).deed := by
  funext y
  rw [Registry.deed_record]
  split
  · rename_i hy
    subst hy
    obtain ⟨v', hv', hd⟩ := h.some hv
    exact (deed_of_virtual hv').trans (congrArg some (hd rfl))
  · rename_i hy
    exact congrArg (Option.map _) (h.other y hy)

/-- Two registries that agree in their parts. -/
theorem registry_eq {R : Registry ℕ ℕ ℕ} (hd : im.registry.deed = R.deed)
    (hr : im.registry.roster = R.roster) : im.registry = R := by
  ext1
  · exact hd
  · exact hr

/-! ### The operations on ownership -/

section Acts

variable {auth : Authority} {clock : Clock}

theorem registry_createTenantAct (name externalSubject : Text) :
    (createTenantAct auth name externalSubject clock () im).1.registry =
      im.registry.found im.nextId 1 := by
  refine registry_eq (deed_of_virtuals rfl) ?_
  funext id
  rw [roster_eq, fixtures_createTenantAct, Registry.roster_found, roster_eq]
  simp only [Function.update_apply]
  split <;> rfl

theorem registry_createVirtualAct (name : Text) (owner : TenantId) (ownerGeneration : Generation)
    (contract : ResourceContract) (tenant : TenantRecord) :
    (createVirtualAct auth name owner ownerGeneration contract clock tenant im).1.registry =
      im.registry.enter im.nextId owner ownerGeneration := by
  refine registry_eq ?_ ?_
  · generalize hact :
      (createVirtualAct auth name owner ownerGeneration contract clock tenant im).1 = im1
    have hvirtuals : ∃ v : VirtualAcceleratorRecord, v.deed = ⟨owner, ownerGeneration, true⟩ ∧
        im1.state.virtuals = im.state.virtuals.insert im.nextId v := by
      rw [← hact]
      exact ⟨_, rfl, rfl⟩
    obtain ⟨v, hd, hvirtuals⟩ := hvirtuals
    funext x
    simp only [Registry.enter, Registry.deed_record, registry, VirtualizationState.registry,
      hvirtuals, Std.ExtTreeMap.getElem?_insert, Nat.compare_eq_eq, Registry.amend]
    by_cases hx : x = im.nextId
    · rw [if_pos hx.symm, if_pos hx, Option.map_some, hd]
    · rw [if_neg (Ne.symm hx), if_neg hx]
  · rw [roster_eq, fixtures_createVirtualAct]
    exact (roster_amend_tenant im.roster_eq fun _ => rfl).symm

theorem registry_retireVirtualAct {owned : Owned} {tenant : TenantRecord} {reason : Text}
    (h : owned.Current im.state) (hid : owned.record.id = owned.virtualId)
    (ht : im.state.tenants[owned.record.owner]? = some tenant)
    (hs : owned.record.state ≠ .retired) :
    (retireVirtualAct auth reason clock owned im).1.registry =
      im.registry.cease owned.virtualId owned.record.deed := by
  refine registry_eq ?_ ?_
  · refine deed_of_amends
      ((amends_retireVirtualAct (t := ⟨False, True, False, False, False⟩) h hs id
      id).mono ?_) h.virtual
    rintro v v' - ⟨hadvanced, hstate⟩ rfl
    obtain ⟨howner, hgeneration⟩ := hadvanced.owner trivial
    simp [VirtualAcceleratorRecord.deed, howner, hgeneration, hstate]
  · rw [roster_eq, fixtures_retireVirtualAct ht, hid]
    exact (roster_amend_tenant im.roster_eq fun _ => rfl).symm

theorem registry_transferOwnershipAct {newOwner : TenantId} {t : Transfer}
    (h : t.toOwned.Current im.state) (hid : t.record.id = t.virtualId)
    (hd : t.destination.id = newOwner) (ho : t.record.owner = t.tenantId) :
    (transferOwnershipAct auth newOwner clock t im).1.registry =
      im.registry.convey t.virtualId t.record.deed newOwner t.destination.generation := by
  refine registry_eq ?_ ?_
  · have hfence := im.amends_fenceLeases t.virtualId
      (txt "ownership transferred to tenant " ++ strTenant newOwner) clock.now
    simp only [transferOwnershipAct]
    generalize im.fenceLeases t.virtualId _ clock.now = im1 at hfence ⊢
    refine deed_of_amends (Amends.modify hfence rfl ?_) h.virtual
    rintro v w - ⟨n, rfl⟩ rfl
    by_cases hs : lifecycleRequiresBacking t.record.state = true
    · have hne := not_retired_of_requires hs
      simp [VirtualAcceleratorRecord.deed, hs, hne, hd]
    · simp [VirtualAcceleratorRecord.deed, hs, hd]
  · rw [roster_eq, fixtures_transferOwnershipAct, hid, ← ho]
    refine (roster_amend_tenant ?_ fun _ => rfl).symm
    exact roster_amend_tenant im.roster_eq fun _ => rfl

/-- A virtual accelerator of a tenant that is fenced has the new generation of its owner. -/
theorem deed_fenceOwned (im : Impl σ) (tenant : TenantId) (generation : Generation)
    (now : UnixMicros) (x y : VirtualAcceleratorId) :
    (im.fenceOwned tenant generation now x).registry.deed y =
      (im.registry.deed y).map fun d => if y = x then { d with generation } else d := by
  cases hv : im.state.virtuals[x]? with
  | none =>
    have hnone : im.registry.deed x = none := by
      simp only [registry, VirtualizationState.registry, hv, Option.map_none]
    simp only [fenceOwned, hv]
    by_cases hy : y = x
    · subst hy
      rw [hnone, Option.map_none]
    · simp only [hy, if_false, Option.map_id']
  | some v =>
    have hfirst : Amends x (fun w w' => w' = { w with ownerGeneration := generation }) im
        ((im.touchVirtual x).modify .virtual x fun v =>
          { v with ownerGeneration := generation }) := amends_modify_of rfl fun _ _ => rfl
    have hamends : Amends x (fun w w' => w = v → w'.deed = { v.deed with generation }) im
        (im.fenceOwned tenant generation now x) := by
      simp only [fenceOwned, hv]
      refine Amends.modify (hfirst.comp (amends_fenceLeases _ x _ now)) rfl ?_
      rintro w _ - ⟨_, rfl, n, rfl⟩ rfl
      by_cases hs : lifecycleRequiresBacking w.state = true
      · have hne := not_retired_of_requires hs
        simp [VirtualAcceleratorRecord.deed, hs, hne]
      · simp [VirtualAcceleratorRecord.deed, hs]
    rw [deed_of_amends hamends hv, Registry.deed_record]
    split
    · rename_i hy
      rw [hy, show im.registry.deed x = some v.deed from deed_of_virtual hv, Option.map_some]
    · rw [Option.map_id']

theorem deed_fenceEachOwned (tenant : TenantId) (generation : Generation) (now : UnixMicros)
    (ids : List VirtualAcceleratorId) (im : Impl σ) (y : VirtualAcceleratorId) :
    (ids.foldl (fenceOwned tenant generation now) im).registry.deed y =
      (im.registry.deed y).map fun d => if y ∈ ids then { d with generation } else d := by
  induction ids generalizing im with
  | nil => simp
  | cons x ids ih =>
    rw [List.foldl_cons, ih, deed_fenceOwned, Option.map_map]
    refine congrArg (Option.map · _) (funext fun d => ?_)
    simp only [Function.comp_apply, List.mem_cons]
    by_cases hx : y = x <;> by_cases hy : y ∈ ids <;> simp [hx, hy]

theorem registry_fenceTenantAct (id : TenantId) (reason : Text) (tenant : TenantRecord) :
    (fenceTenantAct auth id reason clock tenant im).1.registry =
      im.registry.renew id tenant.owned (tenant.generation + 1) := by
  refine registry_eq ?_ ?_
  · funext y
    exact deed_fenceEachOwned id (tenant.generation + 1) clock.now tenant.owned _ y
  · rw [roster_eq, fixtures_fenceTenantAct]
    exact (roster_amend_tenant im.roster_eq fun _ => rfl).symm

end Acts

/-! ### Every body -/

/-- No virtual accelerator that is retired changes hands, and no tenant is fenced that owns one. -/
def keepsTitles (im : Impl σ) : Op → Bool
  | .transferOwnership auth newOwner newGeneration =>
    match transferOwnershipCheck auth newOwner newGeneration im with
    | .error _ => true
    | .ok t => t.record.state ≠ .retired
  | .fenceTenant auth id generation _ =>
    match fenceTenantCheck auth id generation im with
    | .error _ => true
    | .ok _ => im.state.virtuals.toList.all fun (_, v) => decide (v.owner = id → v.state ≠ .retired)
  | _ => true

/-- What an operation does to the registry: nothing, or one step. -/
abbrev Registers (faithful : Prop) (im im' : Impl σ) : Prop :=
  Relation.ReflGen (Registry.Step faithful) im.registry im'.registry

variable {faithful : Prop} {clock : Clock} {op : Op} {b : Body σ Unit}

theorem Registers.of_eq (h : im'.registry = im.registry) : Registers faithful im im' := by
  rw [Registers, h]

theorem Registers.of_step {R : Registry ℕ ℕ ℕ} (h : im'.registry = R)
    (hs : Registry.Step faithful im.registry R) : Registers faithful im im' := by
  rw [Registers, h]
  exact .single hs

/-- An operation that enlists nobody leaves the registry. -/
theorem registry_body (hop : op.enlists = false) (hb : body clock op = some b)
    (hw : im.state.WellKeyed) (h : im.state.Paced) : (b im.beginOp).1.registry = im.registry := by
  have hrevises : Revises ⟨False, True, True, False, False⟩ im (b im.beginOp).1 := by
    refine revises_body ?_ hb hw (fun auth c _ hok => cutover_of_paced hw h hok) False.elim
      (fun _ => ?_) (fun _ => ?_) False.elim False.elim
    all_goals cases op <;> first | rfl | cases hop
  exact registry_eq (deed_of_revises hrevises trivial trivial)
    (roster_of_charter ((fixed_body hb hw).charter hop))

theorem createVirtualCheck_current {auth : Authority} {name : Text} {owner : TenantId}
    {ownerGeneration : Generation} {contract : ResourceContract} {tenant : TenantRecord}
    (h : createVirtualCheck auth name owner ownerGeneration contract im = .ok tenant) :
    tenant.generation = ownerGeneration := by
  simp only [createVirtualCheck, bind_eq_ok] at h
  obtain ⟨-, -, -, -, h⟩ := h
  split at h
  · simp [throw_ne_ok] at h
  · simp only [guard_bind_eq_ok, bind_eq_ok, pure_eq_ok] at h
    obtain ⟨hg, -, -, -, _, -, -, rfl⟩ := h
    exact not_not.mp hg

/-- Every body is a step of the registry. -/
theorem registers_body (hb : body clock op = some b) (hw : im.state.WellKeyed)
    (h : im.state.Paced) (hf : faithful → im.keepsTitles op = true) :
    Registers faithful im (b im.beginOp).1 := by
  -- most operations leave the registry as it is
  cases hop : op.enlists with
  | false => exact .of_eq (registry_body hop hb hw h)
  | true =>
    change Registers faithful im.beginOp (b im.beginOp).1
    have hw' : im.beginOp.state.WellKeyed := hw
    cases op <;> simp only [Op.enlists, Bool.false_eq_true] at hop <;>
      simp only [body, Option.some.injEq] at hb <;> subst hb
    case createTenant name externalSubject =>
      refine fst_checked (p := Registers faithful im.beginOp) (.of_eq rfl) fun _ _ => ?_
      refine .of_step (registry_createTenantAct name externalSubject) (.found _ ?_)
      exact Option.map_eq_none_iff.mpr (hw'.fresh .tenant le_rfl)
    case fenceTenant auth id generation reason =>
      refine fst_checked (p := Registers faithful im.beginOp) (.of_eq rfl) fun tenant ho => ?_
      refine .of_step (registry_fenceTenantAct id reason tenant)
        (.renew _ (roster_of_tenant (fenceTenantCheck_ok ho)) fun hfaithful x d hd hholder => ?_)
      obtain ⟨v, hv, rfl⟩ := Option.map_eq_some_iff.mp hd
      have hcheck : fenceTenantCheck auth id generation im = .ok tenant := ho
      have hall := hf hfaithful
      simp only [keepsTitles, hcheck, List.all_eq_true, decide_eq_true_eq] at hall
      refine decide_eq_true (hall (x, v) ?_ hholder)
      exact Std.ExtTreeMap.mem_toList_iff_getElem?_eq_some.mpr hv
    case transferOwnership auth newOwner newGeneration =>
      refine fst_checked (p := Registers faithful im.beginOp) (.of_eq rfl) fun t ho => ?_
      obtain ⟨hcurrent, hdestination, hne⟩ := transferOwnershipCheck_ok ho
      have hid : t.record.id = t.virtualId := hw'.keyed .virtual _ _ hcurrent.virtual
      have hd : t.destination.id = newOwner := hw'.keyed .tenant _ _ hdestination
      have htenant : t.tenant.id = t.tenantId := hw'.keyed .tenant _ _ hcurrent.tenant
      refine .of_step (registry_transferOwnershipAct hcurrent hid hd (hcurrent.owner.trans htenant))
        (.convey (deed_of_virtual hcurrent.virtual) (roster_of_tenant hdestination) hne
          fun hfaithful => ?_)
      have hcheck : transferOwnershipCheck auth newOwner newGeneration im = .ok t := ho
      have hstanding := hf hfaithful
      simp only [keepsTitles, hcheck] at hstanding
      exact hstanding
    case createVirtual auth name owner ownerGeneration contract =>
      refine fst_checked (p := Registers faithful im.beginOp) (.of_eq rfl) fun tenant ho => ?_
      refine .of_step ((registry_createVirtualAct name owner ownerGeneration contract tenant).trans
        ?_) (.enter (m := im.beginOp.nextId) ?_ (roster_of_tenant (createVirtualCheck_ok ho).1))
      · rw [← createVirtualCheck_current ho]
        rfl
      · exact Option.map_eq_none_iff.mpr (hw'.fresh .virtual le_rfl)
    case retireVirtual auth reason =>
      refine fst_checked (p := Registers faithful im.beginOp) (.of_eq rfl) fun owned ho => ?_
      obtain ⟨hcurrent, hs⟩ := notRetiredCheck_ok ho
      have hid : owned.record.id = owned.virtualId := hw'.keyed .virtual _ _ hcurrent.virtual
      have htenant : owned.tenant.id = owned.tenantId := hw'.keyed .tenant _ _ hcurrent.tenant
      have howner : im.beginOp.state.tenants[owned.record.owner]? = some owned.tenant := by
        rw [hcurrent.owner, htenant]
        exact hcurrent.tenant
      exact .of_step (registry_retireVirtualAct hcurrent hid howner hs)
        (.cease (deed_of_virtual hcurrent.virtual))

/-- Classifying the migrations after a restart leaves deeds and rosters as they are. -/
theorem registry_classified (im : Impl σ) (now : UnixMicros) :
    (im.classified now).1.registry = im.registry := by
  have hrevises : Revises ⟨False, True, True, False, False⟩ im (im.classified now).1 :=
    revises_classified im now
  exact registry_eq (deed_of_revises hrevises trivial trivial)
    (roster_of_charter (by rw [fixtures_classified]))

/-- A start, after it has loaded, leaves deeds and rosters as they are. -/
theorem registry_startBody (im : Impl σ) (clock : Clock) (recovered : Bool) :
    (im.startBody clock recovered).registry = im.registry := by
  have hrevises : Revises ⟨False, True, True, False, False⟩ im (im.startBody clock recovered) :=
    revises_startBody im clock recovered
  exact registry_eq (deed_of_revises hrevises trivial trivial)
    (roster_of_charter (Prod.mk.inj (roles_startBody clock recovered)).1)

/-- A shutdown, before it commits, leaves deeds and rosters as they are. -/
theorem registry_shutdownBody (im : Impl σ) (clock : Clock) :
    (im.shutdownBody clock).registry = im.registry := by
  have hrevises : Revises ⟨False, True, True, False, False⟩ im (im.shutdownBody clock) :=
    revises_shutdownBody im clock
  exact registry_eq (deed_of_revises hrevises trivial trivial)
    (roster_of_charter (by rw [fixtures_shutdownBody]))

/-- What every step of a registry keeps is kept by every body. -/
theorem registered_body {P : Registry ℕ ℕ ℕ → Prop}
    (hP : ∀ R R', P R → Registry.Step faithful R R' → P R') (hb : body clock op = some b)
    (hw : im.state.WellKeyed) (h : im.state.Paced) (hp : P im.registry)
    (hf : faithful → im.keepsTitles op = true) : P (b im.beginOp).1.registry := by
  have hregisters : Registers faithful im (b im.beginOp).1 := registers_body hb hw h hf
  rw [Registers, Relation.reflGen_iff] at hregisters
  obtain hsame | hstep := hregisters
  · rwa [hsame]
  · exact hP _ _ hp hstep

end Impl

/-! ### Runs -/

namespace Impl

variable {P : Registry ℕ ℕ ℕ → Prop} {faithful : Prop} {im : Impl Disk}

/-- Whether an event keeps the titles. -/
def titling (im : Impl Disk) : Event → Bool
  | .op op _ answer => (im.answering answer).keepsTitles ((im.answering answer).resolve op)
  | _ => true

/-- Whether the change set of an event is written, if it hands over a virtual accelerator. -/
def settling (im : Impl Disk) : Event → Bool
  | .op op _ answer => !(im.answering answer).transfers op || (im.answering answer).writable
  | _ => true

theorem written_of_settling {event : Event} (hs : im.settling event = true) :
    ∀ op clock answer, event = .op op clock answer →
      (im.answering answer).transfers op = false ∨ (im.answering answer).writable = true := by
  rintro op clock answer rfl
  simp only [settling, Bool.or_eq_true, Bool.not_eq_true'] at hs
  exact hs

theorem invariant_registered (h0 : P ⟨fun _ => none, fun _ => none⟩) :
    Invariant True fun s => s.Paced ∧ P s.registry where
  respects s t h hs := ⟨respects_paced h hs.1, by rw [h.registry]; exact hs.2⟩
  empty := ⟨paced_empty, by rw [registry_empty]; exact h0⟩
  classified {i} now h := by
    have hp : P (i.classified now).1.registry := by
      rw [registry_classified]
      exact h.holds.2
    exact ⟨paced_classified h.wellKeyed h.holds.1 now, hp⟩
  shutdown {i} clock h := by
    have hp : P (i.shutdownBody clock).registry := by
      rw [registry_shutdownBody]
      exact h.holds.2
    exact ⟨paced_shutdownBody h.wellKeyed h.holds.1 clock, hp⟩

theorem keeps_registered (hP : ∀ R R', P R → Registry.Step faithful R R' → P R')
    (h : Kept True (fun s => s.Paced ∧ P s.registry) im) {event : Event}
    (hs : im.settling event = true) (hf : faithful → im.titling event = true) :
    Keeps True (fun s => s.Paced ∧ P s.registry) im event where
  body op clock answer hevent b hb _ := by
    subst hevent
    have hsound := (h.answering answer).state
    exact ⟨paced_body hb hsound.wellKeyed hsound.holds.1,
      registered_body hP hb hsound.wellKeyed hsound.holds.1 hsound.holds.2 hf⟩
  start clock _ base recovered hbase _ := by
    have hp : P (base.startBody clock recovered).registry := by
      rw [registry_startBody]
      exact hbase.holds.2
    exact ⟨paced_startBody hbase.wellKeyed hbase.holds.1 clock recovered, hp⟩
  written _ := written_of_settling hs

/-- In every state of a run whose transfers are all written, the rosters are sorted and complete. -/
theorem listed_of_run {options : RuntimeOptions} {stored : Bool} {events : List Event}
    (h : (initial options stored).run events = some im)
    (hs : (initial options stored).throughout settling events = true) :
    Kept True (fun s => s.Paced ∧ s.registry.Listed) im := by
  have hi : Invariant True fun s => s.Paced ∧ s.registry.Listed :=
    invariant_registered Registry.listed_empty
  refine (kept_initial hi options stored).run hi (fun i event hk hc => ?_) h hs
  exact keeps_registered (fun _ _ hR hstep => hR.step hstep) hk hc False.elim

end Impl

/-- In every state of a run whose transfers are all written, and in which nothing retired changes
hands and no tenant is fenced that owns something retired, tenants list exactly what they own and
is not retired, and every virtual accelerator is of the current generation of its owner. -/
theorem ownershipClosed_of_run {options : RuntimeOptions} {stored : Bool} {events : List Event}
    {im : Impl Disk} (h : (Impl.initial options stored).run events = some im)
    (hs : (Impl.initial options stored).throughout Impl.settling events = true)
    (ht : (Impl.initial options stored).throughout Impl.titling events = true) :
    im.state.OwnershipClosed := by
  have hi : Impl.Invariant True fun s => s.Paced ∧ s.registry.Closed :=
    Impl.invariant_registered Registry.closed_empty
  have hc := Impl.throughout_and hs ht
  refine ownershipClosed_of_registry ((Impl.kept_initial hi options stored).run hi
    (fun i event hk hcond => ?_) h hc).state.holds.2
  simp only [Bool.and_eq_true] at hcond
  exact Impl.keeps_registered (fun _ _ hR hstep => hR.step trivial hstep) hk hcond.1
    fun _ => hcond.2

namespace Sample

/-- Virtual accelerator 19 goes to tenant 31, which is fenced, and tenant 11 retires 14. -/
def released : List Event :=
  joined ++ [call (.transferOwnership (owner 19 1) 31 1), call (.fenceTenant anyone 31 1 []),
    call (.retireVirtual (owner 14 2) [])]

/-- Tenant 11 retires virtual accelerator 19. -/
def discarded : List Event := joined ++ [call (.retireVirtual (owner 19 1) [])]

end Sample

theorem ownershipClosed_released : ∃ im, (Impl.initial {} true).run Sample.released = some im ∧
    im.state.tenants[31]?.map (·.owned) = some [19] ∧
    im.state.tenants[11]?.map (·.owned) = some [] ∧ im.state.OwnershipClosed := by
  have hrun : (((Impl.initial {} true).run Sample.released).any fun im =>
      decide (im.state.tenants[31]?.map (·.owned) = some [19]) &&
        decide (im.state.tenants[11]?.map (·.owned) = some [])) = true := by
    decide +kernel
  obtain ⟨im, him, hgood⟩ := (Option.any_eq_true _ _).mp hrun
  simp only [Bool.and_eq_true, decide_eq_true_eq] at hgood
  exact ⟨im, him, hgood.1, hgood.2, ownershipClosed_of_run him (by decide +kernel)
    (by decide +kernel)⟩

/-- A virtual accelerator that is retired enters the list of the tenant it is transferred to, and
when its owner is fenced it keeps the former generation. A transfer that is not written leaves the
virtual accelerator with the list of the other tenant. -/
theorem not_ownershipClosed_discarded :
    (∃ im, (Impl.initial {} true).run (Sample.discarded ++
        [Sample.call (.transferOwnership (Sample.owner 19 2) 31 1)]) = some im ∧
      ¬ im.state.OwnershipClosed) ∧
    (∃ im, (Impl.initial {} true).run (Sample.discarded ++
        [Sample.call (.fenceTenant Sample.anyone 11 1 [])]) = some im ∧
      ¬ im.state.OwnershipClosed) ∧
    ∃ im, (Impl.initial {} true).run (Sample.joined ++
        [.op (.transferOwnership (Sample.owner 19 1) 31 1) Sample.clock Sample.full]) = some im ∧
      ¬ im.state.OwnershipClosed := by
  refine ⟨?_, ?_, ?_⟩
  · have hrun : (((Impl.initial {} true).run (Sample.discarded ++
        [Sample.call (.transferOwnership (Sample.owner 19 2) 31 1)])).any fun im =>
        im.state.tenants[31]?.any fun tenant => decide (19 ∈ tenant.owned) &&
          im.state.virtuals[19]?.any fun v => decide (v.state = .retired)) = true := by
      decide +kernel
    obtain ⟨im, him, hbad⟩ := (Option.any_eq_true _ _).mp hrun
    obtain ⟨tenant, ht, hbad⟩ := (Option.any_eq_true _ _).mp hbad
    rw [Bool.and_eq_true, decide_eq_true_eq] at hbad
    obtain ⟨w, hw, hretired⟩ := (Option.any_eq_true _ _).mp hbad.2
    refine ⟨im, him, fun hclosed => ?_⟩
    obtain ⟨v, hv, -, hs⟩ := (hclosed.listed 31 tenant ht 19).mp hbad.1
    obtain rfl := Option.some.inj (hv.symm.trans hw)
    exact hs (of_decide_eq_true hretired)
  · have hrun : (((Impl.initial {} true).run (Sample.discarded ++
        [Sample.call (.fenceTenant Sample.anyone 11 1 [])])).any fun im =>
        im.state.virtuals[19]?.any fun v =>
          im.state.tenants[v.owner]?.any fun tenant =>
            decide (v.ownerGeneration ≠ tenant.generation)) = true := by
      decide +kernel
    obtain ⟨im, him, hbad⟩ := (Option.any_eq_true _ _).mp hrun
    obtain ⟨v, hv, hbad⟩ := (Option.any_eq_true _ _).mp hbad
    obtain ⟨tenant, ht, hne⟩ := (Option.any_eq_true _ _).mp hbad
    refine ⟨im, him, fun hclosed => ?_⟩
    obtain ⟨tenant', ht', hsame⟩ := hclosed.current 19 v hv
    obtain rfl := Option.some.inj (ht.symm.trans ht')
    exact of_decide_eq_true hne hsame
  · have hrun : (((Impl.initial {} true).run (Sample.joined ++
        [.op (.transferOwnership (Sample.owner 19 1) 31 1) Sample.clock Sample.full])).any fun im =>
        im.state.tenants[31]?.any fun tenant => decide (19 ∈ tenant.owned) &&
          im.state.virtuals[19]?.any fun v => decide (v.owner = 11)) = true := by
      decide +kernel
    obtain ⟨im, him, hbad⟩ := (Option.any_eq_true _ _).mp hrun
    obtain ⟨tenant, ht, hbad⟩ := (Option.any_eq_true _ _).mp hbad
    rw [Bool.and_eq_true, decide_eq_true_eq] at hbad
    obtain ⟨w, hw, howner⟩ := (Option.any_eq_true _ _).mp hbad.2
    refine ⟨im, him, fun hclosed => ?_⟩
    obtain ⟨v, hv, hother, -⟩ := (hclosed.listed 31 tenant ht 19).mp hbad.1
    obtain rfl := Option.some.inj (hv.symm.trans hw)
    rw [of_decide_eq_true howner] at hother
    cases hother

end AcceleratorVirtualization
