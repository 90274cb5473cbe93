import AcceleratorVirtualization.Invariants.Rollback

/-!
# Refused operations

A refusal is committed, to have it on record, and whatever the operation changed before it was
refused is committed with it. Almost all operations refuse before they act, or act only where
the step that could still be refused is legal. The exceptions revoke or fence leases before a
transition that is not: the release of the last attachment of a virtual accelerator that is not
attached any more, and the fencing of a virtual accelerator that is fenced already.
-/

namespace AcceleratorVirtualization

open VirtualizationState

/-- The records, the policy and the epoch of two states are the same. -/
structure VirtualizationState.SameRecords (s t : VirtualizationState) : Prop where
  entities : s.entities = t.entities
  policy : s.policy = t.policy
  policyGeneration : s.policyGeneration = t.policyGeneration
  epoch : s.epoch = t.epoch

theorem VirtualizationState.SameRecords.refl (s : VirtualizationState) : s.SameRecords s :=
  ⟨rfl, rfl, rfl, rfl⟩

theorem VirtualizationState.SameRecords.symm {s t : VirtualizationState} (h : s.SameRecords t) :
    t.SameRecords s :=
  ⟨h.entities.symm, h.policy.symm, h.policyGeneration.symm, h.epoch.symm⟩

theorem VirtualizationState.SameRecords.trans {s t u : VirtualizationState} (h : s.SameRecords t)
    (h' : t.SameRecords u) : s.SameRecords u :=
  ⟨h.entities.trans h'.entities, h.policy.trans h'.policy,
    h.policyGeneration.trans h'.policyGeneration, h.epoch.trans h'.epoch⟩

namespace Impl

variable {σ : Type} {im : Impl σ}

/-! ### Where a virtual accelerator is in its life -/

/-- The state of a virtual accelerator, if there is one. -/
def lifecycleOf (im : Impl σ) (id : VirtualAcceleratorId) : Option VirtualLifecycleState :=
  im.state.virtuals[id]?.map (·.state)

theorem lifecycleOf_touchHeader (id : VirtualAcceleratorId) :
    im.touchHeader.lifecycleOf id = im.lifecycleOf id := rfl

theorem lifecycleOf_account (f : AccountingCounters → AccountingCounters)
    (id : VirtualAcceleratorId) : (im.account f).lifecycleOf id = im.lifecycleOf id := rfl

theorem lifecycleOf_takeId (id : VirtualAcceleratorId) :
    im.takeId.lifecycleOf id = im.lifecycleOf id := rfl

theorem lifecycleOf_touch (k : RecordKind) (id' : ℕ) (id : VirtualAcceleratorId) :
    (im.touch k id').lifecycleOf id = im.lifecycleOf id := rfl

theorem lifecycleOf_modify_tenant (id' : TenantId) (f : TenantRecord → TenantRecord)
    (id : VirtualAcceleratorId) : (im.modify .tenant id' f).lifecycleOf id = im.lifecycleOf id :=
  rfl

theorem lifecycleOf_emplace_tenant (id' : TenantId) (t : TenantRecord)
    (id : VirtualAcceleratorId) : (im.emplace .tenant id' t).lifecycleOf id = im.lifecycleOf id :=
  rfl

theorem lifecycleOf_modify_migration (id' : MigrationId) (f : MigrationRecord → MigrationRecord)
    (id : VirtualAcceleratorId) : (im.modify .migration id' f).lifecycleOf id = im.lifecycleOf id :=
  rfl

/-- A change of a virtual accelerator that keeps its state. -/
theorem lifecycleOf_modify {id : VirtualAcceleratorId}
    {f : VirtualAcceleratorRecord → VirtualAcceleratorRecord} (hf : ∀ v, (f v).state = v.state)
    (id' : VirtualAcceleratorId) :
    (im.modify .virtual id f).lifecycleOf id' = im.lifecycleOf id' := by
  change Option.map _ ((im.state.modify .virtual id f).find .virtual id') = _
  rw [find_modify_self]
  split
  · rename_i hid
    subst hid
    rw [Option.map_map]
    exact congrArg (Option.map · _) (funext hf)
  · rfl

theorem lifecycleOf_foldl {α : Type} (im : Impl σ) {step : Impl σ → α → Impl σ}
    (id : VirtualAcceleratorId)
    (hstep : ∀ im a, (step im a).lifecycleOf id = im.lifecycleOf id) (l : List α) :
    (l.foldl step im).lifecycleOf id = im.lifecycleOf id :=
  List.foldlRecOn l step (motive := fun im' => im'.lifecycleOf id = im.lifecycleOf id) rfl
    fun im' h a _ => (hstep im' a).trans h

theorem lifecycleOf_fenceLease (im : Impl σ) (reason : Text) (now : UnixMicros) (lease : LeaseId)
    (id : VirtualAcceleratorId) :
    (im.fenceLease reason now lease).lifecycleOf id = im.lifecycleOf id := by
  unfold fenceLease
  split
  · rfl
  · split <;> rfl

theorem lifecycleOf_fenceLeases (id' : VirtualAcceleratorId) (reason : Text) (now : UnixMicros)
    (id : VirtualAcceleratorId) :
    (im.fenceLeases id' reason now).lifecycleOf id = im.lifecycleOf id := by
  unfold fenceLeases
  split
  · rfl
  · rename_i record hr
    have hl := lifecycleOf_foldl im id
      (fun im lease => lifecycleOf_fenceLease im reason now lease id) record.leases
    have hv : ∀ im' : Impl σ, ((im'.touchVirtual record.id).modify .virtual id' fun record =>
        { record with activeAttachments := 0 }).lifecycleOf id = im'.lifecycleOf id := by
      intro im'
      rw [lifecycleOf_modify, touchVirtual, lifecycleOf_touch]
      exact fun _ => rfl
    simp only
    split
    · exact hl
    · rw [lifecycleOf_touchHeader, lifecycleOf_account]
      split
      · rw [hv]
        exact hl
      · rw [lifecycleOf_modify_tenant, touchTenant, lifecycleOf_touch, hv]
        exact hl

theorem lifecycleOf_revokeAssignment (assignment : BackingAssignmentId) (reason : Text)
    (now : UnixMicros) (id : VirtualAcceleratorId) :
    (im.revokeAssignment assignment reason now).lifecycleOf id = im.lifecycleOf id := by
  unfold revokeAssignment
  split
  · rfl
  · split <;> rfl

theorem lifecycleOf_releaseBacking (backing : BackingId) (id : VirtualAcceleratorId) :
    (im.releaseBacking backing).lifecycleOf id = im.lifecycleOf id := by
  unfold releaseBacking
  split <;> rfl

theorem lifecycleOf_failDestination (assignment : BackingAssignmentId) (reason : Text)
    (now : UnixMicros) (id : VirtualAcceleratorId) :
    (im.failDestination assignment reason now).lifecycleOf id = im.lifecycleOf id := by
  unfold failDestination
  split <;> rfl

theorem lifecycleOf_rebuildProjection (id' : VirtualAcceleratorId) (id : VirtualAcceleratorId) :
    (im.rebuildProjection id').lifecycleOf id = im.lifecycleOf id := by
  unfold rebuildProjection
  rw [lifecycleOf_modify, lifecycleOf_takeId]
  exact fun _ => rfl

/-! ### Transitions -/

/-- A transition is refused where its edge is missing, and then it changed nothing. -/
theorem transition_error {clock : Clock} {id : VirtualAcceleratorId}
    {target : VirtualLifecycleState} {reason : Text} {im' : Impl σ} {status : Status}
    (h : im.transition clock id target reason = (im', .error status)) :
    im' = im ∧ ∃ source, im.lifecycleOf id = some source ∧
      isLegalTransition source target = false := by
  unfold transition at h
  split at h
  · cases h
  · rename_i record hr
    split at h
    · rename_i legal hlegal
      cases h
      refine ⟨rfl, record.state, by simp [lifecycleOf, hr], ?_⟩
      rw [← Bool.not_eq_true, ← checkTransition_eq_ok, hlegal]
      simp
    · cases h

/-- An act that is a transition is refused with it, and has done nothing. -/
theorem transitionAct_error {context : OpContext} {clock : Clock} {id : VirtualAcceleratorId}
    {target : VirtualLifecycleState} {reason : Text} {after : Impl σ → Impl σ} {refusal : Refusal}
    (h : (transitionAct context clock id target reason after im).2 = .error refusal) :
    (transitionAct context clock id target reason after im).1 = im ∧
      ∃ source, im.lifecycleOf id = some source ∧ isLegalTransition source target = false := by
  unfold transitionAct at h ⊢
  split at h
  · rename_i im' status ht
    obtain ⟨rfl, hsource⟩ := transition_error ht
    exact ⟨rfl, hsource⟩
  · cases h

theorem lifecycleOf_current {owned : Owned} (h : owned.Current im.state) :
    im.lifecycleOf owned.virtualId = some owned.record.state := by
  simp [Impl.lifecycleOf, h.virtual]

/-! ### Acts whose transition is legal -/

/-- Releasing a binding keeps the states. -/
theorem lifecycleOf_unbound {f : VirtualAcceleratorRecord → VirtualAcceleratorRecord}
    (hf : ∀ v, (f v).state = v.state) (assignment : BackingAssignmentId) (reason : Text)
    (now : UnixMicros) (backing : BackingId) (virtualId id id' : VirtualAcceleratorId) :
    Impl.lifecycleOf (Impl.rebuildProjection
      (Impl.modify (Impl.touchVirtual (Impl.releaseBacking
        (if valid assignment then im.revokeAssignment assignment reason now else im) backing)
          virtualId) .virtual id f) id) id' = im.lifecycleOf id' := by
  rw [lifecycleOf_rebuildProjection, lifecycleOf_modify hf, touchVirtual, lifecycleOf_touch,
    lifecycleOf_releaseBacking]
  split
  · exact lifecycleOf_revokeAssignment _ _ _ _
  · rfl

/-- A suspension releases the binding from a state that allows it. -/
theorem suspendAct_accepts {auth : Authority} {reason : Text} {clock : Clock} {owned : Owned}
    {refusal : Refusal} (hc : owned.Current im.state)
    (hs : owned.record.state = .provisioned ∨ owned.record.state = .draining) :
    (suspendAct auth reason clock owned im).2 ≠ .error refusal := by
  intro h
  obtain ⟨-, source, hsource, hillegal⟩ := transitionAct_error h
  rw [lifecycleOf_unbound, lifecycleOf_current hc, Option.some.injEq] at hsource
  · subst hsource
    rcases hs with hs | hs <;> rw [hs] at hillegal <;> exact absurd hillegal (by decide)
  · exact fun _ => rfl

/-- Everything that is not retired can be. -/
theorem retireVirtualAct_accepts {auth : Authority} {reason : Text} {clock : Clock} {owned : Owned}
    {refusal : Refusal} (hc : owned.Current im.state) (hs : owned.record.state ≠ .retired) :
    (retireVirtualAct auth reason clock owned im).2 ≠ .error refusal := by
  intro h
  obtain ⟨-, source, hsource, hillegal⟩ := transitionAct_error h
  rw [lifecycleOf_unbound, lifecycleOf_modify_tenant, touchTenant, lifecycleOf_touch,
    lifecycleOf_emplace_tenant, lifecycleOf_fenceLeases, lifecycleOf_current hc,
    Option.some.injEq] at hsource
  · subst hsource
    revert hillegal hs
    cases owned.record.state <;> decide
  · exact fun _ => rfl

/-- An attachment starts in a state that allows it. -/
theorem attachAct_accepts {auth : Authority} {clock : Clock} {owned : Owned} {refusal : Refusal}
    (hc : owned.Current im.state)
    (hs : owned.record.state = .provisioned ∨ owned.record.state = .suspended) :
    (attachAct auth clock owned im).2 ≠ .error refusal := by
  intro h
  unfold attachAct at h
  dsimp only at h
  split at h
  · rename_i im' status ht
    split at ht
    · cases ht
    · obtain ⟨-, source, hsource, hillegal⟩ := transition_error ht
      rw [lifecycleOf_modify_tenant, touchTenant, lifecycleOf_touch, lifecycleOf_modify,
        touchVirtual, lifecycleOf_touch, lifecycleOf_takeId, lifecycleOf_current hc,
        Option.some.injEq] at hsource
      · subst hsource
        rcases hs with hs | hs <;> rw [hs] at hillegal <;> exact absurd hillegal (by decide)
      · exact fun _ => rfl
  · cases h

/-- A migration that is aborted lets its virtual accelerator go back. -/
theorem abortMigrationAct_accepts {auth : Authority} {reason : Text} {clock : Clock} {f : InFlight}
    {refusal : Refusal} (hc : f.toOwned.Current im.state) :
    (abortMigrationAct auth reason clock f im).2 ≠ .error refusal := by
  intro h
  unfold abortMigrationAct at h
  dsimp only at h
  split at h
  · rename_i im' status ht
    split at ht
    · rename_i hs
      obtain ⟨-, source, hsource, hillegal⟩ := transition_error ht
      rw [lifecycleOf_account, lifecycleOf_modify_migration, touchMigration, lifecycleOf_touch,
        lifecycleOf_failDestination, lifecycleOf_current hc, Option.some.injEq] at hsource
      subst hsource
      rw [hs] at hillegal
      exact absurd hillegal (by decide)
    · cases ht
  · cases h

/-! ### Acts whose transition may be missing -/

/-- Whether a lease is live. -/
def liveLease (im : Impl σ) (id : LeaseId) : Bool :=
  (im.state.leases[id]?.map fun l => leaseStateIsLive l.state).getD false

theorem liveLease_modify {id : LeaseId} {f : LeaseRecord → LeaseRecord} {b : Bool}
    (hf : ∀ l, leaseStateIsLive (f l).state = b) (id' : LeaseId) :
    (im.modify .lease id f).liveLease id' =
      if id = id' then (im.state.leases[id]?.map fun _ => b).getD false
      else im.liveLease id' := by
  change ((Option.map _ ((im.state.modify .lease id f).find .lease id')).getD false) = _
  rw [find_modify_self]
  split
  · rw [Option.map_map]
    exact congrArg (fun g => (Option.map g _).getD false) (funext hf)
  · rfl

/-- Only the fenced lease changes. -/
theorem liveLease_fenceLease (reason : Text) (now : UnixMicros) (id id' : LeaseId) :
    (im.fenceLease reason now id).liveLease id' = (im.liveLease id' && decide (id ≠ id')) := by
  unfold fenceLease
  split
  · rename_i hnone
    by_cases hid : id = id'
    · subst hid
      simp [liveLease, hnone]
    · simp [hid]
  · rename_i lease hl
    split
    · rw [liveLease_modify (b := false)]
      · by_cases hid : id = id'
        · simp only [hid, if_true, ne_eq, not_true, decide_false, Bool.and_false]
          cases (im.touchLease id').state.leases[id']? <;> rfl
        · simp only [hid, if_false, ne_eq, not_false_eq_true, decide_true, Bool.and_true]
          rfl
      · exact fun _ => rfl
    · rename_i hlive
      by_cases hid : id = id'
      · subst hid
        simp [liveLease, hl, hlive]
      · simp [hid]

theorem liveLease_fenceAll (im : Impl σ) (reason : Text) (now : UnixMicros) (ids : List LeaseId)
    (id : LeaseId) :
    (ids.foldl (fun im lease => im.fenceLease reason now lease) im).liveLease id =
      (im.liveLease id && decide (id ∉ ids)) := by
  induction ids generalizing im with
  | nil => simp
  | cons id' ids ih =>
    rw [List.foldl_cons, ih, liveLease_fenceLease]
    by_cases hid : id' = id
    · simp [hid]
    · simp [hid, Ne.symm hid]

/-- Fencing changes nothing where no lease is live. -/
theorem fenceLeases_idle {id : VirtualAcceleratorId} {v : VirtualAcceleratorRecord}
    (hv : im.state.virtuals[id]? = some v) (reason : Text) (now : UnixMicros)
    (h : liveLeases im.state.leases v.leases = 0) : im.fenceLeases id reason now = im := by
  have hdead : ∀ lease ∈ v.leases, im.liveLease lease = false := by
    intro lease hl
    rw [liveLeases, List.length_eq_zero_iff, List.filter_eq_nil_iff] at h
    exact Bool.eq_false_iff.mpr (h lease (List.mem_dedup.mpr hl))
  have hfold : v.leases.foldl (fun im lease => im.fenceLease reason now lease) im = im := by
    refine List.foldlRecOn v.leases _ (motive := fun im' => im' = im) rfl fun im' him lease hl => ?_
    subst him
    have hl := hdead lease hl
    unfold fenceLease
    split
    · rfl
    · rename_i r hr
      have hlive : leaseStateIsLive r.state = false := by simpa [liveLease, hr] using hl
      rw [hlive]
      rfl
  unfold fenceLeases
  rw [hv]
  simp only [h, if_true]
  exact hfold

/-- Fencing ends a lease where one is live. -/
theorem fenceLeases_ends {id : VirtualAcceleratorId} {v : VirtualAcceleratorRecord}
    (hv : im.state.virtuals[id]? = some v) (reason : Text) (now : UnixMicros)
    (h : liveLeases im.state.leases v.leases ≠ 0) :
    ∃ lease, im.liveLease lease = true ∧
      (im.fenceLeases id reason now).liveLease lease = false := by
  obtain ⟨lease, hl⟩ := List.exists_mem_of_length_pos (Nat.pos_of_ne_zero h)
  rw [List.mem_filter, List.mem_dedup] at hl
  refine ⟨lease, hl.2, ?_⟩
  have hfold := liveLease_fenceAll im reason now v.leases lease
  rw [decide_eq_false (not_not.mpr hl.1), Bool.and_false] at hfold
  unfold fenceLeases
  rw [hv]
  simp only [h, if_false]
  generalize List.foldl _ im v.leases = im' at hfold
  split <;> exact hfold

/-- A state with another live lease has other records. -/
theorem not_sameRecords_of_liveLease {im' : Impl σ} {lease : LeaseId}
    (h : im.liveLease lease = true) (h' : im'.liveLease lease = false) :
    ¬ im'.state.SameRecords im.state := by
  intro hs
  have hleases : im'.state.leases = im.state.leases := congrFun hs.entities .lease
  simp only [liveLease] at h h'
  rw [hleases, h] at h'
  cases h'

theorem releaseLease_ends {held : Held} (hc : held.Current im.state) (reason : Text)
    (now : UnixMicros) (book : AccountingCounters → AccountingCounters) :
    im.liveLease held.leaseId = true ∧
      (im.releaseLease held reason now book).liveLease held.leaseId = false := by
  refine ⟨by simp [liveLease, hc.lease, hc.live], ?_⟩
  have hended : ((im.touchLease held.lease.id).modify .lease held.leaseId fun lease =>
      { lease with state := .revoked, revokedAt := now, reason }).liveLease
        held.leaseId = false := by
    rw [liveLease_modify (b := false)]
    · rw [if_pos rfl]
      cases (im.touchLease held.lease.id).state.leases[held.leaseId]? <;> rfl
    · exact fun _ => rfl
  unfold releaseLease
  dsimp only
  generalize Impl.modify (im.touchLease held.lease.id) .lease held.leaseId _ = im' at hended
  split <;> exact hended

theorem lifecycleOf_releaseLease (im : Impl σ) (held : Held) (reason : Text) (now : UnixMicros)
    (book : AccountingCounters → AccountingCounters) (id : VirtualAcceleratorId) :
    (im.releaseLease held reason now book).lifecycleOf id = im.lifecycleOf id := by
  have hl : ((im.touchLease held.lease.id).modify .lease held.leaseId fun lease =>
      { lease with state := .revoked, revokedAt := now, reason }).lifecycleOf id =
      im.lifecycleOf id := rfl
  unfold releaseLease
  dsimp only
  generalize Impl.modify (im.touchLease held.lease.id) .lease held.leaseId _ = im' at hl
  have hv : ((im'.touchVirtual held.record.id).modify .virtual held.virtualId fun v =>
      { v with activeAttachments := v.activeAttachments - 1, updatedAt := now }).lifecycleOf id =
      im.lifecycleOf id := by
    rw [lifecycleOf_modify, touchVirtual, lifecycleOf_touch, hl]
    exact fun _ => rfl
  generalize Impl.modify (im'.touchVirtual held.record.id) .virtual held.virtualId _ = im2 at hv
  split <;> exact hv

/-! ### All operations -/

/-- The last attachment is released and the virtual accelerator cannot go back. -/
def Held.stranded (held : Held) : Bool :=
  held.record.activeAttachments ≤ 1 && !isLegalTransition held.record.state .provisioned

/-- The operations that are refused after they have revoked or fenced a lease. -/
def actsBeforeRefusal (im : Impl σ) : Op → Bool
  | .detach auth | .revokeLease auth _ =>
    match resolveLeaseFor auth im with
    | .ok held => Held.stranded held
    | .error _ => false
  | .fenceVirtual auth _ =>
    match notRetiredCheck auth "retired virtual accelerators cannot be fenced again" im with
    | .ok owned => owned.record.state = .fenced &&
        liveLeases im.state.leases owned.record.leases ≠ 0
    | .error _ => false
  | _ => false

theorem releaseLeaseAct_error {operation : String} {auth : Authority} {clock : Clock}
    {reason : Text} {lastReason : String} {book : AccountingCounters → AccountingCounters}
    {held : Held} {refusal : Refusal} (hc : held.Current im.state)
    (h : (releaseLeaseAct operation auth clock reason lastReason book held im).2 =
      .error refusal) :
    ¬ (releaseLeaseAct operation auth clock reason lastReason book held im).1.state.SameRecords
        im.state ∧ Held.stranded held = true := by
  obtain ⟨hlive, hended⟩ := releaseLease_ends hc reason clock.now book
  have hstate := lifecycleOf_releaseLease im held reason clock.now book held.virtualId
  unfold releaseLeaseAct at h ⊢
  dsimp only at h ⊢
  generalize im.releaseLease held reason clock.now book = im1 at hended hstate h
  split at h
  · rename_i im' status ht
    split at ht
    · rename_i hlast
      obtain ⟨rfl, source, hsource, hillegal⟩ := transition_error ht
      rw [hstate, lifecycleOf_current hc.owned, Option.some.injEq] at hsource
      subst hsource
      refine ⟨not_sameRecords_of_liveLease hlive hended, ?_⟩
      simp only [Held.stranded, hillegal, Bool.not_false, Bool.and_true, decide_eq_true_eq]
      exact Nat.sub_eq_zero_iff_le.mp hlast
    · cases ht
  · cases h

theorem fenceVirtualAct_error {auth : Authority} {reason : Text} {clock : Clock} {owned : Owned}
    {refusal : Refusal} (hc : owned.Current im.state) (hs : owned.record.state ≠ .retired)
    (h : (fenceVirtualAct auth reason clock owned im).2 = .error refusal) :
    owned.record.state = .fenced ∧
      ((fenceVirtualAct auth reason clock owned im).1.state.SameRecords im.state ↔
        liveLeases im.state.leases owned.record.leases = 0) := by
  obtain ⟨him, source, hsource, hillegal⟩ := transitionAct_error h
  rw [touchVirtual, lifecycleOf_touch, lifecycleOf_fenceLeases, lifecycleOf_current hc,
    Option.some.injEq] at hsource
  subst hsource
  refine ⟨?_, ?_⟩
  · revert hillegal hs
    cases owned.record.state <;> decide
  · rw [show (fenceVirtualAct auth reason clock owned im).1 = _ from him]
    constructor
    · intro hsame
      by_contra hne
      obtain ⟨lease, hlive, hended⟩ := fenceLeases_ends hc.virtual
        (txt "virtual accelerator fenced: " ++ reason) clock.now hne
      exact not_sameRecords_of_liveLease hlive hended hsame
    · intro hzero
      rw [fenceLeases_idle hc.virtual _ _ hzero]
      exact .refl _

/-- A body is refused by its check or by its act. -/
theorem checked_error {π α : Type} {p : Impl σ → Prop} {context : Impl σ → OpContext}
    {kind : AuditKind} {check : Impl σ → Except Status π} {act : π → Body σ α} {refusal : Refusal}
    (hr : (checked (fun im => orRefuse (context im) kind (check im)) act im).2 = .error refusal)
    (h : ∀ status, check im = .error status → p im)
    (hact : ∀ plan, check im = .ok plan → (act plan im).2 = .error refusal → p (act plan im).1) :
    p (checked (fun im => orRefuse (context im) kind (check im)) act im).1 := by
  simp only [checked, orRefuse] at hr ⊢
  cases hc : check im with
  | error status => exact h status hc
  | ok plan =>
    simp only [hc, Refusal.mapError_ok] at hr
    exact hact plan hc hr

/-- Forgetting the result of a body forgets no refusal. -/
theorem forget_error {α : Type} {body : Body σ α} {refusal : Refusal}
    (h : (Body.forget body im).2 = .error refusal) : (body im).2 = .error refusal := by
  simp only [Body.forget] at h
  cases hb : (body im).2 with
  | error refusal' =>
    rw [hb] at h
    cases h
    rfl
  | ok accepted =>
    rw [hb] at h
    cases h

/-- A body that is refused by its check, or by an act that has left the records alone. -/
theorem refused_checked {π α : Type} {context : Impl σ → OpContext} {kind : AuditKind}
    {check : Impl σ → Except Status π} {act : π → Body σ α} {refusal : Refusal}
    (hr : (checked (fun im => orRefuse (context im) kind (check im)) act im).2 = .error refusal)
    (hact : ∀ plan, check im = .ok plan → (act plan im).2 = .error refusal →
      (act plan im).1.state.SameRecords im.state) :
    (checked (fun im => orRefuse (context im) kind (check im)) act im).1.state.SameRecords
      im.state :=
  checked_error (p := fun im' => im'.state.SameRecords im.state) hr (fun _ _ => .refl _) hact

theorem updateContractAct_error {auth : Authority} {contract : ResourceContract} {clock : Clock}
    {owned : Owned} {refusal : Refusal}
    (h : (updateContractAct auth contract clock owned im).2 = .error refusal) :
    (updateContractAct auth contract clock owned im).1.state.SameRecords im.state := by
  unfold updateContractAct at h ⊢
  dsimp only at h ⊢
  split at h
  · rename_i im' compatible hp
    -- The probe has used up an identity.
    unfold probeContract at hp
    split at hp
    · cases hp
    · obtain rfl := congrArg Prod.fst hp
      exact ⟨rfl, rfl, rfl, rfl⟩
  · cases h

theorem prepareMigrationAct_error {auth : Authority} {clock : Clock} {f : InFlight}
    {refusal : Refusal} (h : (prepareMigrationAct auth clock f im).2 = .error refusal) :
    (prepareMigrationAct auth clock f im).1.state.SameRecords im.state := by
  unfold prepareMigrationAct at h ⊢
  dsimp only at h ⊢
  split at h
  · rename_i im' drained ht
    obtain ⟨rfl, -⟩ := transition_error ht
    exact .refl _
  · cases h

/-- A release that is refused, by its check or after it acted. -/
theorem refused_releaseLease {operation : String} {auth : Authority} {clock : Clock}
    {reason : Text} {lastReason : String} {book : AccountingCounters → AccountingCounters}
    {context : Impl σ → OpContext} {kind : AuditKind} {refusal : Refusal}
    (hr : (checked (fun im => orRefuse (context im) kind (resolveLeaseFor auth im))
      (releaseLeaseAct operation auth clock reason lastReason book) im).2 = .error refusal) :
    (checked (fun im => orRefuse (context im) kind (resolveLeaseFor auth im))
      (releaseLeaseAct operation auth clock reason lastReason book) im).1.state.SameRecords
        im.state ↔ im.actsBeforeRefusal (.detach auth) = false := by
  refine checked_error (p := fun im' => im'.state.SameRecords im.state ↔ _) hr ?_ ?_
  · intro status hc
    simp only [actsBeforeRefusal, hc, iff_true]
    exact .refl _
  · intro held hc h
    obtain ⟨hne, hstranded⟩ := releaseLeaseAct_error (resolveLeaseFor_ok hc) h
    simp only [actsBeforeRefusal, hc, hstranded, Bool.true_eq_false, iff_false]
    exact hne

theorem refused_fenceVirtual {auth : Authority} {reason : Text} {clock : Clock}
    {refusal : Refusal} (hr : (fenceVirtualBody auth reason clock im).2 = .error refusal) :
    (fenceVirtualBody auth reason clock im).1.state.SameRecords im.state ↔
      im.actsBeforeRefusal (.fenceVirtual auth reason) = false := by
  refine checked_error (p := fun im' => im'.state.SameRecords im.state ↔ _) hr ?_ ?_
  · intro status hc
    simp only [actsBeforeRefusal, hc, iff_true]
    exact .refl _
  · intro owned hc h
    obtain ⟨hcurrent, hs⟩ := notRetiredCheck_ok hc
    obtain ⟨hfenced, hiff⟩ := fenceVirtualAct_error hcurrent hs h
    rw [hiff]
    simp [actsBeforeRefusal, hc, hfenced]

/-- A body that is refused left the records alone, if it does not act before. -/
theorem refused_body {clock : Clock} {op : Op} {b : Body σ Unit} {refusal : Refusal}
    (hb : body clock op = some b) (hr : (b im.beginOp).2 = .error refusal) :
    (b im.beginOp).1.state.SameRecords im.state ↔ im.actsBeforeRefusal op = false := by
  cases op <;> simp only [body, Option.some.injEq, reduceCtorEq] at hb <;> subst hb
  case detach => exact refused_releaseLease hr
  case revokeLease => exact refused_releaseLease hr
  case fenceVirtual => exact refused_fenceVirtual (forget_error hr)
  all_goals refine iff_of_true ?_ rfl
  case physicalLost => exact refused_checked hr fun _ _ h => by cases h
  case fenceTenant => exact refused_checked hr fun _ _ h => by cases h
  case releaseAllocation => exact refused_checked hr fun _ _ h => by cases h
  case accountKernel => exact refused_checked hr fun _ _ h => by cases h
  all_goals replace hr := forget_error hr
  case updateContract => exact refused_checked hr fun _ _ h => updateContractAct_error h
  case activate | drain | resolveRecovery | resume =>
    refine refused_checked hr fun _ _ h => ?_
    rw [(transitionAct_error h).1]
    exact .refl _
  case suspend =>
    refine refused_checked hr fun _ hc h => absurd h ?_
    exact suspendAct_accepts (suspendCheck_ok hc).1 (suspendCheck_ok hc).2.1
  case retireVirtual =>
    refine refused_checked hr fun _ hc h => absurd h ?_
    exact retireVirtualAct_accepts (notRetiredCheck_ok hc).1 (notRetiredCheck_ok hc).2
  case attach =>
    refine refused_checked hr fun _ hc h => absurd h ?_
    exact attachAct_accepts (attachCheck_ok hc).1 (checkAttachable_ok (attachCheck_ok hc).2).1
  case prepareMigration => exact refused_checked hr fun _ _ h => prepareMigrationAct_error h
  case abortMigration =>
    refine refused_checked hr fun _ hc h => absurd h ?_
    exact abortMigrationAct_accepts (abortMigrationCheck_ok hc).1.owned
  all_goals exact refused_checked hr fun _ _ h => by cases h

/-- What was recorded and committed has the records of the body. -/
theorem sameRecords_committed [DurableStore σ] {clock : Clock} {context : OpContext}
    {status : Status} {kind : AuditKind} {im' : Impl σ}
    (h : (im.settle clock context status kind).commit = (im', .ok ())) :
    im'.state.SameRecords im.state := by
  have hs := settles im clock context status kind
  generalize im.settle clock context status kind = im1 at h hs
  obtain ⟨store, -, hcommit⟩ | ⟨store, status', -, hcommit⟩ := commit_cases im1
  · rw [hcommit] at h
    cases h
    exact ⟨(entities_extended im1).trans hs.entities, hs.policy, hs.policyGeneration, hs.epoch⟩
  · rw [hcommit] at h
    cases h

/-- An operation in the frame that is refused has the records of its body. -/
theorem operation_refused [DurableStore σ] {clock : Clock} {b : Body σ Unit} {status : Status}
    (hr : (im.operation clock b).2 = .error (.refused status)) :
    (∃ refusal, (b im.beginOp).2 = .error refusal) ∧
      (im.operation clock b).1.state.SameRecords (b im.beginOp).1.state := by
  rw [operation_eq] at hr ⊢
  dsimp only at hr ⊢
  cases hc : ((b im.beginOp).1.settle clock (recorded (b im.beginOp).2).1
    (recorded (b im.beginOp).2).2.1 (recorded (b im.beginOp).2).2.2).commit with
  | mk im' persisted =>
    rw [hc] at hr
    cases persisted with
    | error status' => cases hr
    | ok u =>
      refine ⟨?_, sameRecords_committed hc⟩
      cases ho : (b im.beginOp).2 with
      | error refusal => exact ⟨refusal, rfl⟩
      | ok accepted =>
        rw [ho] at hr
        cases hr

theorem actsBeforeRefusal_resolve {op : Op} :
    im.actsBeforeRefusal (im.resolve op) = im.actsBeforeRefusal op := by
  cases op <;> try rfl
  simp only [resolve]
  split
  · split <;> rfl
  · rfl

end Impl

/-- An operation that is refused leaves every record, the policy and the epoch as they were if
and only if it does not act before it is refused. -/
theorem sameRecords_of_refused_iff {σ : Type} [DurableStore σ] {im : Impl σ} {clock : Clock}
    {op : Op} {status : Status} (hr : (im.exec clock op).2 = .error (.refused status)) :
    (im.exec clock op).1.state.SameRecords im.state ↔ im.actsBeforeRefusal op = false := by
  cases hb : Impl.body (σ := σ) clock (im.resolve op) with
  | none =>
    obtain ⟨n, -, hs⟩ := (Impl.unwritten_of_refused hb hr).state
    rw [hs]
    refine iff_of_true ⟨rfl, rfl, rfl, rfl⟩ ?_
    cases op <;> first | rfl | cases hb
  | some b =>
    rw [Impl.exec_of_resolve hb] at hr ⊢
    obtain ⟨⟨refusal, hrefusal⟩, hsame⟩ := Impl.operation_refused hr
    rw [← Impl.actsBeforeRefusal_resolve, ← Impl.refused_body hb hrefusal]
    exact ⟨hsame.symm.trans, hsame.trans⟩

namespace Sample

/-- A virtual accelerator 14 that is attached to backing 7 under lease 23. -/
def attached : List Event :=
  [.start clock, call (.registerAgent (txt "agent") [] 0 1),
    call (.registerPhysical anyone 1 4 device), call (.createTenant anyone (txt "tenant") []),
    call (.createVirtual anyone (txt "v") 11 1 contract), call (.assignBacking (owner 14 1) 7 []),
    call (.attach (owner 14 2))]

/-- Another device in the same slot. -/
def swapped : PhysicalDeviceDescriptor := { device with model := txt "other" }

/-- The device is swapped, and the tenant recovers the virtual accelerator and resumes it. -/
def resumed : List Event :=
  attached ++ [call (.registerPhysical anyone 1 4 swapped),
    call (.resolveRecovery (owner 14 4) []), call (.resume (owner 14 5) [])]

/-- The authority over the lease of the virtual accelerator. -/
def lessee (generation : ℕ) : Authority :=
  { owner 14 generation with lease := some 23, leaseGeneration := some 1 }

/-- Whether an operation was refused. -/
def refused (r : Impl Disk × Except Failure Unit) : Bool :=
  match r.2 with
  | .error (.refused _) => true
  | _ => false

theorem refused_iff {r : Impl Disk × Except Failure Unit} :
    refused r = true ↔ ∃ status, r.2 = .error (.refused status) := by
  unfold refused
  split
  · rename_i status h
    exact iff_of_true rfl ⟨status, h⟩
  · rename_i h
    exact iff_of_false (by simp) fun ⟨status, hs⟩ => h status hs

end Sample

/-- A lease that is presented with another generation of its virtual accelerator stays. -/
theorem sameRecords_stale_detach : ∃ im, (Impl.initial {} true).run Sample.attached = some im ∧
    (im.exec Sample.clock (.detach (Sample.lessee 2))).1.state.SameRecords im.state := by
  have hrun : (((Impl.initial {} true).run Sample.attached).any fun im =>
      Sample.refused (im.exec Sample.clock (.detach (Sample.lessee 2))) &&
        !im.actsBeforeRefusal (.detach (Sample.lessee 2))) = true := by
    decide +kernel
  obtain ⟨im, him, hgood⟩ := (Option.any_eq_true _ _).mp hrun
  rw [Bool.and_eq_true, Bool.not_eq_true'] at hgood
  obtain ⟨status, hr⟩ := Sample.refused_iff.mp hgood.1
  exact ⟨im, him, (sameRecords_of_refused_iff hr).mpr hgood.2⟩

/-- After the swap the lease is still live and the virtual accelerator is provisioned: its
release is refused, and the lease is revoked. -/
theorem not_sameRecords_resumed_detach :
    ∃ im, (Impl.initial {} true).run Sample.resumed = some im ∧
      (∃ status, (im.exec Sample.clock (.detach (Sample.lessee 6))).2 = .error (.refused status)) ∧
      ¬ (im.exec Sample.clock (.detach (Sample.lessee 6))).1.state.SameRecords im.state := by
  have hrun : (((Impl.initial {} true).run Sample.resumed).any fun im =>
      let r := im.exec Sample.clock (.detach (Sample.lessee 6))
      Sample.refused r && im.liveLease 23 && !r.1.liveLease 23) = true := by
    decide +kernel
  obtain ⟨im, him, hbad⟩ := (Option.any_eq_true _ _).mp hrun
  rw [Bool.and_eq_true, Bool.and_eq_true, Bool.not_eq_true'] at hbad
  exact ⟨im, him, Sample.refused_iff.mp hbad.1.1,
    Impl.not_sameRecords_of_liveLease hbad.1.2 hbad.2⟩

end AcceleratorVirtualization
