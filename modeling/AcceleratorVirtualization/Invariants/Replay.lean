import AcceleratorVirtualization.Invariants.Refusals

/-!
# Replayed requests

Every operation that carries a request enters it into the window, but it is the operation itself
that has to look the request up before it acts, and some do not. Those that do come to the
lookup only after the store, the epoch and, for most of them, the policy generation were checked.
-/

namespace AcceleratorVirtualization

open VirtualizationState Refusal

/-- The authority an operation is called with. -/
def Op.authority : Op → Option Authority
  | .registerPhysical auth .. | .refreshPhysical auth .. | .setPolicy auth _ | .createTenant auth ..
  | .fenceTenant auth .. | .transferOwnership auth .. | .createVirtual auth ..
  | .updateContract auth _ | .activate auth | .drain auth _ | .resolveRecovery auth _
  | .suspend auth _ | .resume auth _ | .fenceVirtual auth _ | .retireVirtual auth _
  | .assignBacking auth .. | .replaceBacking auth .. | .attach auth | .renewLease auth
  | .detach auth | .revokeLease auth _ | .planMigration auth .. | .prepareMigration auth
  | .commitMigration auth | .completeMigration auth | .abortMigration auth _
  | .reserveAllocation auth _ | .releaseAllocation auth _ | .accountKernel auth _ => some auth
  | .registerAgent .. | .agentHeartbeat .. | .agentDisconnected .. | .physicalLost ..
  | .classifyRecoveredMigrations => none

/-- The window has the request of the caller, under the same session. -/
def VirtualizationState.remembers (s : VirtualizationState) (auth : Authority) : Bool :=
  auth.request.any fun request => s.requests.any fun r =>
    r.request = request && r.session = auth.session.getD 0

/-- The reason is another one than a replay. -/
def Status.Otherwise (status : Status) : Prop := status.code ≠ .duplicateRequest

/-- The computation is refused, as a replay if and only if `c`. -/
def Verdict {α : Type} (c : Bool) (x : Except Status α) : Prop :=
  ∃ status, x = .error status ∧ (status.code = .duplicateRequest ↔ c = true)

section Verdict

variable {α β : Type} {s : VirtualizationState} {auth : Authority} {c : Bool}

theorem Verdict.bind {x : Except Status α} {f : α → Except Status β} (h : Verdict c x) :
    Verdict c (x >>= f) := by
  obtain ⟨status, rfl, hc⟩ := h
  exact ⟨status, rfl, hc⟩

/-- A check in front decides, if it refuses. -/
theorem Verdict.after {g : Check} {x : Except Status β} (hg : Only Status.Otherwise g)
    (h : Verdict c x) : Verdict (g.isOk && c) (g >>= fun _ => x) := by
  cases g with
  | error status =>
    exact ⟨status, rfl, iff_of_false (hg status rfl) (by simp [Except.isOk, Except.toBool])⟩
  | ok u =>
    rw [Except.isOk, Except.toBool, Bool.true_and]
    exact h

/-- The lookup refuses a replay. -/
theorem verdict_checkRequest (h : s.remembers auth = true) :
    Verdict true (s.checkRequest auth) := by
  simp only [remembers, Option.any_eq_true, List.any_eq_true] at h
  obtain ⟨request, hrequest, r, hr, hmatch⟩ := h
  simp only [checkRequest, hrequest]
  split
  · rename_i hnone
    exact absurd hmatch (by simpa using List.find?_eq_none.mp hnone r hr)
  · exact ⟨_, rfl, by simp⟩

end Verdict

namespace Impl

variable {σ : Type} {im : Impl σ} {auth : Authority}

/-- Whether an operation comes to look up its request. -/
def consults (im : Impl σ) : Op → Bool
  | .registerPhysical auth .. | .fenceTenant auth .. =>
    im.guardStore.isOk && (im.state.checkEpoch auth).isOk
  | .setPolicy auth _ | .createTenant auth .. | .transferOwnership auth .. | .createVirtual auth ..
  | .updateContract auth _ | .drain auth _ | .assignBacking auth .. | .replaceBacking auth ..
  | .attach auth | .renewLease auth | .detach auth | .revokeLease auth _ | .planMigration auth ..
  | .prepareMigration auth | .commitMigration auth | .completeMigration auth
  | .abortMigration auth _ =>
    im.guardStore.isOk && ((im.state.checkEpoch auth).isOk && (im.state.checkPolicy auth).isOk)
  | _ => false

/-! ### The checks in front -/

theorem only_guardStore : Only Status.Otherwise im.guardStore :=
  .guard_last nofun only_pure

theorem only_checkEpoch {s : VirtualizationState} : Only Status.Otherwise (s.checkEpoch auth) := by
  unfold checkEpoch
  split
  · exact only_error nofun
  · exact .guard_last nofun only_pure

theorem only_checkPolicy {s : VirtualizationState} :
    Only Status.Otherwise (s.checkPolicy auth) := by
  unfold checkPolicy
  split
  · exact only_ok
  · exact .guard_last nofun only_pure

theorem only_checkAuthority : Only Status.Otherwise (im.checkAuthority auth) :=
  only_guardStore.bind fun _ => only_checkEpoch.bind fun _ => only_checkPolicy

/-- The lookup after the store and the epoch. -/
theorem verdict_epoch {α : Type} {rest : Unit → Except Status α}
    (h : im.state.remembers auth = true) :
    Verdict (im.guardStore.isOk && (im.state.checkEpoch auth).isOk)
      (im.guardStore >>= fun _ => im.state.checkEpoch auth >>= fun _ =>
        im.state.checkRequest auth >>= rest) := by
  have hr := (verdict_checkRequest h).bind (f := rest)
  simpa using (hr.after only_checkEpoch).after only_guardStore

/-- The lookup after the store, the epoch and the policy generation. -/
theorem verdict_policy {α : Type} {rest : Unit → Except Status α}
    (h : im.state.remembers auth = true) :
    Verdict (im.guardStore.isOk && ((im.state.checkEpoch auth).isOk &&
        (im.state.checkPolicy auth).isOk))
      (im.guardStore >>= fun _ => im.state.checkEpoch auth >>= fun _ =>
        im.state.checkPolicy auth >>= fun _ => im.state.checkRequest auth >>= rest) := by
  have hr := (verdict_checkRequest h).bind (f := rest)
  simpa using ((hr.after only_checkPolicy).after only_checkEpoch).after only_guardStore

theorem verdict_authority {α : Type} {rest : Unit → Except Status α}
    (h : im.state.remembers auth = true) :
    Verdict (im.guardStore.isOk && ((im.state.checkEpoch auth).isOk &&
        (im.state.checkPolicy auth).isOk))
      (im.checkAuthority auth >>= fun _ => im.state.checkRequest auth >>= rest) := by
  simpa only [checkAuthority, bind_assoc] using verdict_policy h

/-! ### Operations that do not look their request up -/

theorem only_requireMutable {record : VirtualAcceleratorRecord} :
    Only Status.Otherwise (requireMutable record) :=
  .guard nofun (.guard_last nofun only_pure)

theorem only_requireOwner {record : VirtualAcceleratorRecord} {tenant : TenantRecord} :
    Only Status.Otherwise (requireOwner record tenant) :=
  .guard nofun (.guard nofun (.guard_last nofun only_pure))

theorem only_resolveTenant {s : VirtualizationState} :
    Only Status.Otherwise (s.resolveTenant auth) := by
  unfold resolveTenant
  split
  · exact only_error nofun
  split
  · exact only_error nofun
  split
  · exact only_error nofun
  split
  · exact only_error nofun
  · exact only_ok

theorem only_resolveVirtual {s : VirtualizationState} :
    Only Status.Otherwise (s.resolveVirtual auth) := by
  unfold resolveVirtual
  split
  · exact only_error nofun
  split
  · exact only_error nofun
  split
  · exact only_error nofun
  split
  · exact only_error nofun
  · exact only_ok

theorem only_resolveOwned {s : VirtualizationState} :
    Only Status.Otherwise (s.resolveOwned auth) :=
  only_resolveTenant.bind fun _ => only_resolveVirtual.bind fun _ =>
    only_requireOwner.bind fun _ => only_pure

theorem only_activateCheck : Only Status.Otherwise (activateCheck auth im) :=
  only_checkAuthority.bind fun _ => only_resolveOwned.bind fun _ =>
    only_requireMutable.bind fun _ =>
    .guard nofun (.guard nofun (.guard nofun (.guard nofun (.guard nofun only_pure))))

theorem only_resolveRecoveryCheck : Only Status.Otherwise (resolveRecoveryCheck auth im) :=
  only_checkAuthority.bind fun _ => only_resolveOwned.bind fun _ => .guard nofun only_pure

theorem only_suspendCheck : Only Status.Otherwise (suspendCheck auth im) :=
  only_checkAuthority.bind fun _ => only_resolveOwned.bind fun _ =>
    only_requireMutable.bind fun _ =>
    .guard nofun (.guard nofun (.guard nofun only_pure))

theorem only_resumeCheck : Only Status.Otherwise (resumeCheck auth im) :=
  only_checkAuthority.bind fun _ => only_resolveOwned.bind fun _ => .guard nofun only_pure

theorem only_notRetiredCheck {reason : String} :
    Only Status.Otherwise (notRetiredCheck auth reason im) :=
  only_checkAuthority.bind fun _ => only_resolveOwned.bind fun _ => .guard nofun only_pure

theorem only_checkExecutionLease {owned : Owned} :
    Only Status.Otherwise (im.checkExecutionLease auth owned) := by
  unfold checkExecutionLease
  split
  · split
    · exact only_error nofun
    · exact .guard nofun (.guard nofun (.guard nofun (.guard nofun (.guard nofun
        (.guard nofun only_pure)))))
  · exact only_error nofun

theorem only_reserveAllocationCheck {bytes : ℕ} :
    Only Status.Otherwise (reserveAllocationCheck auth bytes im) := by
  refine only_checkAuthority.bind fun _ => only_resolveOwned.bind fun _ =>
    only_checkExecutionLease.bind fun _ => ?_
  dsimp only
  split
  · exact .guard nofun (.guard nofun only_pure)
  · exact .guard nofun only_pure

theorem only_releaseAllocationCheck {bytes : ℕ} :
    Only Status.Otherwise (releaseAllocationCheck auth bytes im) := by
  refine only_guardStore.bind fun _ => only_checkEpoch.bind fun _ =>
    only_resolveTenant.bind fun _ => ?_
  dsimp only
  split
  · exact only_throw nofun
  split
  · exact only_throw nofun
  · exact only_requireOwner.bind fun _ => .guard nofun only_pure

theorem only_accountKernelCheck : Only Status.Otherwise (accountKernelCheck auth im) := by
  refine only_guardStore.bind fun _ => only_checkEpoch.bind fun _ =>
    only_resolveOwned.bind fun _ => ?_
  split
  · exact only_throw nofun
  split
  · exact only_throw nofun
  · exact .guard nofun (.guard nofun only_pure)

theorem only_transition (im : Impl σ) (clock : Clock) (id : VirtualAcceleratorId)
    (target : VirtualLifecycleState) (reason : Text) :
    Only Status.Otherwise (im.transition clock id target reason).2 := by
  have hcheck : ∀ source, Only Status.Otherwise (checkTransition source target) := fun source =>
    .guard nofun (.guard_last nofun only_pure)
  unfold transition
  split
  · exact only_ok
  · split
    · rename_i legal hlegal
      exact only_error (hcheck _ legal hlegal)
    · exact only_ok

/-- The reason of a refusal is another one than a replay. -/
def Refusal.Otherwise (refusal : Refusal) : Prop := refusal.status.Otherwise

theorem only_transitionAct {context : OpContext} {clock : Clock} {id : VirtualAcceleratorId}
    {target : VirtualLifecycleState} {reason : Text} {after : Impl σ → Impl σ} :
    Only Refusal.Otherwise (transitionAct context clock id target reason after im).2 := by
  have ht := only_transition im clock id target reason
  unfold transitionAct
  split
  · rename_i status h
    rw [h] at ht
    exact only_error (ht status rfl)
  · exact only_ok

/-! ### Bodies -/

section Checked

variable {π α : Type} {context : Impl σ → OpContext} {kind : AuditKind}
  {check : Impl σ → Except Status π} {act : π → Body σ α}

theorem only_checked (hcheck : Only Status.Otherwise (check im))
    (hact : ∀ plan, Only Refusal.Otherwise (act plan im).2) :
    Only Refusal.Otherwise
      (checked (fun im => orRefuse (context im) kind (check im)) act im).2 := by
  simp only [checked, orRefuse]
  cases hc : check im with
  | error status => exact only_error (hcheck status hc)
  | ok plan => exact hact plan

/-- What a body says about a replayed request: it is refused and nothing has changed, as a replay
if and only if `c`. -/
def Judged (c : Bool) (im : Impl σ) (r : Impl σ × Except Refusal (Accepted α)) : Prop :=
  ∃ refusal : Refusal, r = (im, .error refusal) ∧
    (refusal.status.code = .duplicateRequest ↔ c = true)

theorem judged_checked {c : Bool} (h : Verdict c (check im)) :
    Judged c im (checked (fun im => orRefuse (context im) kind (check im)) act im) := by
  obtain ⟨status, hstatus, hc⟩ := h
  refine ⟨⟨context im, status, kind⟩, ?_, hc⟩
  simp only [checked, orRefuse, hstatus, Refusal.mapError_error]

theorem Judged.forget {c : Bool} {b : Body σ α} (h : Judged c im (b im)) :
    Judged c im (Body.forget b im) := by
  obtain ⟨refusal, hb, hc⟩ := h
  exact ⟨refusal, by rw [Body.forget, hb]; rfl, hc⟩

theorem only_forget {b : Body σ α} (h : Only Refusal.Otherwise (b im).2) :
    Only Refusal.Otherwise (Body.forget b im).2 :=
  fun refusal hr => h refusal (forget_error hr)

end Checked

/-- A body that looks its request up is refused, as a replay if it comes to the lookup; a body
that does not is refused for other reasons, if at all. -/
theorem body_replayed {clock : Clock} {op : Op} {b : Body σ Unit} (hb : body clock op = some b)
    (ha : op.authority = some auth) (h : im.state.remembers auth = true) :
    Judged (im.consults op) im (b im) ∨
      (im.consults op = false ∧ Only Refusal.Otherwise (b im).2) := by
  cases op <;> simp only [body, Option.some.injEq, reduceCtorEq] at hb <;> subst hb <;>
    simp only [Op.authority, Option.some.injEq, reduceCtorEq] at ha <;> subst ha
  case registerPhysical => exact .inl (judged_checked (verdict_epoch h)).forget
  case fenceTenant => exact .inl (judged_checked (verdict_epoch h))
  case setPolicy | createTenant | transferOwnership =>
    exact .inl (judged_checked (verdict_policy h)).forget
  case createVirtual | updateContract | drain | assignBacking | replaceBacking | attach
      | renewLease | planMigration =>
    exact .inl (judged_checked (verdict_authority h)).forget
  case detach | revokeLease => exact .inl (judged_checked (verdict_authority h))
  case prepareMigration | commitMigration | completeMigration | abortMigration =>
    exact .inl (judged_checked (verdict_authority h).bind).forget
  case activate =>
    exact .inr ⟨rfl, only_forget (only_checked only_activateCheck fun _ => only_transitionAct)⟩
  case resolveRecovery =>
    exact .inr ⟨rfl, only_forget (only_checked only_resolveRecoveryCheck fun _ =>
      only_transitionAct)⟩
  case suspend =>
    exact .inr ⟨rfl, only_forget (only_checked only_suspendCheck fun _ => only_transitionAct)⟩
  case resume =>
    exact .inr ⟨rfl, only_forget (only_checked only_resumeCheck fun _ => only_transitionAct)⟩
  case fenceVirtual | retireVirtual =>
    exact .inr ⟨rfl, only_forget (only_checked only_notRetiredCheck fun _ => only_transitionAct)⟩
  case reserveAllocation =>
    exact .inr ⟨rfl, only_forget (only_checked only_reserveAllocationCheck fun _ => only_ok)⟩
  case releaseAllocation =>
    exact .inr ⟨rfl, only_checked only_releaseAllocationCheck fun _ => only_ok⟩
  case accountKernel => exact .inr ⟨rfl, only_checked only_accountKernelCheck fun _ => only_ok⟩

/-! ### Operations -/

/-- A store that is asked to take something takes it if it is writable. -/
theorem commit_eq_ok_iff {im : Impl Disk} (h : im.changes.empty = false) :
    im.commit.2 = .ok () ↔ im.writable = true := by
  have hpersist : im.extended.persistChanges.2 = .ok () ↔ im.writable = true := by
    unfold persistChanges writable
    simp only [extended, h, Bool.not_false, Bool.and_true]
    cases im.store with
    | none => simp
    | some d =>
      cases im.options.persist
      · simp
      · cases ho : d.opened
        · simp [DurableStore.applyChanges, ho]
        · cases ha : d.answer <;>
            simp [DurableStore.applyChanges, ho, ha, Except.isOk, Except.toBool]
  rw [← hpersist]
  obtain ⟨store, hp, hc⟩ | ⟨store, status, hp, hc⟩ := commit_cases im
  · rw [hp, hc]
  · rw [hp, hc]
    exact iff_of_false (by rintro ⟨⟩) (by rintro ⟨⟩)

theorem writable_settle (im : Impl Disk) (clock : Clock) (context : OpContext) (status : Status)
    (kind : AuditKind) : (im.settle clock context status kind).writable = im.writable := by
  have hs := settles im clock context status kind
  unfold writable
  rw [hs.store, hs.options]

/-- The request of the operation is still in the window. -/
def replays (im : Impl σ) (op : Op) : Bool := op.authority.any im.state.remembers

/-- The operation is refused as a replay, and every record stays as it was. -/
def RefusedAsReplay [DurableStore σ] (im : Impl σ) (clock : Clock) (op : Op) : Prop :=
  (∃ detail, (im.exec clock op).2 = .error (.refused ⟨.duplicateRequest, detail⟩)) ∧
    (im.exec clock op).1.state.SameRecords im.state

/-- A refusal that changed nothing is reported, if it can be written. -/
theorem refusedAsReplay_of_judged {im : Impl Disk} {clock : Clock} {op : Op} {b : Body Disk Unit}
    {c : Bool} (hexec : im.exec clock op = im.operation clock b)
    (h : Judged c im.beginOp (b im.beginOp)) :
    im.RefusedAsReplay clock op ↔ c = true ∧ im.writable = true := by
  obtain ⟨refusal, hb, hc⟩ := h
  rw [RefusedAsReplay, hexec, operation_eq, hb, ← hc,
    ← writable_settle im clock refusal.context refusal.status refusal.kind]
  have hempty : (im.beginOp.settle clock refusal.context refusal.status
      refusal.kind).changes.empty = false := by
    simp [ChangeSet.empty, (settles im.beginOp clock _ _ _).header]
  have hwritable : (im.beginOp.settle clock refusal.context refusal.status refusal.kind).writable =
      (im.settle clock refusal.context refusal.status refusal.kind).writable := by
    rw [writable_settle, writable_settle]
    rfl
  rw [← hwritable, ← commit_eq_ok_iff hempty]
  dsimp only [recorded]
  cases hcommit : (im.beginOp.settle clock refusal.context refusal.status refusal.kind).commit with
  | mk im' persisted =>
    cases persisted with
    | error status => simp [answered]
    | ok u =>
      have hsame := sameRecords_committed hcommit
      simp only [answered, Except.error.injEq, Failure.refused.injEq, and_true]
      constructor
      · rintro ⟨⟨detail, hdetail⟩, -⟩
        rw [hdetail]
      · intro hcode
        exact ⟨⟨refusal.status.detail, by rw [← hcode]⟩, hsame⟩

/-- A body that is refused for other reasons only is never refused as a replay. -/
theorem not_refusedAsReplay {im : Impl σ} [DurableStore σ] {clock : Clock} {op : Op}
    {b : Body σ Unit} (hexec : im.exec clock op = im.operation clock b)
    (h : Only Refusal.Otherwise (b im.beginOp).2) : ¬ im.RefusedAsReplay clock op := by
  rintro ⟨⟨detail, hdetail⟩, -⟩
  rw [hexec, operation_eq] at hdetail
  dsimp only [answered] at hdetail
  split at hdetail
  · cases hdetail
  · split at hdetail
    · rename_i refusal hrefusal
      rw [Except.error.injEq, Failure.refused.injEq] at hdetail
      exact h refusal hrefusal (congrArg Status.code hdetail)
    · cases hdetail

/-- Only a body looks a request up. -/
theorem consults_of_body {clock : Clock} {op : Op} (hb : body (σ := σ) clock op = none) :
    im.consults op = false := by
  cases op <;> first | rfl | cases hb

theorem authority_resolve {op : Op} : (im.resolve op).authority = op.authority := by
  cases op <;> try rfl
  simp only [resolve]
  split
  · split <;> rfl
  · rfl

end Impl

/-- An operation whose request is still in the window is refused as a replay, with every record
left as it was, if and only if it comes to look its request up and the refusal can be written. -/
theorem refusedAsReplay_iff {im : Impl Disk} {clock : Clock} {op : Op}
    (h : im.replays op = true) :
    im.RefusedAsReplay clock op ↔
      im.consults (im.resolve op) = true ∧ im.writable = true := by
  obtain ⟨auth, hauth, hremembers⟩ := (Option.any_eq_true _ _).mp h
  cases hb : Impl.body (σ := Disk) clock (im.resolve op) with
  | some b =>
    have hexec := Impl.exec_of_resolve hb
    have hresolved : (im.resolve op).authority = some auth := Impl.authority_resolve.trans hauth
    obtain hj | ⟨hno, honly⟩ := Impl.body_replayed hb hresolved
      (show im.beginOp.state.remembers auth = true from hremembers)
    · exact Impl.refusedAsReplay_of_judged hexec hj
    · exact iff_of_false (Impl.not_refusedAsReplay hexec honly) fun hc =>
        absurd (hno.symm.trans hc.1) nofun
  | none =>
    refine iff_of_false ?_ fun hc => absurd ((Impl.consults_of_body hb).symm.trans hc.1) nofun
    cases op <;> first | (cases hauth; done) | cases hb | skip
    -- The device that is refreshed is not known in that generation.
    rintro ⟨⟨detail, hdetail⟩, -⟩
    simp only [Impl.resolve] at hb
    simp only [Impl.exec, Impl.refreshPhysical] at hdetail
    split at hdetail
    · cases hdetail
    · rename_i device hd
      split at hdetail
      · cases hdetail
      · rename_i hg
        simp only [hd, not_not.mp hg, if_true] at hb
        cases hb

namespace Sample

/-- The lease of the virtual accelerator, presented under a request. -/
def requesting (generation : ℕ) : Authority :=
  { lessee generation with request := some 5, session := some 2 }

/-- Memory is reserved under a request. -/
def reserved : List Event := attached ++ [call (.reserveAllocation (requesting 3) 64)]

end Sample

/-- A request that was used to reserve memory is not accepted for a release of the lease. -/
theorem refusedAsReplay_detach : ∃ im, (Impl.initial {} true).run Sample.reserved = some im ∧
    im.RefusedAsReplay Sample.clock (.detach (Sample.requesting 3)) := by
  have hrun : (((Impl.initial {} true).run Sample.reserved).any fun im =>
      im.replays (.detach (Sample.requesting 3)) &&
        (im.consults (im.resolve (.detach (Sample.requesting 3))) && im.writable)) = true := by
    decide +kernel
  obtain ⟨im, him, hgood⟩ := (Option.any_eq_true _ _).mp hrun
  rw [Bool.and_eq_true, Bool.and_eq_true] at hgood
  exact ⟨im, him, (refusedAsReplay_iff hgood.1).mpr hgood.2⟩

/-- The same request reserves the memory a second time. -/
theorem not_refusedAsReplay_reserve : ∃ im, (Impl.initial {} true).run Sample.reserved = some im ∧
    im.replays (.reserveAllocation (Sample.requesting 3) 64) = true ∧
    (im.exec Sample.clock (.reserveAllocation (Sample.requesting 3) 64)).2 = .ok () ∧
    ¬ im.RefusedAsReplay Sample.clock (.reserveAllocation (Sample.requesting 3) 64) := by
  have hrun : (((Impl.initial {} true).run Sample.reserved).any fun im =>
      let op := Op.reserveAllocation (Sample.requesting 3) 64
      im.replays op && (im.exec Sample.clock op).2.isOk) = true := by
    decide +kernel
  obtain ⟨im, him, hbad⟩ := (Option.any_eq_true _ _).mp hrun
  rw [Bool.and_eq_true] at hbad
  obtain ⟨hreplays, hok⟩ := hbad
  cases hanswer : (im.exec Sample.clock (.reserveAllocation (Sample.requesting 3) 64)).2 with
  | error failure => simp [hanswer, Except.isOk, Except.toBool] at hok
  | ok u =>
    refine ⟨im, him, hreplays, hanswer, ?_⟩
    rintro ⟨⟨detail, hdetail⟩, -⟩
    rw [hanswer] at hdetail
    cases hdetail

end AcceleratorVirtualization
