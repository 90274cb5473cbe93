import AcceleratorVirtualization.Invariants.Records

/-!
# What operations do to the virtual accelerators

For every operation, how it revises the records of the virtual accelerators, and under which
conditions it keeps the promises of its terms. A suspension, a retirement and a new binding change
a record in several steps, of which one advances its generation; a policy and the fence of a tenant
change records that they do not mark.
-/

namespace AcceleratorVirtualization

open VirtualizationState Revision

variable {t : Terms} {v v' v'' : VirtualAcceleratorRecord}

namespace Impl

variable {σ : Type} {im im' im'' : Impl σ} {id : VirtualAcceleratorId}

/-! ### The life of a virtual accelerator -/

section Virtuals

variable {auth : Authority} {clock : Clock} {reason : Text} {owned : Owned}

/-- What suspension and retirement do before the step of the life cycle. -/
theorem amends_unbind (id : VirtualAcceleratorId)
    {f : VirtualAcceleratorRecord → VirtualAcceleratorRecord}
    (hsame : im'.state.virtuals = im.state.virtuals)
    (hf : ∀ v, Revised t.unmarked v (unbind (f v)) ∧ (f v).state = v.state) :
    Amends id (fun v v' => Revised t.unmarked v v' ∧ v'.state = v.state) im
      ((im'.modify .virtual id fun v => unbind (f v)).rebuildProjection id) := by
  have hunbind : Amends id (fun v v' => v' = unbind (f v)) im
      (im'.modify .virtual id fun v => unbind (f v)) := amends_modify_of hsame fun _ _ => rfl
  refine (hunbind.comp (amends_rebuildProjection _ id)).mono ?_
  rintro v _ - ⟨_, rfl, rfl⟩
  exact ⟨(hf v).1.trans (revised_project _ _ _), (hf v).2⟩

/-- A suspension revises virtual accelerators. -/
theorem revises_suspendAct (h : owned.Current im.state)
    (hs : owned.record.state = .provisioned ∨ owned.record.state = .draining)
    (hc : ¬ t.counts) : Revises t im (suspendAct auth reason clock owned im).1 := by
  simp only [suspendAct]
  generalize him1 : ((if valid owned.record.assignment then im.revokeAssignment
    owned.record.assignment (txt "virtual accelerator suspended: " ++ reason) clock.now
    else im).releaseBacking owned.record.backing).touchVirtual owned.record.id = im1
  have hsame : im1.state.virtuals = im.state.virtuals := by
    rw [← him1]
    refine (virtuals_releaseBacking _ _).trans ?_
    split
    · exact virtuals_revokeAssignment _ _ _ _
    · rfl
  have hunbind := amends_unbind (t := t) owned.virtualId hsame (f := fun v =>
    { v with backingHistory := v.backingHistory.map fun entry => { entry with current := false } })
    fun v => ⟨revised_of_state rfl rfl rfl rfl rfl rfl rfl, rfl⟩
  generalize (im1.modify .virtual owned.virtualId fun v => unbind { v with
    backingHistory := v.backingHistory.map fun entry => { entry with current := false }
    }).rebuildProjection owned.virtualId = im2 at hunbind ⊢
  obtain ⟨v2, hv2, -, hstate⟩ := hunbind.some h.virtual
  have hlegal : isLegalTransition v2.state .suspended = true := by
    rw [hstate]
    obtain hs | hs := hs <;> rw [hs] <;> rfl
  refine revises_transitionAct_after (hunbind.mono fun _ _ _ hw => hw.1) virtuals_recompute hv2
    hlegal (fun _ => ?_) fun hcounts => absurd hcounts hc
  rw [hstate]
  obtain hs | hs := hs <;> rw [hs] <;> decide

/-- Fencing a virtual accelerator revises virtual accelerators. -/
theorem revises_fenceVirtualAct (h : owned.Current im.state) (hc : ¬ t.counts) :
    Revises t im (fenceVirtualAct auth reason clock owned im).1 := by
  simp only [fenceVirtualAct]
  have hfence := im.amends_fenceLeases owned.virtualId
    (txt "virtual accelerator fenced: " ++ reason) clock.now
  generalize im.fenceLeases owned.virtualId _ clock.now = im1 at hfence ⊢
  obtain ⟨v1, hv1, hcounted⟩ := hfence.some h.virtual
  have hfirst : Revises t im (im1.touchVirtual owned.record.id) :=
    revises_of_amends ((hfence.mono fun _ _ _ hw => hw.revised).congr rfl)
  exact hfirst.trans' (revises_transitionAct virtuals_recompute hv1
    (fun hl _ => retired_iff_of_legal nofun hl) fun _ hcounts => absurd hcounts hc)

/-- A retirement revises one virtual accelerator. -/
theorem amends_retireVirtualAct (h : owned.Current im.state) (hs : owned.record.state ≠ .retired)
    (hr : ¬ t.retirements) (hc : ¬ t.counts) :
    Amends owned.virtualId (fun v v' => Advanced t v v' ∧ v'.state = .retired) im
      (retireVirtualAct auth reason clock owned im).1 := by
  simp only [retireVirtualAct]
  have hfence := im.amends_fenceLeases owned.virtualId (txt "virtual accelerator retired") clock.now
  generalize im.fenceLeases owned.virtualId _ clock.now = im1 at hfence ⊢
  generalize him2 : ((if valid owned.record.assignment then Impl.revokeAssignment _
    owned.record.assignment (txt "virtual accelerator retired") clock.now
    else _).releaseBacking owned.record.backing).touchVirtual owned.record.id = im2
  have hsame : im2.state.virtuals = im1.state.virtuals := by
    rw [← him2]
    refine (virtuals_releaseBacking _ _).trans ?_
    split
    · exact virtuals_revokeAssignment _ _ _ _
    · rfl
  have hunbind := amends_unbind (t := t) owned.virtualId hsame (f := fun v => { v with
    backingHistory := v.backingHistory.map fun entry =>
      { entry with current := false, to_ := if entry.to_ = 0 then clock.now else entry.to_ }
    activeAttachments := 0
    retiredAt := clock.now
    retirementReason := reason })
    fun v => ⟨revised_of_state rfl rfl rfl rfl rfl rfl rfl, rfl⟩
  generalize (im2.modify .virtual owned.virtualId fun v => unbind _).rebuildProjection
    owned.virtualId = im3 at hunbind ⊢
  obtain ⟨v1, hv1, n, hcounted⟩ := hfence.some h.virtual
  obtain ⟨v3, hv3, -, hstate⟩ := hunbind.some hv1
  have hlegal : isLegalTransition v3.state .retired = true := by
    rw [hstate, hcounted]
    revert hs
    cases owned.record.state <;> decide
  have hbefore : Amends owned.virtualId (Revised t.unmarked) im im3 := by
    refine (hfence.comp hunbind).mono ?_
    rintro v _ - ⟨w, hw, hw', -⟩
    exact hw.revised.trans hw'
  exact amends_transitionAct_after hbefore (fun _ => rfl) hv3 hlegal (fun hret => absurd hret hr)
    fun hcounts => absurd hcounts hc

/-- A retirement revises virtual accelerators. -/
theorem revises_retireVirtualAct (h : owned.Current im.state) (hs : owned.record.state ≠ .retired)
    (hr : ¬ t.retirements) (hc : ¬ t.counts) :
    Revises t im (retireVirtualAct auth reason clock owned im).1 :=
  revises_of_amends ((amends_retireVirtualAct h hs hr hc).mono fun _ _ _ hw => hw.1.revised)

theorem virtuals_probeContract (im : Impl σ) (record : VirtualAcceleratorRecord)
    (contract : ResourceContract) :
    (im.probeContract record contract).1.state.virtuals = im.state.virtuals := by
  unfold probeContract
  split <;> rfl

/-- A new contract revises virtual accelerators. -/
theorem revises_updateContractAct {contract : ResourceContract} :
    Revises t im (updateContractAct auth contract clock owned im).1 := by
  unfold updateContractAct
  have hsame := im.virtuals_probeContract owned.record (contract.normalize im.options.sorting)
  dsimp only
  split
  · rename_i im1 status hprobe
    rw [hprobe] at hsame
    exact .of_virtuals hsame
  · rename_i im1 hprobe
    rw [hprobe] at hsame
    have hmodify : Amends owned.virtualId (Advanced t) im
        ((im1.touchVirtual owned.record.id).takeId.modify .virtual owned.virtualId fun v =>
          { v with
            contract := { contract.normalize im.options.sorting with
              id := (im1.touchVirtual owned.record.id).nextId
              generation := ((contract.normalize im.options.sorting).generation + 1) % 2 ^ 64 }
            generation := v.generation + 1
            updatedAt := clock.now }) := by
      refine amends_modify_of hsame fun v _ => ?_
      exact ⟨⟨Nat.le_succ _, .of_le _ (Nat.le_succ _), le_rfl, .inl rfl, nofun, fun _ => ⟨rfl, rfl⟩,
        fun _ => .rfl, fun _ => rfl, fun _ => rfl⟩, Nat.lt_succ_self _⟩
    refine revises_of_amends ((hmodify.comp (amends_rebuildProjection _ _)).mono ?_)
    rintro v _ - ⟨w, hw, rfl⟩
    exact (hw.before (revised_project _ _ _)).revised

end Virtuals

/-! ### Bindings -/

section Bindings

variable {auth : Authority} {clock : Clock} {reason : Text} {owned : Owned}

/-- Nothing that is observed changes, and no generation does. -/
structure Unobserved (v v' : VirtualAcceleratorRecord) : Prop where
  observed : v'.observed = v.observed
  generation : v'.generation = v.generation
  stateGeneration : v'.stateGeneration = v.stateGeneration
  allocatedBytes : v'.allocatedBytes = v.allocatedBytes

theorem Unobserved.refl (v : VirtualAcceleratorRecord) : Unobserved v v := ⟨rfl, rfl, rfl, rfl⟩

theorem Unobserved.trans (h : Unobserved v v') (h' : Unobserved v' v'') : Unobserved v v'' :=
  ⟨h'.observed.trans h.observed, h'.generation.trans h.generation,
    h'.stateGeneration.trans h.stateGeneration, h'.allocatedBytes.trans h.allocatedBytes⟩

theorem Unobserved.revised (h : Unobserved v v') : Revised t v v' :=
  .of_observed h.observed h.generation h.stateGeneration fun _ => h.allocatedBytes

theorem Unobserved.state (h : Unobserved v v') : v'.state = v.state :=
  congrArg (fun o => o.2.2.1) h.observed

theorem Unobserved.backingGeneration (h : Unobserved v v') :
    v'.backingGeneration = v.backingGeneration :=
  congrArg (fun o => o.2.2.2.2.2.2.2.1) h.observed

theorem Counted.unobserved (h : Counted v v') : Unobserved v v' := by
  obtain ⟨n, rfl⟩ := h
  exact ⟨rfl, rfl, rfl, rfl⟩

/-- Draining the assignment that is replaced revises one virtual accelerator. -/
theorem amends_drainPrevious (im : Impl σ) (id : VirtualAcceleratorId)
    (value : VirtualAcceleratorRecord) (now : UnixMicros) :
    Amends id (fun v v' => Unobserved v v' ∧ v'.backingHistory = closeHistory now v.backingHistory)
      im (im.drainPrevious id value now) := by
  simp only [drainPrevious]
  generalize him1 : (Impl.releaseBacking _ value.backing).touchVirtual value.id = im1
  have hsame : im1.state.virtuals = im.state.virtuals := by
    rw [← him1]
    refine (virtuals_releaseBacking _ _).trans ?_
    split <;> rfl
  have hhistory : Amends id
      (fun v v' => Unobserved v v' ∧ v'.backingHistory = closeHistory now v.backingHistory) im
      (im1.modify .virtual id fun v =>
        { v with backingHistory := closeHistory now v.backingHistory }) :=
    amends_modify_of hsame fun _ _ => ⟨⟨rfl, rfl, rfl, rfl⟩, rfl⟩
  refine (hhistory.comp (amends_fenceLeases _ id _ now)).mono ?_
  rintro v _ - ⟨w, ⟨hw, hclosed⟩, hw'⟩
  refine ⟨hw.trans hw'.unobserved, ?_⟩
  obtain ⟨n, rfl⟩ := hw'
  exact hclosed

/-- The projection is derived anew, and an entry of the history is opened. -/
def Recorded (entry : BackingHistoryEntry) (v v' : VirtualAcceleratorRecord) : Prop :=
  ∃ s n, v' = { project s n v with backingHistory := v.backingHistory ++ [entry] }

theorem Recorded.revised {entry : BackingHistoryEntry} (h : Recorded entry v v') :
    Revised t.unmarked v v' := by
  obtain ⟨s, n, rfl⟩ := h
  exact revised_of_state rfl rfl rfl rfl rfl rfl rfl

/-- Recording an outcome revises one virtual accelerator. -/
theorem amends_record {R : VirtualAcceleratorRecord → VirtualAcceleratorRecord → Prop}
    (h : Amends id R im im') (entry : BackingHistoryEntry) :
    Amends id (fun v v' => ∃ w, R v w ∧ Recorded entry w v') im
      ((im'.rebuildProjection id).modify .virtual id fun v =>
        { v with backingHistory := v.backingHistory ++ [entry] }) := by
  have hprojected : Amends id (fun v v' => ∃ w, R v w ∧ ∃ s n, v' = project s n w) im
      (im'.rebuildProjection id) :=
    Amends.modify h rfl fun _ w _ hw => ⟨w, hw, _, _, rfl⟩
  refine Amends.modify hprojected rfl fun v _ _ ⟨w, hw, s, n, hproject⟩ => ?_
  subst hproject
  exact ⟨w, hw, s, n, rfl⟩

/-- A binding under the next backing generation. -/
theorem advanced_bindVirtual {assignment : BackingAssignment} {backing : BackingRecord}
    {policyGeneration : Generation} {now : UnixMicros}
    (hg : v.backingGeneration ≤ assignment.backingGeneration)
    (hr : v.state ≠ .retired)
    (hc : t.counts → VirtualLifecycleState.provisioned.counts = v.state.counts) :
    Advanced t v (bindVirtual assignment backing policyGeneration reason now v) where
  generation := Nat.le_succ _
  behind := .succ _ _
  backingGeneration := hg
  rebound := .inr (Nat.lt_succ_self _)
  marked := nofun
  owner _ := ⟨rfl, rfl⟩
  retired _ := iff_of_false nofun hr
  counted := hc
  sized _ := rfl
  advanced := Nat.lt_succ_self _

/-- An assignment binds its virtual accelerator under the next generation of its backing and opens
an entry of the history; a replacement closes the others before. -/
theorem amends_assignBackingAct {operation : String} {backingId : BackingId} {replacing : Bool}
    {plan : Owned × BackingRecord} : Amends plan.1.virtualId (fun v v' =>
      ∃ (w : VirtualAcceleratorRecord) (assignment : BackingAssignment)
        (policyGeneration : Generation) (why : Text) (entry : BackingHistoryEntry),
        Unobserved v w ∧ w.backingHistory =
          (if replacing then closeHistory clock.now v.backingHistory else v.backingHistory) ∧
        assignment.backingGeneration = plan.1.record.backingGeneration + 1 ∧
        entry.assignment = assignment.id ∧ entry.backing = plan.2.id ∧
        entry.backingGeneration = assignment.backingGeneration ∧ entry.current = true ∧
        Recorded entry (bindVirtual assignment plan.2 policyGeneration why clock.now w) v') im
      (assignBackingAct operation auth backingId replacing reason clock plan im).1 := by
  obtain ⟨owned, backing⟩ := plan
  simp only [assignBackingAct]
  -- the previous backing is drained first when it is replaced
  have hdrained : Amends owned.virtualId (fun v v' => Unobserved v v' ∧ v'.backingHistory =
      if replacing then closeHistory clock.now v.backingHistory else v.backingHistory) im
      (if replacing then im.drainPrevious owned.virtualId owned.record clock.now else im) := by
    split
    · exact amends_drainPrevious ..
    · exact .of_eq rfl fun v => ⟨.refl v, rfl⟩
  generalize (if replacing then im.drainPrevious owned.virtualId owned.record clock.now else im) =
    im1 at hdrained ⊢
  -- the new assignment is bound
  generalize hbind :
    (im1.takeId.touchVirtual owned.record.id).modify .virtual owned.virtualId _ = im2
  have hbound : Amends owned.virtualId (fun v v' => ∃ w assignment policyGeneration why,
      (Unobserved v w ∧ w.backingHistory =
        if replacing then closeHistory clock.now v.backingHistory else v.backingHistory) ∧
      assignment.id = im1.nextId ∧
      assignment.backingGeneration = owned.record.backingGeneration + 1 ∧
      v' = bindVirtual assignment backing policyGeneration why clock.now w) im im2 := by
    rw [← hbind]
    exact Amends.modify hdrained rfl fun v w _ hw => ⟨w, _, _, _, hw, rfl, rfl, rfl⟩
  -- the projection is rebuilt, and the binding is entered into the history
  generalize hrecord :
    (im2.rebuildProjection owned.virtualId).modify .virtual owned.virtualId _ = im3
  have hrecorded : Amends owned.virtualId (fun v v' => ∃ w entry,
      (∃ u assignment policyGeneration why, (Unobserved v u ∧ u.backingHistory =
        if replacing then closeHistory clock.now v.backingHistory else v.backingHistory) ∧
      assignment.id = im1.nextId ∧
      assignment.backingGeneration = owned.record.backingGeneration + 1 ∧
      w = bindVirtual assignment backing policyGeneration why clock.now u) ∧
      (entry.assignment = im1.nextId ∧ entry.backing = backing.id ∧
        entry.backingGeneration = owned.record.backingGeneration + 1 ∧ entry.current = true) ∧
      Recorded entry w v') im im3 := by
    rw [← hrecord]
    refine (amends_record hbound _).mono fun v v' _ hamended => ?_
    obtain ⟨w, hw, hr⟩ := hamended
    exact ⟨w, _, hw, ⟨rfl, rfl, rfl, rfl⟩, hr⟩
  refine (hrecorded.mono ?_).congr (virtualRecord_congr rfl)
  rintro v v' - ⟨_, entry, ⟨w, a, _, _, ⟨hw, hclosed⟩, hid, hg, rfl⟩, ⟨he, heb, heg, hec⟩, hr⟩
  exact ⟨w, a, _, _, entry, hw, hclosed, hg, he.trans hid.symm, heb, heg.trans hg.symm, hec, hr⟩

/-- Assigning a backing revises virtual accelerators. -/
theorem revises_assignBackingAct {operation : String} {backingId : BackingId} {replacing : Bool}
    {plan : Owned × BackingRecord} (h : plan.1.Current im.state)
    (hs : plan.1.record.state ≠ .retired)
    (hc : t.counts → plan.1.record.state.counts = true) :
    Revises t im (assignBackingAct operation auth backingId replacing reason clock plan im).1 := by
  refine revises_of_amends (amends_assignBackingAct.mono ?_)
  rintro v v' hv ⟨w, assignment, policyGeneration, why, entry, hw, -, hg, -, -, -, -, hrecorded⟩
  obtain rfl := Option.some.inj (h.virtual.symm.trans hv)
  have hbound : Advanced t w
      (bindVirtual assignment plan.2 policyGeneration why clock.now w) := by
    refine advanced_bindVirtual ?_ ?_ fun hcounts => ?_
    · rw [hw.backingGeneration, hg]
      exact Nat.le_succ _
    · rw [hw.state]
      exact hs
    · rw [hw.state]
      exact (hc hcounts).symm
  exact ((Advanced.after hw.revised hbound).before hrecorded.revised).revised

/-- A step of the life cycle that is taken under a condition, after changes that are not
observed. -/
theorem revises_transition {target : VirtualLifecycleState} (h : Amends id Unobserved im im')
    (hv : im.state.virtuals[id]? = some v)
    (hr : isLegalTransition v.state target = true → t.retirements →
      (target = .retired ↔ v.state = .retired))
    (hc : isLegalTransition v.state target = true → t.counts → target.counts = v.state.counts) :
    Revises t im (im'.transition clock id target reason).1 := by
  obtain ⟨w, hw, hvw⟩ := h.some hv
  have hfirst : Revises t im im' := revises_of_amends (h.mono fun _ _ _ h => h.revised)
  cases hl : isLegalTransition w.state target with
  | false =>
    obtain ⟨status, hrefused⟩ := transition_refused clock reason hw hl
    rw [hrefused]
    exact hfirst
  | true =>
    refine hfirst.trans' (revises_of_amends ((transition_legal clock reason hw hl).2.mono ?_))
    rintro w' _ hw' rfl
    obtain rfl := Option.some.inj (hw.symm.trans hw')
    rw [hvw.state] at hl
    refine (advanced_relocate ?_ ?_).revised
    · rw [hvw.state]
      exact hr hl
    · rw [hvw.state]
      exact hc hl

/-- An attachment revises virtual accelerators. -/
theorem revises_attachAct (h : owned.Current im.state)
    (hs : owned.record.state = .provisioned ∨ owned.record.state = .suspended)
    (hc : t.counts → owned.record.state.counts = true) :
    Revises t im (attachAct auth clock owned im).1 := by
  have hfree : lifecycleAllowsLeases owned.record.state = false := by
    obtain hs | hs := hs <;> rw [hs] <;> rfl
  simp only [attachAct, hfree, Bool.false_eq_true, if_false]
  generalize him0 : Impl.modify (Impl.touchVirtual _ owned.record.id) .virtual owned.virtualId _ =
    im0
  have hlisted : Amends owned.virtualId Unobserved im im0 := by
    rw [← him0]
    exact amends_modify_of rfl fun _ _ => ⟨rfl, rfl, rfl, rfl⟩
  generalize him1 : Impl.modify (Impl.touchTenant _ owned.tenant.id) .tenant owned.tenantId _ = im1
  have hfirst : Amends owned.virtualId Unobserved im im1 := by
    rw [← him1]
    exact hlisted.congr (virtualRecord_congr rfl)
  have hattached : Revises t im (im1.transition clock owned.virtualId .attached
      (txt "tenant attached under a generation-bound lease")).1 :=
    revises_transition hfirst h.virtual (fun hl _ => retired_iff_of_legal (by decide) hl)
      fun _ hcounts => (hc hcounts).symm
  split
  · rename_i im2 status hcase
    rw [hcase] at hattached
    exact hattached
  · rename_i im2 hcase
    rw [hcase] at hattached
    exact hattached.trans' (.of_virtuals rfl)

/-- Releasing a lease revises one virtual accelerator. -/
theorem amends_releaseLease (im : Impl σ) (held : Held) (reason : Text) (now : UnixMicros)
    (book : AccountingCounters → AccountingCounters) :
    Amends held.virtualId Unobserved im (im.releaseLease held reason now book) := by
  simp only [releaseLease]
  generalize him1 : Impl.modify (Impl.touchVirtual _ held.record.id) .virtual held.virtualId _ = im1
  have hfirst : Amends held.virtualId Unobserved im im1 := by
    rw [← him1]
    exact amends_modify_of rfl fun _ _ => ⟨rfl, rfl, rfl, rfl⟩
  refine hfirst.congr (virtualRecord_congr ?_)
  split <;> rfl

/-- Detaching or revoking a lease revises virtual accelerators. -/
theorem revises_releaseLeaseAct {operation lastReason : String}
    {book : AccountingCounters → AccountingCounters} {held : Held}
    (h : held.toOwned.Current im.state)
    (hc : t.counts → held.record.activeAttachments - 1 = 0 →
      isLegalTransition held.record.state .provisioned = true → held.record.state.counts = true) :
    Revises t im (releaseLeaseAct operation auth clock reason lastReason book held im).1 := by
  simp only [releaseLeaseAct]
  have hfirst := im.amends_releaseLease held reason clock.now book
  generalize im.releaseLease held reason clock.now book = im1 at hfirst ⊢
  have hrest : Revises t im (if held.record.activeAttachments - 1 = 0 then
      im1.transition clock held.virtualId .provisioned (txt lastReason) else (im1, .ok ())).1 := by
    split
    · rename_i hlast
      exact revises_transition hfirst h.virtual (fun hl _ => retired_iff_of_legal (by decide) hl)
        fun hl hcounts => (hc hcounts hlast hl).symm
    · exact revises_of_amends (hfirst.mono fun _ _ _ h => h.revised)
  split
  · rename_i im2 status hcase
    rw [hcase] at hrest
    exact hrest
  · rename_i im2 hcase
    rw [hcase] at hrest
    exact hrest

end Bindings

/-! ### Migrations -/

section Migrations

variable {auth : Authority} {clock : Clock} {reason : Text}

/-- Planning a migration revises virtual accelerators. -/
theorem revises_planMigrationAct {destination : BackingId} {klass : MigrationClass}
    {plan : Owned × BackingRecord} :
    Revises t im (planMigrationAct auth destination klass clock plan im).1 := by
  obtain ⟨owned, backing⟩ := plan
  simp only [planMigrationAct]
  generalize him1 : Impl.modify (Impl.touchVirtual _ owned.record.id) .virtual owned.virtualId _ =
    im1
  have hfirst : Amends owned.virtualId Unobserved im im1 := by
    rw [← him1]
    exact amends_modify_of rfl fun _ _ => ⟨rfl, rfl, rfl, rfl⟩
  exact revises_of_amends ((hfirst.mono fun _ _ _ h => h.revised).congr (virtualRecord_congr rfl))

/-- Preparing a migration revises virtual accelerators. -/
theorem revises_prepareMigrationAct {f : InFlight} (h : f.toOwned.Current im.state)
    (hc : isLegalTransition f.record.state .migrating = true → t.counts →
      f.record.state.counts = true) :
    Revises t im (prepareMigrationAct auth clock f im).1 := by
  have hfirst : Revises t im (im.transition clock f.virtualId .migrating
      (txt "migration prepared; leases are drained before cutover")).1 :=
    revises_transition (.of_eq rfl Unobserved.refl) h.virtual
      (fun hl _ => retired_iff_of_legal nofun hl) fun hl hcounts => (hc hl hcounts).symm
  simp only [prepareMigrationAct]
  split
  · rename_i im1 status hcase
    rw [hcase] at hfirst
    exact hfirst
  · rename_i im1 hcase
    rw [hcase] at hfirst
    have hfence : Revises t im1
      (im1.fenceLeases f.virtualId (txt ("migration drained the source " ++
        "backing; the lease is bound to the source generation")) clock.now) :=
      revises_of_amends ((amends_fenceLeases ..).mono fun _ _ _ h => h.revised)
    exact hfirst.trans' (hfence.trans' (.of_virtuals rfl))

theorem virtuals_cutoverAuthority (im : Impl σ) (c : Cutover) (record : VirtualAcceleratorRecord)
    (now : UnixMicros) :
    (im.cutoverAuthority c record now).state.virtuals = im.state.virtuals := by
  have hassignment : ∀ (im : Impl σ) (id : ℕ) (f : BackingAssignment → BackingAssignment),
      ((im.touchAssignment id).modify .assignment id f).state.virtuals = im.state.virtuals :=
    fun _ _ _ => rfl
  have hbacking : ∀ (im : Impl σ) (id : ℕ) (f : BackingRecord → BackingRecord),
      ((im.touchBacking id).modify .backing id f).state.virtuals = im.state.virtuals :=
    fun _ _ _ => rfl
  have haccount : ∀ (im : Impl σ) (f : AccountingCounters → AccountingCounters),
      (im.account f).state.virtuals = im.state.virtuals := fun _ _ => rfl
  simp only [cutoverAuthority, hbacking, hassignment, haccount]

/-- The cutover binds its virtual accelerator to the destination, and closes the entries of the
history before it opens one. -/
theorem amends_commitMigrationAct {c : Cutover} : Amends c.virtualId (fun v v' =>
      ∃ (destination : BackingRecord) (policyGeneration : Generation) (entry : BackingHistoryEntry),
        entry.assignment = c.migration.destinationAssignment ∧
        entry.backing = c.migration.plan.destinationBacking ∧
        entry.backingGeneration = c.destinationAssignment.backingGeneration ∧
        entry.current = true ∧
        Recorded entry (cutoverVirtual c destination policyGeneration clock.now v) v') im
      (commitMigrationAct auth clock c im).1 := by
  have hbound : Amends c.virtualId
      (fun v v' => ∃ destination policyGeneration,
        v' = cutoverVirtual c destination policyGeneration clock.now v) im
      ((im.touchVirtual c.record.id).modify .virtual c.virtualId
        (cutoverVirtual c (im.state.backings[c.migration.plan.destinationBacking]?.getD {})
          im.state.policyGeneration clock.now)) :=
    amends_modify_of rfl fun v _ => ⟨_, _, rfl⟩
  have hrecorded : Amends c.virtualId (fun v v' =>
      ∃ (destination : BackingRecord) (policyGeneration : Generation) (entry : BackingHistoryEntry),
        entry.assignment = c.migration.destinationAssignment ∧
        entry.backing = c.migration.plan.destinationBacking ∧
        entry.backingGeneration = c.destinationAssignment.backingGeneration ∧
        entry.current = true ∧
        Recorded entry (cutoverVirtual c destination policyGeneration clock.now v) v') im
      (im.rebindVirtual c clock.now) := by
    refine (amends_record hbound _).mono ?_
    rintro v v' - ⟨_, ⟨destination, policyGeneration, rfl⟩, hr⟩
    exact ⟨destination, policyGeneration, _, rfl, rfl, rfl, rfl, hr⟩
  simp only [commitMigrationAct]
  generalize im.rebindVirtual c clock.now = im1 at hrecorded ⊢
  have hcut := im1.virtuals_cutoverAuthority c (im1.state.virtuals[c.virtualId]?.getD {}) clock.now
  generalize im1.cutoverAuthority c _ clock.now = im2 at hcut ⊢
  exact hrecorded.congr (virtualRecord_congr hcut)

/-- A cutover revises virtual accelerators. -/
theorem revises_commitMigrationAct {c : Cutover} (h : c.toOwned.Current im.state)
    (hs : c.record.state = .migrating)
    (hg : c.record.backingGeneration ≤ c.destinationAssignment.backingGeneration) :
    Revises t im (commitMigrationAct auth clock c im).1 := by
  refine revises_of_amends (amends_commitMigrationAct.mono ?_)
  rintro v v' hv ⟨destination, policyGeneration, entry, -, -, -, -, hrecorded⟩
  obtain rfl := Option.some.inj (h.virtual.symm.trans hv)
  have hbound : Advanced t c.record
      (cutoverVirtual c destination policyGeneration clock.now c.record) := by
    refine ⟨⟨Nat.le_succ _, .succ _ _, hg, .inr (Nat.lt_succ_self _), nofun, fun _ => ⟨rfl, rfl⟩,
      fun _ => ?_, fun _ => ?_, fun _ => rfl⟩, Nat.lt_succ_self _⟩
    · rw [hs]
      exact iff_of_false nofun nofun
    · rw [hs]
      rfl
  exact (hbound.before hrecorded.revised).revised

/-- Completing a migration revises virtual accelerators. -/
theorem revises_completeMigrationAct {f : InFlight} :
    Revises t im (completeMigrationAct auth clock f im).1 := by
  simp only [completeMigrationAct]
  exact revises_of_amends (amends_modify_of rfl fun _ _ => .of_observed rfl rfl rfl fun _ => rfl)

theorem virtuals_failDestination (im : Impl σ) (id : BackingAssignmentId) (reason : Text)
    (now : UnixMicros) : (im.failDestination id reason now).state.virtuals = im.state.virtuals := by
  unfold failDestination
  split <;> rfl

/-- Aborting a migration revises virtual accelerators. -/
theorem revises_abortMigrationAct {f : InFlight} (h : f.toOwned.Current im.state) :
    Revises t im (abortMigrationAct auth reason clock f im).1 := by
  simp only [abortMigrationAct]
  have hfail := im.virtuals_failDestination f.migration.destinationAssignment
    (txt "migration aborted before cutover: " ++ reason) clock.now
  generalize im.failDestination _ _ clock.now = im1 at hfail ⊢
  generalize him2 : Impl.account (Impl.modify (im1.touchMigration _) .migration _ _) _ = im2
  have hsame : im2.state.virtuals = im.state.virtuals := by
    rw [← him2]
    exact hfail
  have hrest : Revises t im (if f.record.state = .migrating then
      im2.transition clock f.virtualId .provisioned
        (txt "migration aborted before cutover; the source backing remains authoritative")
      else (im2, .ok ())).1 := by
    split
    · rename_i hs
      refine revises_transition (.of_eq (virtualRecord_congr hsame) Unobserved.refl) h.virtual
        (fun hl _ => retired_iff_of_legal (by decide) hl) fun _ _ => ?_
      rw [hs]
      rfl
    · exact .of_virtuals hsame
  split
  · rename_i im3 status hcase
    rw [hcase] at hrest
    exact hrest
  · rename_i im3 hcase
    rw [hcase] at hrest
    exact hrest

end Migrations

/-! ### Execution -/

section Execution

variable {auth : Authority} {n : ℕ}

/-- Reserving memory revises virtual accelerators. -/
theorem revises_reserveAllocationAct {plan : Owned × LeaseRecord} (ht : ¬ t.sizes) :
    Revises t im (reserveAllocationAct auth n plan im).1 := by
  obtain ⟨owned, lease⟩ := plan
  simp only [reserveAllocationAct]
  refine revises_of_amends (At.congr (amends_modify_of rfl fun _ _ => ?_) (virtualRecord_congr rfl))
  exact .of_observed rfl rfl rfl fun hsizes => absurd hsizes ht

/-- Releasing memory revises virtual accelerators. -/
theorem revises_releaseAllocationAct {target : VirtualAcceleratorId × VirtualAcceleratorRecord}
    (ht : ¬ t.sizes) : Revises t im (releaseAllocationAct auth n target im).1 := by
  simp only [releaseAllocationAct]
  refine revises_of_amends (At.congr (amends_modify_of rfl fun _ _ => ?_) (virtualRecord_congr rfl))
  exact .of_observed rfl rfl rfl fun hsizes => absurd hsizes ht

/-- Counting kernels revises virtual accelerators. -/
theorem revises_accountKernelAct {plan : Owned × LeaseRecord} :
    Revises t im (accountKernelAct auth n plan im).1 := by
  obtain ⟨owned, lease⟩ := plan
  simp only [accountKernelAct]
  refine revises_of_amends (At.congr (amends_modify_of rfl fun _ _ => ?_) (virtualRecord_congr rfl))
  exact .of_observed rfl rfl rfl fun _ => rfl

end Execution

/-! ### Tenants -/

/-- What requires a backing is counted as active. -/
theorem counts_of_requires {s : VirtualLifecycleState} (h : lifecycleRequiresBacking s = true) :
    s.counts = true := by
  revert h
  cases s <;> decide

theorem not_retired_of_requires {s : VirtualLifecycleState}
    (h : lifecycleRequiresBacking s = true) : s ≠ .retired := by
  rintro rfl
  cases h

/-- What requires a backing is interrupted. -/
theorem advanced_interrupt {target : VirtualLifecycleState} {reason : Text} {now : UnixMicros}
    (h : lifecycleRequiresBacking v.state = true) (hr : target ≠ .retired)
    (hc : t.counts → target.counts = true) : Advanced t v (v.relocate target reason now) :=
  advanced_relocate (fun _ => iff_of_false hr (not_retired_of_requires h))
    fun hcounts => (hc hcounts).trans (counts_of_requires h).symm

section Tenants

variable {auth : Authority} {clock : Clock} {reason : Text}

/-- Creating a tenant revises virtual accelerators. -/
theorem revises_createTenantAct {name externalSubject : Text} :
    Revises t im (createTenantAct auth name externalSubject clock () im).1 := .of_virtuals rfl

/-- A transfer revises virtual accelerators. -/
theorem revises_transferOwnershipAct {newOwner : TenantId} {transfer : Transfer}
    (hc : ¬ t.owners) :
    Revises t im (transferOwnershipAct auth newOwner clock transfer im).1 := by
  simp only [transferOwnershipAct]
  have hfence := im.amends_fenceLeases transfer.virtualId
    (txt "ownership transferred to tenant " ++ strTenant newOwner) clock.now
  generalize im.fenceLeases transfer.virtualId _ clock.now = im1 at hfence ⊢
  refine revises_of_amends (Amends.modify hfence rfl fun v w _ hw => hw.revised.trans ?_)
  by_cases hs : lifecycleRequiresBacking w.state = true
  · simp only [hs, if_true]
    apply Advanced.revised
    refine ⟨⟨Nat.le_succ _, .succ _ _, le_rfl, .inl rfl, by rintro ⟨⟩,
      fun howners => absurd howners hc, fun _ => ?_, fun _ => ?_, fun _ => rfl⟩, Nat.lt_succ_self _⟩
    · exact iff_of_false (by rintro ⟨⟩) (not_retired_of_requires hs)
    · exact (counts_of_requires hs).symm
  · simp only [hs, Bool.false_eq_true, if_false]
    apply Advanced.revised
    exact ⟨⟨Nat.le_succ _, .of_le _ (Nat.le_succ _), le_rfl, .inl rfl, (by rintro ⟨⟩),
      fun howners => absurd howners hc, fun _ => .rfl, fun _ => rfl, fun _ => rfl⟩,
      Nat.lt_succ_self _⟩

/-- The owner of a virtual accelerator gets a new generation. -/
theorem amends_fenceOwned (im : Impl σ) (id : VirtualAcceleratorId) (tenant : TenantId)
    (generation : Generation) (now : UnixMicros) (ho : ¬ t.owners) (hc : ¬ t.counts)
    (hm : t.marks → ∀ v, im.state.virtuals[id]? = some v →
      v.ownerGeneration = generation ∨ lifecycleRequiresBacking v.state = true) :
    Amends id (fun v v' => Revised t v v' ∧ v'.ownerGeneration = generation) im
      (im.fenceOwned tenant generation now id) := by
  unfold fenceOwned
  split
  · rename_i hnone
    have hnone' : im.virtualRecord id = none := hnone
    refine ⟨fun _ _ => rfl, ?_⟩
    rw [hnone']
    exact .none
  · rename_i v0 hv0
    have hfirst : Amends id (fun v w => v = v0 ∧ w = { v0 with ownerGeneration := generation }) im
        ((im.touchVirtual id).modify .virtual id fun v =>
          { v with ownerGeneration := generation }) := by
      refine amends_modify_of rfl fun v hv => ?_
      obtain rfl := Option.some.inj (hv0.symm.trans hv)
      exact ⟨rfl, rfl⟩
    refine Amends.modify (hfirst.comp (amends_fenceLeases _ id _ now)) rfl ?_
    rintro v w hv ⟨_, ⟨rfl, rfl⟩, n, rfl⟩
    have hgeneration : Revised t.unmarked v
        { v with ownerGeneration := generation, activeAttachments := n } :=
      ⟨le_rfl, .of_le _ le_rfl, le_rfl, .inl rfl, nofun, fun howners => absurd howners ho,
        fun _ => .rfl, fun _ => rfl, fun _ => rfl⟩
    by_cases hs : lifecycleRequiresBacking v.state = true
    · simp only [hs, if_true]
      refine ⟨Advanced.revised (Advanced.after hgeneration ?_), trivial⟩
      exact advanced_interrupt hs (by decide : VirtualLifecycleState.fenced ≠ .retired)
        fun hcounts => absurd hcounts hc
    · simp only [hs, Bool.false_eq_true, if_false]
      refine ⟨{ hgeneration with marked := fun hmarks => .inl ?_ }, trivial⟩
      rw [← (hm hmarks v hv0).resolve_right hs]
      rfl

/-- Fencing a tenant revises virtual accelerators. -/
theorem revises_fenceTenantAct {tid : TenantId} {tenant : TenantRecord} (ho : ¬ t.owners)
    (hc : ¬ t.counts)
    (hm : t.marks → ∀ x ∈ tenant.owned, ∀ v : VirtualAcceleratorRecord,
      im.state.virtuals[x]? = some v → lifecycleRequiresBacking v.state = true) :
    Revises t im (fenceTenantAct auth tid reason clock tenant im).1 := by
  simp only [fenceTenantAct]
  generalize him1 : (im.touchTenant tid).modify .tenant tid _ = im1
  have hsame : im1.state.virtuals = im.state.virtuals := by
    rw [← him1]
    rfl
  -- a virtual accelerator that is listed twice has its new generation at the second time
  have hfold : ∀ (ids : List VirtualAcceleratorId) (i : Impl σ),
      (t.marks → ∀ x ∈ ids, ∀ v : VirtualAcceleratorRecord, i.state.virtuals[x]? = some v →
        v.ownerGeneration = tenant.generation + 1 ∨ lifecycleRequiresBacking v.state = true) →
      Revises t i (ids.foldl (fenceOwned tid (tenant.generation + 1) clock.now) i) := by
    intro ids
    induction ids with
    | nil => exact fun i _ => .of_virtuals rfl
    | cons x ids ih =>
      intro i hi
      have hstep := amends_fenceOwned i x tid (tenant.generation + 1) clock.now ho hc
        fun hmarks => hi hmarks x List.mem_cons_self
      refine (revises_of_amends (hstep.mono fun _ _ _ hw => hw.1)).trans' (ih _ ?_)
      intro hmarks y hy v hv
      by_cases hxy : y = x
      · subst hxy
        cases hnone : i.state.virtuals[y]? with
        | none =>
          have hentry := hstep.entry
          rw [virtualRecord, hnone, virtualRecord, hv] at hentry
          cases hentry
        | some v0 =>
          obtain ⟨w, hw, -, hgeneration⟩ := hstep.some hnone
          obtain rfl := Option.some.inj (hw.symm.trans hv)
          exact .inl hgeneration
      · exact hi hmarks y (List.mem_cons_of_mem _ hy) v ((hstep.other y hxy).symm.trans hv)
  refine Revises.trans' (.of_virtuals hsame) (Revises.trans' (hfold tenant.owned im1 ?_)
    (.of_virtuals rfl))
  intro hmarks x hx v hv
  rw [hsame] at hv
  exact .inr (hm hmarks x hx v hv)

end Tenants

/-! ### Policies -/

section Policy

variable {auth : Authority} {clock : Clock}

/-- A virtual accelerator under a new policy: what requires a backing is released, and that marks
it. -/
theorem revised_detachForPolicy (updated : VirtualizationPolicy) (now : UnixMicros)
    (v : VirtualAcceleratorRecord) :
    Revised t.unmarked v (detachForPolicy updated now v) ∧
      (lifecycleRequiresBacking v.state = true →
        v.generation < (detachForPolicy updated now v).generation) := by
  unfold detachForPolicy
  by_cases hs : lifecycleRequiresBacking v.state = true
  · simp only [hs, if_true]
    refine ⟨⟨Nat.le_succ _, .succ _ _, le_rfl, .inl rfl, nofun, fun _ => ⟨rfl, rfl⟩, fun _ => ?_,
      fun _ => ?_, fun _ => rfl⟩, fun _ => Nat.lt_succ_self _⟩
    · exact iff_of_false nofun (not_retired_of_requires hs)
    · exact (counts_of_requires hs).symm
  · simp only [hs, Bool.false_eq_true, if_false]
    exact ⟨revised_of_state rfl rfl rfl rfl rfl rfl rfl, nofun⟩

/-- Withdrawing a backing revises one virtual accelerator. -/
theorem amends_withdrawBacking (im : Impl σ) (now : UnixMicros) (id : VirtualAcceleratorId)
    (record : VirtualAcceleratorRecord) :
    Amends id (fun v v' => ∃ reason, v' = { v with assignment := 0 }.relocate .recoveryRequired
      reason now) im (im.withdrawBacking now id record) := by
  simp only [withdrawBacking]
  refine amends_modify_of (Eq.trans (b := (if valid record.assignment then im.revokeAssignment
    record.assignment (txt ("policy generation advanced and the backing no longer satisfies the " ++
      "contract")) now else im).state.virtuals) rfl ?_) fun _ _ => ⟨_, rfl⟩
  split
  · exact virtuals_revokeAssignment _ _ _ _
  · rfl

/-- Validating a virtual accelerator again revises one virtual accelerator. -/
theorem amends_revalidateVirtual (updated : VirtualizationPolicy) (now : UnixMicros) (im : Impl σ)
    (id : VirtualAcceleratorId) (hc : ¬ t.counts)
    (hm : t.marks → ∀ v, im.state.virtuals[id]? = some v → v.state ≠ .retired →
      lifecycleRequiresBacking v.state = true ∨ withdraws updated now im id) :
    Amends id (Revised t) im (im.revalidateVirtual updated now id) := by
  unfold revalidateVirtual
  split
  · exact .of_eq rfl Revised.refl
  · rename_i v hv
    split
    · exact .of_eq rfl Revised.refl
    · rename_i hr
      dsimp only
      have hdetach : Amends id (fun v' w => v' = v ∧ w = detachForPolicy updated now v) im
          ((im.touchVirtual v.id).modify .virtual id (detachForPolicy updated now)) := by
        refine amends_modify_of rfl fun v' hv' => ?_
        obtain rfl := Option.some.inj (hv.symm.trans hv')
        exact ⟨rfl, rfl⟩
      obtain ⟨hdetached, hmarked⟩ := revised_detachForPolicy (t := t) updated now v
      split
      · rename_i hsatisfied
        refine Amends.modify hdetach rfl ?_
        rintro v' _ - ⟨hv', rfl⟩
        rw [hv']
        refine { hdetached.trans (revised_project _ _ _) with marked := fun hmarks => .inr ?_ }
        refine hmarked ((hm hmarks v hv hr).resolve_right ?_)
        rintro ⟨v', hv', hnot⟩
        obtain rfl := Option.some.inj (hv.symm.trans hv')
        exact absurd (hsatisfied.symm.trans hnot) (by decide)
      · have hwithdrawn := hdetach.comp (amends_withdrawBacking _ now id
          (detachForPolicy updated now v))
        generalize Impl.withdrawBacking _ now id (detachForPolicy updated now v) = im2
          at hwithdrawn ⊢
        refine Amends.modify hwithdrawn rfl ?_
        rintro _ _ - ⟨_, ⟨rfl, rfl⟩, reason, rfl⟩
        refine ((Advanced.after hdetached (Advanced.after ?_ (advanced_relocate (fun _ => ?_)
          fun hcounts => absurd hcounts hc))).before (revised_project _ _ _)).revised
        · exact revised_of_state rfl rfl rfl rfl rfl rfl rfl
        · refine iff_of_false nofun ?_
          unfold detachForPolicy
          dsimp only
          split
          · nofun
          · exact hr

theorem virtuals_supersedeLease (updated : VirtualizationPolicy) (now : UnixMicros) (im : Impl σ)
    (id : LeaseId) : (im.supersedeLease updated now id).state.virtuals = im.state.virtuals := by
  unfold supersedeLease
  split
  · rfl
  · split <;> rfl

theorem virtuals_clearAttachments (now : UnixMicros) (im : Impl σ) (id : TenantId) :
    (im.clearAttachments now id).state.virtuals = im.state.virtuals := by
  unfold clearAttachments
  split
  · rfl
  · split <;> rfl

theorem virtuals_superseded (im : Impl σ) (policy : VirtualizationPolicy) (now : UnixMicros) :
    (im.superseded policy now).state.virtuals = im.state.virtuals :=
  foldl_unchanged (f := fun im : Impl σ => im.state.virtuals)
    (virtuals_supersedeLease (im.nextPolicy policy) now) _ _

/-- A revalidation changes no other virtual accelerator. -/
theorem virtualRecord_revalidateVirtual (updated : VirtualizationPolicy) (now : UnixMicros)
    (im : Impl σ) (x y : VirtualAcceleratorId) (hy : y ≠ x) :
    (im.revalidateVirtual updated now x).virtualRecord y = im.virtualRecord y :=
  (amends_revalidateVirtual (t := ⟨False, True, True, False, True⟩) updated now im x not_false
    nofun).other y hy

/-- A new policy supersedes the leases, revalidates the virtual accelerators and clears the
attachments of the tenants. -/
theorem setPolicyAct_eq (im : Impl σ) (auth : Authority) (clock : Clock)
    (policy : VirtualizationPolicy) : (setPolicyAct auth clock policy im).1 =
      (let im1 := im.superseded policy clock.now
       let im2 := im1.state.virtuals.keys.foldl (revalidateVirtual (im.nextPolicy policy)
        clock.now) im1
       (im2.state.tenants.keys.foldl (clearAttachments clock.now) im2)
        ).recomputeDerivedAccounting.touchHeader := rfl

/-- A new policy revises virtual accelerators. -/
theorem revises_setPolicyAct {policy : VirtualizationPolicy} (hc : ¬ t.counts)
    (hm : t.marks → ∀ x v l₁ l₂, im.state.virtuals[x]? = some v → v.state ≠ .retired →
      (im.superseded policy clock.now).state.virtuals.keys = l₁ ++ x :: l₂ →
      lifecycleRequiresBacking v.state = true ∨ withdraws (im.nextPolicy policy) clock.now
        (l₁.foldl (revalidateVirtual (im.nextPolicy policy) clock.now)
          (im.superseded policy clock.now)) x) :
    Revises t im (setPolicyAct auth clock policy im).1 := by
  rw [setPolicyAct_eq]
  dsimp only
  have hsame := im.virtuals_superseded policy clock.now
  generalize im.superseded policy clock.now = im1 at hm hsame ⊢
  -- each virtual accelerator is changed by its own step, and found there as it was
  have hother := virtualRecord_revalidateVirtual (σ := σ) (im.nextPolicy policy) clock.now
  have hfold : Revises t im1 (im1.state.virtuals.keys.foldl
      (revalidateVirtual (im.nextPolicy policy) clock.now) im1) := by
    intro x
    by_cases hx : x ∈ im1.state.virtuals.keys
    · obtain ⟨l₁, l₂, hkeys, hbefore, hafter⟩ := Sweep.view_of_mem hother
        Std.ExtTreeMap.nodup_keys hx im1
      rw [hafter, ← hbefore]
      refine (amends_revalidateVirtual _ _ _ _ hc fun hmarks v hv hr => ?_).entry
      refine hm hmarks x v l₁ l₂ ?_ hr hkeys
      rw [← hsame]
      exact hbefore.symm.trans hv
    · rw [Sweep.view_of_not_mem hother hx im1]
      exact rel_refl Revised.refl _
  generalize im1.state.virtuals.keys.foldl _ im1 = im2 at hfold ⊢
  have hcleared : (im2.state.tenants.keys.foldl (clearAttachments clock.now) im2).state.virtuals =
      im2.state.virtuals := foldl_unchanged (f := fun im : Impl σ => im.state.virtuals)
    (virtuals_clearAttachments clock.now) _ _
  exact Revises.trans' (.of_virtuals hsame) (hfold.trans' (.of_virtuals hcleared))

end Policy

/-! ### Devices -/

section Devices

variable {auth : Authority} {clock : Clock} {reason : Text}

/-- Interrupting the holder of an invalidated backing revises virtual accelerators. -/
theorem revises_invalidateHolder (im : Impl σ) (now : UnixMicros) (id : VirtualAcceleratorId)
    (hc : ¬ t.counts) : Revises t im (im.invalidateHolder now id) := by
  unfold invalidateHolder
  split
  · exact .of_virtuals rfl
  · rename_i v hv
    split
    · rename_i hr
      refine revises_of_amends (amends_modify_of rfl fun v' hv' => ?_)
      obtain rfl := Option.some.inj (hv.symm.trans hv')
      have hrecovery : VirtualLifecycleState.recoveryRequired ≠ .retired := by decide
      exact (advanced_relocate (fun _ => iff_of_false hrecovery hr) fun hcounts =>
        absurd hcounts hc).revised
    · exact .of_virtuals rfl

/-- Invalidating a backing revises virtual accelerators. -/
theorem revises_invalidateBacking (now : UnixMicros) (im : Impl σ) (id : BackingId)
    (hc : ¬ t.counts) : Revises t im (im.invalidateBacking now id) := by
  unfold invalidateBacking
  split
  · exact .of_virtuals rfl
  · rename_i backing hb
    have hbinding : Revises t im (im.invalidateBinding now backing.activeAssignment) := by
      unfold invalidateBinding
      split
      · exact .of_virtuals rfl
      · split
        · exact Revises.trans' (.of_virtuals (virtuals_revokeAssignment _ _ _ _))
            (revises_invalidateHolder _ now _ hc)
        · exact .of_virtuals rfl
    exact hbinding.trans' (.of_virtuals rfl)

theorem virtuals_refreshBacking (device : PhysicalDeviceRecord) (now : UnixMicros) (im : Impl σ)
    (id : BackingId) : (im.refreshBacking device now id).state.virtuals = im.state.virtuals := by
  unfold refreshBacking
  split <;> rfl

theorem virtuals_materializeBacking (key : PhysicalDeviceId) (device : PhysicalDeviceRecord)
    (now : UnixMicros) (im : Impl σ) (source : BackingDescriptor) :
    (im.materializeBacking key device now source).state.virtuals = im.state.virtuals := by
  unfold materializeBacking
  split <;> rfl

/-- Settling the backings of a device revises virtual accelerators. -/
theorem revises_settleBackings (im : Impl σ) (key : PhysicalDeviceId) (changed : Bool)
    (d : PhysicalDeviceDescriptor) (now : UnixMicros) (hc : ¬ t.counts) :
    Revises t im (im.settleBackings key changed d now) := by
  simp only [settleBackings]
  have hmade := foldl_unchanged (f := fun im : Impl σ => im.state.virtuals)
    (virtuals_materializeBacking key (im.state.physical[key]?.getD {}) now) d.backings im
  generalize d.backings.foldl _ im = im1 at hmade ⊢
  refine Revises.trans' (.of_virtuals hmade) ?_
  split
  · exact All.foldl Revised.refl (fun _ _ _ => Revised.trans)
      (fun im id => revises_invalidateBacking now im id hc) _ im1
  · exact .of_virtuals (foldl_unchanged (f := fun im : Impl σ => im.state.virtuals)
      (virtuals_refreshBacking _ now) _ im1)

/-- Registering a device revises virtual accelerators. -/
theorem revises_registerPhysicalAct {agent : AgentId} {boot : AgentBootId}
    {d : PhysicalDeviceDescriptor}
    (hc : t.counts → ∀ (x : VirtualAcceleratorId) (v v' : VirtualAcceleratorRecord),
      im.state.virtuals[x]? = some v →
      (registerPhysicalAct auth agent boot d clock () im).1.state.virtuals[x]? = some v' →
      v'.state.counts = v.state.counts) :
    Revises t im (registerPhysicalAct auth agent boot d clock () im).1 := by
  have hall : Revises { t with counts := False } im
      (registerPhysicalAct auth agent boot d clock () im).1 := by
    simp only [registerPhysicalAct]
    have hdescribed := (virtuals_describeDevice im agent boot d clock.now).1
    generalize im.describeDevice agent boot d clock.now = described at hdescribed ⊢
    exact Revises.trans' (.of_virtuals hdescribed) (Revises.trans'
      (revises_settleBackings _ _ _ d clock.now not_false) (.of_virtuals rfl))
  intro x
  generalize (registerPhysicalAct auth agent boot d clock () im).1 = im1 at hall hc
  have hx := hall x
  generalize hv : im.virtualRecord x = v at hx ⊢
  generalize hv' : im1.virtualRecord x = v' at hx ⊢
  obtain h | _ := hx
  · exact .some { h with counted := fun hcounts => hc hcounts x _ _ hv hv' }
  · exact .none

/-- Losing a backing revises virtual accelerators. -/
theorem revises_loseBacking (reason : Text) (now : UnixMicros) (im : Impl σ) (id : BackingId) :
    Revises t im (im.loseBacking reason now id) := by
  unfold loseBacking
  split
  · exact .of_virtuals rfl
  · rename_i backing hb
    dsimp only
    split
    · exact .of_virtuals rfl
    · split
      · exact .of_virtuals rfl
      · rename_i v hv
        generalize him1 : (im.touchBacking id).modify .backing id _ = im1 at hv ⊢
        have hsame : im1.state.virtuals = im.state.virtuals := by
          rw [← him1]
          rfl
        have hinterrupt : Revises t im (im1.interruptHolder backing.assignedTo v
            (txt "backing device disappeared: " ++ reason) now) := by
          simp only [interruptHolder]
          rw [hsame] at hv
          split
          · rename_i hs
            refine revises_of_amends (amends_modify_of hsame fun v' hv' => ?_)
            obtain rfl := Option.some.inj (hv.symm.trans hv')
            have hrecovery : VirtualLifecycleState.recoveryRequired ≠ .retired := by decide
            exact (advanced_interrupt hs hrecovery fun _ => rfl).revised
          · exact .of_virtuals hsame
        generalize im1.interruptHolder backing.assignedTo v _ now = im2 at hinterrupt ⊢
        have hfenced : Revises t im2 (im2.fenceLeases backing.assignedTo
            (txt "backing device disappeared: " ++ reason) now) :=
          revises_of_amends ((amends_fenceLeases ..).mono fun _ _ _ h => h.revised)
        generalize im2.fenceLeases backing.assignedTo _ now = im3 at hfenced ⊢
        refine hinterrupt.trans' (hfenced.trans' (.of_virtuals ?_))
        split
        · exact virtuals_revokeAssignment _ _ _ _
        · rfl

theorem virtuals_recountTenant (now : UnixMicros) (im : Impl σ) (id : TenantId) :
    (im.recountTenant now id).state.virtuals = im.state.virtuals := by
  unfold recountTenant
  split
  · rfl
  · dsimp only
    split <;> rfl

/-- Losing a device revises virtual accelerators. -/
theorem revises_physicalLostAct {pid : PhysicalDeviceId} {generation : Generation}
    {device : PhysicalDeviceRecord} :
    Revises t im (physicalLostAct pid generation reason clock device im).1 := by
  simp only [physicalLostAct]
  have hlost := All.foldl Revised.refl (fun _ _ _ => Revised.trans) (revises_loseBacking (t := t)
    reason clock.now) device.backings (Impl.modify (im.touchPhysical pid) .physical pid fun r =>
      { r with present := false })
  generalize device.backings.foldl _ _ = im1 at hlost ⊢
  have hrecount := foldl_unchanged (f := fun im : Impl σ => im.state.virtuals)
    (virtuals_recountTenant clock.now) im1.state.tenants.keys im1
  generalize im1.state.tenants.keys.foldl _ im1 = im2 at hrecount ⊢
  exact Revises.trans' (.of_virtuals rfl) (hlost.trans (fun _ _ _ => Revised.trans)
    (Revises.of_virtuals hrecount))

end Devices

/-! ### Start, shutdown and classification -/

section Start

variable {clock : Clock}

theorem virtuals_endLease (ended : LeaseState) (reason : Text) (now : UnixMicros) (im : Impl σ)
    (id : LeaseId) : (im.endLease ended reason now id).state.virtuals = im.state.virtuals := by
  unfold endLease
  split
  · rfl
  · split <;> rfl

theorem virtuals_releaseTenant (updated : Option UnixMicros) (im : Impl σ) (id : TenantId) :
    (im.releaseTenant updated id).state.virtuals = im.state.virtuals := by
  unfold releaseTenant
  split
  · rfl
  · split <;> rfl

theorem virtuals_distrustBacking (im : Impl σ) (id : BackingId) :
    (im.distrustBacking id).state.virtuals = im.state.virtuals := by
  unfold distrustBacking
  split <;> rfl

theorem virtuals_distrustPhysical (im : Impl σ) (id : PhysicalDeviceId) :
    (im.distrustPhysical id).state.virtuals = im.state.virtuals := by
  unfold distrustPhysical
  split <;> rfl

theorem virtuals_enterEpoch (im : Impl σ) (recovered : Bool) :
    (im.enterEpoch recovered).state.virtuals = im.state.virtuals := by
  simp only [enterEpoch]
  split
  · rfl
  · split <;> rfl

/-- The attachments of a virtual accelerator end with the process. -/
theorem revises_releaseAttachments (reason : Text) (now : UnixMicros) (im : Impl σ)
    (id : VirtualAcceleratorId) : Revises t im (im.releaseAttachments reason now id) := by
  unfold releaseAttachments
  split
  · exact .of_virtuals rfl
  · rename_i v hv
    have hfirst : Amends id Counted im (if v.activeAttachments ≠ 0 then
        (im.touchVirtual v.id).modify .virtual id fun v => { v with activeAttachments := 0 }
        else im) := by
      split
      · exact amends_modify_of rfl fun _ _ => ⟨0, rfl⟩
      · exact .of_eq rfl fun v => ⟨v.activeAttachments, rfl⟩
    dsimp only
    generalize (if v.activeAttachments ≠ 0 then (im.touchVirtual v.id).modify .virtual id fun v =>
      { v with activeAttachments := 0 } else im) = im1 at hfirst ⊢
    split
    · rename_i hs
      refine revises_of_amends (Amends.modify hfirst rfl fun w w' hw hcounted => ?_)
      obtain rfl := Option.some.inj (hv.symm.trans hw)
      obtain ⟨n, rfl⟩ := hcounted
      have hrevised : Revised t.unmarked v { v with activeAttachments := n } :=
        revised_of_state rfl rfl rfl rfl rfl rfl rfl
      refine (Advanced.after hrevised ?_).revised
      exact advanced_interrupt hs (by decide : VirtualLifecycleState.provisioned ≠ .retired)
        fun _ => rfl
    · exact revises_of_amends (hfirst.mono fun _ _ _ hw => hw.revised)

/-- A shutdown, before it commits, revises virtual accelerators. -/
theorem revises_shutdownBody (im : Impl σ) (clock : Clock) :
    Revises t im (im.shutdownBody clock) := by
  simp only [shutdownBody]
  generalize h1 : im.state.leases.keys.foldl _ im = im1
  generalize h2 : im1.state.virtuals.keys.foldl _ im1 = im2
  generalize h3 : im2.state.tenants.keys.foldl _ im2 = im3
  have hleases : im1.state.virtuals = im.state.virtuals :=
    h1 ▸ foldl_unchanged (f := fun im : Impl σ => im.state.virtuals) (virtuals_endLease _ _ _) _ im
  have hvirtuals : Revises t im1 im2 := h2 ▸ All.foldl Revised.refl (fun _ _ _ => Revised.trans)
    (revises_releaseAttachments _ _) _ im1
  have htenants : im3.state.virtuals = im2.state.virtuals :=
    h3 ▸ foldl_unchanged
      (f := fun im : Impl σ => im.state.virtuals) (virtuals_releaseTenant _) _ im2
  exact Revises.trans' (.of_virtuals hleases) (hvirtuals.trans' (.of_virtuals htenants))

/-- A start, after it has loaded, revises virtual accelerators. -/
theorem revises_startBody (im : Impl σ) (clock : Clock) (recovered : Bool) :
    Revises t im (im.startBody clock recovered) := by
  have henter := im.virtuals_enterEpoch recovered
  simp only [startBody, dropLocalAuthority]
  generalize im.enterEpoch recovered = im0 at henter ⊢
  refine Revises.trans' (.of_virtuals henter) ?_
  split
  · generalize h1 : im0.state.leases.keys.foldl _ im0 = im1
    generalize h2 : im1.state.virtuals.keys.foldl _ im1 = im2
    generalize h3 : im2.state.tenants.keys.foldl _ im2 = im3
    generalize h4 : im3.state.backings.keys.foldl _ im3 = im4
    generalize h5 : im4.state.physical.keys.foldl _ im4 = im5
    have hleases : im1.state.virtuals = im0.state.virtuals := h1 ▸ foldl_unchanged
      (f := fun im : Impl σ => im.state.virtuals) (virtuals_endLease _ _ _) _ im0
    have hvirtuals : Revises t im1 im2 := h2 ▸ All.foldl Revised.refl (fun _ _ _ => Revised.trans)
      (revises_releaseAttachments _ _) _ im1
    have hrest : im5.state.virtuals = im2.state.virtuals :=
      calc im5.state.virtuals = im4.state.virtuals := h5 ▸ foldl_unchanged
            (f := fun im : Impl σ => im.state.virtuals) virtuals_distrustPhysical _ im4
        _ = im3.state.virtuals := h4 ▸ foldl_unchanged
            (f := fun im : Impl σ => im.state.virtuals) virtuals_distrustBacking _ im3
        _ = im2.state.virtuals := h3 ▸ foldl_unchanged
            (f := fun im : Impl σ => im.state.virtuals) (virtuals_releaseTenant _) _ im2
    exact Revises.trans' (.of_virtuals hleases) (hvirtuals.trans' (.of_virtuals hrest))
  · exact .of_virtuals rfl

/-- Classifying a migration after a restart revises virtual accelerators. -/
theorem revises_classifyMigration (now : UnixMicros) (acc : Impl σ × Bool) (key : MigrationId) :
    Revises t acc.1 (classifyMigration now acc key).1 := by
  simp only [classifyMigration]
  split
  · exact .of_virtuals rfl
  · split
    · exact .of_virtuals rfl
    · split
      · exact .of_virtuals rfl
      · split
        · exact .of_virtuals rfl
        · simp only [abortRecovered]
          refine revises_of_amends (amends_modify_of (virtuals_failRecovered _ _ _) fun v _ => ?_)
          split
          · rename_i hs
            refine (advanced_relocate (fun _ => ?_) fun _ => ?_).revised
            · rw [hs]
              decide
            · rw [hs]
              rfl
          · exact .refl v

/-- Classifying the migrations after a restart revises virtual accelerators. -/
theorem revises_classified (im : Impl σ) (now : UnixMicros) :
    Revises t im (im.classified now).1 :=
  List.foldlRecOn _ _ (motive := fun acc : Impl σ × Bool => Revises t im acc.1) (.of_virtuals rfl)
    fun acc h key _ => h.trans' (revises_classifyMigration now acc key)

end Start

end Impl

end AcceleratorVirtualization
