import AcceleratorVirtualization.Invariants.Consistency
import AcceleratorVirtualization.Invariants.Course
import AcceleratorVirtualization.Invariants.Reach

/-!
# Which assignments lose their authority

An operation takes authority only from the assignments it names, or finds: the one a virtual
accelerator gives up, the source of a cutover, those whose backing a new policy does not allow, and
those that the backings of a device record when it is lost or replaced. Every other assignment
keeps what it has.
-/

namespace AcceleratorVirtualization

open VirtualizationState Custody Handover

namespace Impl

variable {σ : Type} {im im' : Impl σ}

/-- The assignments an operation takes authority from, if it is accepted. -/
def strips (im : Impl σ) (now : UnixMicros) : Op → List BackingAssignmentId
  | .suspend auth _ =>
    match suspendCheck auth im with
    | .ok owned => [owned.record.assignment]
    | .error _ => []
  | .retireVirtual auth _ =>
    match notRetiredCheck auth "virtual accelerator is already retired" im with
    | .ok owned => [owned.record.assignment]
    | .error _ => []
  | .replaceBacking auth destination _ =>
    match assignBackingCheck auth destination true im with
    | .ok plan => [plan.1.record.assignment]
    | .error _ => []
  | .commitMigration auth =>
    match commitMigrationCheck auth im with
    | .ok c => [c.migration.sourceAssignment]
    | .error _ => []
  | .setPolicy auth policy =>
    match setPolicyCheck auth policy im with
    | .ok updated => im.state.virtuals.toList.filterMap fun (id, v) =>
        if v.state ≠ .retired ∧ im.withdrawsFrom updated now id then some v.assignment else none
    | .error _ => []
  | .physicalLost id generation _ =>
    match physicalLostCheck id generation im with
    | .ok device => device.backings.filterMap fun b => do
        let backing ← im.state.backings[b]?
        let holder ← im.state.virtuals[backing.assignedTo]?
        return holder.assignment
    | .error _ => []
  | .registerPhysical auth agent boot d =>
    match registerPhysicalCheck auth agent boot d im, im.findDevice d.stableKey with
    | .ok (), some (_, device) =>
      if samePhysicalIdentity device d then []
      else device.backings.filterMap fun b => im.state.backings[b]?.map (·.activeAssignment)
    | _, _ => []
  | _ => []

/-! ### Sweeps -/

/-- What the resources of a set record. -/
def Entries (bs : Set ℕ) (P : Slot ℕ ℕ → Prop) (L : Ledger ℕ ℕ ℕ ℕ) : Prop :=
  ∀ b ∈ bs, ∀ s, L.slot b = some s → P s

section Entries

variable {bs : Set ℕ} {P : Slot ℕ ℕ → Prop} {L : Ledger ℕ ℕ ℕ ℕ}

theorem Entries.mark (h : Entries bs P L) {b : ℕ} {f : Slot ℕ ℕ → Slot ℕ ℕ}
    (hf : ∀ s, P s → P (f s)) : Entries bs P (L.mark b f) := by
  intro b' hb' s hs
  obtain rfl | hne := eq_or_ne b' b
  · simp only [Ledger.mark, Function.update_self, Option.map_eq_some_iff] at hs
    obtain ⟨s0, hs0, rfl⟩ := hs
    exact hf s0 (h b' hb' s0 hs0)
  · simp only [Ledger.mark, Function.update_of_ne hne] at hs
    exact h b' hb' s hs

theorem Entries.found (h : Entries bs P L) {b : ℕ} {exclusive : Bool}
    (hP : P ⟨exclusive, none, none⟩) : Entries bs P (L.found b exclusive) := by
  intro b' hb' s hs
  obtain rfl | hne := eq_or_ne b' b
  · simp only [Ledger.found, Function.update_self, Option.some.injEq] at hs
    exact hs ▸ hP
  · simp only [Ledger.found, Function.update_of_ne hne] at hs
    exact h b' hb' s hs

end Entries

section Sweeps

variable {s : Impl σ} {T : Set (RecordKind × ℕ)} {g x : ℕ}

/-- A loss takes authority from the assignments of the holders the backings record. -/
theorem holds_loseBackings (hs : Tracks s T im) (h : im.ledger.Holds g x) {bs : List BackingId}
    (hkeep : ∀ b ∈ bs, ∀ r v, im.state.backings[b]? = some r →
      im.state.virtuals[r.assignedTo]? = some v → v.assignment ≠ g) (reason : Text)
    (now : UnixMicros) : (bs.foldl (loseBacking reason now) im).ledger.Holds g x := by
  -- what the backings record and where the virtual accelerators point is only forgotten
  have hrecord : Entries { b | b ∈ bs } (fun slot => ∀ y p, slot.holder = some y →
      im.ledger.party y = some p → p.grant ≠ some g) im.ledger := by
    intro b hb slot hslot y p hy hp
    obtain ⟨r, hr, rfl⟩ := Option.map_eq_some_iff.mp hslot
    obtain ⟨v, hv, rfl⟩ := Option.map_eq_some_iff.mp hp
    obtain ⟨rfl, -⟩ := ref_eq_some.mp hy
    intro hg
    exact hkeep b hb r v hr hv (ref_eq_some.mp hg).1
  refine (List.foldlRecOn bs (loseBacking reason now) (motive := fun i => Tracks s T i ∧
    i.ledger.Holds g x ∧ i.ledger.party = im.ledger.party ∧ Entries { b | b ∈ bs }
      (fun slot => ∀ y p, slot.holder = some y → im.ledger.party y = some p →
        p.grant ≠ some g) i.ledger) ⟨hs, h, rfl, hrecord⟩ ?_).2.1
  rintro i ⟨hsi, hi, hparty, hentries⟩ b hb
  refine ⟨hsi.loseBacking reason now b, ?_⟩
  obtain heq | ⟨r, v, hr, hv, heq⟩ := ledger_loseBacking hsi.wellKeyed reason now b
  · rw [heq]
    exact ⟨hi, hparty, hentries⟩
  · rw [heq]
    refine ⟨Ledger.holds_mark.mpr (Ledger.holds_revoke.mpr ⟨?_, hi⟩), hparty,
      hentries.mark fun slot _ y p hy => absurd hy nofun⟩
    rintro rfl
    have hgrant : i.ledger.grant v.assignment ≠ none := by
      obtain ⟨r, hr, -⟩ := hi
      rw [hr]
      nofun
    have hne : v.assignment ≠ 0 := by
      intro h0
      rw [h0] at hgrant
      exact hgrant (grant_zero hsi.wellKeyed)
    have hne' : r.assignedTo ≠ 0 := by
      intro h0
      rw [h0] at hv
      exact absurd ((hsi.wellKeyed.zero .virtual).symm.trans hv) nofun
    have hslot : i.ledger.slot b = some r.toSlot := congrArg (Option.map BackingRecord.toSlot) hr
    have hpointer : im.ledger.party r.assignedTo = some v.toPointer :=
      (congrFun hparty.symm _).trans (congrArg (Option.map VirtualAcceleratorRecord.toPointer) hv)
    exact hentries b hb _ hslot _ _ (ref_of_ne hne') hpointer (ref_of_ne hne)

/-- An assignment with authority is not the unset one. -/
theorem ne_zero_of_holds (hw : im.state.WellKeyed) (h : im.ledger.Holds g x) : g ≠ 0 := by
  rintro rfl
  obtain ⟨r, hr, -⟩ := h
  exact absurd ((grant_zero hw).symm.trans hr) nofun

/-- Settling takes authority from the assignments the listed backings record, if the device is a
different one. -/
theorem holds_settleBackings (hs : Tracks s T im) (h : im.ledger.Holds g x)
    {key : PhysicalDeviceId} (ht : (.physical, key) ∈ T) {changed : Bool}
    (hkeep : changed = true → ∀ b ∈ im.stock key, ∀ r, im.state.backings[b]? = some r →
      r.activeAssignment ≠ g) (d : PhysicalDeviceDescriptor) (now : UnixMicros) :
    (im.settleBackings key changed d now).ledger.Holds g x := by
  simp only [settleBackings]
  generalize im.state.physical[key]?.getD {} = device
  -- the backings that are listed afterwards were listed, or are new
  let bs : Set ℕ := { b | b ∈ im.stock key ∨ im.nextId ≤ b }
  have hrecord : changed = true → Entries bs (fun slot => slot.active ≠ some g) im.ledger := by
    intro hchanged b hb slot hslot hactive
    obtain ⟨r, hr, rfl⟩ := Option.map_eq_some_iff.mp hslot
    obtain hb | hb := hb
    · exact hkeep hchanged b hb r hr (ref_eq_some.mp hactive).1
    · exact absurd ((hs.wellKeyed.fresh .backing hb).symm.trans hr) (by simp)
  have hentered : Tracks s T (d.backings.foldl (materializeBacking key device now) im) ∧
      (d.backings.foldl (materializeBacking key device now) im).ledger.Holds g x ∧
      (changed = true → Entries bs (fun slot => slot.active ≠ some g)
        (d.backings.foldl (materializeBacking key device now) im).ledger) := by
    refine List.foldlRecOn d.backings (materializeBacking key device now)
      (motive := fun i : Impl σ => Tracks s T i ∧ i.ledger.Holds g x ∧
        (changed = true → Entries bs (fun slot => slot.active ≠ some g) i.ledger))
      ⟨hs, h, hrecord⟩ ?_
    rintro i ⟨hsi, hi, hentries⟩ source -
    refine ⟨hsi.materializeBacking ht device now source, ?_⟩
    obtain heq | ⟨b, r, -, -, -, heq⟩ :=
      ledger_materializeBacking hsi.wellKeyed key device now source
    · rw [heq]
      exact ⟨hi, fun hc => ((hentries hc).found (by rintro ⟨⟩)).mark fun _ hs => hs⟩
    · rw [heq]
      exact ⟨hi, fun hc => (hentries hc).mark fun _ hs => hs⟩
  have hlisted := (@stock_materializeBackings _ key device now d.backings im).2
  generalize d.backings.foldl (materializeBacking key device now) im = im1 at hentered hlisted
  obtain ⟨hs1, h1, hentries⟩ := hentered
  split
  · rename_i hchanged
    refine (List.foldlRecOn _ _ (motive := fun i : Impl σ => Tracks s T i ∧ i.ledger.Holds g x ∧
      Entries bs (fun slot => slot.active ≠ some g) i.ledger) ⟨hs1, h1, hentries hchanged⟩ ?_).2.1
    rintro i ⟨hsi, hi, hi'⟩ b hb
    refine ⟨hsi.invalidateBacking now b, ?_⟩
    obtain heq | ⟨r, hr, heq⟩ := ledger_invalidateBacking i now b
    · rw [heq]
      exact ⟨hi, hi'⟩
    · rw [heq]
      refine ⟨Ledger.holds_mark.mpr (Ledger.holds_revoke.mpr ⟨?_, hi⟩),
        hi'.mark fun _ _ => by rintro ⟨⟩⟩
      rintro rfl
      exact hi' b (hlisted b hb) _ (congrArg (Option.map BackingRecord.toSlot) hr)
        (ref_of_ne (ne_zero_of_holds hsi.wellKeyed hi))
  · rw [ledger_foldl _ fun im id => ledger_refreshBacking _ now id]
    exact h1

theorem holds_registerPhysicalAct (hs : Tracks s T im) (h : im.ledger.Holds g x)
    {auth : Authority} {agent : AgentId} {boot : AgentBootId} {d : PhysicalDeviceDescriptor}
    {clock : Clock} (hkeep : ∀ key device, im.findDevice d.stableKey = some (key, device) →
      samePhysicalIdentity device d = false → ∀ b ∈ device.backings, ∀ r,
      im.state.backings[b]? = some r → r.activeAssignment ≠ g) :
    (registerPhysicalAct auth agent boot d clock () im).1.ledger.Holds g x := by
  have h1 : (im.describeDevice agent boot d clock.now).1.ledger.Holds g x := by
    rwa [ledger_describeDevice]
  refine holds_settleBackings (hs.describeDevice agent boot d clock.now).1 h1
    (Set.mem_insert _ _) (fun hchanged b hb r hr => ?_) d clock.now
  obtain ⟨key, device, hf, hdiffers, hkey, hstock⟩ := stock_describeDevice agent boot d clock.now
    hchanged
  rw [hkey, hstock] at hb
  rw [backings_describeDevice] at hr
  exact hkeep key device hf hdiffers b hb r hr

/-- A virtual accelerator keeps its binding, unless the policy withdraws it when its turn comes. -/
theorem ledger_revalidateVirtual_of_not_withdraws {updated : VirtualizationPolicy}
    {now : UnixMicros} {y : VirtualAcceleratorId} (hno : ¬ withdraws updated now im y) :
    (im.revalidateVirtual updated now y).ledger = im.ledger := by
  unfold revalidateVirtual
  split
  · rfl
  · rename_i v hv
    split
    · rfl
    · dsimp only
      rw [if_pos, ledger_rebuildProjection]
      · exact ledger_modify_virtual (toPointer_detachForPolicy updated now)
      · by_contra hsat
        exact hno ⟨v, hv, eq_false_of_ne_true hsat⟩

/-- A policy takes authority from the assignments of the virtual accelerators it withdraws the
backing from. -/
theorem holds_revalidates (hs : Tracks s T im) (h : im.ledger.Holds g x)
    {updated : VirtualizationPolicy} {now : UnixMicros} {keys : List VirtualAcceleratorId}
    (hkeys : keys.Nodup)
    (hkeep : ∀ l₁ y l₂, keys = l₁ ++ y :: l₂ →
      withdraws updated now (l₁.foldl (revalidateVirtual updated now) im) y →
      ∀ v, im.state.virtuals[y]? = some v → v.state ≠ .retired → v.assignment ≠ g) :
    (keys.foldl (revalidateVirtual updated now) im).ledger.Holds g x := by
  -- those whose turn has not come are as they were
  have hrun : ∀ l₁ l₂, keys = l₁ ++ l₂ →
      Tracks s T (l₁.foldl (revalidateVirtual updated now) im) ∧
      (l₁.foldl (revalidateVirtual updated now) im).ledger.Holds g x ∧
      ∀ y ∈ l₂, (l₁.foldl (revalidateVirtual updated now) im).virtualRecord y =
        im.virtualRecord y := by
    intro l₁
    induction l₁ using List.reverseRecOn with
    | nil => exact fun _ _ => ⟨hs, h, fun _ _ => rfl⟩
    | append_singleton l₁ y ih =>
      intro l₂ hl
      rw [List.append_assoc, List.singleton_append] at hl
      obtain ⟨hs1, h1, hsame⟩ := ih (y :: l₂) hl
      rw [List.foldl_append]
      simp only [List.foldl_cons, List.foldl_nil]
      refine ⟨hs1.revalidateVirtual updated now y, ?_, fun z hz => ?_⟩
      · by_cases hw : withdraws updated now (l₁.foldl (revalidateVirtual updated now) im) y
        · obtain heq | ⟨v, hv, hr, heq⟩ := ledger_revalidateVirtual hs1.wellKeyed updated now y
          · rwa [heq]
          · rw [heq]
            refine Ledger.holds_point.mpr (Ledger.holds_mark.mpr (Ledger.holds_revoke.mpr
              ⟨Ne.symm (hkeep l₁ y l₂ hl hw v ?_ hr), h1⟩))
            exact (hsame y List.mem_cons_self).symm.trans hv
        · rwa [ledger_revalidateVirtual_of_not_withdraws hw]
      · rw [virtualRecord_revalidateVirtual]
        · exact hsame z (List.mem_cons_of_mem _ hz)
        · rintro rfl
          rw [hl, List.nodup_append] at hkeys
          exact (List.nodup_cons.mp hkeys.2.1).1 hz
  exact (hrun keys [] (List.append_nil _).symm).2.1

theorem holds_setPolicyAct (hs : Tracks s T im) (h : im.ledger.Holds g x) {auth : Authority}
    {clock : Clock} {policy : VirtualizationPolicy}
    (hkeep : ∀ y v, im.state.virtuals[y]? = some v → v.state ≠ .retired →
      im.withdrawsFrom policy clock.now y = true → v.assignment ≠ g) :
    (setPolicyAct auth clock policy im).1.ledger.Holds g x := by
  have hsuperseded : Tracks s T (im.superseded policy clock.now) := by
    refine Tracks.foldl (fun im id h => h.supersedeLease _ clock.now id) _ ?_
    exact ((hs.touchHeader.takeId).setPolicy _ _).account _
  have hledger : (im.superseded policy clock.now).ledger = im.ledger := by
    rw [superseded, ledger_foldl _ fun im id => ledger_supersedeLease _ clock.now id]
    rfl
  rw [setPolicyAct_eq]
  simp only [ledger_touchHeader, ledger_recomputeDerivedAccounting]
  rw [ledger_foldl _ fun im id => ledger_clearAttachments clock.now id]
  refine holds_revalidates hsuperseded (hledger ▸ h) Std.ExtTreeMap.nodup_keys
    fun l₁ y l₂ hl hw v hv hr => ?_
  rw [virtuals_superseded] at hv
  refine hkeep y v hv hr ?_
  obtain ⟨v1, hv1, hsat⟩ := hw
  simp only [withdrawsFrom, takeWhile_of_nodup Std.ExtTreeMap.nodup_keys hl, hv1, hsat]
  rfl

end Sweeps

/-! ### Every body -/

section Bodies

variable {g x : ℕ} {clock : Clock}

theorem holds_checked {π α : Type} {context : Impl σ → OpContext} {kind : AuditKind}
    {check : Impl σ → Except Status π} {act : π → Body σ α} (h : im.ledger.Holds g x)
    (hact : ∀ plan, check im = .ok plan → (act plan im).1.ledger.Holds g x) :
    (checked (fun im => orRefuse (context im) kind (check im)) act im).1.ledger.Holds g x :=
  fst_checked (p := fun im => im.ledger.Holds g x) h hact

/-- A fresh assignment is not one that has authority. -/
theorem holds_issue (hw : im.state.WellKeyed) (h : im.ledger.Holds g x) {n : ℕ}
    (hn : im.state.nextSequence ≤ n) {L : Ledger ℕ ℕ ℕ ℕ} (hL : L.Holds g x) (r : Grant ℕ ℕ) :
    (L.issue n r).Holds g x := by
  refine (Ledger.holds_issue_of_ne ?_).mpr hL
  rintro rfl
  obtain ⟨r, hr, -⟩ := h
  obtain ⟨a, ha, -⟩ := Option.map_eq_some_iff.mp hr
  exact absurd ((hw.fresh .assignment hn).symm.trans ha) nofun

theorem holds_assignBackingAct (hs : Tracks im ∅ im) (h : im.ledger.Holds g x)
    {operation : String} {auth : Authority} {backing : BackingId} {replacing : Bool} {reason : Text}
    {plan : Owned × BackingRecord} (ho : plan.1.Current im.state)
    (hb : im.state.backings[backing]? = some plan.2)
    (hkeep : replacing = true → g ≠ plan.1.record.assignment) :
    (assignBackingAct operation auth backing replacing reason clock plan
      im).1.ledger.Holds g x := by
  obtain ⟨n, hn, heq⟩ := ledger_assignBackingAct hs operation auth replacing reason clock ho hb
  rw [heq]
  refine Ledger.holds_mark.mpr (Ledger.holds_point.mpr (holds_issue hs.wellKeyed h hn ?_ _))
  split
  · rename_i hr
    exact Ledger.holds_mark.mpr (Ledger.holds_revoke.mpr ⟨hkeep hr, h⟩)
  · exact h

/-- An operation takes authority from no assignment but those it strips. -/
theorem holds_body {op : Op} {b : Body σ Unit} (hb : body clock op = some b)
    (hw : im.state.WellKeyed) (hc : im.state.Consistent) (h : im.ledger.Holds g x)
    (hg : g ∉ im.beginOp.strips clock.now op) : (b im.beginOp).1.ledger.Holds g x := by
  -- most operations leave the ledger as it is
  by_cases hn : neutral op = true
  · rwa [ledger_body hb hn]
  have hs : Tracks im.beginOp ∅ im.beginOp := .beginOp (show im.beginOp.state.WellKeyed from hw)
  have h0 : im.beginOp.ledger.Holds g x := h
  have hc0 : im.beginOp.state.Consistent := hc
  generalize im.beginOp = i at hs h0 hc0 hg
  cases op <;> simp only [neutral, not_true_eq_false] at hn <;>
    simp only [body, Option.some.injEq] at hb <;> subst hb
  case registerPhysical auth agent boot d =>
    refine holds_checked h0 fun _ hok => holds_registerPhysicalAct hs h0 ?_
    intro key device hf hdiffers b hb r hr heq
    simp only [strips, hok, hf, hdiffers, Bool.false_eq_true, if_false, List.mem_filterMap,
      not_exists, not_and] at hg
    exact hg b hb (by rw [hr, Option.map_some, heq])
  case physicalLost id generation reason =>
    refine holds_checked h0 fun device hok => ?_
    have hmarked := hs.edit .physical id (f := fun r => { r with present := false }) fun _ => rfl
    have hlost := @holds_loseBackings _ _ _ _ g x hmarked h0 device.backings ?_ reason clock.now
    · simp only [physicalLostAct, ledger_touchHeader, ledger_recomputeDerivedAccounting,
        ledger_account]
      rw [ledger_foldl _ fun im id => ledger_recountTenant clock.now id]
      exact hlost
    · intro b hb r v hr hv heq
      simp only [strips, hok, List.mem_filterMap, not_exists, not_and] at hg
      refine hg b hb ?_
      have hr' : i.state.backings[b]? = some r := hr
      have hv' : i.state.virtuals[r.assignedTo]? = some v := hv
      rw [hr', Option.bind_eq_bind, Option.bind_some, hv', Option.bind_eq_bind, Option.bind_some,
        heq]
      rfl
  case setPolicy auth policy =>
    refine holds_checked h0 fun updated hok => holds_setPolicyAct hs h0 fun y v hv hr hwith => ?_
    rintro rfl
    simp only [strips, hok, List.mem_filterMap, not_exists, not_and] at hg
    refine hg (y, v) (Std.ExtTreeMap.mem_toList_iff_getElem?_eq_some.mpr hv) ?_
    exact if_pos ⟨hr, hwith⟩
  case createVirtual =>
    refine holds_checked h0 fun _ _ => ?_
    rw [ledger_createVirtualAct]
    exact h0
  case suspend =>
    refine holds_checked h0 fun owned hok => ?_
    simp only [strips, hok, List.mem_singleton] at hg
    rw [ledger_suspendAct hs.wellKeyed]
    exact Ledger.holds_point.mpr (Ledger.holds_mark.mpr (Ledger.holds_revoke.mpr ⟨hg, h0⟩))
  case retireVirtual =>
    refine holds_checked h0 fun owned hok => ?_
    simp only [strips, hok, List.mem_singleton] at hg
    rw [ledger_retireVirtualAct hs.wellKeyed]
    exact Ledger.holds_point.mpr (Ledger.holds_mark.mpr (Ledger.holds_revoke.mpr ⟨hg, h0⟩))
  case assignBacking =>
    refine holds_checked h0 fun plan hok => ?_
    exact holds_assignBackingAct hs h0 (assignBackingCheck_ok hok).1
      (assignBackingCheck_ok hok).2.1 (by rintro ⟨⟩)
  case replaceBacking =>
    refine holds_checked h0 fun plan hok => ?_
    simp only [strips, hok, List.mem_singleton] at hg
    exact holds_assignBackingAct hs h0 (assignBackingCheck_ok hok).1
      (assignBackingCheck_ok hok).2.1 fun _ => hg
  case planMigration =>
    refine holds_checked h0 fun plan hok => ?_
    rw [ledger_planMigrationAct hs.wellKeyed _ _ _ _ (planMigrationCheck_ok hok).1]
    exact h0
  case prepareMigration =>
    refine holds_checked h0 fun f hok => ?_
    obtain heq | ⟨n, hn, heq⟩ :=
      ledger_prepareMigrationAct hs _ clock (prepareMigrationCheck_ok hok).1
    · rwa [heq]
    · rw [heq]
      exact holds_issue hs.wellKeyed h0 hn h0 _
  case commitMigration =>
    refine holds_checked h0 fun c hok => ?_
    simp only [strips, hok, List.mem_singleton] at hg
    obtain ⟨hcurrent, -, -, hd⟩ := commitMigrationCheck_ok hok
    rw [ledger_commitMigrationAct hs _ clock hcurrent hd]
    refine Ledger.holds_mark.mpr (Ledger.holds_mark.mpr (Ledger.holds_point.mpr ?_))
    exact Ledger.holds_empower (Ledger.holds_revoke.mpr ⟨hg, h0⟩)
  case abortMigration =>
    refine holds_checked h0 fun f hok => ?_
    obtain ⟨hf, hopen, hterminal⟩ := abortMigrationCheck_ok hok
    rw [ledger_abortMigrationAct]
    refine Ledger.holds_revoke.mpr ⟨?_, h0⟩
    rintro rfl
    obtain ⟨r, hr, ha, -⟩ := h0
    rw [not_authoritative_of_open hs.wellKeyed hc0.orderly hf hopen hterminal r hr] at ha
    cases ha

end Bodies

end Impl

end AcceleratorVirtualization
