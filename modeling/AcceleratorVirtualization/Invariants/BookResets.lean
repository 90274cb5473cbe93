import AcceleratorVirtualization.Lib.Sweep
import AcceleratorVirtualization.Invariants.BookSweeps

/-!
# Operations that end every lease

A change of the policy, a restart and a shutdown end every lease, release every virtual
accelerator and set every count to zero. Each of them is one step of the book.
-/

namespace AcceleratorVirtualization

namespace Impl

open VirtualizationState Leasing

variable {σ : Type} {R : Seat ℕ ℕ Phase → Seat ℕ ℕ Phase → Prop} {N : Seat ℕ ℕ Phase → Prop}
variable {tight fair : Prop}
variable {im im1 im' : Impl σ}

/-! ### Leases -/

/-- A lease ends in a state that is not in use. -/
private theorem book_modify_ended {i : Impl σ} {id : LeaseId} {l : LeaseRecord}
    (hl : i.state.leases[id]? = some l) {f : LeaseRecord → LeaseRecord}
    (hf : (f l).toLease = { l.toLease with live := false }) :
    (i.modify .lease id f).book = i.book.stop [id] := by
  rw [book_modify_lease hl]
  refine Book.ext rfl (funext fun id' => ?_) rfl rfl rfl
  simp only [Book.issue, Book.stop]
  by_cases hid : id' = id
  · subst hid
    rw [Function.update_self, if_pos (List.mem_singleton_self _), lease_of_lease hl, hf]
    rfl
  · rw [Function.update_of_ne hid, if_neg (by simpa using hid)]

private theorem stop_of_ended {id : LeaseId}
    (h : ∀ l, im.state.leases[id]? = some l → leaseStateIsLive l.state = false) :
    im.book.stop [id] = im.book := by
  refine Book.stop_of_not_live fun l' hl' => ?_
  rw [List.mem_singleton.mp hl', live_eq]
  cases hl : im.state.leases[id]? with
  | none => rfl
  | some l => exact h l hl

theorem book_endLease {ended : LeaseState} (hended : leaseStateIsLive ended = false)
    (reason : Text) (now : UnixMicros) (im : Impl σ) (id : LeaseId) :
    (im.endLease ended reason now id).book = im.book.stop [id] := by
  unfold endLease
  split
  · rename_i hnone
    exact (stop_of_ended fun l hl => by rw [hnone] at hl; cases hl).symm
  · rename_i l hl
    split
    · rw [book_touchHeader, book_account, book_modify_ended (i := im.touchLease l.id) hl]
      · rfl
      · simp [LeaseRecord.toLease, hended]
      · exact fun _ => rfl
    · rename_i hnot
      refine (stop_of_ended fun l' hl' => ?_).symm
      rw [hl] at hl'
      cases hl'
      simpa using hnot

theorem book_supersedeLease (updated : VirtualizationPolicy) (now : UnixMicros) (im : Impl σ)
    (id : LeaseId) : (im.supersedeLease updated now id).book = im.book.stop [id] := by
  unfold supersedeLease
  split
  · rename_i hnone
    exact (stop_of_ended fun l hl => by rw [hnone] at hl; cases hl).symm
  · rename_i l hl
    split
    · rw [book_account, book_modify_ended (i := im.touchLease l.id) hl]
      · rfl
      · rfl
      · exact fun _ => rfl
    · rename_i hnot
      refine (stop_of_ended fun l' hl' => ?_).symm
      rw [hl] at hl'
      cases hl'
      simpa using hnot

/-- Ending each lease stops all of them. -/
theorem book_foldl_stop {step : Impl σ → LeaseId → Impl σ}
    (hstep : ∀ im id, (step im id).book = im.book.stop [id]) (ids : List LeaseId) (im : Impl σ) :
    (ids.foldl step im).book = im.book.stop ids := by
  induction ids generalizing im with
  | nil => rw [List.foldl_nil, Book.stop_nil]
  | cons id ids ih => rw [List.foldl_cons, ih, hstep, Book.stop_stop]

/-! ### Tenants -/

/-- A count that is set to zero unless it is. -/
private theorem book_modify_cleared {id : TenantId} {f : TenantRecord → TenantRecord}
    (hf : ∀ t, (f t).activeAttachments = 0) :
    (im.modify .tenant id f).book = im.book.credit id 0 := by
  rw [book_modify_tenant]
  cases im.state.tenants[id]? <;> simp [hf]

private theorem credit_of_cleared {id : TenantId}
    (h : ∀ t, im.state.tenants[id]? = some t → t.activeAttachments = 0) :
    im.book.credit id 0 = im.book := by
  have haccount : im.book.account id = 0 := by
    cases ht : im.state.tenants[id]? with
    | none => simp [book, VirtualizationState.book, ht]
    | some t => simp [book, VirtualizationState.book, ht, h t ht]
  rw [Book.credit, ← haccount, Function.update_eq_self]

theorem book_releaseTenant (updated : Option UnixMicros) (im : Impl σ) (id : TenantId) :
    (im.releaseTenant updated id).book = im.book.credit id 0 := by
  unfold releaseTenant
  split
  · rename_i hnone
    exact (credit_of_cleared fun t ht => by rw [hnone] at ht; cases ht).symm
  · rename_i t ht
    split
    · rw [book_modify_cleared]
      · rfl
      · exact fun _ => rfl
    · rename_i hnot
      refine (credit_of_cleared fun t' ht' => ?_).symm
      rw [ht] at ht'
      cases ht'
      simpa using hnot

theorem book_clearAttachments (now : UnixMicros) (im : Impl σ) (id : TenantId) :
    (im.clearAttachments now id).book = im.book.credit id 0 := by
  unfold clearAttachments
  split
  · rename_i hnone
    exact (credit_of_cleared fun t ht => by rw [hnone] at ht; cases ht).symm
  · rename_i t ht
    split
    · rw [book_modify_cleared]
      · rfl
      · exact fun _ => rfl
    · rename_i hnot
      refine (credit_of_cleared fun t' ht' => ?_).symm
      rw [ht] at ht'
      cases ht'
      simpa using hnot

/-- Clearing the count of each tenant clears the accounts. -/
theorem book_foldl_credit {step : Impl σ → TenantId → Impl σ}
    (hstep : ∀ im id, (step im id).book = im.book.credit id 0) (im : Impl σ) :
    (im.state.tenants.keys.foldl step im).book = { im.book with account := fun _ => 0 } := by
  have hfold : ∀ (ids : List TenantId) (im : Impl σ), (ids.foldl step im).book =
      { im.book with account := fun t => if t ∈ ids then 0 else im.book.account t } := by
    intro ids
    induction ids with
    | nil =>
      intro im
      simp
    | cons id ids ih =>
      intro im
      rw [List.foldl_cons, ih, hstep]
      refine Book.ext rfl rfl (funext fun t => ?_) rfl rfl
      by_cases ht : t ∈ ids
      · simp [ht]
      · by_cases hid : t = id
        · simp [Book.credit, hid]
        · simp [Book.credit, ht, hid, Function.update_of_ne]
  rw [hfold]
  refine Book.ext rfl rfl (funext fun t => ?_) rfl rfl
  dsimp only
  split
  · rfl
  · -- nobody else has an account
    rename_i hnot
    rw [Std.ExtTreeMap.mem_keys] at hnot
    simp [book, VirtualizationState.book, Std.ExtTreeMap.getElem?_eq_none hnot]

/-! ### Virtual accelerators -/

/-- A virtual accelerator that is no longer in use. -/
def parked (q : Seat ℕ ℕ Phase) : Seat ℕ ℕ Phase :=
  { q with
    active := 0
    phase := if lifecycleRequiresBacking q.phase.state then
        { q.phase with state := .provisioned, generation := q.phase.generation + 1 }
      else q.phase }

theorem occupied_parked (q : Seat ℕ ℕ Phase) : ¬ leaseRules.occupied (parked q).phase := by
  unfold parked
  dsimp only
  split
  · nofun
  · rename_i hs
    exact fun hc => hs hc

theorem book_releaseAttachments (reason : Text) (now : UnixMicros) {id : VirtualAcceleratorId}
    {v : VirtualAcceleratorRecord} (hv : im.state.virtuals[id]? = some v) :
    (im.releaseAttachments reason now id).book = im.book.assign id (parked v.toSeat) := by
  have hq := seat_of_virtual hv
  simp only [releaseAttachments, hv]
  generalize him1 : (if v.activeAttachments ≠ 0 then _ else im : Impl σ) = im1
  have hbook1 : im1.book = im.book.assign id { v.toSeat with active := 0 } := by
    rw [← him1]
    split
    · exact book_modify_virtual (i := im.touchVirtual v.id) hv _
    · rename_i hnot
      have h0 : v.activeAttachments = 0 := by simpa using hnot
      refine (Book.assign_self ?_).symm
      rw [hq, VirtualAcceleratorRecord.toSeat, h0]
  have hseat1 : im1.book.seat id = some { v.toSeat with active := 0 } :=
    hbook1 ▸ Book.seat_assign_self
  split
  · rename_i hs
    rw [book_modify_seat (i := im1.touchVirtual v.id)
      (g := fun q => { q with phase := { q.phase with
      state := .provisioned, generation := q.phase.generation + 1 } }) hseat1]
    · rw [show (im1.touchVirtual v.id).book = im1.book from rfl, hbook1, Book.assign_assign]
      simp [parked, VirtualAcceleratorRecord.toSeat, hs]
    · exact fun _ => rfl
  · rename_i hs
    rw [hbook1]
    simp [parked, VirtualAcceleratorRecord.toSeat, hs]

theorem releaseAttachments_of_none (reason : Text) (now : UnixMicros) {id : VirtualAcceleratorId}
    (hv : im.state.virtuals[id]? = none) : im.releaseAttachments reason now id = im := by
  simp only [releaseAttachments, hv]

/-- A step that changes the seat of one virtual accelerator. -/
def Seats (step : Impl σ → VirtualAcceleratorId → Impl σ) : Prop :=
  ∀ im x, (step im x).book = im.book ∨
    ∃ q q', im.book.seat x = some q ∧ (step im x).book = im.book.assign x q'

theorem Seats.seat_of_ne {step : Impl σ → VirtualAcceleratorId → Impl σ} (h : Seats step)
    (im : Impl σ) (x y : VirtualAcceleratorId) (hy : y ≠ x) :
    (step im x).book.seat y = im.book.seat y := by
  obtain hsame | ⟨q, q', -, hbook⟩ := h im x
  · rw [hsame]
  · rw [hbook, Book.seat_assign_of_ne hy]

/-- Such a step changes nothing but seats. -/
theorem Seats.foldl {step : Impl σ → VirtualAcceleratorId → Impl σ} (h : Seats step)
    (ids : List VirtualAcceleratorId) (im : Impl σ) :
    (ids.foldl step im).book = { im.book with seat := (ids.foldl step im).book.seat } ∧
      ∀ x, im.book.seat x = none → (ids.foldl step im).book.seat x = none := by
  refine List.foldlRecOn ids step (motive := fun im1 : Impl σ =>
    im1.book = { im.book with seat := im1.book.seat } ∧
      ∀ x, im.book.seat x = none → im1.book.seat x = none) ⟨rfl, fun _ hx => hx⟩
    fun im1 ⟨hbook1, hnone1⟩ x _ => ?_
  obtain hsame | ⟨q, q', hq, hbook⟩ := h im1 x
  · rw [hsame]
    exact ⟨hbook1, hnone1⟩
  · refine ⟨?_, fun y hy => ?_⟩
    · rw [hbook, hbook1]
      rfl
    · have hy1 := hnone1 y hy
      have hne : y ≠ x := by
        rintro rfl
        rw [hq] at hy1
        cases hy1
      rw [hbook, Book.seat_assign_of_ne hne, hy1]

/-- A seat after a sweep over all virtual accelerators. -/
theorem Seats.seat {i : Impl σ} {step : Impl σ → VirtualAcceleratorId → Impl σ} (h : Seats step)
    {x : VirtualAcceleratorId} {q : Seat ℕ ℕ Phase} (hq : i.book.seat x = some q) :
    ∃ l₁ l₂, i.state.virtuals.keys = l₁ ++ x :: l₂ ∧ (l₁.foldl step i).book.seat x = some q ∧
      (i.state.virtuals.keys.foldl step i).book.seat x =
        (step (l₁.foldl step i) x).book.seat x := by
  have hx : x ∈ i.state.virtuals.keys := by
    obtain ⟨v, hv, -⟩ := virtual_of_seat hq
    exact Std.ExtTreeMap.mem_keys.mpr (Std.ExtTreeMap.mem_iff_isSome_getElem?.mpr (by simp [hv]))
  obtain ⟨l₁, l₂, hkeys, hsame, hat⟩ := Sweep.view_of_mem (f := fun i : Impl σ => i.book.seat)
    h.seat_of_ne Std.ExtTreeMap.nodup_keys hx i
  exact ⟨l₁, l₂, hkeys, hsame.trans hq, hat⟩

/-! ### All at once -/

/-- Every lease ends, every virtual accelerator is released and every count is cleared. -/
theorem resets_of_sweeps {ends : Impl σ → LeaseId → Impl σ}
    {parks : Impl σ → VirtualAcceleratorId → Impl σ} {clears : Impl σ → TenantId → Impl σ}
    {im0 : Impl σ} (hbook : im0.book = { im.book with era := im0.book.era })
    (hends : ∀ im id, (ends im id).book = im.book.stop [id]) (hparks : Seats parks)
    (hclears : ∀ im id, (clears im id).book = im.book.credit id 0)
    (h1 : im0.state.leases.keys.foldl ends im0 = im1)
    (hseat : ∀ x q l₁ l₂, im.book.seat x = some q → im1.state.virtuals.keys = l₁ ++ x :: l₂ →
      (l₁.foldl parks im1).book.seat x = some q →
      ∃ φ, ¬ leaseRules.occupied φ ∧ R q ⟨q.owner, φ, 0, q.leases⟩ ∧
        (parks (l₁.foldl parks im1) x).book.seat x = some ⟨q.owner, φ, 0, q.leases⟩)
    {im2 im4 : Impl σ} (h2 : im1.state.virtuals.keys.foldl parks im1 = im2)
    (h4 : im4.book = (im2.state.tenants.keys.foldl clears im2).book) :
    Book.Resets leaseRules R im.book im4.recomputeDerivedAccounting.book := by
  have hbook1 : im1.book = im0.book.stop im0.state.leases.keys := h1 ▸ book_foldl_stop hends _ im0
  obtain ⟨hbook2, hnone2⟩ := h2 ▸ hparks.foldl im1.state.virtuals.keys im1
  rw [book_foldl_credit hclears] at h4
  have hseat1 : im1.book.seat = im.book.seat := by
    rw [hbook1, hbook]
    rfl
  have hseat4 : im4.book.seat = im2.book.seat := by rw [h4]
  have hlease4 : im4.book.lease = (im0.book.stop im0.state.leases.keys).lease := by
    rw [h4, hbook2, hbook1]
  -- what becomes of each seat
  have hstep : ∀ x q, im.book.seat x = some q → ∃ φ, ¬ leaseRules.occupied φ ∧
      im4.book.seat x = some ⟨q.owner, φ, 0, q.leases⟩ ∧ R q ⟨q.owner, φ, 0, q.leases⟩ := by
    intro x q hq
    obtain ⟨l₁, l₂, hkeys, hsame, hat⟩ := hparks.seat (i := im1) (hseat1 ▸ hq)
    obtain ⟨φ, hφ, hR, hparked⟩ := hseat x q l₁ l₂ hq hkeys hsame
    refine ⟨φ, hφ, ?_, hR⟩
    rw [hseat4, ← h2, hat, hparked]
  have hnone : ∀ x, im.book.seat x = none → im4.book.seat x = none := by
    intro x hx
    rw [hseat4]
    exact hnone2 x (hseat1 ▸ hx)
  refine ⟨hstep, hnone, fun l => ?_, fun l => ?_, fun t => ?_, ?_⟩
  · change (im4.book.lease l).map _ = _
    rw [hlease4, hbook]
    simp only [Book.stop]
    split
    · rw [Option.map_map]
      rfl
    · rfl
  · change (im4.book.lease l).any _ = false
    rw [hlease4]
    change (im0.book.stop _).live l = false
    rw [Book.live_stop]
    by_cases hl : l ∈ im0.state.leases.keys
    · simp [hl]
    · have hnone : im0.state.leases[l]? = none :=
        Std.ExtTreeMap.getElem?_eq_none fun hm => hl (Std.ExtTreeMap.mem_keys.mpr hm)
      simp [live_eq, hnone]
  · change im4.book.account t = 0
    rw [h4]
  · change (im4.state.virtuals.values.map (·.activeAttachments)).sum = 0
    rw [← load_eq_sum, Book.load]
    refine (finsum_congr fun x => ?_).trans finsum_zero
    cases hq : im.book.seat x with
    | none => rw [hnone x hq, Book.share]
    | some q =>
      obtain ⟨φ, -, hs, -⟩ := hstep x q hq
      rw [hs, Book.share_some, if_pos trivial]

theorem seats_releaseAttachments (reason : Text) (now : UnixMicros) :
    Seats (releaseAttachments reason now : Impl σ → VirtualAcceleratorId → Impl σ) := by
  intro im x
  cases hv : im.state.virtuals[x]? with
  | none => exact .inl (by rw [releaseAttachments_of_none reason now hv])
  | some v =>
    exact .inr
      ⟨v.toSeat, parked v.toSeat, seat_of_virtual hv, book_releaseAttachments reason now hv⟩

theorem seat_releaseAttachments (reason : Text) (now : UnixMicros) {x : VirtualAcceleratorId}
    {q : Seat ℕ ℕ Phase} (hq : im.book.seat x = some q) :
    (im.releaseAttachments reason now x).book.seat x = some (parked q) := by
  obtain ⟨v, hv, rfl⟩ := virtual_of_seat hq
  rw [book_releaseAttachments reason now hv, Book.seat_assign_self]

theorem turns_shutdownBody (clock : Clock) (hR : ∀ q, R q (parked q)) :
    Turns R N tight fair im (im.shutdownBody clock) := by
  have hends : ∀ (im : Impl σ) id, (im.endLease .fenced
      (txt "coordinator shutdown revoked process-local authority") clock.now id).book =
      im.book.stop [id] := book_endLease rfl _ _
  have hparks := seats_releaseAttachments (σ := σ)
    (txt "coordinator shutdown released attachment authority") clock.now
  simp only [shutdownBody]
  generalize h1 : im.state.leases.keys.foldl _ im = im1
  generalize h2 : im1.state.virtuals.keys.foldl _ im1 = im2
  generalize h4 : im2.state.tenants.keys.foldl _ im2 = im4
  have hbook4 : im4.book = (im2.state.tenants.keys.foldl (releaseTenant none) im2).book := by
    rw [← h4]
  refine Turns.congr (.single (Book.Resets.step
    (resets_of_sweeps rfl hends hparks (book_releaseTenant none) h1 ?_ h2 hbook4))) rfl
  intro x q l₁ l₂ _ _ hq
  exact ⟨(parked q).phase, occupied_parked q, hR q, seat_releaseAttachments _ _ hq⟩

/-! ### Start -/

theorem book_enterEpoch (im : Impl σ) (recovered : Bool) :
    (im.enterEpoch recovered).book =
      { im.book with era := (im.enterEpoch recovered).book.era } := by
  simp only [enterEpoch]
  split
  · rfl
  · split <;> rfl

theorem book_distrust (im : Impl σ) : ∀ {ids : List BackingId},
    (ids.foldl distrustBacking im).book = im.book := by
  intro ids
  refine foldl_unchanged (f := fun im : Impl σ => im.book) (fun im id => ?_) ids im
  unfold distrustBacking
  split <;> rfl

/-- Distrusting a device after a restart leaves the book of leases as it is. -/
theorem book_distrustPhysical (im : Impl σ) : ∀ {ids : List PhysicalDeviceId},
    (ids.foldl distrustPhysical im).book = im.book := by
  intro ids
  refine foldl_unchanged (f := fun im : Impl σ => im.book) (fun im id => ?_) ids im
  unfold distrustPhysical
  split <;> rfl

/-- A start over what was recovered. -/
theorem resets_startBody (clock : Clock) (hR : ∀ q, R q (parked q)) :
    Book.Resets leaseRules R im.book (im.startBody clock true).book := by
  have hends : ∀ (im : Impl σ) id, (im.endLease .expired
      (txt ("coordinator restart advanced the epoch; process-local lease authority is not " ++
        "restored")) clock.now id).book = im.book.stop [id] := book_endLease rfl _ _
  have hparks := seats_releaseAttachments (σ := σ)
    (txt "coordinator restart invalidated process-local attachment authority") clock.now
  have hbook0 := book_enterEpoch im true
  simp only [startBody, dropLocalAuthority, if_true]
  generalize im.enterEpoch true = im0 at hbook0
  generalize h1 : im0.state.leases.keys.foldl _ im0 = im1
  generalize h2 : im1.state.virtuals.keys.foldl _ im1 = im2
  generalize h3 : im2.state.tenants.keys.foldl _ im2 = im3
  generalize h4 : (im3.state.backings.keys.foldl distrustBacking im3) = im4
  have hbook5 : ({ im4.state.physical.keys.foldl distrustPhysical im4 with
        state.requests := [] } : Impl σ).book =
      (im2.state.tenants.keys.foldl (releaseTenant (some clock.now)) im2).book := by
    change (im4.state.physical.keys.foldl distrustPhysical im4).book = _
    rw [book_distrustPhysical, ← h4, book_distrust, ← h3]
  generalize ({ im4.state.physical.keys.foldl distrustPhysical im4 with
    state.requests := [] } : Impl σ) = im5 at hbook5 ⊢
  refine Book.Resets.congr
    (resets_of_sweeps hbook0 hends hparks (book_releaseTenant _) h1 ?_ h2 hbook5) rfl
  intro x q l₁ l₂ _ _ hq
  exact ⟨(parked q).phase, occupied_parked q, hR q, seat_releaseAttachments _ _ hq⟩

theorem turns_startBody_recovered (clock : Clock) (hR : ∀ q, R q (parked q)) :
    Turns R N tight fair im (im.startBody clock true) :=
  .single (resets_startBody clock hR).step

/-- A start over nothing: what is there stays, under another era. -/
theorem turns_startBody_fresh (clock : Clock)
    (htight : tight → ∀ l, im.book.live l = true →
      im.book.era = (im.startBody clock false).book.era) :
    Turns R N tight fair im (im.startBody clock false) := by
  have hbody : (im.startBody clock false).book = (im.enterEpoch false).book := by
    simp only [startBody, Bool.false_eq_true, if_false]
    generalize im.enterEpoch false = i
    rfl
  have hbook : (im.startBody clock false).book =
      { im.book with era := (im.startBody clock false).book.era } := by
    rw [hbody]
    exact book_enterEpoch im false
  rw [Turns, hbook]
  exact .single (Book.Step.advance htight)

/-! ### The policy -/

/-- A virtual accelerator whose binding is taken away. -/
def unbacked (q : Seat ℕ ℕ Phase) : Seat ℕ ℕ Phase :=
  { q with phase := { q.phase with
      assignment := 0, state := .recoveryRequired, generation := q.phase.generation + 1 } }

/-- Whether a policy, when its turn comes, takes the backing of a virtual accelerator away. -/
def withdraws (updated : VirtualizationPolicy) (now : UnixMicros) (im : Impl σ)
    (x : VirtualAcceleratorId) : Prop :=
  ∃ v, im.state.virtuals[x]? = some v ∧
    backingSatisfies im.options.sorting
      ((im.touchVirtual v.id).modify .virtual x (detachForPolicy updated now)).state updated
      (detachForPolicy updated now v) = false

theorem toSeat_detachForPolicy (updated : VirtualizationPolicy) (now : UnixMicros)
    (v : VirtualAcceleratorRecord) : (detachForPolicy updated now v).toSeat = parked v.toSeat := by
  unfold detachForPolicy
  by_cases hs : lifecycleRequiresBacking v.state = true <;>
    simp [VirtualAcceleratorRecord.toSeat, parked, hs]

theorem book_withdrawBacking (now : UnixMicros) {x : VirtualAcceleratorId} {q : Seat ℕ ℕ Phase}
    (hq : im.book.seat x = some q) (record : VirtualAcceleratorRecord) :
    (im.withdrawBacking now x record).book = im.book.assign x (unbacked q) := by
  have hrevoked : (if valid record.assignment then im.revokeAssignment record.assignment
      (txt "policy generation advanced and the backing no longer satisfies the contract") now
      else im).book = im.book := by
    split
    · exact book_revokeAssignment ..
    · rfl
  simp only [withdrawBacking]
  rw [book_modify_seat (q := q) (g := unbacked)]
  · exact congrArg (Book.assign · x (unbacked q)) hrevoked
  · exact (congrArg (fun B => B.seat x) hrevoked).trans hq
  · exact fun _ => rfl

theorem book_revalidateVirtual (updated : VirtualizationPolicy) (now : UnixMicros)
    {x : VirtualAcceleratorId} {v : VirtualAcceleratorRecord}
    (hv : im.state.virtuals[x]? = some v) (hr : v.state ≠ .retired) :
    (im.revalidateVirtual updated now x).book = im.book.assign x (parked v.toSeat) ∨
      withdraws updated now im x ∧
        (im.revalidateVirtual updated now x).book =
          im.book.assign x (unbacked (parked v.toSeat)) := by
  have hbook1 : ((im.touchVirtual v.id).modify .virtual x (detachForPolicy updated now)).book =
      im.book.assign x (parked v.toSeat) := by
    rw [book_modify_virtual (i := im.touchVirtual v.id) hv, toSeat_detachForPolicy]
    rfl
  simp only [revalidateVirtual, hv, if_neg hr, book_rebuildProjection]
  split
  · exact .inl hbook1
  · rename_i hnot
    refine .inr ⟨⟨v, hv, Bool.eq_false_of_not_eq_true hnot⟩, ?_⟩
    rw [book_withdrawBacking now (q := parked v.toSeat), hbook1, Book.assign_assign]
    rw [hbook1, Book.seat_assign_self]

theorem seats_revalidateVirtual (updated : VirtualizationPolicy) (now : UnixMicros) :
    Seats (revalidateVirtual updated now : Impl σ → VirtualAcceleratorId → Impl σ) := by
  intro im x
  cases hv : im.state.virtuals[x]? with
  | none =>
    left
    simp only [revalidateVirtual, hv]
  | some v =>
    by_cases hr : v.state = .retired
    · left
      simp only [revalidateVirtual, hv, if_pos hr]
    · right
      obtain hbook | ⟨-, hbook⟩ := book_revalidateVirtual updated now hv hr
      · exact ⟨v.toSeat, _, seat_of_virtual hv, hbook⟩
      · exact ⟨v.toSeat, _, seat_of_virtual hv, hbook⟩

/-- The policy as it is entered. -/
def nextPolicy (im : Impl σ) (policy : VirtualizationPolicy) : VirtualizationPolicy :=
  { policy with id := im.nextId, generation := im.state.policyGeneration + 1 }

/-- The policy and its generation, before anything is revalidated. -/
def enterPolicy (im : Impl σ) (policy : VirtualizationPolicy) : Impl σ :=
  { im.touchHeader.takeId with
    state.policy := im.nextPolicy policy
    state.policyGeneration := (im.nextPolicy policy).generation }.account fun a =>
      { a with policyUpdates := a.policyUpdates + 1 }

/-- The state in which the virtual accelerators are revalidated, one after the other. -/
def superseded (im : Impl σ) (policy : VirtualizationPolicy) (now : UnixMicros) : Impl σ :=
  (im.enterPolicy policy).state.leases.keys.foldl (supersedeLease (im.nextPolicy policy) now)
    (im.enterPolicy policy)

theorem turns_setPolicyAct {i : Impl σ} (hl : i.book.Leased leaseRules) {auth : Authority}
    {clock : Clock}
    {policy : VirtualizationPolicy} (hrefl : ∀ q, R q q)
    (hparked : ∀ q, q.phase.state ≠ .retired → R q (parked q))
    (hunbacked : ∀ x q l₁ l₂, i.book.seat x = some q → q.phase.state ≠ .retired →
      (i.superseded policy clock.now).state.virtuals.keys = l₁ ++ x :: l₂ →
      withdraws (i.nextPolicy policy) clock.now (l₁.foldl (revalidateVirtual
        (i.nextPolicy policy) clock.now) (i.superseded policy clock.now)) x →
      R q (unbacked (parked q))) :
    Turns R N tight fair i (setPolicyAct auth clock policy i).1 := by
  have hparks := seats_revalidateVirtual (σ := σ) (i.nextPolicy policy) clock.now
  have hact : (setPolicyAct auth clock policy i).1 =
      (let im1 := i.superseded policy clock.now
       let im2 := im1.state.virtuals.keys.foldl (revalidateVirtual (i.nextPolicy policy)
        clock.now) im1
       (im2.state.tenants.keys.foldl (clearAttachments clock.now) im2)
        ).recomputeDerivedAccounting.touchHeader := rfl
  have hbook0 : (i.enterPolicy policy).book =
      { i.book with era := (i.enterPolicy policy).book.era } := rfl
  rw [hact]
  dsimp only
  -- the sweeps go over the leases, the virtual accelerators and the tenants
  generalize h1 : i.superseded policy clock.now = im1 at hunbacked ⊢
  generalize h2 : im1.state.virtuals.keys.foldl _ im1 = im2
  generalize h4 : im2.state.tenants.keys.foldl _ im2 = im4
  have hbook4 :
    im4.book = (im2.state.tenants.keys.foldl (clearAttachments clock.now) im2).book := by
    rw [← h4]
  refine Turns.congr (.single (Book.Resets.step (resets_of_sweeps hbook0
    (book_supersedeLease (i.nextPolicy policy) clock.now) hparks
    (book_clearAttachments clock.now) h1 ?_ h2 hbook4))) rfl
  intro x q l₁ l₂ hq hkeys hq1
  obtain ⟨v, hv, rfl⟩ := virtual_of_seat hq1
  by_cases hr : v.state = .retired
  · -- a retired virtual accelerator is passed over, and nothing of it is in use
    have hactive : v.activeAttachments = 0 := hl.vacant x v.toSeat hq (.inr hr)
    have hseat : (⟨v.toSeat.owner, v.toSeat.phase, 0, v.toSeat.leases⟩ : Seat ℕ ℕ Phase) =
        v.toSeat := by
      simp [VirtualAcceleratorRecord.toSeat, hactive]
    refine ⟨v.toSeat.phase, ?_, hseat ▸ hrefl _, ?_⟩
    · intro hocc
      have hstate : lifecycleAllowsLeases v.state = true := hocc
      rw [hr] at hstate
      cases hstate
    · simp only [revalidateVirtual, hv, if_pos hr]
      rw [hq1, hseat]
  · obtain hbook | ⟨hw, hbook⟩ := book_revalidateVirtual (i.nextPolicy policy) clock.now hv hr
    · refine ⟨(parked v.toSeat).phase, occupied_parked _, hparked _ hr, ?_⟩
      rw [hbook]
      exact Book.seat_assign_self
    · refine ⟨(unbacked (parked v.toSeat)).phase, by rintro ⟨⟩,
        hunbacked x _ l₁ l₂ hq hr hkeys hw, ?_⟩
      rw [hbook]
      exact Book.seat_assign_self

/-! ### Classification -/

/-- Failing a destination after a restart leaves the book of leases as it is. -/
theorem book_failRecovered (im : Impl σ) (now : UnixMicros) (id : BackingAssignmentId) :
    (im.failRecovered now id).book = im.book := by
  unfold failRecovered
  split
  · rfl
  · split <;> rfl

theorem turns_abortRecovered (now : UnixMicros) (key : MigrationId) (migration : MigrationRecord)
    (hR : ∀ q : Seat ℕ ℕ Phase, q.phase.state = .migrating → R q (moved q .provisioned)) :
    Turns R N tight fair im (im.abortRecovered now key migration) := by
  simp only [abortRecovered]
  generalize him1 : Impl.failRecovered _ now migration.destinationAssignment = im1
  have hbook1 : im1.book = im.book := by
    rw [← him1, book_failRecovered, book_account]
    · rfl
    · exact fun _ => rfl
  cases hv : im1.state.virtuals[migration.plan.virtualId]? with
  | none =>
    refine Turns.of_book (Eq.trans (book_modify_virtual_same fun v hv' => ?_) hbook1)
    have hcontra := hv.symm.trans hv'
    cases hcontra
  | some v =>
    have hq : im.book.seat migration.plan.virtualId = some v.toSeat := hbook1 ▸ seat_of_virtual hv
    have hmodified := book_modify_virtual (i := im1.touchVirtual v.id) hv fun v =>
      if v.state = .migrating then
        { v with
          state := .provisioned
          stateGeneration := v.stateGeneration + 1
          stateReason := restartNote
          generation := v.generation + 1
          updatedAt := now }
      else v
    rw [Turns, Option.getD_some, hmodified, show (im1.touchVirtual v.id).book = im1.book from rfl,
      hbook1]
    by_cases hs : v.state = .migrating
    · rw [if_pos hs]
      refine .single (Book.Step.edit (q := v.toSeat) (φ := (moved v.toSeat .provisioned).phase) hq
        (hR _ hs) (by rintro ⟨⟩) (fun hc => ?_) fun _ hocc => ?_)
      · obtain hc | hc := hc <;> cases hc
      · have hstate : lifecycleAllowsLeases v.state = true := hocc
        rw [hs] at hstate
        cases hstate
    · rw [if_neg hs, Book.assign_self hq]

theorem turns_classifyMigration (now : UnixMicros) (acc : Impl σ × Bool) (key : MigrationId)
    (hR : ∀ q : Seat ℕ ℕ Phase, q.phase.state = .migrating → R q (moved q .provisioned)) :
    Turns R N tight fair acc.1 (classifyMigration now acc key).1 := by
  simp only [classifyMigration]
  split
  · exact .refl
  · split
    · exact .refl
    · split
      · exact Turns.of_book rfl
      · split
        · exact .refl
        · exact turns_abortRecovered now key _ hR

theorem turns_classifyMigrations (now : UnixMicros) (keys : List MigrationId) (acc : Impl σ × Bool)
    (hR : ∀ q : Seat ℕ ℕ Phase, q.phase.state = .migrating → R q (moved q .provisioned)) :
    Turns R N tight fair acc.1 (keys.foldl (classifyMigration now) acc).1 :=
  List.foldlRecOn keys _ (motive := fun acc1 => Turns R N tight fair acc.1 acc1.1) .refl
    fun acc1 ht key _ => ht.trans (turns_classifyMigration now acc1 key hR)

end Impl

end AcceleratorVirtualization
