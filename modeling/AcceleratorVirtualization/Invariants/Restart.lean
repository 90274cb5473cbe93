import AcceleratorVirtualization.Invariants.Histories

/-!
# A restart

What a start leaves of the state it loads: nothing that was local to the process before. Every lease
ends, every count is zero, nothing is trusted of the devices, the request window is empty and every
migration is over; what virtual accelerators are, own and are bound to is as it was loaded. That no
virtual accelerator is left migrating is where the invariant of a run is needed: each that migrates
has a migration, and the classification ends that migration.
-/

namespace AcceleratorVirtualization

open VirtualizationState Custody Leasing Handover

/-- What a restart leaves of a state. -/
structure VirtualizationState.Restarted (s t : VirtualizationState) : Prop where
  epoch : s.epoch < t.epoch
  leases : ∀ (id : LeaseId) (lease : LeaseRecord), t.leases[id]? = some lease →
    leaseStateIsLive lease.state = false
  unused : ∀ (id : VirtualAcceleratorId) (v : VirtualAcceleratorRecord),
    t.virtuals[id]? = some v → v.activeAttachments = 0 ∧ v.state ≠ .attached ∧
      v.state ≠ .active ∧ v.state ≠ .draining ∧ v.state ≠ .migrating
  tenants : ∀ (id : TenantId) (r : TenantRecord), t.tenants[id]? = some r →
    r.activeAttachments = 0
  total : t.accounting.attachmentsActive = 0
  backings : ∀ (id : BackingId) (b : BackingRecord), t.backings[id]? = some b →
    b.available = false ∧ b.evidenceFresh = false
  physical : ∀ (id : PhysicalDeviceId) (p : PhysicalDeviceRecord), t.physical[id]? = some p →
    p.present = false
  requests : t.requests = []
  migrations : ∀ (id : MigrationId) (m : MigrationRecord), t.migrations[id]? = some m →
    migrationStateIsTerminal m.state = true
  virtuals : ∀ id : VirtualAcceleratorId,
    (t.virtuals[id]?.map fun v => (v.id, v.owner, v.contract, v.assignment, v.backing,
      v.backingGeneration)) =
    s.virtuals[id]?.map fun v => (v.id, v.owner, v.contract, v.assignment, v.backing,
      v.backingGeneration)
  sealed : ∀ (id : VirtualAcceleratorId) (v v' : VirtualAcceleratorRecord),
    s.virtuals[id]? = some v → t.virtuals[id]? = some v' →
      (v'.state = .fenced ↔ v.state = .fenced) ∧ (v'.state = .retired ↔ v.state = .retired)
  authority : ∀ id : BackingAssignmentId,
    t.assignments[id]?.map (·.authoritative) = s.assignments[id]?.map (·.authoritative)

theorem VirtualizationState.Alike.seat {T : Prop} {s t : VirtualizationState} (h : s.Alike T t) :
    s.book.seat = t.book.seat := by
  have hv : s.virtuals = t.virtuals := h.entities .virtual nofun
  simp only [VirtualizationState.book, hv]

theorem VirtualizationState.Alike.register {T : Prop} {s t : VirtualizationState}
    (h : s.Alike T t) : s.register = t.register := by
  have ha : s.assignments = t.assignments := h.entities .assignment nofun
  have hm : s.migrations = t.migrations := h.entities .migration nofun
  simp only [VirtualizationState.register, ha, hm]

namespace Impl

variable {σ : Type} {im : Impl σ}

/-! ### Sweeps over records -/

/-- A sweep that changes each record of a kind by `f`. -/
theorem find_sweep {k : RecordKind} {step : Impl σ → ℕ → Impl σ} {f : k.Record → k.Record}
    (hstep : ∀ im id j, (step im id).state.find k j =
      if id = j then (im.state.find k id).map f else im.state.find k j)
    (id : ℕ) : (((im.state.entities k).keys.foldl step im).state.find k id) =
      (im.state.find k id).map f := by
  have hother : ∀ (i : Impl σ) j j', j' ≠ j →
      (step i j).state.find k j' = i.state.find k j' := by
    intro i j j' hj
    rw [hstep, if_neg (Ne.symm hj)]
  by_cases hid : id ∈ (im.state.entities k).keys
  · obtain ⟨l₁, l₂, -, hbefore, hafter⟩ := Sweep.view_of_mem
      (f := fun (i : Impl σ) j => i.state.find k j) hother Std.ExtTreeMap.nodup_keys hid im
    rw [hafter, hstep, if_pos rfl, hbefore]
  · rw [Sweep.view_of_not_mem (f := fun (i : Impl σ) j => i.state.find k j) hother hid im]
    have hnone : im.state.find k id = none :=
      Std.ExtTreeMap.getElem?_eq_none fun hm => hid (Std.ExtTreeMap.mem_keys.mpr hm)
    rw [hnone, Option.map_none]

theorem find_distrustBacking (im : Impl σ) (id j : ℕ) :
    (im.distrustBacking id).state.find .backing j =
      if id = j then (im.state.find .backing id).map fun b : BackingRecord =>
        { b with available := false, evidenceFresh := false }
      else im.state.find .backing j := by
  unfold distrustBacking
  split
  · rename_i hb
    split
    · rename_i hj
      rw [← hj, show im.state.find .backing id = none from hb, Option.map_none]
    · rfl
  · exact find_modify_self _ .backing id _ j

theorem find_distrustPhysical (im : Impl σ) (id j : ℕ) :
    (im.distrustPhysical id).state.find .physical j =
      if id = j then (im.state.find .physical id).map fun p : PhysicalDeviceRecord =>
        { p with present := false }
      else im.state.find .physical j := by
  unfold distrustPhysical
  split
  · rename_i hp
    split
    · rename_i hj
      rw [← hj, show im.state.find .physical id = none from hp, Option.map_none]
    · rfl
  · exact find_modify_self _ .physical id _ j

/-! ### The first commit of a start -/

/-- What a start that recovers a state commits first. -/
structure Dropped (im im' : Impl σ) : Prop where
  resets : Book.Resets leaseRules (fun q q' => q' = parked q) im.book im'.book
  epoch : im'.state.epoch = im.state.epoch + 1
  backings : ∀ (id : BackingId) (b : BackingRecord), im'.state.backings[id]? = some b →
    b.available = false ∧ b.evidenceFresh = false
  physical : ∀ (id : PhysicalDeviceId) (p : PhysicalDeviceRecord),
    im'.state.physical[id]? = some p → p.present = false
  requests : im'.state.requests = []
  entered : im'.changes.requests = im.changes.requests

/-- The scalars and the request entries that no sweep of a start changes. -/
def scalars (im : Impl σ) : Generation × List RequestOutcomeRecord :=
  (im.state.epoch, im.changes.requests)

theorem scalars_endLease (ended : LeaseState) (reason : Text) (now : UnixMicros) (im : Impl σ)
    (id : LeaseId) : (im.endLease ended reason now id).scalars = im.scalars := by
  unfold endLease
  split
  · rfl
  · split <;> rfl

theorem scalars_releaseAttachments (reason : Text) (now : UnixMicros) (im : Impl σ)
    (id : VirtualAcceleratorId) : (im.releaseAttachments reason now id).scalars = im.scalars := by
  unfold releaseAttachments
  split
  · rfl
  · dsimp only
    split <;> split <;> rfl

theorem scalars_releaseTenant (updated : Option UnixMicros) (im : Impl σ) (id : TenantId) :
    (im.releaseTenant updated id).scalars = im.scalars := by
  unfold releaseTenant
  split
  · rfl
  · split <;> rfl

theorem scalars_distrustBacking (im : Impl σ) (id : BackingId) :
    (im.distrustBacking id).scalars = im.scalars := by
  unfold distrustBacking
  split <;> rfl

theorem scalars_distrustPhysical (im : Impl σ) (id : PhysicalDeviceId) :
    (im.distrustPhysical id).scalars = im.scalars := by
  unfold distrustPhysical
  split <;> rfl

theorem backings_distrustPhysical (im : Impl σ) (id : PhysicalDeviceId) :
    (im.distrustPhysical id).state.backings = im.state.backings := by
  unfold distrustPhysical
  split <;> rfl

theorem scalars_enterEpoch (im : Impl σ) (he : valid im.state.epoch = true) :
    (im.enterEpoch true).scalars = (im.state.epoch + 1, im.changes.requests) := by
  simp only [enterEpoch, he, Bool.not_true, Bool.false_eq_true, if_false, if_true]
  split
  · rfl
  · split <;> rfl

theorem dropped_startBody (im : Impl σ) (clock : Clock) (he : valid im.state.epoch = true) :
    Dropped im (im.startBody clock true) := by
  have hresets : Book.Resets leaseRules (fun q q' => q' = parked q) im.book
      (im.startBody clock true).book := resets_startBody clock fun _ => rfl
  have hscalars := im.scalars_enterEpoch he
  simp only [startBody, dropLocalAuthority, if_true] at hresets ⊢
  generalize im.enterEpoch true = im0 at hresets hscalars ⊢
  generalize h1 : im0.state.leases.keys.foldl _ im0 = im1 at hresets ⊢
  generalize h2 : im1.state.virtuals.keys.foldl _ im1 = im2 at hresets ⊢
  generalize h3 : im2.state.tenants.keys.foldl _ im2 = im3 at hresets ⊢
  generalize h4 : im3.state.backings.keys.foldl _ im3 = im4 at hresets ⊢
  generalize h5 : im4.state.physical.keys.foldl _ im4 = im5 at hresets ⊢
  have hscalars5 : im5.scalars = (im.state.epoch + 1, im.changes.requests) :=
    calc im5.scalars = im4.scalars := h5 ▸ foldl_unchanged scalars_distrustPhysical _ im4
      _ = im3.scalars := h4 ▸ foldl_unchanged scalars_distrustBacking _ im3
      _ = im2.scalars := h3 ▸ foldl_unchanged (scalars_releaseTenant _) _ im2
      _ = im1.scalars := h2 ▸ foldl_unchanged (scalars_releaseAttachments _ _) _ im1
      _ = im0.scalars := h1 ▸ foldl_unchanged (scalars_endLease _ _ _) _ im0
      _ = _ := hscalars
  refine ⟨hresets, congrArg Prod.fst hscalars5, fun id b hb => ?_, fun id p hp => ?_, rfl,
    congrArg Prod.snd hscalars5⟩
  · have hbackings : im5.state.backings = im4.state.backings :=
      h5 ▸ foldl_unchanged (f := fun i : Impl σ => i.state.backings) backings_distrustPhysical _ im4
    have hfind : ((im3.state.entities .backing).keys.foldl distrustBacking im3).state.find
        .backing id = _ := find_sweep find_distrustBacking id
    rw [show (im3.state.entities .backing).keys.foldl distrustBacking im3 = im4 from h4,
      show im4.state.find .backing id = some b from
        (congrArg (fun map : IdMap BackingRecord => map[id]?) hbackings).symm.trans hb] at hfind
    obtain ⟨w, -, rfl⟩ := Option.map_eq_some_iff.mp hfind.symm
    exact ⟨rfl, rfl⟩
  · have hfind : ((im4.state.entities .physical).keys.foldl distrustPhysical im4).state.find
        .physical id = _ := find_sweep find_distrustPhysical id
    rw [show (im4.state.entities .physical).keys.foldl distrustPhysical im4 = im5 from h5,
      show im5.state.find .physical id = some p from hp] at hfind
    obtain ⟨w, -, rfl⟩ := Option.map_eq_some_iff.mp hfind.symm
    rfl

/-! ### The classification -/

/-- Whose migrations there are. -/
def Manned (im : Impl σ) : Prop :=
  ∀ m p, im.register.passage m = some p → ∃ q, im.book.seat p.party = some q

theorem migrations_failRecovered (im : Impl σ) (now : UnixMicros) (id : BackingAssignmentId) :
    (im.failRecovered now id).state.migrations = im.state.migrations := by
  unfold failRecovered
  split
  · rfl
  · split <;> rfl

/-- The migration that is aborted, and no other, is changed. -/
theorem find_abortRecovered (im : Impl σ) (now : UnixMicros) (key : MigrationId)
    (migration : MigrationRecord) (id : MigrationId) :
    (im.abortRecovered now key migration).state.find .migration id =
      if key = id then (im.state.find .migration key).map fun m : MigrationRecord =>
        { m with
          state := .aborted
          sourceAuthoritative := true
          destinationAuthoritative := false
          completedAt := now
          note := restartNote }
      else im.state.find .migration id := by
  unfold abortRecovered
  refine (find_modify_of_ne _ .virtual (by decide : RecordKind.migration ≠ .virtual) _ _ id).trans
    ?_
  refine Eq.trans (congrArg (fun map : IdMap MigrationRecord => map[id]?)
    (migrations_failRecovered _ now _)) ?_
  exact find_modify_self _ .migration key _ id

/-- A classification of one migration leaves the others alone. -/
theorem migrations_classifyMigration (now : UnixMicros) (acc : Impl σ × Bool) (key id : MigrationId)
    (hid : id ≠ key) :
    (classifyMigration now acc key).1.state.find .migration id =
    acc.1.state.find .migration id := by
  simp only [classifyMigration]
  split
  · rfl
  · split
    · rfl
    · split
      · exact (find_modify_self _ .migration key _ id).trans (if_neg (Ne.symm hid))
      · split
        · rfl
        · exact (find_abortRecovered ..).trans (if_neg (Ne.symm hid))

/-- The migration that is classified is over. -/
theorem terminal_classifyMigration (now : UnixMicros) {acc : Impl σ × Bool} {key : MigrationId}
    (ho : acc.1.register.Orderly) (hm : acc.1.Manned) {m : MigrationRecord}
    (h : (classifyMigration now acc key).1.state.find .migration key = some m) :
    migrationStateIsTerminal m.state = true := by
  simp only [classifyMigration] at h
  split at h
  · rename_i hnone
    exact absurd (h.symm.trans hnone) (by simp)
  · rename_i m0 hm0
    have hpassage := passage_of_migration hm0
    obtain ⟨q, hq⟩ := hm _ _ hpassage
    split at h
    · rename_i hv
      obtain ⟨v, hv', -⟩ := virtual_of_seat hq
      exact absurd (hv'.symm.trans hv) (by simp)
    · split at h
      · rw [completeRecovered] at h
        have hfind := (find_modify_self _ .migration key _ key).symm.trans h
        rw [if_pos rfl] at hfind
        obtain ⟨w, -, rfl⟩ := Option.map_eq_some_iff.mp hfind
        rfl
      · split at h
        · rename_i hterminal
          obtain rfl := Option.some.inj (hm0.symm.trans h)
          have hknown := ho.known _ _ hpassage
          revert hterminal hknown
          simp only [MigrationRecord.toPassage]
          cases m0.state <;> simp [migrationStateIsTerminal, MigrationState.progress]
        · rw [find_abortRecovered, if_pos rfl] at h
          obtain ⟨w, -, rfl⟩ := Option.map_eq_some_iff.mp h
          rfl

/-- Migrations keep their virtual accelerators. -/
theorem Manned.of_advances {im' : Impl σ} {D : VirtualLifecycleState → VirtualLifecycleState → Prop}
    {sealed : Prop} (h : im.Manned) (ha : im.state.Advances D sealed im'.state)
    (hp : ∀ m p', im'.register.passage m = some p' → ∃ p, im.register.passage m = some p) :
    im'.Manned := by
  intro m p' hp'
  obtain ⟨p, hpassage⟩ := hp m p' hp'
  obtain ⟨p'', hp'', hbefore⟩ := ha.passage m p hpassage
  obtain rfl := Option.some.inj (hp''.symm.trans hp')
  obtain ⟨q, hq⟩ := h m p hpassage
  obtain ⟨q', hq', -⟩ := ha.seat p.party q hq
  exact ⟨q', by rw [hbefore.party]; exact hq'⟩

theorem Manned.congr {T : Prop} {im' : Impl σ} (h : im.Manned) (ha : im.state.Alike T im'.state) :
    im'.Manned := by
  intro m p hp
  rw [Impl.register, ← ha.register] at hp
  rw [Impl.book, ← ha.seat]
  exact h m p hp

theorem Manned.classifyMigration {s : Impl σ} {T : Set (RecordKind × ℕ)} {acc : Impl σ × Bool}
    (h : acc.1.Manned) (hs : Tracks s T acc.1) (hc : acc.1.state.Consistent) (now : UnixMicros)
    (key : MigrationId) : (classifyMigration now acc key).1.Manned := by
  have hadvances : acc.1.state.Advances (towards .provisioned) False
      (Impl.classifyMigration now acc key).1.state := advances_classifyMigration hs hc now key
  refine h.of_advances hadvances fun m p' hp' => ?_
  rw [register, VirtualizationState.register, Option.map_eq_some_iff] at hp'
  obtain ⟨r, hr, -⟩ := hp'
  by_cases hm : m = key
  · subst hm
    cases hnone : acc.1.state.migrations[m]? with
    | none =>
      rw [Impl.classifyMigration] at hr
      simp only [hnone] at hr
      cases hr
    | some r => exact ⟨_, passage_of_migration hnone⟩
  · exact ⟨_, passage_of_migration ((migrations_classifyMigration now acc key m hm).symm.trans hr)⟩

/-- After the classification every migration is over. -/
theorem terminal_classified (hw : im.state.WellKeyed) (h : im.state.Consistent) (hm : im.Manned)
    (now : UnixMicros) {id : MigrationId} {m : MigrationRecord}
    (hr : (im.classified now).1.state.migrations[id]? = some m) :
    migrationStateIsTerminal m.state = true := by
  have hfolded : ∀ keys : List MigrationId,
      let acc := keys.foldl (classifyMigration now) (im.beginOp, false)
      Tracks im ∅ acc.1 ∧ acc.1.state.Consistent ∧ acc.1.Manned := by
    intro keys
    refine List.foldlRecOn keys _ (motive := fun acc : Impl σ × Bool =>
      Tracks im ∅ acc.1 ∧ acc.1.state.Consistent ∧ acc.1.Manned) ⟨.beginOp hw, h, hm⟩ ?_
    intro acc ⟨ht, hc, hmanned⟩ key _
    exact ⟨ht.classifyMigration now key, consistent_classifyMigration ht hc now key,
      hmanned.classifyMigration ht hc now key⟩
  have hother := migrations_classifyMigration (σ := σ) now
  by_cases hid : id ∈ im.beginOp.state.migrations.keys
  · obtain ⟨l₁, l₂, -, -, hafter⟩ := Sweep.view_of_mem
      (f := fun (acc : Impl σ × Bool) j => acc.1.state.find .migration j) hother
      Std.ExtTreeMap.nodup_keys hid (im.beginOp, false)
    obtain ⟨-, hc, hmanned⟩ := hfolded l₁
    exact terminal_classifyMigration now hc.orderly hmanned (hafter.symm.trans hr)
  · have hsame := Sweep.view_of_not_mem
      (f := fun (acc : Impl σ × Bool) j => acc.1.state.find .migration j) hother hid
      (im.beginOp, false)
    have hnone : im.state.migrations[id]? = none :=
      Std.ExtTreeMap.getElem?_eq_none fun hmem => hid (Std.ExtTreeMap.mem_keys.mpr hmem)
    exact absurd (hr.symm.trans (hsame.trans hnone)) nofun

/-- The records that the classification leaves alone. -/
def rest (im : Impl σ) : IdMap TenantRecord × IdMap LeaseRecord × IdMap BackingRecord ×
    IdMap PhysicalDeviceRecord × Generation × ℕ × List RequestOutcomeRecord ×
    List RequestOutcomeRecord :=
  (im.state.tenants, im.state.leases, im.state.backings, im.state.physical, im.state.epoch,
    im.state.accounting.attachmentsActive, im.state.requests, im.changes.requests)

theorem rest_failRecovered (im : Impl σ) (now : UnixMicros) (id : BackingAssignmentId) :
    (im.failRecovered now id).rest = im.rest := by
  unfold failRecovered
  split
  · rfl
  · split <;> rfl

theorem rest_classifyMigration (now : UnixMicros) (acc : Impl σ × Bool) (key : MigrationId) :
    (classifyMigration now acc key).1.rest = acc.1.rest := by
  simp only [classifyMigration]
  split
  · rfl
  · split
    · rfl
    · split
      · rfl
      · split
        · rfl
        · exact rest_failRecovered ..

theorem rest_classified (im : Impl σ) (now : UnixMicros) :
    (im.classified now).1.rest = im.beginOp.rest :=
  foldl_unchanged (f := fun acc : Impl σ × Bool => acc.1.rest) (rest_classifyMigration now) _
    (im.beginOp, false)

/-! ### From the image to the started runtime -/

section Start

variable {im im' base : Impl Disk} {clock : Clock}

theorem mem_values {α : Type} {map : IdMap α} {id : ℕ} {a : α} (h : map[id]? = some a) :
    a ∈ map.values := by
  rw [values_eq_map_toList, List.mem_map]
  exact ⟨(id, a), Std.ExtTreeMap.mem_toList_iff_getElem?_eq_some.mpr h, rfl⟩

/-- A validated state has an epoch, and its migrations have their virtual accelerators. -/
theorem manned_of_validateState (h : im.state.validateState = .ok ()) :
    valid im.state.epoch = true ∧ im.Manned := by
  simp only [validateState, forRecords, Refusal.bind_eq_ok] at h
  obtain ⟨_, hheader, _, -, _, -, _, -, _, -, _, -, _, -, _, hmigrations, -⟩ := h
  refine ⟨?_, fun m p hp => ?_⟩
  · simp only [validateHeader, Refusal.guard_bind_eq_ok] at hheader
    simpa using hheader.2.1
  · simp only [register, VirtualizationState.register, Option.map_eq_some_iff] at hp
    obtain ⟨r, hr, rfl⟩ := hp
    have hcheck := Refusal.forM_eq_ok.mp hmigrations r (mem_values hr)
    simp only [validateMigration, Refusal.guard_bind_eq_ok, not_not] at hcheck
    exact ⟨_, seat_of_virtual (Std.ExtTreeMap.getElem?_eq_some_getElem hcheck.1)⟩

/-- A start that recovers commits the dropped state, and classifies the migrations. -/
theorem startCommitted_recovered (h : base.startCommitted clock true = (im', .ok ())) :
    ∃ im1 im2, (base.startBody clock true).commit = (im1, .ok ()) ∧
      im1.classifyRecoveredMigrations clock = (im2, .ok ()) ∧ im'.state = im2.state := by
  unfold startCommitted at h
  split at h
  · cases h
  rename_i im1 hcommit
  split at h
  · cases h
  rename_i im2 hrecovered
  rw [if_pos rfl, startRecovered] at hrecovered
  split at hrecovered
  · cases hrecovered
  · rename_i im3 hclassify
    obtain rfl : im3 = im2 := congrArg Prod.fst hrecovered
    split at h
    · cases h
    rename_i im4 hcompact
    cases h
    exact ⟨im1, im3, hcommit, hclassify, (lasting_compactStore hcompact).2.2⟩

theorem pushWindow_nil {α : Type} (capacity : ℕ) : pushWindow capacity ([] : List α) [] = [] := by
  simp [pushWindow]

/-- A commit that enters no request into an empty window leaves it empty. -/
theorem state_commit (hc : im.commit = (im', .ok ())) : im.state.Alike True im'.state ∧
    (im.state.requests = [] → im.changes.requests = [] → im'.state.requests = []) := by
  obtain ⟨store, -, hcommit⟩ | ⟨store, status, -, hcommit⟩ := commit_cases im
  · rw [hcommit] at hc
    cases hc
    refine ⟨alike_extended im, fun hr hc => ?_⟩
    simp only [extended, pushWindows, hr, hc]
    exact pushWindow_nil _
  · rw [hcommit] at hc
    cases hc

theorem state_classify (hr : im.state.requests = [])
    (hc : im.classifyRecoveredMigrations clock = (im', .ok ())) :
    (im.classified clock.now).1.state.Alike True im'.state ∧ im'.state.requests = [] := by
  have hrest : (im.classified clock.now).1.rest = im.beginOp.rest := im.rest_classified clock.now
  have hrequests : (im.classified clock.now).1.state.requests = [] ∧
      (im.classified clock.now).1.changes.requests = [] := by
    simp only [rest, Prod.mk.injEq] at hrest
    exact ⟨hrest.2.2.2.2.2.2.1.trans hr, hrest.2.2.2.2.2.2.2⟩
  unfold classified at hrequests ⊢
  simp only [classifyRecoveredMigrations] at hc
  split at hc
  · rename_i im1 hacc
    cases hc
    rw [hacc] at hrequests ⊢
    exact ⟨.refl, hrequests.1⟩
  · rename_i im1 hacc
    rw [hacc] at hrequests ⊢
    rw [finalize_eq] at hc
    split at hc
    · cases hc
    rename_i im2 hcommit
    cases hc
    obtain ⟨halike, hwindow⟩ := state_commit hcommit
    refine ⟨(show im1.state.Alike True im1.touchHeader.state from .refl).trans
      ((alike_settle clock _ _ _).trans halike), hwindow ?_ ?_⟩
    · exact (settles ..).windows.2.2.trans hrequests.1
    · rw [requests_settle, show im1.touchHeader.changes.requests = [] from hrequests.2]
      rfl

/-- What the classification does to a virtual accelerator. -/
def Halted (q q' : Seat ℕ ℕ Phase) : Prop :=
  q' = q ∨ q.phase.state = .migrating ∧ q' = Impl.moved q .provisioned

theorem Halted.refl (q : Seat ℕ ℕ Phase) : Halted q q := .inl rfl

theorem Halted.trans {q q' q'' : Seat ℕ ℕ Phase} (h : Halted q q') (h' : Halted q' q'') :
    Halted q q'' := by
  obtain rfl | ⟨hs, rfl⟩ := h
  · exact h'
  · obtain rfl | ⟨hs', -⟩ := h'
    · exact .inr ⟨hs, rfl⟩
    · cases hs'

/-- The seats after a start that recovers. -/
theorem seat_restarted {dropped : Impl Disk} (clock : Clock) (hd : Dropped base dropped)
    (halike : dropped.state.Alike True im.state) (x : ℕ) :
    Option.Rel (fun q q' => Halted (parked q) q') (base.book.seat x)
      ((im.classified clock.now).1.book.seat x) := by
  have ht : Turns Halted (fun _ => False) False False im (im.classified clock.now).1 :=
    (Turns.of_book (show im.beginOp.book = im.book from rfl)).trans
      (turns_classifyMigrations clock.now _ (im.beginOp, false) fun q hs => .inr ⟨hs, rfl⟩)
  have hseat : dropped.book.seat x = im.book.seat x :=
    congrArg (fun map : IdMap VirtualAcceleratorRecord => map[x]?.map (·.toSeat))
      (halike.entities .virtual nofun)
  cases hx : base.book.seat x with
  | none =>
    rw [hd.resets.none x hx] at hseat
    cases hx' : (im.classified clock.now).1.book.seat x with
    | none => exact .none
    | some q' =>
      obtain ⟨q, hq | ⟨-, -, hnone⟩, -⟩ :=
        Book.Steps.seat_inv Halted.refl (fun _ _ _ => Halted.trans) ht hx'
      · exact absurd (hseat.trans hq) nofun
      · exact hnone.elim
  | some q =>
    obtain ⟨φ, -, hq, hparked⟩ := hd.resets.seat x q hx
    rw [hparked] at hq
    obtain ⟨q', hq', hhalted⟩ :=
      Book.Steps.seat Halted.refl (fun _ _ _ => Halted.trans) ht (hseat.symm.trans hq)
    rw [hq']
    exact .some hhalted

/-- A virtual accelerator as a start leaves it. -/
structure Stopped (q q' : Seat ℕ ℕ Phase) : Prop where
  owner : q'.owner = q.owner
  contract : q'.phase.contract = q.phase.contract
  assignment : q'.phase.assignment = q.phase.assignment
  backing : q'.phase.backing = q.phase.backing
  backingGeneration : q'.phase.backingGeneration = q.phase.backingGeneration
  active : q'.active = 0
  occupied : lifecycleAllowsLeases q'.phase.state = false
  fenced : q'.phase.state = .fenced ↔ q.phase.state = .fenced
  retired : q'.phase.state = .retired ↔ q.phase.state = .retired

theorem stopped_of_halted {q q' : Seat ℕ ℕ Phase} (h : Halted (parked q) q') : Stopped q q' := by
  have hparked : Stopped q (parked q) := by
    constructor <;> try rfl
    all_goals
      unfold parked
      dsimp only
      cases hs : q.phase.state <;> simp [lifecycleRequiresBacking, lifecycleAllowsLeases, hs]
  obtain rfl | ⟨hs, rfl⟩ := h
  · exact hparked
  · have hf := hparked.fenced
    have hr := hparked.retired
    rw [hs] at hf hr
    exact { hparked with
      occupied := rfl
      fenced := ⟨by rintro ⟨⟩, fun h => absurd (hf.mpr h) (by rintro ⟨⟩)⟩
      retired := ⟨by rintro ⟨⟩, fun h => absurd (hr.mpr h) (by rintro ⟨⟩)⟩ }

/-- A start over a state that passes validation restarts it. -/
theorem restarted_startCommitted (hw : base.state.WellKeyed) (h : base.state.Consistent)
    (hv : base.state.validateState = .ok ()) (hchanges : base.changes = {})
    (hs : base.startCommitted clock true = (im', .ok ())) : base.state.Restarted im'.state := by
  obtain ⟨he, hmanned⟩ := manned_of_validateState hv
  obtain ⟨im1, im2, hcommit, hclassify, hstate⟩ := startCommitted_recovered hs
  -- the first commit: every lease is stopped and every device is unavailable
  have hd := base.dropped_startBody clock he
  have hw0 := wellKeyed_startBody hw clock true
  have hc0 := consistent_startBody hw h clock true
  have hm0 : (base.startBody clock true).Manned := by
    have hadvances : base.state.Advances (towards .provisioned) False
        (base.startBody clock true).state := advances_startBody h clock true
    refine hmanned.of_advances hadvances fun m p' hp' => ?_
    rw [register_startBody] at hp'
    exact ⟨p', hp'⟩
  have hledger := ledger_startBody hw clock true
  generalize base.startBody clock true = dropped at hd hw0 hc0 hm0 hledger hcommit
  obtain ⟨halike, hwindow⟩ := state_commit hcommit
  have hsound1 : im1.state.Sound Consistent := Sound.commit respects_consistent ⟨hw0, hc0⟩ hcommit
  have hm1 : im1.Manned := hm0.congr halike
  have hr1 : im1.state.requests = [] := hwindow hd.requests (by rw [hd.entered, hchanges])
  -- the second commit: what migrates is aborted or rolled forward
  obtain ⟨halike', hrequests⟩ := state_classify hr1 hclassify
  have hsound2 : im2.state.Sound Consistent := Sound.classifyRecoveredMigrations respects_consistent
    hsound1 (consistent_classified hsound1.wellKeyed hsound1.holds clock.now) hclassify
  have hterminal : ∀ (id : MigrationId) (m : MigrationRecord), im2.state.migrations[id]? = some m →
      migrationStateIsTerminal m.state = true := by
    intro id m hm
    have hm' : (im1.classified clock.now).1.state.migrations[id]? = some m := by
      rw [show (im1.classified clock.now).1.state.migrations = im2.state.migrations from
        halike'.entities .migration (by decide)]
      exact hm
    exact terminal_classified hsound1.wellKeyed hsound1.holds hm1 clock.now hm'
  -- the two commits together take each virtual accelerator to where it stopped
  have hstopped : ∀ id : VirtualAcceleratorId, Option.Rel (fun v v' => Stopped v.toSeat v'.toSeat)
      base.state.virtuals[id]? im2.state.virtuals[id]? := by
    intro id
    have hseat := seat_restarted clock hd halike id
    rw [show (im1.classified clock.now).1.book.seat = im2.book.seat from halike'.seat] at hseat
    simp only [Impl.book, VirtualizationState.book] at hseat
    generalize base.state.virtuals[id]? = v at hseat ⊢
    generalize im2.state.virtuals[id]? = v' at hseat ⊢
    rcases v with _ | v <;> rcases v' with _ | v'
    · exact .none
    · cases hseat
    · cases hseat
    · obtain hstop | _ := hseat
      exact .some (stopped_of_halted hstop)
  have hrest := im1.rest_classified clock.now
  simp only [rest, Prod.mk.injEq] at hrest
  obtain ⟨htenants, hleases, hbackings, hphysical, hepoch, htotal, -, -⟩ := hrest
  rw [hstate]
  constructor
  case epoch =>
    have hsame : dropped.state.epoch = im2.state.epoch :=
      halike.epoch.trans (hepoch.symm.trans halike'.epoch)
    rw [← hsame, hd.epoch]
    exact Nat.lt_succ_self _
  case leases =>
    intro id lease hl
    have hsame : dropped.state.leases = im2.state.leases :=
      (halike.entities .lease (by decide)).trans
        (hleases.symm.trans (halike'.entities .lease (by decide)))
    rw [← hsame] at hl
    have hlive := hd.resets.live id
    rw [Book.live, Impl.book, Consistent.lease_of_record hl] at hlive
    exact hlive
  case unused =>
    intro id v hv
    have hstop := hstopped id
    rw [hv] at hstop
    generalize base.state.virtuals[id]? = v₀ at hstop
    obtain hstop | _ := hstop
    have hfree : lifecycleAllowsLeases v.state = false := hstop.occupied
    refine ⟨hstop.active, ?_, ?_, ?_, fun hm => ?_⟩
    · rintro hs
      rw [hs] at hfree
      cases hfree
    · rintro hs
      rw [hs] at hfree
      cases hfree
    · rintro hs
      rw [hs] at hfree
      cases hfree
    · -- What migrates has a migration that is not over, and every migration is over.
      obtain ⟨m, p, hp, -, hready⟩ := hsound2.holds.moving id _ (Consistent.seat_of_record hv) hm
      simp only [VirtualizationState.register, Option.map_eq_some_iff] at hp
      obtain ⟨r, hr, rfl⟩ := hp
      have hover := hterminal m r hr
      simp only [MigrationRecord.toPassage] at hready
      revert hover hready
      cases r.state <;> simp [MigrationState.progress, migrationStateIsTerminal]
  case tenants =>
    intro id r hr
    have hsame : dropped.state.tenants = im2.state.tenants :=
      (halike.tenants trivial).trans (htenants.symm.trans (halike'.tenants trivial))
    have haccount := hd.resets.account id
    simp only [Impl.book, VirtualizationState.book, hsame, hr] at haccount
    exact haccount
  case total =>
    have hsame : dropped.state.accounting.attachmentsActive =
        im2.state.accounting.attachmentsActive :=
      halike.attachments.trans (htotal.symm.trans halike'.attachments)
    rw [← hsame]
    exact hd.resets.total
  case backings =>
    have hsame : dropped.state.backings = im2.state.backings :=
      (halike.entities .backing (by decide)).trans
        (hbackings.symm.trans (halike'.entities .backing (by decide)))
    rw [← hsame]
    exact hd.backings
  case physical =>
    have hsame : dropped.state.physical = im2.state.physical :=
      (halike.entities .physical (by decide)).trans
        (hphysical.symm.trans (halike'.entities .physical (by decide)))
    rw [← hsame]
    exact hd.physical
  case requests => exact hrequests
  case migrations => exact hterminal
  case virtuals =>
    intro id
    have hstop := hstopped id
    have hkeyed := hw.keyed .virtual id
    have hkeyed' := hsound2.wellKeyed.keyed .virtual id
    simp only [VirtualizationState.find, VirtualizationState.entities] at hkeyed hkeyed'
    generalize base.state.virtuals[id]? = v at hstop hkeyed ⊢
    generalize im2.state.virtuals[id]? = v' at hstop hkeyed' ⊢
    obtain hstop | _ := hstop
    · rename_i v v'
      have hid : v'.id = v.id := (hkeyed' v' rfl).trans (hkeyed v rfl).symm
      have howner : v'.owner = v.owner := hstop.owner
      have hcontract : v'.contract = v.contract := hstop.contract
      have hassignment : v'.assignment = v.assignment := hstop.assignment
      have hbacking : v'.backing = v.backing := hstop.backing
      have hgeneration : v'.backingGeneration = v.backingGeneration := hstop.backingGeneration
      simp only [Option.map_some, hid, howner, hcontract, hassignment, hbacking, hgeneration]
    · rfl
  case sealed =>
    intro id v v' hv hv'
    have hstop := hstopped id
    rw [hv, hv'] at hstop
    obtain hstop | _ := hstop
    exact ⟨hstop.fenced, hstop.retired⟩
  case authority =>
    intro id
    have hsame : im2.state.ledger = base.state.ledger :=
      calc im2.state.ledger = (im1.classified clock.now).1.state.ledger := halike'.ledger.symm
        _ = im1.state.ledger := ledger_classified im1 clock.now
        _ = dropped.state.ledger := halike.ledger.symm
        _ = base.state.ledger := hledger
    have hgrant := congrArg (fun L => (L.grant id).map (·.authoritative)) hsame
    simp only [VirtualizationState.ledger, Option.map_map] at hgrant
    exact hgrant

end Start

end Impl

/-- Whatever a run left in the store, a start that succeeds restarts it. -/
theorem restarted_of_run {options : RuntimeOptions} {stored : Bool} {events : List Event}
    {im im' : Impl Disk} {d : Disk} {image : VirtualizationState} {clock : Clock}
    (h : (Impl.initial options stored).run events = some im) (hd : im.store = some d)
    (himage : d.image = some image) (hstopped : im.running = false)
    (hs : im.start clock = (im', .ok ())) : image.Restarted im'.state := by
  have hsound := (Impl.consistent_of_run h).image d image hd himage
  obtain ⟨hrunning, -⟩ | ⟨-, base, recovered, hcommitted, hchanges, hbase⟩ := Impl.start_cases hs
  · rw [hstopped] at hrunning
    cases hrunning
  obtain ⟨-, ⟨-, hnone⟩ | ⟨-, d', hd', hnone⟩⟩ | ⟨rfl, d', hd', hload, hv⟩ := hbase
  · exact absurd (hd.symm.trans hnone) nofun
  · obtain rfl := Option.some.inj (hd.symm.trans hd')
    exact absurd (himage.symm.trans hnone) nofun
  · obtain rfl := Option.some.inj (hd.symm.trans hd')
    obtain rfl := Option.some.inj (himage.symm.trans hload)
    exact Impl.restarted_startCommitted hsound.wellKeyed hsound.holds hv hchanges hcommitted

/-- A process that stops before a cutover leaves a virtual accelerator migrating; after the restart
it is provisioned. -/
theorem restarted_migrating : ∃ (im im' : Impl Disk) (d : Disk) (image : VirtualizationState),
    (Impl.initial {} true).run (Sample.planned ++
      [Sample.call (.prepareMigration (Sample.mover 14 2 28 1)), .boot {}]) = some im ∧
    im.store = some d ∧ d.image = some image ∧ im.start Sample.clock = (im', .ok ()) ∧
    image.Restarted im'.state ∧ (image.virtuals[14]?.any (·.state = .migrating)) = true ∧
    (im'.state.virtuals[14]?.any (·.state = .provisioned)) = true := by
  have hrun : (((Impl.initial {} true).run (Sample.planned ++
      [Sample.call (.prepareMigration (Sample.mover 14 2 28 1)), .boot {}])).any fun im =>
        !im.running && im.store.any (fun d => d.image.any fun image =>
          image.virtuals[14]?.any (·.state = .migrating)) &&
        (im.start Sample.clock).2.isOk &&
        (im.start Sample.clock).1.state.virtuals[14]?.any (·.state = .provisioned)) = true := by
    decide +kernel
  obtain ⟨im, him, hall⟩ := (Option.any_eq_true _ _).mp hrun
  simp only [Bool.and_eq_true, Bool.not_eq_true'] at hall
  obtain ⟨⟨⟨hstopped, hstore⟩, hok⟩, hstate⟩ := hall
  obtain ⟨d, hd, hstore⟩ := (Option.any_eq_true _ _).mp hstore
  obtain ⟨image, himage, hvirtual⟩ := (Option.any_eq_true _ _).mp hstore
  cases hs : im.start Sample.clock with
  | mk im' result =>
    rw [hs] at hok hstate
    obtain ⟨⟨⟩⟩ | ⟨⟨⟩⟩ := result
    · cases hok
    · exact ⟨im, im', d, image, him, hd, himage, hs,
        restarted_of_run him hd himage hstopped hs, hvirtual, hstate⟩

end AcceleratorVirtualization
