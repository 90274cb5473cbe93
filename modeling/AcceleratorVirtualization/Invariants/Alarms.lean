import AcceleratorVirtualization.Invariants.Standing
import AcceleratorVirtualization.Runtime.Audit

/-!
# The audit of migrations over a run

The audit expects of a migration that its endpoints are there, that its flags agree with its state,
that its source has no authority after the cutover, and that its destination has. The runtime keeps
all of this but the last: what is done to a virtual accelerator after a migration may take the
authority of the destination, and the record of the migration stays.
-/

namespace AcceleratorVirtualization

open Handover Refusal

namespace VirtualizationState

variable {s t : VirtualizationState}

/-- What the audit expects of a migration, apart from where authority is now. -/
structure Filed (s : VirtualizationState) (m : MigrationRecord) : Prop where
  virtualId : m.plan.virtualId ∈ s.virtuals
  source : m.plan.sourceBacking ∈ s.backings
  destination : m.plan.destinationBacking ∈ s.backings
  klass : m.plan.klass ≠ .liveStateTransfer
  crossed : migrationStateAfterCutover m.state = true → m.sourceAuthoritative = false
  waiting : migrationStateAfterCutover m.state = false → m.destinationAuthoritative = false

/-- After the cutover the destination has authority. -/
def Upheld (s : VirtualizationState) (m : MigrationRecord) : Prop :=
  migrationStateAfterCutover m.state = true →
    s.ledger.Holds m.destinationAssignment m.plan.virtualId

/-- The audit finds nothing wrong with the migrations. -/
structure Quiet (s : VirtualizationState) : Prop where
  consistent : s.Consistent
  filed : ∀ (key : MigrationId) (m : MigrationRecord), s.migrations[key]? = some m → s.Filed m
  upheld : ∀ (key : MigrationId) (m : MigrationRecord), s.migrations[key]? = some m → s.Upheld m

theorem Filed.mono {m : MigrationRecord} (h : s.Filed m)
    (hv : ∀ id, id ∈ s.virtuals → id ∈ t.virtuals) (hb : ∀ id, id ∈ s.backings → id ∈ t.backings) :
    t.Filed m :=
  { h with
    virtualId := hv _ h.virtualId
    source := hb _ h.source
    destination := hb _ h.destination }

/-- After the cutover the source has ended. -/
theorem Consistent.ended_of_crossed (h : s.Consistent) {key : MigrationId} {m : MigrationRecord}
    (hm : s.migrations[key]? = some m) (hc : migrationStateAfterCutover m.state = true) :
    s.register.stage m.sourceAssignment = some .ended := by
  have hpassage : s.register.passage key = some m.toPassage :=
    congrArg (Option.map MigrationRecord.toPassage) hm
  have hknown : m.state.progress ≠ .stray := h.orderly.known key _ hpassage
  refine h.orderly.settled key _ hpassage ?_
  change m.state.progress = .done ∨ m.state.progress = .completed
  revert hc hknown
  cases m.state <;> decide

theorem auditEndpoints_of_filed {m : MigrationRecord} (h : s.Filed m)
    (record : VirtualAcceleratorRecord) : s.auditEndpoints record m = [] := by
  simp [auditEndpoints, h.source, h.destination, h.klass]

theorem auditWaiting_of_filed {m : MigrationRecord} (h : s.Filed m)
    (record : VirtualAcceleratorRecord) : auditWaiting record m = [] := by
  unfold auditWaiting
  rw [if_neg]
  cases hc : migrationStateAfterCutover m.state
  · simp [h.waiting hc]
  · simp

theorem auditCutover_of_quiet (h : s.Quiet) {key : MigrationId} {m : MigrationRecord}
    (hm : s.migrations[key]? = some m) (hc : migrationStateAfterCutover m.state = true)
    (record : VirtualAcceleratorRecord) : s.auditCutover record m = [] := by
  have hsource : s.assignments[m.sourceAssignment]?.any (·.authoritative) = false := by
    have hended := h.consistent.ended_of_crossed hm hc
    obtain ⟨a, ha, hstage⟩ := Option.map_eq_some_iff.mp hended
    cases hauth : a.authoritative
    · rw [ha, Option.any_some, hauth]
    · simp [BackingAssignment.stage, hauth] at hstage
  have hdest : s.assignments[m.destinationAssignment]?.any (!·.authoritative) = false := by
    obtain ⟨r, hr, hauth, -⟩ := h.upheld key m hm hc
    obtain ⟨a, ha, rfl⟩ := Option.map_eq_some_iff.mp hr
    rw [ha, Option.any_some, show a.authoritative = true from hauth]
    rfl
  simp [auditCutover, (h.filed key m hm).crossed hc, hsource, hdest]

/-- Then it reports nothing. -/
theorem auditMigrations_of_quiet (hw : s.WellKeyed) (h : s.Quiet) : s.auditMigrations = [] := by
  rw [auditMigrations, List.flatMap_eq_nil_iff]
  rintro ⟨key, m⟩ hmem
  have hm : s.migrations[key]? = some m := Std.ExtTreeMap.mem_toList_iff_getElem?_eq_some.mp hmem
  have hid : m.plan.id = key := hw.keyed .migration key m hm
  have hpos : m.plan.id ≠ 0 := hid ▸ (hw.issued .migration key m hm).1.ne'
  obtain ⟨record, hrecord⟩ := Option.isSome_iff_exists.mp
    (Std.ExtTreeMap.isSome_getElem?_iff_mem.mpr (h.filed key m hm).virtualId)
  unfold auditMigration
  rw [if_neg (by simp [hid, valid, hid ▸ hpos])]
  simp only [hrecord, auditEndpoints_of_filed (h.filed key m hm),
    auditWaiting_of_filed (h.filed key m hm)]
  split
  · rename_i hc
    simp [auditCutover_of_quiet h hm hc]
  · rfl

end VirtualizationState

namespace Impl

variable {σ : Type} {im im' : Impl σ}

/-! ### What becomes of the records -/

/-- Everything but the migrations there are. -/
def unfiled : Region := fun k => { _id | k ≠ .migration }

theorem closed_unfiled (s : VirtualizationState) : s.Closed unfiled :=
  fun _ _ _ _ => ⟨fun _ _ => nofun, nofun⟩

theorem migrations_of_confined (h : Confined unfiled im im') (key : MigrationId) :
    im'.state.migrations[key]? = im.state.migrations[key]? :=
  h.outside .migration key fun hne => hne rfl

/-- An operation that neither plans a migration nor carries one on leaves the migrations alone. -/
theorem reaches_unfiled {op : Op} (hphase : op.phase = false)
    (hplan : ∀ auth destination klass, op ≠ .planMigration auth destination klass) :
    im.Reaches unfiled op := by
  have hstaffed : Staffed unfiled im.ledger := fun _ _ _ _ _ _ _ _ _ => ⟨nofun, nofun⟩
  have htied : Tied unfiled im.ledger := fun _ _ _ _ _ _ _ _ => ⟨nofun, fun _ _ => nofun⟩
  cases op <;> simp only [Op.phase, Bool.true_eq_false] at hphase
  case planMigration auth destination klass => exact absurd rfl (hplan auth destination klass)
  case registerPhysical => exact ⟨nofun, ⟨fun _ _ => nofun, fun _ _ _ _ => nofun⟩, hstaffed⟩
  case physicalLost => exact fun _ _ => ⟨nofun, fun _ _ => nofun, fun _ => nofun, htied⟩
  case setPolicy => exact fun _ _ hk _ _ => hk
  case fenceTenant => exact fun _ _ => ⟨nofun, fun _ _ => nofun⟩
  case transferOwnership => exact fun _ _ => ⟨nofun, nofun, nofun⟩
  case createVirtual => exact nofun
  case suspend | retireVirtual => exact fun _ _ => ⟨nofun, nofun, nofun⟩
  case assignBacking | attach => exact fun _ _ => ⟨nofun, nofun⟩
  case replaceBacking => exact fun _ _ => ⟨nofun, nofun, nofun, nofun⟩
  case detach | revokeLease => exact fun _ _ => ⟨nofun, nofun, nofun⟩
  case updateContract | activate | drain | resolveRecovery | resume | fenceVirtual | renewLease
      | reserveAllocation | releaseAllocation | accountKernel => exact fun _ _ => nofun
  all_goals exact trivial

/-- How a migration moves on: what it is about stays, and its flags follow its state. -/
structure Furthers (s : VirtualizationState) (m m' : MigrationRecord) : Prop where
  virtualId : m'.plan.virtualId = m.plan.virtualId
  source : m'.plan.sourceBacking = m.plan.sourceBacking
  destination : m'.plan.destinationBacking = m.plan.destinationBacking
  klass : m'.plan.klass = m.plan.klass
  crossed : migrationStateAfterCutover m'.state = true → m'.sourceAuthoritative = false
  waiting : migrationStateAfterCutover m'.state = false → m'.destinationAuthoritative = false
  upheld : migrationStateAfterCutover m'.state = true →
    migrationStateAfterCutover m.state = true ∧
      m'.destinationAssignment = m.destinationAssignment ∨
    s.ledger.Holds m'.destinationAssignment m'.plan.virtualId

/-- A migration is the one there was, or it moved on. -/
def Continues (im im' : Impl σ) : Prop :=
  ∀ (key : MigrationId) (m' : MigrationRecord), im'.state.migrations[key]? = some m' →
    im.state.migrations[key]? = some m' ∨
      ∃ m, im.state.migrations[key]? = some m ∧ Furthers im'.state m m'

theorem Continues.of_confined (h : Confined unfiled im im') : Continues im im' :=
  fun key _ hm => .inl ((migrations_of_confined h key).symm.trans hm)

/-- One migration moves on. -/
theorem Continues.modify {id : MigrationId} {f : MigrationRecord → MigrationRecord}
    {M : IdMap MigrationRecord} (hM : ∀ key : MigrationId, M[key]? = im.state.migrations[key]?)
    (h : ∀ key : MigrationId, im'.state.migrations[key]? = (M.modify id f)[key]?)
    (hf : ∀ m, im.state.migrations[id]? = some m → Furthers im'.state m (f m)) :
    Continues im im' := by
  intro key m' hm'
  rw [h, Std.ExtTreeMap.getElem?_modify] at hm'
  split at hm'
  · rename_i heq
    obtain rfl := Nat.compare_eq_eq.mp heq
    obtain ⟨m, hm, rfl⟩ := Option.map_eq_some_iff.mp hm'
    rw [hM] at hm
    exact .inr ⟨m, hm, hf m hm⟩
  · rw [hM] at hm'
    exact .inl hm'

section Phases

variable {auth : Authority} {clock : Clock} {f : InFlight}

theorem continues_prepareMigrationAct :
    Continues im (prepareMigrationAct auth clock f im).1 := by
  have ht := (Confined.refl (closed_unfiled im.state)).transition (x := f.virtualId)
    (by rintro ⟨⟩) clock .migrating (txt "migration prepared; leases are drained before cutover")
  simp only [prepareMigrationAct]
  split <;> rename_i him <;> rw [him] at ht
  · exact .of_confined ht
  · have hdrained := Confined.fenceLeases ht (x := f.virtualId) (by rintro ⟨⟩)
      (txt "migration drained the source backing; the lease is bound to the source generation")
      clock.now
    refine .modify (migrations_of_confined hdrained) (fun _ => rfl) fun m hm => ?_
    exact ⟨rfl, rfl, rfl, rfl, (by rintro ⟨⟩), fun _ => rfl, (by rintro ⟨⟩)⟩

theorem continues_completeMigrationAct (hf : f.Current im.state)
    (hs : f.migration.state = .committed)
    (hfiled : im.state.Filed f.migration) :
    Continues im (completeMigrationAct auth clock f im).1 := by
  refine .modify (fun _ => rfl) (fun _ => rfl) fun m hm => ?_
  obtain rfl := Option.some.inj (hf.migration.symm.trans hm)
  have hcrossed : migrationStateAfterCutover f.migration.state = true := by
    rw [hs]
    rfl
  exact ⟨rfl, rfl, rfl, rfl, fun _ => hfiled.crossed hcrossed, nofun, fun _ => .inl ⟨hcrossed, rfl⟩⟩

/-- An abort changes one migration. -/
theorem migrations_abortMigrationAct (reason : Text) : ∃ M : IdMap MigrationRecord,
    (∀ key : MigrationId, M[key]? = im.state.migrations[key]?) ∧ ∀ key : MigrationId,
      (abortMigrationAct auth reason clock f im).1.state.migrations[key]? =
        (M.modify f.migrationId fun m =>
          { m with
            state := .aborted
            sourceAuthoritative := true
            destinationAuthoritative := false
            completedAt := clock.now
            note := reason })[key]? := by
  have hfailed : Confined unfiled im (im.failDestination f.migration.destinationAssignment
      (txt "migration aborted before cutover: " ++ reason) clock.now) := by
    unfold failDestination
    split
    · exact .refl (closed_unfiled _)
    · exact ((Confined.refl (closed_unfiled _)).touch _ _).modify (k := .assignment)
        (by rintro ⟨⟩) (by rintro ⟨⟩) _
  have hkept := fun i : Impl σ => Confined.refl (closed_unfiled i.state)
  refine ⟨_, migrations_of_confined hfailed, fun key => ?_⟩
  simp only [abortMigrationAct]
  split
  · rename_i him
    exact migrations_of_confined (ite_fst (p := Confined unfiled _)
      ((hkept _).transition (x := f.virtualId) (by rintro ⟨⟩) clock _ _) (hkept _) him) key
  · rename_i him
    exact migrations_of_confined (ite_fst (p := Confined unfiled _)
      ((hkept _).transition (x := f.virtualId) (by rintro ⟨⟩) clock _ _) (hkept _)
        him).touchHeader key

theorem continues_abortMigrationAct (reason : Text) :
    Continues im (abortMigrationAct auth reason clock f im).1 := by
  obtain ⟨M, hM, h⟩ := migrations_abortMigrationAct reason
  exact .modify hM h fun m _ => ⟨rfl, rfl, rfl, rfl, nofun, fun _ => rfl, nofun⟩

theorem continues_commitMigrationAct {c : Cutover}
    (hdest : (commitMigrationAct auth clock c im).1.ledger.Holds c.migration.destinationAssignment
      c.migration.plan.virtualId) (hm : im.state.migrations[c.migrationId]? = some c.migration) :
    Continues im (commitMigrationAct auth clock c im).1 := by
  refine .modify (fun _ => rfl) (fun _ => rfl) fun m hm' => ?_
  obtain rfl := Option.some.inj (hm.symm.trans hm')
  exact ⟨rfl, rfl, rfl, rfl, fun _ => rfl, (by rintro ⟨⟩), fun _ => .inr hdest⟩

end Phases

section Bodies

variable {clock : Clock} {op : Op} {b : Body σ Unit}

theorem continues_checked {π α : Type} {context : Impl σ → OpContext} {kind : AuditKind}
    {check : Impl σ → Except Status π} {act : π → Body σ α}
    (hact : ∀ plan, check im = .ok plan → Continues im (act plan im).1) :
    Continues im (checked (fun im => orRefuse (context im) kind (check im)) act im).1 :=
  fst_checked (p := fun im' => Continues im im') (fun _ _ hm => .inl hm) hact

/-- After a commit the destination has authority. -/
theorem holds_commitMigrationAct (hs : Tracks im ∅ im) (hc : im.ledger.Coherent) {auth : Authority}
    {c : Cutover} (hok : commitMigrationCheck auth im = .ok c) :
    (commitMigrationAct auth clock c im).1.ledger.Holds c.migration.destinationAssignment
      c.migration.plan.virtualId := by
  obtain ⟨hcurrent, -, -, hd⟩ := commitMigrationCheck_ok hok
  have hne : c.migration.destinationAssignment ≠ 0 := by
    intro h0
    rw [h0] at hd
    exact absurd ((hs.wellKeyed.zero .assignment).symm.trans hd) nofun
  rw [ledger_commitMigrationAct hs auth clock hcurrent hd]
  refine Custody.Ledger.holds_mark.mpr (Custody.Ledger.holds_mark.mpr ?_)
  exact hc.holds_cutover (m := c.migrationId)
    (congrArg (Option.map MigrationRecord.toMove) hcurrent.migration) (ref_of_ne hne)

/-- Migrations stay as they are or move on, unless one is planned. -/
theorem continues_body (hb : body clock op = some b) (hw : im.state.WellKeyed)
    (h : im.state.Quiet)
    (hplan : ∀ auth destination klass, op ≠ .planMigration auth destination klass) :
    Continues im.beginOp (b im.beginOp).1 := by
  have hs : Tracks im.beginOp ∅ im.beginOp := .beginOp (show im.beginOp.state.WellKeyed from hw)
  have h0 : im.beginOp.state.Quiet := h
  generalize im.beginOp = i at hs h0
  cases hphase : op.phase
  · exact .of_confined (confined_body hb hs (closed_unfiled _) (fun _ hk _ _ => hk)
      (reaches_unfiled hphase hplan))
  · cases op <;> simp only [Op.phase, Bool.false_eq_true] at hphase <;>
      simp only [body, Option.some.injEq] at hb <;> subst hb
    case prepareMigration => exact continues_checked fun _ _ => continues_prepareMigrationAct
    case commitMigration =>
      refine continues_checked fun c hok => ?_
      exact continues_commitMigrationAct (holds_commitMigrationAct hs h0.consistent.coherent hok)
        (commitMigrationCheck_ok hok).1.migration
    case completeMigration =>
      refine continues_checked fun f hok => ?_
      obtain ⟨hf, hstate⟩ := completeMigrationCheck_ok hok
      exact continues_completeMigrationAct hf hstate (h0.filed _ _ hf.migration)
    case abortMigration => exact continues_checked fun _ _ => continues_abortMigrationAct _

theorem planMigrationCheck_klass {auth : Authority} {destination : BackingId}
    {klass : MigrationClass} {plan : Owned × BackingRecord}
    (h : planMigrationCheck auth destination klass im = .ok plan) : klass ≠ .liveStateTransfer := by
  simp only [planMigrationCheck, bind_eq_ok] at h
  obtain ⟨-, -, -, -, _, -, -, -, _, -, _, hclass, -⟩ := h
  simp only [checkMigrationClass, guard_bind_eq_ok] at hclass
  obtain ⟨-, himplemented, -⟩ := hclass
  rintro rfl
  simp [implementedMigrationClasses] at himplemented

/-- A plan names a source and a destination that are there. -/
theorem filed_plan {auth : Authority} {destination : BackingId} {klass : MigrationClass}
    {plan : Owned × BackingRecord} (hw : im.state.WellKeyed) (h : im.state.Quiet)
    (hok : planMigrationCheck auth destination klass im = .ok plan) {key : MigrationId}
    {m : MigrationRecord}
    (hm : (planMigrationAct auth destination klass clock plan im).1.state.migrations[key]? =
      some m) :
    im.state.migrations[key]? = some m ∨
      im.state.Filed m ∧ migrationStateAfterCutover m.state = false := by
  obtain ⟨ho, hb, hassignment, hbacking⟩ := planMigrationCheck_ok hok
  change (im.state.migrations.insert im.nextId _)[key]? = some m at hm
  rw [Std.ExtTreeMap.getElem?_insert] at hm
  split at hm
  · obtain rfl := Option.some.inj hm
    refine .inr ⟨⟨?_, ?_, ?_, planMigrationCheck_klass hok, (by rintro ⟨⟩), fun _ => rfl⟩, rfl⟩
    · have hid : plan.1.record.id = plan.1.virtualId := hw.keyed .virtual _ _ ho.virtual
      change plan.1.record.id ∈ im.state.virtuals
      rw [hid]
      exact Std.ExtTreeMap.isSome_getElem?_iff_mem.mp (Option.isSome_of_eq_some ho.virtual)
    · -- the virtual accelerator points to an assignment of the backing
      have hparty : im.ledger.party plan.1.virtualId = some plan.1.record.toPointer :=
        congrArg (Option.map VirtualAcceleratorRecord.toPointer) ho.virtual
      obtain ⟨r, hr, -, hresource⟩ :=
        h.consistent.coherent.owned _ _ _ hparty (ref_of_ne hassignment)
      obtain ⟨heq, -⟩ := ref_eq_some.mp hresource
      have hplaced := h.consistent.coherent.placed _ _ hr
      rw [← heq] at hplaced
      exact Std.ExtTreeMap.isSome_getElem?_iff_mem.mp (Option.isSome_map ▸ hplaced)
    · exact Std.ExtTreeMap.isSome_getElem?_iff_mem.mp (Option.isSome_of_eq_some hb)
  · exact .inl hm

/-- Whether an operation leaves the destinations of migrations that crossed their cutover the
authority they have. -/
def upholds (im : Impl σ) (now : UnixMicros) (op : Op) : Bool :=
  im.state.migrations.toList.all fun entry =>
    !migrationStateAfterCutover entry.2.state ||
      !(im.strips now op).contains entry.2.destinationAssignment

/-- Records stay, and those that crossed their cutover still have the authority. -/
structure Sustains (im im' : Impl σ) : Prop where
  virtuals : ∀ id, id ∈ im.state.virtuals → id ∈ im'.state.virtuals
  backings : ∀ id, id ∈ im.state.backings → id ∈ im'.state.backings
  holds : ∀ (key : MigrationId) (m : MigrationRecord), im.state.migrations[key]? = some m →
    migrationStateAfterCutover m.state = true →
    im'.state.ledger.Holds m.destinationAssignment m.plan.virtualId

theorem Sustains.kept (hs : Sustains im im') (h : im.state.Quiet) {key : MigrationId}
    {m : MigrationRecord} (hm : im.state.migrations[key]? = some m) :
    im'.state.Filed m ∧ im'.state.Upheld m :=
  ⟨(h.filed key m hm).mono hs.virtuals hs.backings, hs.holds key m hm⟩

/-- Migrations that stay as they are or move on stay quiet. -/
theorem quiet_of_continues (hs : Sustains im im') (h : im.state.Quiet)
    (hc : im'.state.Consistent) (hcont : Continues im im') : im'.state.Quiet := by
  have hall : ∀ (key : MigrationId) (m' : MigrationRecord),
      im'.state.migrations[key]? = some m' → im'.state.Filed m' ∧ im'.state.Upheld m' := by
    intro key m' hm'
    obtain hm | ⟨m, hm, hf⟩ := hcont key m' hm'
    · exact hs.kept h hm
    · obtain ⟨hfiled, hupheld⟩ := hs.kept h hm
      refine ⟨⟨hf.virtualId ▸ hfiled.virtualId, hf.source ▸ hfiled.source,
        hf.destination ▸ hfiled.destination, hf.klass ▸ hfiled.klass, hf.crossed, hf.waiting⟩, ?_⟩
      intro hcrossed
      obtain ⟨hbefore, hdest⟩ | hholds := hf.upheld hcrossed
      · rw [hdest, hf.virtualId]
        exact hupheld hbefore
      · exact hholds
  exact ⟨hc, fun key m hm => (hall key m hm).1, fun key m hm => (hall key m hm).2⟩

theorem sustains_body (hb : body clock op = some b) (hw : im.state.WellKeyed) (h : im.state.Quiet)
    (hu : im.beginOp.upholds clock.now op = true) : Sustains im (b im.beginOp).1 := by
  obtain ⟨tenants, htracks, -⟩ := tracks_body hb hw
  constructor
  · intro id hid
    exact Std.ExtTreeMap.isSome_getElem?_iff_mem.mp
      (htracks.kept .virtual id (Std.ExtTreeMap.isSome_getElem?_iff_mem.mpr hid))
  · intro id hid
    exact Std.ExtTreeMap.isSome_getElem?_iff_mem.mp
      (htracks.kept .backing id (Std.ExtTreeMap.isSome_getElem?_iff_mem.mpr hid))
  · intro key m hm hc
    refine holds_body hb hw h.consistent (h.upheld key m hm hc) ?_
    have hentry := List.all_eq_true.mp hu (key, m)
      (Std.ExtTreeMap.mem_toList_iff_getElem?_eq_some.mpr hm)
    simpa [hc] using hentry

theorem quiet_body (hb : body clock op = some b) (hw : im.state.WellKeyed) (h : im.state.Quiet)
    (hu : im.beginOp.upholds clock.now op = true) : (b im.beginOp).1.state.Quiet := by
  have hs := sustains_body hb hw h hu
  have hc := consistent_body hb hw h.consistent
  by_cases hplan : ∃ auth destination klass, op = .planMigration auth destination klass
  · obtain ⟨auth, destination, klass, rfl⟩ := hplan
    simp only [body, Option.some.injEq] at hb
    subst hb
    have hall : ∀ (key : MigrationId) (m' : MigrationRecord),
        (planMigrationBody auth destination klass clock im.beginOp).1.state.migrations[key]? =
          some m' → im.state.migrations[key]? = some m' ∨
            im.state.Filed m' ∧ migrationStateAfterCutover m'.state = false := by
      refine fst_checked (p := fun im' : Impl σ => ∀ (key : MigrationId) (m' : MigrationRecord),
        im'.state.migrations[key]? = some m' → im.state.migrations[key]? = some m' ∨
          im.state.Filed m' ∧ migrationStateAfterCutover m'.state = false) (fun _ _ hm => .inl hm)
          ?_
      exact fun plan hok key m hm => @filed_plan _ im.beginOp _ _ _ _ _ hw h hok _ _ hm
    refine ⟨hc, fun key m' hm' => ?_, fun key m' hm' => ?_⟩
    · obtain hm | ⟨hfiled, -⟩ := hall key m' hm'
      · exact (hs.kept h hm).1
      · exact hfiled.mono hs.virtuals hs.backings
    · obtain hm | ⟨-, hbefore⟩ := hall key m' hm'
      · exact (hs.kept h hm).2
      · exact fun hcrossed => absurd (hbefore.symm.trans hcrossed) (by simp)
  · refine quiet_of_continues hs h hc (continues_body hb hw h ?_)
    exact fun auth destination klass heq => hplan ⟨auth, destination, klass, heq⟩

end Bodies

/-! ### Runs -/

theorem sustains_of_ledger (h : im.state.Quiet) (hledger : im'.ledger = im.ledger) :
    Sustains im im' where
  virtuals id hid := by
    have hsome := congrArg Option.isSome (congrFun (congrArg Custody.Ledger.party hledger) id)
    change (im'.state.virtuals[id]?.map _).isSome = (im.state.virtuals[id]?.map _).isSome at hsome
    rw [Option.isSome_map, Option.isSome_map] at hsome
    rw [← Std.ExtTreeMap.isSome_getElem?_iff_mem] at hid ⊢
    exact hsome.trans hid
  backings id hid := by
    have hsome := congrArg Option.isSome (congrFun (congrArg Custody.Ledger.slot hledger) id)
    change (im'.state.backings[id]?.map _).isSome = (im.state.backings[id]?.map _).isSome at hsome
    rw [Option.isSome_map, Option.isSome_map] at hsome
    rw [← Std.ExtTreeMap.isSome_getElem?_iff_mem] at hid ⊢
    exact hsome.trans hid
  holds key m hm hc := by
    have hbefore := h.upheld key m hm hc
    rwa [show im'.state.ledger = im.state.ledger from hledger]

theorem migrations_abortRecovered (im : Impl σ) (now : UnixMicros) (key : MigrationId)
    (m : MigrationRecord) : (im.abortRecovered now key m).state.migrations =
      im.state.migrations.modify key fun m =>
        { m with state := .aborted, sourceAuthoritative := true, destinationAuthoritative := false,
                 completedAt := now, note := restartNote } := by
  have hfailed : ∀ (i : Impl σ) (g : BackingAssignmentId),
      (i.failRecovered now g).state.migrations = i.state.migrations := by
    intro i g
    unfold failRecovered
    split
    · rfl
    · split <;> rfl
  exact hfailed _ m.destinationAssignment

/-- A migration that is found on the way is completed after its cutover, and aborted before. -/
theorem continues_classifyMigration {acc : Impl σ × Bool} (h : acc.1.state.Quiet) (now : UnixMicros)
    (key : MigrationId) : Continues acc.1 (classifyMigration now acc key).1 := by
  simp only [classifyMigration]
  split
  · exact fun _ _ hm => .inl hm
  · rename_i m hm
    split
    · exact fun _ _ hm => .inl hm
    · split
      · rename_i hstate
        refine .modify (fun _ => rfl) (fun _ => rfl) fun m' hm' => ?_
        obtain rfl := Option.some.inj (hm.symm.trans hm')
        have hcrossed : migrationStateAfterCutover m.state = true := by
          rw [hstate]
          rfl
        exact ⟨rfl, rfl, rfl, rfl, fun _ => (h.filed key m hm).crossed hcrossed, (by rintro ⟨⟩),
          fun _ => .inl ⟨hcrossed, rfl⟩⟩
      · split
        · exact fun _ _ hm => .inl hm
        · have haborted : (acc.1.abortRecovered now key m).state.migrations =
              acc.1.state.migrations.modify key fun m =>
                { m with state := .aborted, sourceAuthoritative := true,
                         destinationAuthoritative := false, completedAt := now,
                         note := restartNote } :=
            migrations_abortRecovered acc.1 now key m
          exact .modify (fun _ => rfl)
            (fun j => congrArg (fun M : IdMap MigrationRecord => M[j]?) haborted)
            fun m' _ => ⟨rfl, rfl, rfl, rfl, (by rintro ⟨⟩), fun _ => rfl, (by rintro ⟨⟩)⟩

theorem quiet_classified (hw : im.state.WellKeyed) (h : im.state.Quiet) (now : UnixMicros) :
    (im.classified now).1.state.Quiet := by
  have ht : Tracks im ∅ im.beginOp := .beginOp hw
  refine (List.foldlRecOn _ _ (motive := fun acc : Impl σ × Bool =>
    Tracks im ∅ acc.1 ∧ acc.1.state.Quiet) ⟨ht, h⟩ fun acc hacc key _ => ?_).2
  refine ⟨hacc.1.classifyMigration now key, ?_⟩
  exact quiet_of_continues (sustains_of_ledger hacc.2 (ledger_classifyMigration now acc key)) hacc.2
    (consistent_classifyMigration hacc.1 hacc.2.consistent now key)
    (continues_classifyMigration hacc.2 now key)

end Impl

namespace VirtualizationState

theorem respects_quiet {T : Prop} : Respects T Quiet := by
  intro s t h hs
  have hv : s.virtuals = t.virtuals := h.entities .virtual nofun
  have hb : s.backings = t.backings := h.entities .backing nofun
  have hm : s.migrations = t.migrations := h.entities .migration nofun
  refine ⟨Impl.respects_consistent h hs.consistent, fun key m hm' => ?_, fun key m hm' => ?_⟩
  · rw [← hm] at hm'
    exact (hs.filed key m hm').mono (fun _ hid => hv ▸ hid) fun _ hid => hb ▸ hid
  · rw [← hm] at hm'
    have hupheld := hs.upheld key m hm'
    rw [Upheld, h.ledger] at hupheld
    exact hupheld

end VirtualizationState

namespace Impl

variable {im : Impl Disk}

/-- Whether an event leaves the destinations of migrations that crossed their cutover the authority
they have. -/
def upholding (im : Impl Disk) : Event → Bool
  | .op op clock answer => !(im.answering answer).writable ||
    (im.answering answer).beginOp.upholds clock.now ((im.answering answer).resolve op)
  | _ => true

theorem invariant_quiet {T : Prop} : Invariant T VirtualizationState.Quiet where
  respects := VirtualizationState.respects_quiet
  empty := ⟨consistent_empty, fun key m hm => by simp at hm, fun key m hm => by simp at hm⟩
  classified now h := quiet_classified h.wellKeyed h.holds now
  shutdown clock h := quiet_of_continues
    (sustains_of_ledger h.holds (ledger_shutdownBody h.wellKeyed clock)) h.holds
    (consistent_shutdownBody h.wellKeyed h.holds.consistent clock)
    (.of_confined (confined_shutdownBody (closed_unfiled _) (fun _ _ hk _ _ => hk) clock))

theorem keeps_quiet (h : Kept False VirtualizationState.Quiet im) {event : Event}
    (hu : im.upholding event = true) : Keeps False VirtualizationState.Quiet im event where
  body op clock answer hevent b hb hwritable := by
    subst hevent
    have hs := (h.answering answer).state
    exact quiet_body hb hs.wellKeyed hs.holds (of_writable hu hwritable)
  start clock _ base recovered hs _ := quiet_of_continues
    (sustains_of_ledger hs.holds (ledger_startBody hs.wellKeyed clock recovered)) hs.holds
    (consistent_startBody hs.wellKeyed hs.holds.consistent clock recovered)
    (.of_confined (confined_startBody (closed_unfiled _) (fun _ _ hk _ _ => hk) clock recovered))
  written := nofun

end Impl

/-- In every state of a run that takes no authority from the destination of a migration after its
cutover, the audit reports nothing about migrations. -/
theorem auditMigrations_of_run {options : RuntimeOptions} {stored : Bool} {events : List Event}
    {im : Impl Disk} (h : (Impl.initial options stored).run events = some im)
    (hu : (Impl.initial options stored).throughout Impl.upholding events = true) :
    im.state.auditMigrations = [] := by
  have hi : Impl.Invariant False VirtualizationState.Quiet := Impl.invariant_quiet
  have hkept := (Impl.kept_initial hi options stored).run hi
    (c := Impl.upholding) (fun im event hk hc => Impl.keeps_quiet hk hc) h hu
  exact VirtualizationState.auditMigrations_of_quiet hkept.state.wellKeyed hkept.state.holds

/-- A migration is carried out, and its virtual accelerator stays where it is. -/
theorem auditMigrations_moved : ∃ im, (Impl.initial {} true).run Sample.moved = some im ∧
    im.state.auditMigrations = [] ∧ im.state.migrations.size = 1 := by
  have hrun : (((Impl.initial {} true).run Sample.moved).any fun im =>
      decide (im.state.migrations.size = 1)) = true := by
    decide +kernel
  have hu : (Impl.initial {} true).throughout Impl.upholding Sample.moved = true := by
    decide +kernel
  obtain ⟨im, him, hsize⟩ := (Option.any_eq_true _ _).mp hrun
  exact ⟨im, him, auditMigrations_of_run him hu, of_decide_eq_true hsize⟩

/-- After the migration the virtual accelerator is suspended. -/
def Sample.movedAndSuspended : List Event :=
  Sample.planned ++ [Sample.call (.prepareMigration (Sample.mover 14 2 28 1)),
    Sample.call (.commitMigration (Sample.mover 14 3 28 2)),
    Sample.call (.completeMigration (Sample.mover 14 4 28 2)),
    Sample.call (.suspend (Sample.owner 14 4) [])]

/-- Then the audit reports that the destination has no authority. -/
theorem auditMigrations_suspended : ∃ im,
    (Impl.initial {} true).run Sample.movedAndSuspended = some im ∧
    im.state.auditMigrations.map (·.code) = [kSingleAuthoritativeBacking] := by
  have hrun : (((Impl.initial {} true).run Sample.movedAndSuspended).any fun im =>
      decide (im.state.auditMigrations.map (·.code) = [kSingleAuthoritativeBacking])) = true := by
    decide +kernel
  obtain ⟨im, him, haudit⟩ := (Option.any_eq_true _ _).mp hrun
  exact ⟨im, him, of_decide_eq_true haudit⟩

end AcceleratorVirtualization
