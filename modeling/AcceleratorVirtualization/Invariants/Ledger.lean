import AcceleratorVirtualization.Lib.Custody
import AcceleratorVirtualization.Invariants.TrackedOperations

/-!
# The custody ledger of a state

Virtual accelerators are the parties, backings the resources, assignments the grants and
migrations the moves of a custody ledger. The view keeps what decides authority and forgets
the rest, so most steps of the runtime leave it alone; the others are steps of the library.
-/

namespace AcceleratorVirtualization

open VirtualizationState Custody

/-! ### The view -/

/-- An identity that may be unset. -/
def ref (id : ℕ) : Option ℕ := if id = 0 then none else some id

theorem ref_zero : ref 0 = none := rfl

/-- An identity other than zero is one. -/
theorem ref_of_ne {id : ℕ} (h : id ≠ 0) : ref id = some id := if_neg h

/-- What a reference names. -/
theorem ref_eq_some {id id' : ℕ} : ref id = some id' ↔ id = id' ∧ id ≠ 0 := by
  unfold ref
  split <;> simp_all

/-- What an assignment is to the ledger. -/
def BackingAssignment.toGrant (a : BackingAssignment) : Grant ℕ ℕ :=
  ⟨a.virtualId, a.backing, a.authoritative⟩

/-- What a virtual accelerator is to the ledger; zero identities point at nothing. -/
def VirtualAcceleratorRecord.toPointer (v : VirtualAcceleratorRecord) : Pointer ℕ ℕ :=
  ⟨ref v.assignment, ref v.backing⟩

/-- What a backing is to the ledger. -/
def BackingRecord.toSlot (b : BackingRecord) : Slot ℕ ℕ :=
  ⟨b.exclusive, ref b.assignedTo, ref b.activeAssignment⟩

/-- What a migration is to the ledger. -/
def MigrationRecord.toMove (m : MigrationRecord) : Move ℕ ℕ ℕ :=
  ⟨m.plan.virtualId, m.plan.destinationBacking, m.sourceAssignment, ref m.destinationAssignment⟩

/-- Who has authority over what, and what records it. -/
def VirtualizationState.ledger (s : VirtualizationState) : Ledger ℕ ℕ ℕ ℕ where
  grant id := s.assignments[id]?.map (·.toGrant)
  party id := s.virtuals[id]?.map (·.toPointer)
  slot id := s.backings[id]?.map (·.toSlot)
  move id := s.migrations[id]?.map (·.toMove)

/-- The maps that decide the ledger. -/
theorem VirtualizationState.ledger_congr {s t : VirtualizationState}
    (ha : s.assignments = t.assignments) (hv : s.virtuals = t.virtuals)
    (hb : s.backings = t.backings) (hm : s.migrations = t.migrations) : s.ledger = t.ledger := by
  simp only [ledger, ha, hv, hb, hm]

namespace Impl

variable {σ : Type} (im : Impl σ)

/-- The ledger of the state of a runtime. -/
def ledger : Ledger ℕ ℕ ℕ ℕ := im.state.ledger

/-! ### Steps of the view -/

@[simp]
theorem ledger_touch (k : RecordKind) (id : ℕ) : (im.touch k id).ledger = im.ledger := rfl

@[simp]
theorem ledger_takeId : im.takeId.ledger = im.ledger := rfl

@[simp]
theorem ledger_touchHeader : im.touchHeader.ledger = im.ledger := rfl

@[simp]
theorem ledger_account (f : AccountingCounters → AccountingCounters) :
    (im.account f).ledger = im.ledger := rfl

@[simp]
theorem ledger_beginOp : im.beginOp.ledger = im.ledger := rfl

/-- Looking up after a change of one record. -/
theorem map_modify {α β : Type} (map : IdMap α) (id : ℕ) (f : α → α) (view : α → β)
    (g : β → β) (h : ∀ r, view (f r) = g (view r)) :
    (fun id' : ℕ => (map.modify id f)[id']?.map view) =
      Function.update (fun id' : ℕ => map[id']?.map view) id ((map[id]?.map view).map g) := by
  funext id'
  rw [Std.ExtTreeMap.getElem?_modify]
  by_cases hid : id' = id
  · subst hid
    simp [Function.comp_def, h]
  · rw [Function.update_of_ne hid, if_neg (by simpa using Ne.symm hid)]

/-- A change of one record that the view does not see. -/
private theorem map_modify_same {α β : Type} (map : IdMap α) (id : ℕ) (f : α → α) (view : α → β)
    (h : ∀ r, map[id]? = some r → view (f r) = view r) :
    (fun id' : ℕ => (map.modify id f)[id']?.map view) = fun id' : ℕ => map[id']?.map view := by
  funext id'
  rw [Std.ExtTreeMap.getElem?_modify]
  by_cases hid : id' = id
  · subst hid
    cases hr : map[id']? with
    | none => simp
    | some r => simp [h r hr]
  · rw [if_neg (by simpa using Ne.symm hid)]

variable {im}

/-- A change of a virtual accelerator that keeps its binding. -/
theorem ledger_modify_virtual {id : ℕ} {f : VirtualAcceleratorRecord → VirtualAcceleratorRecord}
    (h : ∀ v, (f v).toPointer = v.toPointer) : (im.modify .virtual id f).ledger = im.ledger := by
  simp only [ledger, VirtualizationState.ledger, Impl.modify, VirtualizationState.modify,
    setEntities, entities]
  rw [map_modify_same im.state.virtuals id f _ fun v _ => h v]

/-- A changed virtual accelerator points elsewhere. -/
theorem ledger_point {id : ℕ} {f : VirtualAcceleratorRecord → VirtualAcceleratorRecord}
    {q : Pointer ℕ ℕ → Pointer ℕ ℕ} (h : ∀ v, (f v).toPointer = q v.toPointer) :
    (im.modify .virtual id f).ledger = im.ledger.point id q := by
  simp only [ledger, VirtualizationState.ledger, Impl.modify, VirtualizationState.modify,
    setEntities, entities, Ledger.point]
  rw [map_modify im.state.virtuals id f _ q h]

/-- A change of an assignment that keeps its parties and its authority. -/
theorem ledger_modify_assignment {id : ℕ} {f : BackingAssignment → BackingAssignment}
    (h : ∀ a, im.state.assignments[id]? = some a → (f a).toGrant = a.toGrant) :
    (im.modify .assignment id f).ledger = im.ledger := by
  simp only [ledger, VirtualizationState.ledger, Impl.modify, VirtualizationState.modify,
    setEntities, entities]
  rw [map_modify_same im.state.assignments id f _ h]

/-- A changed assignment loses its authority. -/
theorem ledger_revoke {id : ℕ} {f : BackingAssignment → BackingAssignment}
    (h : ∀ a, (f a).toGrant = { a.toGrant with authoritative := false }) :
    (im.modify .assignment id f).ledger = im.ledger.revoke id := by
  simp only [ledger, VirtualizationState.ledger, Impl.modify, VirtualizationState.modify,
    setEntities, entities, Ledger.revoke]
  rw [map_modify im.state.assignments id f _ (fun r => { r with authoritative := false }) h]

/-- A changed assignment gains authority. -/
theorem ledger_empower {id : ℕ} {f : BackingAssignment → BackingAssignment}
    (h : ∀ a, (f a).toGrant = { a.toGrant with authoritative := true }) :
    (im.modify .assignment id f).ledger = im.ledger.empower id := by
  simp only [ledger, VirtualizationState.ledger, Impl.modify, VirtualizationState.modify,
    setEntities, entities, Ledger.empower]
  rw [map_modify im.state.assignments id f _ (fun r => { r with authoritative := true }) h]

/-- A change of a backing that keeps what it records. -/
theorem ledger_modify_backing {id : ℕ} {f : BackingRecord → BackingRecord}
    (h : ∀ b, (f b).toSlot = b.toSlot) : (im.modify .backing id f).ledger = im.ledger := by
  simp only [ledger, VirtualizationState.ledger, Impl.modify, VirtualizationState.modify,
    setEntities, entities]
  rw [map_modify_same im.state.backings id f _ fun b _ => h b]

/-- A changed backing records something else. -/
theorem ledger_mark {id : ℕ} {f : BackingRecord → BackingRecord} {g : Slot ℕ ℕ → Slot ℕ ℕ}
    (h : ∀ b, (f b).toSlot = g b.toSlot) :
    (im.modify .backing id f).ledger = im.ledger.mark id g := by
  simp only [ledger, VirtualizationState.ledger, Impl.modify, VirtualizationState.modify,
    setEntities, entities, Ledger.mark]
  rw [map_modify im.state.backings id f _ g h]

/-- A change of a migration that keeps what it moves. -/
theorem ledger_modify_migration {id : ℕ} {f : MigrationRecord → MigrationRecord}
    (h : ∀ m, (f m).toMove = m.toMove) : (im.modify .migration id f).ledger = im.ledger := by
  simp only [ledger, VirtualizationState.ledger, Impl.modify, VirtualizationState.modify,
    setEntities, entities]
  rw [map_modify_same im.state.migrations id f _ fun m _ => h m]

/-- A changed migration aims at an assignment. -/
theorem ledger_aim {id g : ℕ} {f : MigrationRecord → MigrationRecord}
    (h : ∀ m, (f m).toMove = { m.toMove with target := some g }) :
    (im.modify .migration id f).ledger = im.ledger.aim id g := by
  simp only [ledger, VirtualizationState.ledger, Impl.modify, VirtualizationState.modify,
    setEntities, entities, Ledger.aim]
  rw [map_modify im.state.migrations id f _ (fun v => { v with target := some g }) h]

@[simp]
theorem ledger_modify_tenant {id : ℕ} {f : TenantRecord → TenantRecord} :
    (im.modify .tenant id f).ledger = im.ledger := rfl

@[simp]
theorem ledger_modify_physical {id : ℕ} {f : PhysicalDeviceRecord → PhysicalDeviceRecord} :
    (im.modify .physical id f).ledger = im.ledger := rfl

@[simp]
theorem ledger_modify_lease {id : ℕ} {f : LeaseRecord → LeaseRecord} :
    (im.modify .lease id f).ledger = im.ledger := rfl

/-- An insertion into a table, seen through a view. -/
theorem map_insert {α β : Type} (map : IdMap α) (id : ℕ) (r : α) (view : α → β) :
    (fun id' : ℕ => (map.insert id r)[id']?.map view) =
      Function.update (fun id' : ℕ => map[id']?.map view) id (some (view r)) := by
  funext id'
  rw [Std.ExtTreeMap.getElem?_insert]
  by_cases hid : id' = id
  · subst hid
    simp
  · rw [Function.update_of_ne hid, if_neg (by simpa using Ne.symm hid)]

/-- Where there is nothing, inserting if new is inserting. -/
theorem insertIfNew_of_none {α : Type} {map : IdMap α} {id : ℕ} {r : α} (h : map[id]? = none) :
    map.insertIfNew id r = map.insert id r := by
  have hmem : id ∉ map := by simpa using h
  refine Std.ExtTreeMap.ext_getElem? fun id' => ?_
  rw [Std.ExtTreeMap.getElem?_insertIfNew, Std.ExtTreeMap.getElem?_insert]
  simp [hmem]

/-- A new assignment is issued. -/
theorem ledger_put_assignment {id : ℕ} {a : BackingAssignment} :
    (im.put .assignment id a).ledger = im.ledger.issue id a.toGrant := by
  simp only [ledger, VirtualizationState.ledger, Impl.put, VirtualizationState.put, setEntities,
    entities, Ledger.issue]
  rw [map_insert]

/-- A new virtual accelerator enrolls. -/
theorem ledger_put_virtual {id : ℕ} {v : VirtualAcceleratorRecord}
    (h : v.toPointer = ⟨none, none⟩) : (im.put .virtual id v).ledger = im.ledger.enroll id := by
  simp only [ledger, VirtualizationState.ledger, Impl.put, VirtualizationState.put, setEntities,
    entities, Ledger.enroll]
  rw [map_insert, h]

/-- A new migration is a planned move. -/
theorem ledger_put_migration {id : ℕ} {m : MigrationRecord} :
    (im.put .migration id m).ledger = im.ledger.plan id m.toMove := by
  simp only [ledger, VirtualizationState.ledger, Impl.put, VirtualizationState.put, setEntities,
    entities, Ledger.plan]
  rw [map_insert]

@[simp]
theorem ledger_put_tenant {id : ℕ} {t : TenantRecord} :
    (im.put .tenant id t).ledger = im.ledger := rfl

@[simp]
theorem ledger_put_lease {id : ℕ} {l : LeaseRecord} : (im.put .lease id l).ledger = im.ledger := rfl

@[simp]
theorem ledger_put_evidence {id : ℕ} {e : EvidenceRecord} :
    (im.put .evidence id e).ledger = im.ledger := rfl

@[simp]
theorem ledger_emplace_tenant {id : ℕ} {t : TenantRecord} :
    (im.emplace .tenant id t).ledger = im.ledger := rfl

@[simp]
theorem ledger_emplace_physical {id : ℕ} {p : PhysicalDeviceRecord} :
    (im.emplace .physical id p).ledger = im.ledger := rfl

/-- A new backing. -/
theorem ledger_emplace_backing {id : ℕ} {b : BackingRecord} (hid : im.state.backings[id]? = none)
    (h : b.toSlot = ⟨b.exclusive, none, none⟩) :
    (im.emplace .backing id b).ledger = im.ledger.found id b.exclusive := by
  simp only [ledger, VirtualizationState.ledger, Impl.emplace, setEntities, entities, Ledger.found]
  rw [insertIfNew_of_none hid, map_insert, h]

/-! ### Helpers that leave the view alone -/

variable (im)

/-- A loop of steps that leave the view alone. -/
theorem ledger_foldl {α : Type} {step : Impl σ → α → Impl σ}
    (h : ∀ im a, (step im a).ledger = im.ledger) (l : List α) :
    (l.foldl step im).ledger = im.ledger :=
  foldl_unchanged h l im

/-- Fencing a lease leaves the ledger as it is. -/
@[simp]
theorem ledger_fenceLease (reason : Text) (now : UnixMicros) (id : LeaseId) :
    (im.fenceLease reason now id).ledger = im.ledger := by
  unfold fenceLease
  split
  · rfl
  · split <;> rfl

/-- Fencing the leases of a virtual accelerator leaves the ledger as it is. -/
@[simp]
theorem ledger_fenceLeases (id : VirtualAcceleratorId) (reason : Text) (now : UnixMicros) :
    (im.fenceLeases id reason now).ledger = im.ledger := by
  unfold fenceLeases
  split
  · rfl
  · rename_i record hr
    have hl := im.ledger_foldl (fun im lease => im.ledger_fenceLease reason now lease)
      record.leases
    simp only
    split
    · exact hl
    · rw [ledger_touchHeader, ledger_account]
      have hv : ∀ im' : Impl σ, ((im'.touchVirtual record.id).modify .virtual id fun record =>
          { record with activeAttachments := 0 }).ledger = im'.ledger :=
        fun im' => ledger_modify_virtual fun _ => rfl
      split
      · exact (hv _).trans hl
      · exact (hv _).trans hl

/-- Carrying a lease over to a new generation leaves the ledger as it is. -/
@[simp]
theorem ledger_carryLease (generation : Generation) (id : LeaseId) :
    (im.carryLease generation id).ledger = im.ledger := by
  unfold carryLease
  split
  · rfl
  · split <;> rfl

/-- A transition of the life cycle leaves the ledger as it is. -/
@[simp]
theorem ledger_transition (clock : Clock) (id : VirtualAcceleratorId)
    (target : VirtualLifecycleState) (reason : Text) :
    (im.transition clock id target reason).1.ledger = im.ledger := by
  unfold transition
  split
  · rfl
  · split
    · rfl
    · simp only
      split
      · rw [ledger_foldl _ fun im lease => im.ledger_carryLease _ lease]
        exact ledger_modify_virtual fun _ => rfl
      · exact ledger_modify_virtual fun _ => rfl

/-- Rebuilding what a virtual accelerator shows leaves the ledger as it is. -/
@[simp]
theorem ledger_rebuildProjection (id : VirtualAcceleratorId) :
    (im.rebuildProjection id).ledger = im.ledger :=
  ledger_modify_virtual fun _ => rfl

@[simp]
theorem ledger_recomputeDerivedAccounting :
    im.recomputeDerivedAccounting.ledger = im.ledger := rfl

/-! ### Helpers that act on it -/

variable {L : Ledger ℕ ℕ ℕ ℕ}

/-- Taking authority from a grant that has none changes nothing. -/
theorem revoke_of_not_authoritative {g : ℕ}
    (h : ∀ r, L.grant g = some r → r.authoritative = false) : L.revoke g = L := by
  ext1 <;> try rfl
  refine Function.update_eq_self_iff.mpr ?_
  cases hr : L.grant g with
  | none => rfl
  | some r => simp [← h r hr]

/-- An unknown resource records nothing. -/
theorem mark_of_none {x : ℕ} {f : Slot ℕ ℕ → Slot ℕ ℕ} (h : L.slot x = none) :
    L.mark x f = L := by
  ext1 <;> try rfl
  refine Function.update_eq_self_iff.mpr ?_
  rw [h]
  rfl

/-- Revoking an assignment revokes its grant. -/
@[simp]
theorem ledger_revokeAssignment (id : BackingAssignmentId) (reason : Text) (now : UnixMicros) :
    (im.revokeAssignment id reason now).ledger = im.ledger.revoke id := by
  unfold revokeAssignment
  split
  · rename_i ha
    refine (revoke_of_not_authoritative fun r hr => ?_).symm
    simp [ledger, VirtualizationState.ledger, ha] at hr
  · rename_i a ha
    split
    · exact ledger_revoke fun _ => rfl
    · rename_i hn
      refine (revoke_of_not_authoritative fun r hr => ?_).symm
      simp only [ledger, VirtualizationState.ledger, ha, Option.map_some, Option.some.injEq] at hr
      subst hr
      exact Bool.eq_false_iff.mpr hn

/-- A slot without a holder. -/
def vacate (s : Slot ℕ ℕ) : Slot ℕ ℕ := { s with holder := none, active := none }

/-- Releasing a backing vacates its slot. -/
@[simp]
theorem ledger_releaseBacking (id : BackingId) :
    (im.releaseBacking id).ledger = im.ledger.mark id vacate := by
  unfold releaseBacking
  split
  · rename_i hb
    exact (mark_of_none (by simp [ledger, VirtualizationState.ledger, hb])).symm
  · exact ledger_mark fun _ => rfl

end Impl

end AcceleratorVirtualization
