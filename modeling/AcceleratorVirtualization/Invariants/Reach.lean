import AcceleratorVirtualization.Invariants.Confinement

/-!
# The reach of every operation

What an operation has to find in a region to stay in it: the virtual accelerator, the lease or the
migration it names, the backings and assignments it takes or gives up, the device it describes with
all that hangs on it. New records are in every region that is considered here.
-/

namespace AcceleratorVirtualization

open VirtualizationState

/-- The operations after the plan of a migration. -/
def Op.phase : Op → Bool
  | .prepareMigration _ | .commitMigration _ | .completeMigration _ | .abortMigration .. => true
  | _ => false

namespace Impl

variable {σ : Type} {S : Region} {im : Impl σ}

/-- The virtual accelerator of an accepted operation is in the region. -/
def Serves (S : Region) (check : Except Status Owned) : Prop :=
  ∀ owned, check = .ok owned → owned.virtualId ∈ S .virtual

/-- What it gives up is in the region, too. -/
def GivesUp (S : Region) (owned : Owned) : Prop :=
  owned.record.assignment ∈ S .assignment ∧ owned.record.backing ∈ S .backing

/-- An operation finds in the region what it changes. -/
def Reaches (S : Region) (im : Impl σ) : Op → Prop
  | .registerPhysical _ _ _ d => (im.locateDevice d).2.1 ∈ S .physical ∧
      Equipped S (im.locateDevice d).2.1 im ∧ Staffed S im.ledger
  | .physicalLost id generation _ => ∀ device, physicalLostCheck id generation im = .ok device →
      id ∈ S .physical ∧ (∀ b ∈ device.backings, b ∈ S .backing) ∧ (∀ t, t ∈ S .tenant) ∧
        Tied S im.ledger
  | .setPolicy .. => ∀ k, k ≠ .physical → k ≠ .migration → k ≠ .evidence → ∀ id, id ∈ S k
  | .fenceTenant auth id generation _ => ∀ tenant,
      fenceTenantCheck auth id generation im = .ok tenant →
      id ∈ S .tenant ∧ ∀ x ∈ tenant.owned, x ∈ S .virtual
  | .transferOwnership auth newOwner newGeneration => ∀ t,
      transferOwnershipCheck auth newOwner newGeneration im = .ok t →
      t.virtualId ∈ S .virtual ∧ t.tenantId ∈ S .tenant ∧ newOwner ∈ S .tenant
  | .createVirtual _ _ owner _ _ => owner ∈ S .tenant
  | .updateContract auth contract => Serves S (updateContractCheck auth contract im)
  | .activate auth => Serves S (activateCheck auth im)
  | .drain auth _ => Serves S (drainCheck auth im)
  | .resolveRecovery auth _ => Serves S (resolveRecoveryCheck auth im)
  | .resume auth _ => Serves S (resumeCheck auth im)
  | .fenceVirtual auth _ =>
      Serves S (notRetiredCheck auth "retired virtual accelerators cannot be fenced again" im)
  | .suspend auth _ => ∀ owned, suspendCheck auth im = .ok owned →
      owned.virtualId ∈ S .virtual ∧ GivesUp S owned
  | .retireVirtual auth _ => ∀ owned,
      notRetiredCheck auth "virtual accelerator is already retired" im = .ok owned →
      owned.virtualId ∈ S .virtual ∧ GivesUp S owned
  | .assignBacking auth backing _ => ∀ plan, assignBackingCheck auth backing false im = .ok plan →
      plan.1.virtualId ∈ S .virtual ∧ backing ∈ S .backing
  | .replaceBacking auth backing _ => ∀ plan, assignBackingCheck auth backing true im = .ok plan →
      plan.1.virtualId ∈ S .virtual ∧ backing ∈ S .backing ∧ GivesUp S plan.1
  | .attach auth => ∀ owned, attachCheck auth im = .ok owned →
      owned.virtualId ∈ S .virtual ∧ owned.tenantId ∈ S .tenant
  | .renewLease auth => ∀ target, renewLeaseCheck auth im = .ok target → target.1 ∈ S .lease
  | .detach auth | .revokeLease auth _ => ∀ held, resolveLeaseFor auth im = .ok held →
      held.virtualId ∈ S .virtual ∧ held.leaseId ∈ S .lease ∧ held.lease.tenant ∈ S .tenant
  | .planMigration auth destination klass => ∀ plan,
      planMigrationCheck auth destination klass im = .ok plan →
      plan.1.virtualId ∈ S .virtual ∧ im.nextId ∈ S .migration
  | .prepareMigration auth => ∀ f, prepareMigrationCheck auth im = .ok f →
      f.virtualId ∈ S .virtual ∧ f.migrationId ∈ S .migration
  | .commitMigration auth => ∀ c, commitMigrationCheck auth im = .ok c →
      c.virtualId ∈ S .virtual ∧ c.migrationId ∈ S .migration ∧
        c.migration.sourceAssignment ∈ S .assignment ∧
        c.migration.destinationAssignment ∈ S .assignment ∧
        c.migration.plan.sourceBacking ∈ S .backing ∧
        c.migration.plan.destinationBacking ∈ S .backing
  | .completeMigration auth => ∀ f, completeMigrationCheck auth im = .ok f →
      f.virtualId ∈ S .virtual ∧ f.migrationId ∈ S .migration
  | .abortMigration auth _ => ∀ f, abortMigrationCheck auth im = .ok f →
      f.virtualId ∈ S .virtual ∧ f.migrationId ∈ S .migration ∧
        f.migration.destinationAssignment ∈ S .assignment
  | .reserveAllocation auth bytes => ∀ plan, reserveAllocationCheck auth bytes im = .ok plan →
      plan.1.virtualId ∈ S .virtual
  | .releaseAllocation auth bytes => ∀ target,
      releaseAllocationCheck auth bytes im = .ok target → target.1 ∈ S .virtual
  | .accountKernel auth _ => ∀ plan, accountKernelCheck auth im = .ok plan →
      plan.1.virtualId ∈ S .virtual
  | _ => True

theorem confined_checked {π α : Type} {context : Impl σ → OpContext} {kind : AuditKind}
    {check : Impl σ → Except Status π} {act : π → Body σ α} (h : im.state.Closed S)
    (hact : ∀ plan, check im = .ok plan → Confined S im (act plan im).1) :
    Confined S im (checked (fun im => orRefuse (context im) kind (check im)) act im).1 :=
  fst_checked (p := fun im' => Confined S im im') (.refl h) hact

theorem confined_forget {α : Type} {body : Body σ α} (h : Confined S im (body im).1) :
    Confined S im (body.forget im).1 := h

/-- An operation that finds in the region what it changes stays in it. -/
theorem confined_body {clock : Clock} {op : Op} {b : Body σ Unit} (hb : body clock op = some b)
    {s : Impl σ} {T : Set (RecordKind × ℕ)} (hs : Tracks s T im) (h : im.state.Closed S)
    (hf : S.Roomy im.state.nextSequence) (hr : im.Reaches S op) :
    Confined S im (b im).1 := by
  -- `Reaches` lists the records that the operation may name
  cases op <;> simp only [body, Option.some.injEq, reduceCtorEq] at hb <;> subst hb
  case registerPhysical =>
    exact confined_forget (confined_checked h fun _ _ =>
      confined_registerPhysicalAct h hs hr.1 hr.2.1 hr.2.2 hf _ _)
  case physicalLost =>
    refine confined_checked h fun device hok => ?_
    obtain ⟨hid, hbackings, htenants, ht⟩ := hr device hok
    exact confined_physicalLostAct h hs hid hbackings htenants ht _ _
  case setPolicy =>
    exact confined_forget (confined_checked h fun _ _ => confined_setPolicyAct h hr _)
  case createTenant =>
    exact confined_forget (confined_checked h fun _ _ => confined_createTenantAct h hf _ _)
  case fenceTenant =>
    refine confined_checked h fun tenant hok => ?_
    exact confined_fenceTenantAct h (hr tenant hok).1 (hr tenant hok).2 _
  case transferOwnership =>
    refine confined_forget (confined_checked h fun t hok => ?_)
    obtain ⟨hx, ht, hnew⟩ := hr t hok
    have hdest : t.destination.id = _ :=
      hs.idOf_eq (k := .tenant) (transferOwnershipCheck_ok hok).2.1
    exact confined_transferOwnershipAct h hx ht hnew (hdest ▸ hnew)
  case createVirtual =>
    exact confined_forget (confined_checked h fun _ _ => confined_createVirtualAct h hf hr _ _ _ _)
  case updateContract =>
    exact confined_forget (confined_checked h fun owned hok =>
      confined_updateContractAct h (hr owned hok) _)
  case activate =>
    exact confined_forget (confined_checked h fun owned hok =>
      confined_transitionAct h (hr owned hok) _ _ _ fun _ hi => hi.recomputeDerivedAccounting)
  case drain =>
    exact confined_forget (confined_checked h fun owned hok =>
      confined_transitionAct h (hr owned hok) _ _ _ fun _ hi => hi)
  case resolveRecovery =>
    exact confined_forget (confined_checked h fun owned hok =>
      confined_transitionAct h (hr owned hok) _ _ _ fun _ hi => hi)
  case suspend =>
    refine confined_forget (confined_checked h fun owned hok => ?_)
    obtain ⟨hx, hgives⟩ := hr owned hok
    exact confined_suspendAct h hx hgives.1 hgives.2 _
  case resume =>
    exact confined_forget (confined_checked h fun owned hok =>
      confined_transitionAct h (hr owned hok) _ _ _ fun _ hi => hi.recomputeDerivedAccounting)
  case fenceVirtual =>
    exact confined_forget (confined_checked h fun owned hok =>
      confined_fenceVirtualAct h (hr owned hok) _)
  case retireVirtual =>
    refine confined_forget (confined_checked h fun owned hok => ?_)
    obtain ⟨hx, hgives⟩ := hr owned hok
    exact confined_retireVirtualAct h hx hgives.1 hgives.2 (notRetiredCheck_ok hok).1 _
  case assignBacking =>
    refine confined_forget (confined_checked h fun plan hok => ?_)
    obtain ⟨owned, backing⟩ := plan
    obtain ⟨hx, hnew⟩ := hr _ hok
    exact confined_assignBackingAct h hx hf hnew (by rintro ⟨⟩)
  case replaceBacking =>
    refine confined_forget (confined_checked h fun plan hok => ?_)
    obtain ⟨owned, backing⟩ := plan
    obtain ⟨hx, hnew, hgives⟩ := hr _ hok
    exact confined_assignBackingAct h hx hf hnew fun _ => hgives
  case attach =>
    exact confined_forget (confined_checked h fun owned hok =>
      confined_attachAct h (hr owned hok).1 (hr owned hok).2 hf)
  case renewLease =>
    exact confined_forget (confined_checked h fun target hok =>
      confined_renewLeaseAct h (hr target hok))
  case detach =>
    refine confined_checked h fun held hok => ?_
    obtain ⟨hx, hl, ht⟩ := hr held hok
    exact confined_releaseLeaseAct h hx hl ht _ _ _ _
  case revokeLease =>
    refine confined_checked h fun held hok => ?_
    obtain ⟨hx, hl, ht⟩ := hr held hok
    exact confined_releaseLeaseAct h hx hl ht _ _ _ _
  case planMigration =>
    refine confined_forget (confined_checked h fun plan hok => ?_)
    obtain ⟨owned, backing⟩ := plan
    exact confined_planMigrationAct h (hr _ hok).1 (hr _ hok).2
  case prepareMigration =>
    exact confined_forget (confined_checked h fun f hok =>
      confined_prepareMigrationAct h (hr f hok).1 (hr f hok).2 hf)
  case commitMigration =>
    refine confined_forget (confined_checked h fun c hok => ?_)
    obtain ⟨hx, hm, hsource, hdest, hsb, hdb⟩ := hr c hok
    exact confined_commitMigrationAct h hx hm hsource hdest hsb hdb
  case completeMigration =>
    exact confined_forget (confined_checked h fun f hok =>
      confined_completeMigrationAct h (hr f hok).1 (hr f hok).2)
  case abortMigration =>
    refine confined_forget (confined_checked h fun f hok => ?_)
    obtain ⟨hx, hm, hd⟩ := hr f hok
    exact confined_abortMigrationAct h hx hm hd _
  case reserveAllocation =>
    refine confined_forget (confined_checked h fun plan hok => ?_)
    refine confined_use h (hr plan hok) ?_ _
    exact fun v hv => ⟨hv.leases, hv.owner⟩
  case releaseAllocation =>
    refine confined_checked h fun target hok => ?_
    refine Confined.touchHeader (Confined.account (Confined.modify_virtual
      ((Confined.refl h).touch _ _) (hr target hok) ?_) _)
    exact fun v _ hv => ⟨hv.leases, hv.owner⟩
  case accountKernel =>
    refine confined_checked h fun plan hok => ?_
    refine confined_use h (hr plan hok) ?_ _
    exact fun v hv => ⟨hv.leases, hv.owner⟩

/-! ### Start and shutdown -/

section Process

variable {i : Impl σ} (h : Confined S im i)
  (hall : ∀ k, k ≠ .assignment → k ≠ .migration → k ≠ .evidence → ∀ id, id ∈ S k)

include h hall

theorem Confined.endLease (ended : LeaseState) (reason : Text) (now : UnixMicros) (l : LeaseId) :
    Confined S im (i.endLease ended reason now l) := by
  unfold Impl.endLease
  split
  · exact h
  · split
    · exact (((h.touch _ _).modify (k := .lease) nofun (hall .lease nofun nofun nofun l)
        _).account _).touchHeader
    · exact h

theorem Confined.releaseAttachments (reason : Text) (now : UnixMicros) (x : VirtualAcceleratorId) :
    Confined S im (i.releaseAttachments reason now x) := by
  have hx : x ∈ S .virtual := hall .virtual nofun nofun nofun x
  unfold Impl.releaseAttachments
  split
  · exact h
  · rename_i record _
    have hreleased : Confined S im (if record.activeAttachments ≠ 0 then
        (i.touchVirtual record.id).modify .virtual x fun v => { v with activeAttachments := 0 }
      else i) := by
      split
      · exact (h.touch _ _).modify_virtual hx fun v _ hv => ⟨hv.leases, hv.owner⟩
      · exact h
    dsimp only
    generalize (if record.activeAttachments ≠ 0 then _ else i) = j at hreleased
    split
    · exact (hreleased.touch _ _).modify_virtual hx fun v _ hv => ⟨hv.leases, hv.owner⟩
    · exact hreleased

theorem Confined.releaseTenant (updated : Option UnixMicros) (t : TenantId) :
    Confined S im (i.releaseTenant updated t) := by
  unfold Impl.releaseTenant
  split
  · exact h
  · split
    · exact (h.touch _ _).modify (k := .tenant) nofun (hall .tenant nofun nofun nofun t) _
    · exact h

theorem Confined.distrustBacking (b : BackingId) : Confined S im (i.distrustBacking b) := by
  unfold Impl.distrustBacking
  split
  · exact h
  · exact (h.touch _ _).modify (k := .backing) nofun (hall .backing nofun nofun nofun b) _

theorem Confined.distrustPhysical (p : PhysicalDeviceId) :
    Confined S im (i.distrustPhysical p) := by
  unfold Impl.distrustPhysical
  split
  · exact h
  · exact (h.touch _ _).modify (k := .physical) nofun (hall .physical nofun nofun nofun p) _

theorem Confined.dropLocalAuthority (now : UnixMicros) :
    Confined S im (i.dropLocalAuthority now) := by
  simp only [Impl.dropLocalAuthority]
  generalize hj : List.foldl Impl.distrustPhysical _ _ = j
  have hdropped : Confined S im j := by
    rw [← hj]
    refine Confined.foldl
      (Confined.foldl (Confined.foldl (Confined.foldl (h.foldl ?_) ?_) ?_) ?_) ?_
    · exact fun l _ j hj => hj.endLease hall _ _ _ l
    · exact fun x _ j hj => hj.releaseAttachments hall _ _ x
    · exact fun t _ j hj => hj.releaseTenant hall _ t
    · exact fun b _ j hj => hj.distrustBacking hall b
    · exact fun p _ j hj => hj.distrustPhysical hall p
  refine Confined.touchHeader (Confined.recomputeDerivedAccounting ?_)
  refine hdropped.of_entities ?_ ?_ ?_
  · exact funext fun k => by cases k <;> rfl
  · exact Nat.le_refl _
  · rfl

omit hall in
theorem Confined.record (clock : Clock) (context : OpContext) (outcome : StatusCode)
    (reason : Text) (kind : AuditKind) :
    Confined S im (i.record clock context outcome reason kind) :=
  h.of_entities (funext fun k => by cases k <;> rfl)
    (Nat.le_add_right i.state.nextSequence 2) rfl

end Process

/-- A start, after it has loaded, changes only records of its region. -/
theorem confined_startBody (hc : im.state.Closed S)
    (hall : ∀ k, k ≠ .assignment → k ≠ .migration → k ≠ .evidence → ∀ id, id ∈ S k) (clock : Clock)
    (recovered : Bool) : Confined S im (im.startBody clock recovered) := by
  have hentered : Confined S im (im.enterEpoch recovered) := by
    simp only [enterEpoch]
    refine Confined.touchHeader (Confined.account ?_ _)
    split
    · exact (Confined.refl hc).of_entities (funext fun k => by cases k <;> rfl)
        (Nat.le_succ _) rfl
    · split
      · exact (Confined.refl hc).of_entities (funext fun k => by cases k <;> rfl)
          (Nat.le_succ _) rfl
      · exact (Confined.refl hc).of_entities (funext fun k => by cases k <;> rfl)
          (Nat.le_refl _) rfl
  simp only [startBody]
  split
  · exact (hentered.dropLocalAuthority hall clock.now).record clock _ _ _ _
  · exact hentered.record clock _ _ _ _

/-- A shutdown, before it commits, changes only records of its region. -/
theorem confined_shutdownBody (hc : im.state.Closed S)
    (hall : ∀ k, k ≠ .assignment → k ≠ .migration → k ≠ .evidence → ∀ id, id ∈ S k)
    (clock : Clock) : Confined S im (im.shutdownBody clock) := by
  simp only [shutdownBody]
  refine Confined.record (Confined.touchHeader (Confined.recomputeDerivedAccounting
    (Confined.foldl (Confined.foldl ((Confined.refl hc).foldl ?_) ?_) ?_))) clock _ _ _ _
  · exact fun l _ j hj => hj.endLease hall _ _ _ l
  · exact fun x _ j hj => hj.releaseAttachments hall _ _ x
  · exact fun t _ j hj => hj.releaseTenant hall _ t

end Impl

end AcceleratorVirtualization
