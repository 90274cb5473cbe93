import AcceleratorVirtualization.Invariants.Hosting
import AcceleratorVirtualization.Invariants.Runs

/-!
# The invariant of a run

The ledger, the book and the register of a state are views of the same records, and what ties them
together is an invariant of its own: what is in use has authority over its backing; a virtual
accelerator points to no assignment that is only prepared; a migration that is ready is of a virtual
accelerator that still migrates, unless it has moved on, and every virtual accelerator that migrates
has one. It is kept by every body, by the classification of migrations, by a start and by a
shutdown.
-/

namespace AcceleratorVirtualization

open VirtualizationState Custody Leasing Handover

/-- What ties authority, use and migrations together. -/
structure VirtualizationState.Consistent (s : VirtualizationState) : Prop where
  coherent : s.ledger.Coherent
  leased : s.book.Leased leaseRules
  orderly : s.register.Orderly
  pointed : ∀ x q, s.book.seat x = some q → s.register.stage q.phase.assignment ≠ some .prepared
  current : ∀ m p, s.register.passage m = some p → p.progress = .ready →
    ∃ q, s.book.seat p.party = some q ∧ p.stamp ≤ q.phase.generation ∧
      (p.stamp = q.phase.generation → q.phase.state = .migrating)
  moving : ∀ x q, s.book.seat x = some q → q.phase.state = .migrating →
    ∃ m p, s.register.passage m = some p ∧ p.party = x ∧ p.progress = .ready
  hosted : ∀ x q, s.book.seat x = some q → leaseRules.occupied q.phase →
    s.ledger.Holds q.phase.assignment x
  retired : ∀ x q, s.book.seat x = some q → q.phase.state = .retired → q.phase.binding = (0, 0)

/-- Authority, seats, leases and migrations decide it. -/
theorem VirtualizationState.Consistent.congr {s t : VirtualizationState} (h : s.Consistent)
    (hledger : t.ledger = s.ledger) (hseat : t.book.seat = s.book.seat)
    (hlease : t.book.lease = s.book.lease) (hregister : t.register = s.register) :
    t.Consistent := by
  constructor
  · rw [hledger]
    exact h.coherent
  · exact h.leased.congr hseat hlease
  · rw [hregister]
    exact h.orderly
  · rw [hseat, hregister]
    exact h.pointed
  · rw [hseat, hregister]
    exact h.current
  · rw [hseat, hregister]
    exact h.moving
  · rw [hseat, hledger]
    exact h.hosted
  · rw [hseat]
    exact h.retired

namespace Impl

variable {σ : Type} {im im' : Impl σ}

/-- A migration that is ready for its virtual accelerator as it is. -/
def Becomes (im : Impl σ) (p : Passage ℕ ℕ) : Prop :=
  ∃ q, im.book.seat p.party = some q ∧ q.phase.state = .migrating ∧ p.stamp = q.phase.generation

/-- A migration whose virtual accelerator does not migrate. -/
def Ceases (im : Impl σ) (p : Passage ℕ ℕ) : Prop :=
  ∀ q, im.book.seat p.party = some q → q.phase.state ≠ .migrating

/-- What an operation does to the migrations. -/
abbrev Migrates (im im' : Impl σ) : Prop := Passes im'.Becomes im'.Ceases im im'

/-- A virtual accelerator that begins to migrate has a migration that is ready. -/
def Readies (im im' : Impl σ) : Prop :=
  ∀ x q', im'.book.seat x = some q' → q'.phase.state = .migrating →
    (∃ q, im.book.seat x = some q ∧ q.phase.state = .migrating) ∨
      ∃ m p, im'.register.passage m = some p ∧ p.party = x ∧ p.progress = .ready

/-- A virtual accelerator that comes into use has authority. -/
def Hosts (im im' : Impl σ) : Prop :=
  ∀ x q', im'.book.seat x = some q' → leaseRules.occupied q'.phase →
    (∃ q, im.book.seat x = some q ∧ leaseRules.occupied q.phase ∧
      q'.phase.assignment = q.phase.assignment) ∨ im'.ledger.Holds q'.phase.assignment x

theorem Readies.of_seat (h : im'.book.seat = im.book.seat) : Readies im im' :=
  fun _ q' hq' hs => .inl ⟨q', h ▸ hq', hs⟩

theorem Hosts.of_seat (h : im'.book.seat = im.book.seat) : Hosts im im' :=
  fun _ q' hq' ho => .inl ⟨q', h ▸ hq', ho, rfl⟩

/-! ### One step -/

/-- An assignment with authority is active. -/
theorem stage_of_holds {g : BackingAssignmentId} {x : VirtualAcceleratorId}
    (h : im.ledger.Holds g x) : im.register.stage g = some .active := by
  obtain ⟨r, hr, ha, -⟩ := h
  simp only [ledger, VirtualizationState.ledger, Option.map_eq_some_iff] at hr
  obtain ⟨a, hr, rfl⟩ := hr
  exact (stage_of_assignment hr).trans (congrArg some (if_pos ha))

/-- No assignment has the identity zero. -/
theorem stage_zero (h : im.state.WellKeyed) : im.register.stage 0 = none :=
  Option.map_eq_none_iff.mpr (h.zero .assignment)

/-- A virtual accelerator points to an assignment that is there. -/
theorem stage_of_seat (hc : im.ledger.Coherent) {x : VirtualAcceleratorId} {q : Seat ℕ ℕ Phase}
    (hq : im.book.seat x = some q) (h0 : q.phase.assignment ≠ 0) :
    im.register.stage q.phase.assignment ≠ none := by
  obtain ⟨r, hr, -⟩ := hc.owned x _ _ (party_of_seat hq) (ref_of_ne h0)
  simp only [ledger, VirtualizationState.ledger, Option.map_eq_some_iff] at hr
  obtain ⟨a, hr, -⟩ := hr
  rw [stage_of_assignment hr]
  rintro ⟨⟩

section Step

variable {D : VirtualLifecycleState → VirtualLifecycleState → Prop} {grants sealed : Prop}
variable {tight fair : Prop}

/-- Nothing begins to migrate along a course that does not lead there. -/
theorem Readies.of_turns (hD : ∀ s, D s s) (hD' : ∀ s s' s'', D s s' → D s' s'' → D s s'')
    (hd : ∀ s, D s .migrating → s = .migrating)
    (ht : Turns (Evolves D grants sealed) Fresh tight fair im im') : Readies im im' := by
  intro x q' hq' hstate
  obtain ⟨q, hq, hev⟩ := Book.Steps.seat_inv (.refl hD) (fun _ _ _ => .trans hD') ht hq'
  have hmoving := hd _ (hstate ▸ hev.state)
  obtain hq | ⟨-, -, hnew⟩ := hq
  · exact .inl ⟨q, hq, hmoving⟩
  · exact absurd (hmoving.symm.trans hnew.1) nofun

/-- Nothing comes into use that is not granted. -/
theorem Hosts.of_turns (hD : ∀ s, D s s) (hD' : ∀ s s' s'', D s s' → D s' s'' → D s s'')
    (hg : ¬ grants) (ht : Turns (Evolves D grants sealed) Fresh tight fair im im') :
    Hosts im im' := by
  intro x q' hq' hocc
  obtain ⟨q, hq, hev⟩ := Book.Steps.seat_inv (.refl hD) (fun _ _ _ => .trans hD') ht hq'
  obtain ⟨hocc', hsame⟩ := hev.bound hg hocc
  obtain hq | ⟨-, hblank, -⟩ := hq
  · exact .inl ⟨q, hq, hocc', congrArg Prod.fst hsame⟩
  · exact absurd hocc' hblank.2.2

/-- A step of all three views keeps what ties them together. -/
theorem consistent_of_step (hw : im'.state.WellKeyed) (h : im.state.Consistent)
    (hc : im'.ledger.Coherent) (hD : ∀ s, D s s)
    (hD' : ∀ s s' s'', D s s' → D s' s'' → D s s'')
    (ht : Turns (Evolves D grants sealed) Fresh tight fair im im')
    (hm : Migrates im im') (hy : Yields im im') (hready : Readies im im') (hhost : Hosts im im') :
    im'.state.Consistent := by
  have hseat : ∀ x q, im.book.seat x = some q →
      ∃ q', im'.book.seat x = some q' ∧ Evolves D grants sealed q q' :=
    fun x q => Book.Steps.seat (.refl hD) (fun _ _ _ => .trans hD') ht
  refine ⟨hc, ht.leased h.leased, hm.orderly h.orderly, ?_, ?_, ?_, ?_, ?_⟩
  · intro x q' hq' hprepared
    obtain h0 | ⟨q, hq, hsame⟩ | hholds := hy.points x q' hq'
    · rw [h0, show im'.state.register.stage 0 = none from stage_zero hw] at hprepared
      exact absurd hprepared nofun
    · rw [hsame] at hprepared
      obtain hold | hnone := hm.prepared_inv h.orderly hprepared
      · exact h.pointed x q hq hold
      · by_cases h0 : q.phase.assignment = 0
        · rw [h0, show im'.state.register.stage 0 = none from stage_zero hw] at hprepared
          exact absurd hprepared nofun
        · exact stage_of_seat h.coherent hq h0 hnone
    · rw [show im'.state.register.stage _ = _ from stage_of_holds hholds] at hprepared
      exact absurd hprepared nofun
  · intro m p hp hprogress
    obtain hold | ⟨q', hq', hstate, hstamp⟩ := hm.ready_inv hp hprogress
    · obtain ⟨q, hq, hle, hmoving⟩ := h.current m p hold hprogress
      obtain ⟨q', hq', hev⟩ := hseat _ q hq
      refine ⟨q', hq', hle.trans hev.generation, fun heq => ?_⟩
      -- a generation that has not advanced leaves the state as it was
      have hgen : p.stamp = q.phase.generation := hle.antisymm (heq ▸ hev.generation)
      by_contra hne
      have hlt := hev.advances fun hs => hne (hs.trans (hmoving hgen))
      exact absurd (hgen.symm.trans heq) hlt.ne
    · exact ⟨q', hq', hstamp.le, fun _ => hstate⟩
  · intro x q' hq' hstate
    obtain ⟨q, hq, hmoving⟩ | hthere := hready x q' hq' hstate
    · obtain ⟨m, p, hp, hparty, hprogress⟩ := h.moving x q hq hmoving
      obtain hp' | hceases := hm.ready hp hprogress
      · exact ⟨m, p, hp', hparty, hprogress⟩
      · exact absurd hstate (hceases q' (hparty ▸ hq'))
    · exact hthere
  · intro x q' hq' hocc
    obtain ⟨q, hq, hq0, hsame⟩ | hholds := hhost x q' hq' hocc
    · obtain hholds | hgone := hy.holds _ x (h.hosted x q hq hq0)
      · rw [hsame]
        exact hholds
      · exact absurd hsame (hgone q' hq' hocc)
    · exact hholds
  · intro x q' hq' hretired
    obtain ⟨q, hq, hev⟩ := Book.Steps.seat_inv (.refl hD) (fun _ _ _ => .trans hD') ht hq'
    obtain h0 | ⟨hs, hsame⟩ := hev.retired hretired
    · exact h0
    · obtain hold | ⟨-, -, hnew⟩ := hq
      · exact hsame.trans (h.retired x q hold hs)
      · exact hsame.trans hnew.2

end Step

/-! ### Migrations under every body -/

section Bodies

variable {clock : Clock} {op : Op} {b : Body σ Unit}

/-- What an operation does to the migrations, those that become ready being so by `E`. -/
abbrev MigratesBy (E : Impl σ → Passage ℕ ℕ → Prop) (im im' : Impl σ) : Prop :=
  Passes (E im') im'.Ceases im im'

variable {E : Impl σ → Passage ℕ ℕ → Prop}

theorem migrates_checked {π α : Type} {context : Impl σ → OpContext} {kind : AuditKind}
    {check : Impl σ → Except Status π} {act : π → Body σ α}
    (hact : ∀ plan, check im = .ok plan → MigratesBy E im (act plan im).1) :
    MigratesBy E im (checked (fun im => orRefuse (context im) kind (check im)) act im).1 :=
  fst_checked (p := fun im' => MigratesBy E im im') .refl hact

theorem migrates_forget {α : Type} {body : Body σ α} (h : MigratesBy E im (body im).1) :
    MigratesBy E im (Body.forget body im).1 := h

/-- The virtual accelerator of a migration, as the register names it. -/
theorem party_toPassage (hw : im.state.WellKeyed) {f : InFlight} (hf : f.Current im.state) :
    f.migration.toPassage.party = f.virtualId :=
  hf.virtual.trans (hw.keyed .virtual f.virtualId f.record hf.owned.virtual)

theorem ceases_commitMigrationAct (hw : im.state.WellKeyed) {auth : Authority} {c : Cutover}
    (hc : c.toInFlight.Current im.state) :
    (commitMigrationAct auth clock c im).1.Ceases c.migration.toPassage := by
  intro q hq
  rw [party_toPassage hw hc, book_commitMigrationAct hc.owned, Book.seat_assign_self,
    Option.some.injEq] at hq
  subst hq
  exact nofun

theorem ceases_abortMigrationAct (hw : im.state.WellKeyed) {auth : Authority} {reason : Text}
    {f : InFlight} (hf : f.Current im.state) :
    (abortMigrationAct auth reason clock f im).1.Ceases f.migration.toPassage := by
  intro q hq
  rw [party_toPassage hw hf, book_abortMigrationAct hf.owned] at hq
  split at hq
  · rw [Book.seat_assign_self, Option.some.injEq] at hq
    subst hq
    exact nofun
  · rename_i hs
    rw [seat_of_virtual hf.owned.virtual, Option.some.injEq] at hq
    subst hq
    exact hs

/-- A migration becomes ready for its virtual accelerator as it is, with an assignment for the next
generation of its backing. -/
theorem migratesBy_body (hb : body clock op = some b) (hw : im.state.WellKeyed)
    (h : im.state.Consistent)
    (he : ∀ (im' : Impl σ) (p : Passage ℕ ℕ) (g : BackingAssignmentId) (a : BackingAssignment)
      (q : Seat ℕ ℕ Phase), p.target = some g → im'.state.assignments[g]? = some a →
      im'.book.seat p.party = some q → q.phase.state = .migrating →
      p.stamp = q.phase.generation → a.backingGeneration = q.phase.backingGeneration + 1 →
      E im' p) : MigratesBy E im (b im.beginOp).1 := by
  change MigratesBy E im.beginOp (b im.beginOp).1
  have ht : Tracks im.beginOp ∅ im.beginOp := .beginOp (show im.beginOp.state.WellKeyed from hw)
  have h' : im.beginOp.state.Consistent := h
  generalize im.beginOp = i at ht h' ⊢
  have hw' := ht.wellKeyed
  -- what a virtual accelerator points to was not prepared for a migration
  have hpointed : ∀ {x : VirtualAcceleratorId} {v : VirtualAcceleratorRecord},
      i.state.virtuals[x]? = some v → i.register.stage v.assignment ≠ some .prepared :=
    fun hv => h'.pointed _ _ (seat_of_virtual hv)
  cases op <;> simp only [body, Option.some.injEq, reduceCtorEq] at hb <;> subst hb
  case registerPhysical =>
    exact migrates_forget (migrates_checked fun _ _ => passes_registerPhysicalAct)
  case physicalLost => exact migrates_checked fun _ _ => passes_physicalLostAct
  case setPolicy => exact migrates_forget (migrates_checked fun _ _ => passes_setPolicyAct)
  case createTenant => exact migrates_forget (migrates_checked fun _ _ => .of_register rfl)
  case fenceTenant => exact migrates_checked fun _ _ => .of_register (register_fenceTenantAct ..)
  case transferOwnership =>
    exact migrates_forget (migrates_checked fun _ _ =>
      .of_register (register_transferOwnershipAct ..))
  case createVirtual =>
    exact migrates_forget (migrates_checked fun _ _ => .of_register (register_createVirtualAct ..))
  case updateContract =>
    exact migrates_forget (migrates_checked fun _ _ => .of_register (register_updateContractAct ..))
  case activate | resume =>
    exact migrates_forget (migrates_checked fun _ _ => .of_register
      (register_transitionAct _ _ _ _ _ register_recomputeDerivedAccounting))
  case drain | resolveRecovery =>
    exact migrates_forget (migrates_checked fun _ _ => .of_register
      (register_transitionAct _ _ _ _ _ fun _ => rfl))
  case suspend => exact migrates_forget (migrates_checked fun _ _ => passes_suspendAct ..)
  case fenceVirtual =>
    exact migrates_forget (migrates_checked fun _ _ => .of_register (register_fenceVirtualAct ..))
  case retireVirtual =>
    exact migrates_forget (migrates_checked fun _ _ => passes_retireVirtualAct ..)
  case assignBacking | replaceBacking =>
    refine migrates_forget (migrates_checked fun plan hs => ?_)
    exact passes_assignBackingAct ht (assignBackingCheck_ok hs).1
      (hpointed (assignBackingCheck_ok hs).1.virtual)
  case attach =>
    exact migrates_forget (migrates_checked fun _ _ => .of_register (register_attachAct ..))
  case renewLease => exact migrates_forget (migrates_checked fun _ _ => .of_register rfl)
  case detach | revokeLease =>
    exact migrates_checked fun _ _ => .of_register (register_releaseLeaseAct ..)
  case planMigration =>
    refine migrates_forget (migrates_checked fun plan hs => passes_planMigrationAct hw' ?_)
    obtain ⟨ho, -, ha, -⟩ := planMigrationCheck_ok hs
    obtain ⟨r, hr, -⟩ := h'.coherent.owned _ _ _ (party_of_virtual ho.virtual) (ref_of_ne ha)
    simp only [VirtualizationState.ledger, Option.map_eq_some_iff] at hr
    obtain ⟨a, ha', -⟩ := hr
    rw [stage_of_assignment ha']
    rintro ⟨⟩
  case prepareMigration =>
    refine migrates_forget (migrates_checked fun f hs => ?_)
    obtain ⟨hf, hp⟩ := prepareMigrationCheck_ok hs
    refine passes_prepareMigrationAct ht h'.leased hf hp fun q g a hq hstate ha hgeneration => ?_
    refine he _ _ g a q rfl ha ?_ hstate rfl hgeneration
    rw [party_toPassage hw' hf]
    exact hq
  case commitMigration =>
    refine migrates_forget (migrates_checked fun c hs => ?_)
    obtain ⟨hc, hready, hsource, -⟩ := commitMigrationCheck_ok hs
    exact passes_commitMigrationAct h'.orderly hc hready hsource (ceases_commitMigrationAct hw' hc)
  case completeMigration =>
    refine migrates_forget (migrates_checked fun f hs => ?_)
    exact passes_completeMigrationAct (completeMigrationCheck_ok hs).1
      (completeMigrationCheck_ok hs).2
  case abortMigration =>
    refine migrates_forget (migrates_checked fun f hs => ?_)
    obtain ⟨hf, hopen, hterminal⟩ := abortMigrationCheck_ok hs
    exact passes_abortMigrationAct hw' h'.orderly hf hopen hterminal _
      (ceases_abortMigrationAct hw' hf)
  case reserveAllocation =>
    exact migrates_forget (migrates_checked fun _ _ => .of_register rfl)
  case releaseAllocation => exact migrates_checked fun _ _ => .of_register rfl
  case accountKernel => exact migrates_checked fun _ _ => .of_register rfl

theorem migrates_body (hb : body clock op = some b) (hw : im.state.WellKeyed)
    (h : im.state.Consistent) : Migrates im (b im.beginOp).1 :=
  migratesBy_body (E := Becomes) hb hw h fun _ _ _ _ q _ _ hq hstate hstamp _ =>
    ⟨q, hq, hstate, hstamp⟩

/-! ### Every body -/

/-- A commit finds its virtual accelerator migrating: the plan carries its generation. -/
theorem moving_of_commitMigrationCheck (hw : im.state.WellKeyed) (h : im.state.Consistent)
    {auth : Authority} {c : Cutover} (hok : commitMigrationCheck auth im = .ok c) :
    c.record.state = .migrating := by
  obtain ⟨hc, hready, -, -⟩ := commitMigrationCheck_ok hok
  obtain ⟨q, hq, -, hmoving⟩ := h.current _ _ (passage_of_migration hc.migration)
    (by rw [MigrationRecord.toPassage, hready]; rfl)
  rw [party_toPassage hw hc, show im.state.book.seat _ = _ from seat_of_virtual hc.owned.virtual,
    Option.some.injEq] at hq
  subst hq
  exact hmoving (planStaleness_ok hc.fresh).2.2.2

/-- What an attachment brings into use has authority. -/
theorem hosts_attachAct (hw : im.state.WellKeyed) (hc : im.ledger.Coherent) {auth : Authority}
    {owned : Owned} (hok : attachCheck auth im = .ok owned) :
    Hosts im (attachAct auth clock owned im).1 := by
  intro x q' hq' hocc
  obtain ⟨hcurrent, hattach⟩ := attachCheck_ok hok
  obtain ⟨hs, -, ⟨a, ha, hauth⟩, -⟩ := checkAttachable_ok hattach
  let R : Seat ℕ ℕ Phase → Seat ℕ ℕ Phase → Prop := fun q w =>
    w.phase.assignment = q.phase.assignment ∧ (leaseRules.occupied w.phase →
      leaseRules.occupied q.phase ∨ q.phase.assignment = owned.record.assignment)
  have ht : Turns R (fun _ => False) False False im (attachAct auth clock owned im).1 :=
    turns_attachAct hw hcurrent hs ⟨rfl, fun _ => .inr rfl⟩
  obtain ⟨q, hq | ⟨-, -, hnone⟩, hsame, hor⟩ := Book.Steps.seat_inv (fun q => ⟨rfl, .inl⟩)
    (fun q w z h h' => ⟨h'.1.trans h.1, fun ho => (h'.2 ho).elim h.2 fun he => .inr (h.1 ▸ he)⟩)
    ht hq'
  · obtain hocc | hpoints := hor hocc
    · exact .inl ⟨q, hq, hocc, hsame⟩
    · have h0 : q.phase.assignment ≠ 0 := by
        intro h0
        rw [← hpoints, h0, show im.state.assignments[0]? = none from hw.zero .assignment] at ha
        cases ha
      obtain ⟨r, hr, hparty, -⟩ := hc.owned x _ _ (party_of_seat hq) (ref_of_ne h0)
      refine .inr ?_
      rw [ledger_attachAct, hsame]
      refine ⟨r, hr, ?_, hparty⟩
      rw [hpoints, grant_of_assignment ha, Option.some.injEq] at hr
      subst hr
      exact hauth
  · exact hnone.elim

/-- What a preparation leads into a migration has one that is ready. -/
theorem readies_prepareMigrationAct (h : Tracks im ∅ im) (hl : im.book.Leased leaseRules)
    {auth : Authority} {f : InFlight} (hf : f.Current im.state) :
    Readies im (prepareMigrationAct auth clock f im).1 := by
  obtain ⟨-, hbook⟩ | ⟨g, q, -, hbook, -, -, -, hregister⟩ := register_prepareMigrationAct h hl hf
  · exact .of_seat (by rw [hbook])
  · intro x q' hq' hstate
    by_cases hx : x = f.virtualId
    · subst hx
      refine .inr ⟨f.migrationId, _, by rw [hregister]; exact Register.passage_enter_self, ?_, rfl⟩
      exact party_toPassage h.wellKeyed hf
    · refine .inl ⟨q', ?_, hstate⟩
      rw [hbook, Book.shut, Book.seat_assign_of_ne hx] at hq'
      exact (Book.seat_assign_of_ne hx).symm.trans hq'

/-- Every body keeps what ties authority, use and migrations together. -/
theorem consistent_body (hb : body clock op = some b) (hw : im.state.WellKeyed)
    (h : im.state.Consistent) : (b im.beginOp).1.state.Consistent := by
  have hw' : (b im.beginOp).1.state.WellKeyed := by
    obtain ⟨m, hm, -⟩ := tracks_body hb hw
    exact hm.wellKeyed
  have ht : Lives op False False False im (b im.beginOp).1 :=
    lives_body hb hw h.leased (fun auth c _ hc => moving_of_commitMigrationCheck hw h hc)
      False.elim False.elim False.elim
  refine consistent_of_step hw' h (coherent_body hb hw h.coherent) op.course_refl
    (fun _ _ _ => op.course_trans) ht (migrates_body hb hw h)
    (yields_body hb hw h.coherent h.leased h.orderly) ?_ ?_
  · by_cases hop : ∃ auth, op = .prepareMigration auth
    · obtain ⟨auth, rfl⟩ := hop
      simp only [body, Option.some.injEq] at hb
      subst hb
      exact fst_checked (p := Readies im) (.of_seat rfl) fun f hok =>
        readies_prepareMigrationAct (.beginOp (show im.beginOp.state.WellKeyed from hw)) h.leased
          (prepareMigrationCheck_ok hok).1
    · exact .of_turns op.course_refl (fun _ _ _ => op.course_trans)
        (fun s hcourse => (op.course_migrating hcourse).resolve_right hop) ht
  · by_cases hg : op.grants
    · obtain ⟨auth, rfl⟩ := hg
      simp only [body, Option.some.injEq] at hb
      subst hb
      exact fst_checked (p := Hosts im) (.of_seat rfl) fun owned hok =>
        hosts_attachAct (show im.beginOp.state.WellKeyed from hw) h.coherent hok
    · exact .of_turns op.course_refl (fun _ _ _ => op.course_trans) hg ht

end Bodies

/-! ### Classification, start and shutdown -/

section Classification

theorem towards_migrating {s : VirtualLifecycleState} (h : towards .provisioned s .migrating) :
    s = .migrating := by
  obtain h | ⟨h, -⟩ := h
  · exact h.symm
  · exact absurd h nofun

/-- A migration that is aborted at a restart leaves its virtual accelerator out of migration. -/
theorem state_abortRecovered {now : UnixMicros} {key : MigrationId} {m : MigrationRecord}
    {q : Seat ℕ ℕ Phase} (hq : (im.abortRecovered now key m).book.seat m.plan.virtualId = some q) :
    q.phase.state ≠ .migrating := by
  obtain ⟨v, hv, rfl⟩ := virtual_of_seat hq
  unfold abortRecovered at hv
  have hfind := (find_modify_self _ .virtual m.plan.virtualId _ m.plan.virtualId).symm.trans hv
  rw [if_pos rfl, Option.map_eq_some_iff] at hfind
  obtain ⟨w, -, rfl⟩ := hfind
  change VirtualAcceleratorRecord.state _ ≠ _
  split
  · exact nofun
  · assumption

/-- A migration that was open is classified with its virtual accelerator. -/
theorem ceases_classifyMigration (now : UnixMicros) (done : Bool) {key : MigrationId}
    {p : Passage ℕ ℕ} (hp : im.register.passage key = some p)
    (hopen : p.progress = .planned ∨ p.progress = .ready) :
    (classifyMigration now (im, done) key).1.Ceases p := by
  simp only [register, VirtualizationState.register, Option.map_eq_some_iff] at hp
  obtain ⟨m, hm, rfl⟩ := hp
  intro q hq
  simp only [classifyMigration, hm] at hq
  split at hq
  · rename_i hv
    obtain ⟨v, hv', -⟩ := virtual_of_seat hq
    exact absurd (hv'.symm.trans hv) (by simp)
  · have hstate : m.state = .planned ∨ m.state = .commitReady := by
      revert hopen
      simp only [MigrationRecord.toPassage]
      cases m.state <;> simp [MigrationState.progress]
    rw [if_neg (by obtain hs | hs := hstate <;> rw [hs] <;> rintro ⟨⟩),
      if_neg (by obtain hs | hs := hstate <;> rw [hs] <;> rintro ⟨⟩)] at hq
    exact state_abortRecovered hq

/-- What ends at a classification is along the life cycle. -/
theorem evolves_classified {q : Seat ℕ ℕ Phase} (hs : q.phase.state = .migrating) :
    Evolves (towards .provisioned) False False q (moved q .provisioned) :=
  evolves_legal rfl (by rw [hs]; rfl) (Nat.lt_succ_self _) nofun rfl nofun

theorem consistent_classifyMigration {s : Impl σ} {T : Set (RecordKind × ℕ)} {acc : Impl σ × Bool}
    (hs : Tracks s T acc.1) (h : acc.1.state.Consistent) (now : UnixMicros) (key : MigrationId) :
    (classifyMigration now acc key).1.state.Consistent := by
  have hledger := ledger_classifyMigration now acc key
  have hturns : Turns (Evolves (towards .provisioned) False False) Fresh False False acc.1
      (classifyMigration now acc key).1 :=
    turns_classifyMigration now acc key fun q => evolves_classified
  exact consistent_of_step (hs.classifyMigration now key).wellKeyed h (hledger ▸ h.coherent)
    (towards_refl _) (fun _ _ _ => towards_trans) hturns
    (passes_classifyMigration hs.wellKeyed h.orderly now acc.2 fun v =>
      ceases_classifyMigration now acc.2)
    (.of_ledger (grant_zero hs.wellKeyed) hledger)
    (.of_turns (towards_refl _) (fun _ _ _ => towards_trans) (fun s => towards_migrating) hturns)
    (.of_turns (towards_refl _) (fun _ _ _ => towards_trans) id hturns)

theorem consistent_classified (hw : im.state.WellKeyed) (h : im.state.Consistent)
    (now : UnixMicros) : (im.classified now).1.state.Consistent := by
  have ht : Tracks im ∅ im.beginOp := .beginOp hw
  exact (List.foldlRecOn _ _ (motive := fun acc : Impl σ × Bool =>
    Tracks im ∅ acc.1 ∧ acc.1.state.Consistent) ⟨ht, h⟩ fun acc hacc key _ =>
      ⟨hacc.1.classifyMigration now key, consistent_classifyMigration hacc.1 hacc.2 now key⟩).2

theorem register_foldl {α : Type} {step : Impl σ → α → Impl σ}
    (hstep : ∀ im a, (step im a).register = im.register) (l : List α) :
    (l.foldl step im).register = im.register :=
  foldl_unchanged hstep l im

/-- Ending a lease leaves the register as it is. -/
theorem register_endLease (ended : LeaseState) (reason : Text) (now : UnixMicros) (im : Impl σ)
    (id : LeaseId) : (im.endLease ended reason now id).register = im.register := by
  unfold endLease
  split
  · rfl
  · split <;> rfl

/-- Releasing the attachments of a virtual accelerator leaves the register as it is. -/
theorem register_releaseAttachments (reason : Text) (now : UnixMicros) (im : Impl σ)
    (id : VirtualAcceleratorId) :
    (im.releaseAttachments reason now id).register = im.register := by
  unfold releaseAttachments
  split
  · rfl
  · dsimp only
    split <;> split <;> rfl

/-- Releasing the attachments of a tenant leaves the register as it is. -/
theorem register_releaseTenant (updated : Option UnixMicros) (im : Impl σ) (id : TenantId) :
    (im.releaseTenant updated id).register = im.register := by
  unfold releaseTenant
  split
  · rfl
  · split <;> rfl

/-- Distrusting a backing after a restart leaves the register as it is. -/
theorem register_distrustBacking (im : Impl σ) (id : BackingId) :
    (im.distrustBacking id).register = im.register := by
  unfold distrustBacking
  split <;> rfl

/-- Distrusting a device after a restart leaves the register as it is. -/
theorem register_distrustPhysical (im : Impl σ) (id : PhysicalDeviceId) :
    (im.distrustPhysical id).register = im.register := by
  unfold distrustPhysical
  split <;> rfl

/-- Recording an outcome leaves the register as it is. -/
theorem register_record (im : Impl σ) (clock : Clock) (context : OpContext) (outcome : StatusCode)
    (reason : Text) (kind : AuditKind) :
    (im.record clock context outcome reason kind).register = im.register :=
  rfl

/-- A shutdown, before it commits, leaves the register as it is. -/
theorem register_shutdownBody (clock : Clock) :
    (im.shutdownBody clock).register = im.register := by
  rw [shutdownBody, register_record, register_touchHeader, register_recomputeDerivedAccounting,
    register_foldl (register_releaseTenant _), register_foldl (register_releaseAttachments _ _),
    register_foldl (register_endLease _ _ _)]

/-- Entering a new epoch leaves the register as it is. -/
theorem register_enterEpoch (im : Impl σ) (recovered : Bool) :
    (im.enterEpoch recovered).register = im.register := by
  simp only [enterEpoch]
  split
  · exact register_congr rfl rfl
  · split <;> exact register_congr rfl rfl

/-- A start, after it has loaded, leaves the register as it is. -/
theorem register_startBody (clock : Clock) (recovered : Bool) :
    (im.startBody clock recovered).register = im.register := by
  refine Eq.trans ?_ (im.register_enterEpoch recovered)
  simp only [startBody]
  generalize im.enterEpoch recovered = i
  split
  · rw [register_record, dropLocalAuthority, register_touchHeader,
      register_recomputeDerivedAccounting]
    generalize h1 : i.state.leases.keys.foldl _ i = i1
    generalize h2 : i1.state.virtuals.keys.foldl _ i1 = i2
    generalize h3 : i2.state.tenants.keys.foldl _ i2 = i3
    generalize h4 : i3.state.backings.keys.foldl _ i3 = i4
    change (i4.state.physical.keys.foldl distrustPhysical i4).register = i.register
    rw [register_foldl register_distrustPhysical, ← h4, register_foldl register_distrustBacking,
      ← h3, register_foldl (register_releaseTenant _), ← h2,
      register_foldl (register_releaseAttachments _ _), ← h1,
        register_foldl (register_endLease _ _ _)]
  · rfl

/-- What is no longer in use moves along the life cycle. -/
theorem evolves_released (q : Seat ℕ ℕ Phase) :
    Evolves (towards .provisioned) False False q (parked q) :=
  evolves_parked (towards_refl _) fun _ hs => .inr ⟨rfl, isLegalTransition_provisioned hs⟩

/-- The end of every use keeps the invariant. -/
theorem consistent_of_parked (hw : im.state.WellKeyed) (hw' : im'.state.WellKeyed)
    (h : im.state.Consistent) (hledger : im'.ledger = im.ledger)
    (hregister : im'.register = im.register)
    (ht : Turns (Evolves (towards .provisioned) False False) Fresh False False im im') :
    im'.state.Consistent :=
  consistent_of_step hw' h (hledger ▸ h.coherent) (towards_refl _) (fun _ _ _ => towards_trans) ht
    (.of_register hregister) (.of_ledger (grant_zero hw) hledger)
    (.of_turns (towards_refl _) (fun _ _ _ => towards_trans) (fun _ => towards_migrating) ht)
    (.of_turns (towards_refl _) (fun _ _ _ => towards_trans) id ht)

end Classification

/-! ### Runs -/

section Runs

variable {im im' : Impl Disk}

/-- A start, after it has loaded, leaves the ledger as it is. -/
theorem ledger_startBody (hw : im.state.WellKeyed) (clock : Clock) (recovered : Bool) :
    (im.startBody clock recovered).ledger = im.ledger :=
  (Sound.startBody (P := fun L => L = im.ledger) ⟨hw, rfl⟩ clock recovered).holds

/-- A shutdown, before it commits, leaves the ledger as it is. -/
theorem ledger_shutdownBody (hw : im.state.WellKeyed) (clock : Clock) :
    (im.shutdownBody clock).ledger = im.ledger :=
  (Sound.shutdownBody (P := fun L => L = im.ledger) ⟨hw, rfl⟩ clock).holds

theorem consistent_startBody (hw : im.state.WellKeyed) (h : im.state.Consistent) (clock : Clock)
    (recovered : Bool) : (im.startBody clock recovered).state.Consistent := by
  refine consistent_of_parked hw (wellKeyed_startBody hw clock recovered) h
    (ledger_startBody hw clock recovered) (register_startBody clock recovered) ?_
  cases recovered with
  | true => exact turns_startBody_recovered clock evolves_released
  | false => exact turns_startBody_fresh clock False.elim

theorem consistent_shutdownBody (hw : im.state.WellKeyed) (h : im.state.Consistent)
    (clock : Clock) : (im.shutdownBody clock).state.Consistent :=
  consistent_of_parked hw (wellKeyed_shutdownBody hw clock) h (ledger_shutdownBody hw clock)
    (register_shutdownBody clock) (turns_shutdownBody clock evolves_released)

theorem respects_consistent {T : Prop} : Respects T Consistent := by
  intro s t h hs
  have hv : s.virtuals = t.virtuals := h.entities .virtual nofun
  have hl : s.leases = t.leases := h.entities .lease nofun
  have ha : s.assignments = t.assignments := h.entities .assignment nofun
  have hm : s.migrations = t.migrations := h.entities .migration nofun
  refine hs.congr h.ledger.symm ?_ ?_ ?_
  · simp only [VirtualizationState.book, hv]
  · simp only [VirtualizationState.book, hl]
  · simp only [VirtualizationState.register, ha, hm]

theorem consistent_empty : ({} : VirtualizationState).Consistent where
  coherent := coherent_empty
  leased := by constructor <;> simp [VirtualizationState.book]
  orderly := by constructor <;> simp [VirtualizationState.register]
  pointed := by simp [VirtualizationState.book]
  current := by simp [VirtualizationState.register]
  moving := by simp [VirtualizationState.book]
  hosted := by simp [VirtualizationState.book]
  retired := by simp [VirtualizationState.book]

theorem invariant_consistent {T : Prop} : Invariant T Consistent where
  respects := respects_consistent
  empty := consistent_empty
  classified now h := consistent_classified h.wellKeyed h.holds now
  shutdown clock h := consistent_shutdownBody h.wellKeyed h.holds clock

/-- Every event keeps what ties authority, use and migrations together. -/
theorem keeps_consistent (h : Kept False Consistent im) (event : Event) :
    Keeps False Consistent im event where
  body _ _ answer _ _ hb _ :=
    consistent_body hb (h.answering answer).state.wellKeyed (h.answering answer).state.holds
  start clock _ _ recovered hs _ := consistent_startBody hs.wellKeyed hs.holds clock recovered
  written := nofun

theorem consistent_of_run {options : RuntimeOptions} {stored : Bool} {events : List Event}
    (h : (initial options stored).run events = some im) : Kept False Consistent im :=
  (kept_initial invariant_consistent options stored).of_run invariant_consistent
    (fun _ event h => keeps_consistent h event) h

end Runs

end Impl

end AcceleratorVirtualization
