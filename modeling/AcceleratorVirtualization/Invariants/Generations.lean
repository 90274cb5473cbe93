import AcceleratorVirtualization.Invariants.Course
import AcceleratorVirtualization.Invariants.Fixtures
import AcceleratorVirtualization.Invariants.Histories

/-!
# Generations

Along a run no generation of a virtual accelerator goes back, and the generation of its state stays
behind its own. A migration binds its virtual accelerator to a later generation of its backing,
because the assignment it prepared was made for the next one and the plan is refused once the
virtual accelerator has moved on. A change of what is observed comes with a new generation, if the
operations mark their changes.
-/

namespace AcceleratorVirtualization

open VirtualizationState Handover Leasing Revision

/-! ### Pace -/

/-- The generation of a state stays behind, and a migration that is ready is for a later generation
of the backing, unless its virtual accelerator has moved on. -/
structure VirtualizationState.Paced (s : VirtualizationState) : Prop where
  consistent : s.Consistent
  pledged : ∀ m p, s.register.passage m = some p → p.progress = .ready →
    ∃ (g : BackingAssignmentId) (a : BackingAssignment) (q : Seat ℕ ℕ Phase),
      p.target = some g ∧ s.assignments[g]? = some a ∧ s.book.seat p.party = some q ∧
        (p.stamp = q.phase.generation → q.phase.backingGeneration ≤ a.backingGeneration)
  behind : ∀ (x : VirtualAcceleratorId) (v : VirtualAcceleratorRecord),
    s.virtuals[x]? = some v → v.stateGeneration ≤ v.generation

/-- A migration that is ready is for a generation of the backing that is in relation to the present
one, unless its virtual accelerator has moved on. -/
def VirtualizationState.Pledged (r : Generation → Generation → Prop) (s : VirtualizationState) :
    Prop :=
  ∀ m p, s.register.passage m = some p → p.progress = .ready →
    ∃ (g : BackingAssignmentId) (a : BackingAssignment) (q : Seat ℕ ℕ Phase),
      p.target = some g ∧ s.assignments[g]? = some a ∧ s.book.seat p.party = some q ∧
        (p.stamp = q.phase.generation → r q.phase.backingGeneration a.backingGeneration)

namespace Impl

variable {σ : Type} {im im' : Impl σ} {t : Terms} {r : Generation → Generation → Prop}

/-- A migration that is ready for a later generation of the backing. -/
def Pledges (im : Impl σ) (p : Passage ℕ ℕ) : Prop :=
  ∃ (g : BackingAssignmentId) (a : BackingAssignment) (q : Seat ℕ ℕ Phase),
    p.target = some g ∧ im.state.assignments[g]? = some a ∧ im.book.seat p.party = some q ∧
      q.phase.backingGeneration ≤ a.backingGeneration

/-- A migration that is ready for a generation of the backing in relation to the present one. -/
def PledgesBy (r : Generation → Generation → Prop) (im : Impl σ) (p : Passage ℕ ℕ) : Prop :=
  ∃ (g : BackingAssignmentId) (a : BackingAssignment) (q : Seat ℕ ℕ Phase),
    p.target = some g ∧ im.state.assignments[g]? = some a ∧ im.book.seat p.party = some q ∧
      r q.phase.backingGeneration a.backingGeneration

/-- A step that keeps the assignments and revises the virtual accelerators keeps the pledges. -/
theorem pledged_of_step {L : Passage ℕ ℕ → Prop} (h : im.state.Pledged r)
    (hc : im.state.Consistent) (hm : Passes (im'.PledgesBy r) L im im') (hv : Course t im im')
    (hgrade : ∀ g a, im.fixtures.grade g = some a → im'.fixtures.grade g = some a) :
    im'.state.Pledged r := by
  intro m p hp hready
  obtain hold | ⟨g, a, q, htarget, ha, hq, hle⟩ := Register.Steps.ready_inv hm hp hready
  · obtain ⟨g, a, q, htarget, ha, hq, hle⟩ := h m p hold hready
    obtain ⟨q0, hq0, hstamp, -⟩ := hc.current m p hold hready
    obtain rfl := Option.some.inj (hq.symm.trans hq0)
    obtain ⟨v, hv0, rfl⟩ := virtual_of_seat (show im.book.seat p.party = some q from hq)
    obtain ⟨v', hv', hrevised⟩ := hv.kept _ v hv0
    have hg : im'.fixtures.grade g = some a.grade := by
      refine hgrade g a.grade ?_
      simp [fixtures, VirtualizationState.fixtures, ha]
    obtain ⟨a', ha', hsame⟩ := Option.map_eq_some_iff.mp hg
    refine ⟨g, a', v'.toSeat, htarget, ha', seat_of_virtual hv', fun heq => ?_⟩
    -- the generation has not advanced, so the binding is the old one
    have hgen : v'.generation = v.generation := by
      refine le_antisymm ?_ hrevised.generation
      exact heq.symm.le.trans hstamp
    have hbacking := hrevised.rebound.resolve_right (by rw [hgen]; exact lt_irrefl _)
    have hgrades : a'.backingGeneration = a.backingGeneration :=
      show a'.grade.backingGeneration = a.grade.backingGeneration from
        congrArg BackingAssignment.backingGeneration hsame
    change r v'.backingGeneration a'.backingGeneration
    rw [hbacking, hgrades]
    exact hle (heq.trans hgen)
  · exact ⟨g, a, q, htarget, ha, hq, fun _ => hle⟩

theorem behind_of_course (h : ∀ (x : VirtualAcceleratorId) (v : VirtualAcceleratorRecord),
    im.state.virtuals[x]? = some v → v.stateGeneration ≤ v.generation) (hv : Course t im im')
    (x : VirtualAcceleratorId) (v' : VirtualAcceleratorRecord)
    (hv' : im'.state.virtuals[x]? = some v') : v'.stateGeneration ≤ v'.generation := by
  cases hx : im.state.virtuals[x]? with
  | none => exact hv.made x v' hv' hx
  | some v =>
    obtain ⟨w, hw, hrevised⟩ := hv.kept x v hx
    obtain rfl := Option.some.inj (hv'.symm.trans hw)
    exact hrevised.behind.le (h x v hx)

/-- What a step that keeps the assignments and revises the virtual accelerators leaves. -/
theorem paced_of_step {L : Passage ℕ ℕ → Prop} (h : im.state.Paced)
    (hc : im'.state.Consistent) (hm : Passes im'.Pledges L im im') (hv : Course t im im')
    (hgrade : ∀ g a, im.fixtures.grade g = some a → im'.fixtures.grade g = some a) :
    im'.state.Paced where
  consistent := hc
  pledged := pledged_of_step h.pledged h.consistent hm hv hgrade
  behind := behind_of_course h.behind hv

/-- A commit finds its virtual accelerator migrating, and binds it to the generation that its
migration is for. -/
theorem cutover_of_pledged (hw : im.state.WellKeyed) (h : im.state.Consistent)
    (hp : im.state.Pledged r) {auth : Authority} {c : Cutover}
    (hok : commitMigrationCheck auth im = .ok c) : c.record.state = .migrating ∧
      r c.record.backingGeneration c.destinationAssignment.backingGeneration := by
  refine ⟨moving_of_commitMigrationCheck hw h hok, ?_⟩
  obtain ⟨hc, hready, -, hdestination⟩ := commitMigrationCheck_ok hok
  have hprogress : c.migration.toPassage.progress = .ready := by
    rw [MigrationRecord.toPassage, hready]
    rfl
  obtain ⟨g, a, q, htarget, ha, hq, hle⟩ := hp _ _ (passage_of_migration hc.migration) hprogress
  rw [party_toPassage hw hc, show im.state.book.seat _ = _ from seat_of_virtual hc.owned.virtual,
    Option.some.injEq] at hq
  subst hq
  obtain ⟨rfl, -⟩ := ref_eq_some.mp htarget
  obtain rfl := Option.some.inj (ha.symm.trans hdestination)
  exact hle (planStaleness_ok hc.fresh).2.2.2

theorem cutover_of_paced (hw : im.state.WellKeyed) (h : im.state.Paced) {auth : Authority}
    {c : Cutover} (hok : commitMigrationCheck auth im = .ok c) : c.record.state = .migrating ∧
      c.record.backingGeneration ≤ c.destinationAssignment.backingGeneration :=
  cutover_of_pledged hw h.consistent h.pledged hok

/-! ### Every event -/

section Body

variable {clock : Clock} {op : Op} {b : Body σ Unit}

theorem course_of_paced (hb : body clock op = some b) (hw : im.state.WellKeyed)
    (h : im.state.Paced) : Course ⟨False, False, False, False, False⟩ im (b im.beginOp).1 :=
  course_body hb hw (fun _ _ _ hok => cutover_of_paced hw h hok) False.elim False.elim False.elim
    False.elim False.elim

theorem migratesBy_of_pledges (hr : ∀ n, r n (n + 1)) (hb : body clock op = some b)
    (hw : im.state.WellKeyed) (h : im.state.Consistent) :
    MigratesBy (PledgesBy r) im (b im.beginOp).1 := by
  refine migratesBy_body hb hw h fun im' p g a q htarget ha hq _ _ hgeneration => ?_
  refine ⟨g, a, q, htarget, ha, hq, ?_⟩
  rw [hgeneration]
  exact hr _

theorem pledged_body (hr : ∀ n, r n (n + 1)) (hb : body clock op = some b)
    (hw : im.state.WellKeyed) (h : im.state.Paced) (hp : im.state.Pledged r) :
    (b im.beginOp).1.state.Pledged r :=
  pledged_of_step hp h.consistent (migratesBy_of_pledges hr hb hw h.consistent)
    (course_of_paced hb hw h) (fixed_body hb hw).grade

theorem paced_body (hb : body clock op = some b) (hw : im.state.WellKeyed) (h : im.state.Paced) :
    (b im.beginOp).1.state.Paced :=
  paced_of_step h (consistent_body hb hw h.consistent)
    (migratesBy_of_pledges Nat.le_succ hb hw h.consistent) (course_of_paced hb hw h)
    (fixed_body hb hw).grade

end Body

theorem pledged_classified (hw : im.state.WellKeyed) (h : im.state.Consistent)
    (hp : im.state.Pledged r) (now : UnixMicros) : (im.classified now).1.state.Pledged r := by
  have ht : Tracks im ∅ im.beginOp := .beginOp hw
  refine (List.foldlRecOn _ _ (motive := fun acc : Impl σ × Bool =>
    Tracks im ∅ acc.1 ∧ acc.1.state.Consistent ∧ acc.1.state.Pledged r) ⟨ht, h, hp⟩
    fun acc ⟨htracks, hconsistent, hpledged⟩ key _ => ?_).2.2
  have hrevises : Revises ⟨False, False, False, False, False⟩ acc.1
      (classifyMigration now acc key).1 := revises_classifyMigration now acc key
  refine ⟨htracks.classifyMigration now key, consistent_classifyMigration htracks hconsistent now
    key,
    pledged_of_step (L := fun _ => True) hpledged hconsistent
    (passes_classifyMigration htracks.wellKeyed hconsistent.orderly now acc.2
      fun _ _ _ => trivial) hrevises.course fun g a ha => ?_⟩
  rw [fixtures_classifyMigration]
  exact ha

theorem paced_classified (hw : im.state.WellKeyed) (h : im.state.Paced) (now : UnixMicros) :
    (im.classified now).1.state.Paced := by
  have hrevises : Revises ⟨False, False, False, False, False⟩ im (im.classified now).1 :=
    revises_classified im now
  exact ⟨consistent_classified hw h.consistent now,
    pledged_classified hw h.consistent h.pledged now, behind_of_course h.behind hrevises.course⟩

/-- The end of every use keeps the pledges. -/
theorem pledged_of_revises (h : im.state.Consistent) (hp : im.state.Pledged r)
    (hregister : im'.register = im.register) (hroles : im'.fixtures.roles = im.fixtures.roles)
    (hv : Revises t im im') : im'.state.Pledged r := by
  refine pledged_of_step (L := fun _ => True) hp h (.of_register hregister) hv.course
    fun g a ha => ?_
  rw [(Prod.mk.inj hroles).2]
  exact ha

/-- The end of every use keeps the pace. -/
theorem paced_of_revises (h : im.state.Paced) (hc : im'.state.Consistent)
    (hregister : im'.register = im.register) (hroles : im'.fixtures.roles = im.fixtures.roles)
    (hv : Revises t im im') : im'.state.Paced :=
  ⟨hc, pledged_of_revises h.consistent h.pledged hregister hroles hv,
    behind_of_course h.behind hv.course⟩

theorem respects_pledged {T : Prop} : Respects T (Pledged r) := by
  intro s u h hp
  have hv : s.virtuals = u.virtuals := h.entities .virtual nofun
  have ha : s.assignments = u.assignments := h.entities .assignment nofun
  have hm : s.migrations = u.migrations := h.entities .migration nofun
  have hseat : s.book.seat = u.book.seat := by
    simp only [VirtualizationState.book, hv]
  have hregister : s.register = u.register := by
    simp only [VirtualizationState.register, ha, hm]
  rw [VirtualizationState.Pledged, ← hregister, ← ha, ← hseat]
  exact hp

theorem respects_paced {T : Prop} : Respects T Paced := by
  intro s u h hs
  have hv : s.virtuals = u.virtuals := h.entities .virtual nofun
  refine ⟨respects_consistent h hs.consistent, respects_pledged h hs.pledged, ?_⟩
  rw [← hv]
  exact hs.behind

theorem pledged_empty : ({} : VirtualizationState).Pledged r := by
  simp [VirtualizationState.Pledged, VirtualizationState.register]

theorem paced_empty : ({} : VirtualizationState).Paced where
  consistent := consistent_empty
  pledged := pledged_empty
  behind := by simp

end Impl

namespace Impl

variable {im im' : Impl Disk} {t : Terms}

theorem paced_startBody (hw : im.state.WellKeyed) (h : im.state.Paced) (clock : Clock)
    (recovered : Bool) : (im.startBody clock recovered).state.Paced :=
  have hrevises : Revises ⟨False, False, False, False, False⟩ im (im.startBody clock recovered) :=
    revises_startBody im clock recovered
  paced_of_revises h (consistent_startBody hw h.consistent clock recovered)
    (register_startBody clock recovered) (roles_startBody clock recovered) hrevises

theorem paced_shutdownBody (hw : im.state.WellKeyed) (h : im.state.Paced) (clock : Clock) :
    (im.shutdownBody clock).state.Paced :=
  have hrevises : Revises ⟨False, False, False, False, False⟩ im (im.shutdownBody clock) :=
    revises_shutdownBody im clock
  paced_of_revises h (consistent_shutdownBody hw h.consistent clock) (register_shutdownBody clock)
    (congrArg _ (fixtures_shutdownBody clock)) hrevises

theorem invariant_paced {T : Prop} : Invariant T Paced where
  respects := respects_paced
  empty := paced_empty
  classified now h := paced_classified h.wellKeyed h.holds now
  shutdown clock h := paced_shutdownBody h.wellKeyed h.holds clock

theorem keeps_paced (h : Kept False Paced im) (event : Event) : Keeps False Paced im event where
  body _ _ answer _ _ hb _ :=
    paced_body hb (h.answering answer).state.wellKeyed (h.answering answer).state.holds
  start clock _ _ recovered hs _ := paced_startBody hs.wellKeyed hs.holds clock recovered
  written := nofun

theorem paced_of_run {options : RuntimeOptions} {stored : Bool} {events : List Event}
    (h : (initial options stored).run events = some im) : Kept False Paced im :=
  (kept_initial invariant_paced options stored).of_run invariant_paced
    (fun _ event h => keeps_paced h event) h

/-! ### Marks -/

/-- What becomes of the virtual accelerators that there are. -/
def RevisedAll (t : Terms) (s u : VirtualizationState) : Prop :=
  ∀ (x : VirtualAcceleratorId) (v : VirtualAcceleratorRecord), s.virtuals[x]? = some v →
    ∃ v' : VirtualAcceleratorRecord, u.virtuals[x]? = some v' ∧ Revised t v v'

/-- Whether an event marks all its changes of virtual accelerators. -/
def marking (im : Impl Disk) : Event → Bool
  | .op op clock answer => !(im.answering answer).writable ||
    (im.answering answer).marks clock.now ((im.answering answer).resolve op)
  | _ => true

theorem carries_revised (hk : Kept False Paced im) {event : Event}
    (hm : t.marks → im.marking event = true)
    (ht : ¬ t.owners ∧ ¬ t.retirements ∧ ¬ t.counts ∧ ¬ t.sizes) :
    Carries Paced (RevisedAll t) im event where
  refl s x v hv := ⟨v, hv, .refl v⟩
  trans s u w h h' x v hv := by
    obtain ⟨v', hv', hr⟩ := h x v hv
    obtain ⟨v'', hv'', hr'⟩ := h' x v' hv'
    exact ⟨v'', hv'', hr.trans hr'⟩
  congr s s' u u' hs hu h x v hv := by
    rw [hs.1] at hv
    rw [← hu.1]
    exact h x v hv
  blank s u hs x v hv := by
    simp only [blank, Bool.and_eq_true, Std.ExtTreeMap.isEmpty_iff] at hs
    simp [hs.1.1] at hv
  respects := respects_paced
  body op clock answer hevent b hb hwritable := by
    subst hevent
    have hsound := (hk.answering answer).state
    exact (course_body hb hsound.wellKeyed
      (fun auth c _ hok => cutover_of_paced hsound.wellKeyed hsound.holds hok)
      (fun ht => of_writable (hm ht) hwritable)
      (fun h => absurd h ht.1) (fun h => absurd h ht.2.1) (fun h => absurd h ht.2.2.1)
      (fun h => absurd h ht.2.2.2)).kept
  classified clock _ i hi :=
    ⟨paced_classified hi.wellKeyed hi.holds clock.now, (revises_classified i clock.now).course.kept⟩
  start clock _ i recovered hi :=
    ⟨paced_startBody hi.wellKeyed hi.holds clock recovered,
      (revises_startBody i clock recovered).course.kept⟩
  shutdown clock _ i _ := (revises_shutdownBody i clock).course.kept

end Impl

/-- What an observer of a virtual accelerator relies on: no generation goes back, and if changes are
marked, what is observed changes only with a new generation. -/
structure VirtualAcceleratorRecord.Renews (marked : Prop) (v v' : VirtualAcceleratorRecord) :
    Prop where
  generation : v.generation ≤ v'.generation
  stateGeneration : v.stateGeneration ≤ v'.stateGeneration
  backingGeneration : v.backingGeneration ≤ v'.backingGeneration
  observed : marked → v'.observed ≠ v.observed → v.generation < v'.generation

/-- Along every run the generation of a state stays behind the generation of its virtual
accelerator; and an event that loses no record takes no generation of a virtual accelerator back,
and changes none for an observer without a new generation, if it marks its changes. -/
theorem renews_of_run {options : RuntimeOptions} {stored : Bool} {events : List Event}
    {im : Impl Disk} (h : (Impl.initial options stored).run events = some im) :
    (∀ (x : VirtualAcceleratorId) (v : VirtualAcceleratorRecord), im.state.virtuals[x]? = some v →
      v.stateGeneration ≤ v.generation) ∧
    ∀ event im', im.lossless event = true → im.step event = some im' →
      ∀ (x : VirtualAcceleratorId) (v : VirtualAcceleratorRecord),
        im.lasting.virtuals[x]? = some v → ∃ v' : VirtualAcceleratorRecord,
          im'.lasting.virtuals[x]? = some v' ∧ v.Renews (im.marking event = true) v' := by
  have hk := Impl.paced_of_run h
  refine ⟨hk.state.holds.behind, fun event im' hl hs x v hv => ?_⟩
  have hc := Impl.carries_revised (t := ⟨im.marking event = true, False, False, False, False⟩) hk id
    ⟨id, id, id, id⟩
  obtain ⟨v', hv', hr⟩ := hc.step hk (Impl.consistent_of_run h) hl hs x v hv
  refine ⟨v', hv', hr.generation, hr.behind.1, hr.backingGeneration, fun hm hne => ?_⟩
  exact (hr.marked hm).resolve_left hne

/-- A virtual accelerator that is retired has a new generation. -/
theorem renews_retired : ∃ im im' v v', (Impl.initial {} true).run Sample.provisioned = some im ∧
    im.step (Sample.call (.retireVirtual (Sample.holder 1 1) [])) = some im' ∧
    im.lasting.virtuals[7]? = some v ∧ im'.lasting.virtuals[7]? = some v' ∧
    v'.observed ≠ v.observed ∧ v.generation < v'.generation := by
  have hrun : (((Impl.initial {} true).run Sample.provisioned).any fun im =>
      im.lossless (Sample.call (.retireVirtual (Sample.holder 1 1) [])) &&
        (im.marking (Sample.call (.retireVirtual (Sample.holder 1 1) [])) &&
          (im.lasting.virtuals[7]?.any fun v =>
            (im.step (Sample.call (.retireVirtual (Sample.holder 1 1) []))).any fun im' =>
              im'.lasting.virtuals[7]?.any fun v' => v.state ≠ v'.state))) = true := by
    decide +kernel
  obtain ⟨im, him, hgood⟩ := (Option.any_eq_true _ _).mp hrun
  rw [Bool.and_eq_true, Bool.and_eq_true] at hgood
  obtain ⟨hlossless, hmarking, hlater⟩ := hgood
  obtain ⟨v, hv, hlater⟩ := (Option.any_eq_true _ _).mp hlater
  obtain ⟨im', him', hlater⟩ := (Option.any_eq_true _ _).mp hlater
  obtain ⟨v', hv', hne⟩ := (Option.any_eq_true _ _).mp hlater
  obtain ⟨w, hw, hrenews⟩ := (renews_of_run him).2 _ im' hlossless him' 7 v hv
  obtain rfl := Option.some.inj (hv'.symm.trans hw)
  have hobserved : v'.observed ≠ v.observed := by
    intro heq
    simp only [VirtualAcceleratorRecord.observed, Prod.mk.injEq] at heq
    exact of_decide_eq_true hne heq.2.2.1.symm
  exact ⟨im, im', v, v', him, him', hv, hv', hobserved, hrenews.observed hmarking hobserved⟩

/-- A tenant that is fenced takes a virtual accelerator that is not in use to another generation of
its owner, and leaves its generation. -/
theorem not_renews_fenceTenant : ∃ im im' v v',
    (Impl.initial {} true).run Sample.provisioned = some im ∧
    im.step (Sample.call (.fenceTenant Sample.anyone 4 1 [])) = some im' ∧
    im.state.virtuals[7]? = some v ∧ im'.state.virtuals[7]? = some v' ∧
    v'.ownerGeneration ≠ v.ownerGeneration ∧ ¬ v.Renews True v' := by
  have hrun : (((Impl.initial {} true).run Sample.provisioned).any fun im =>
      im.state.virtuals[7]?.any fun v =>
        (im.step (Sample.call (.fenceTenant Sample.anyone 4 1 []))).any fun im' =>
          im'.state.virtuals[7]?.any fun v' =>
            v'.ownerGeneration ≠ v.ownerGeneration && v'.generation = v.generation) = true := by
    decide +kernel
  obtain ⟨im, him, hlater⟩ := (Option.any_eq_true _ _).mp hrun
  obtain ⟨v, hv, hlater⟩ := (Option.any_eq_true _ _).mp hlater
  obtain ⟨im', him', hlater⟩ := (Option.any_eq_true _ _).mp hlater
  obtain ⟨v', hv', hbad⟩ := (Option.any_eq_true _ _).mp hlater
  simp only [Bool.and_eq_true, decide_eq_true_eq] at hbad
  refine ⟨im, im', v, v', him, him', hv, hv', hbad.1, fun hrenews => ?_⟩
  have hobserved : v'.observed ≠ v.observed := by
    intro heq
    simp only [VirtualAcceleratorRecord.observed, Prod.mk.injEq] at heq
    exact hbad.1 heq.2.1
  exact (hrenews.observed trivial hobserved).ne' hbad.2

end AcceleratorVirtualization
