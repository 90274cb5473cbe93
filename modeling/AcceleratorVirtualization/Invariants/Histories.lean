import AcceleratorVirtualization.Invariants.Attachments
import AcceleratorVirtualization.Invariants.Census

/-!
# Histories

What a run leaves of a record that was there before. A process that has not loaded its store yet
knows nothing, so the state that counts is the image then, and the state in memory otherwise
(`lasting`). An event that loses nothing takes one such state to the next: virtual accelerators
evolve, assignments and migrations come forward. An event loses something if a process is started,
or followed by another one, while the store does not have what counts, or if a process that does not
persist makes records of its own over a store that it has not loaded.
-/

namespace AcceleratorVirtualization

open VirtualizationState Custody Leasing Handover Refusal

/-! ### Composition -/

/-- More states may be reached, and more may be granted. -/
theorem Evolves.mono {D D' : VirtualLifecycleState → VirtualLifecycleState → Prop}
    {grants grants' sealed sealed' : Prop} {q q' : Seat ℕ ℕ Phase}
    (h : Evolves D grants sealed q q') (hD : ∀ s s', D s s' → D' s s') (hg : grants → grants')
    (hs : sealed' → sealed) : Evolves D' grants' sealed' q q' :=
  { h with
    state := hD _ _ h.state
    bound := fun hn => h.bound (mt hg hn)
    fenced := fun hc => h.fenced (hs hc) }

/-- What becomes of the records: virtual accelerators evolve by `D`, assignments and migrations
come forward, and none is lost. -/
structure VirtualizationState.Advances (D : VirtualLifecycleState → VirtualLifecycleState → Prop)
    (sealed : Prop) (s t : VirtualizationState) : Prop where
  seat : ∀ x q, s.book.seat x = some q →
    ∃ q', t.book.seat x = some q' ∧ Evolves D True sealed q q'
  stage : ∀ g a, s.register.stage g = some a →
    ∃ a', t.register.stage g = some a' ∧ a.rank ≤ a'.rank
  passage : ∀ m p, s.register.passage m = some p →
    ∃ p', t.register.passage m = some p' ∧ p.Before p'

/-- No virtual accelerator, assignment or migration. -/
def VirtualizationState.blank (s : VirtualizationState) : Bool :=
  s.virtuals.isEmpty && s.assignments.isEmpty && s.migrations.isEmpty

/-- Two states have the same virtual accelerators, assignments and migrations. -/
def VirtualizationState.Mirrors (s t : VirtualizationState) : Prop :=
  s.virtuals = t.virtuals ∧ s.assignments = t.assignments ∧ s.migrations = t.migrations

instance (s t : VirtualizationState) : Decidable (s.Mirrors t) :=
  inferInstanceAs (Decidable (_ ∧ _ ∧ _))

namespace VirtualizationState

variable {s t u : VirtualizationState}

/-- A state mirrors itself. -/
theorem Mirrors.refl (s : VirtualizationState) : s.Mirrors s := ⟨rfl, rfl, rfl⟩

/-- Mirroring is symmetric. -/
theorem Mirrors.symm (h : s.Mirrors t) : t.Mirrors s := ⟨h.1.symm, h.2.1.symm, h.2.2.symm⟩

/-- Mirroring is transitive. -/
theorem Mirrors.trans (h : s.Mirrors t) (h' : t.Mirrors u) : s.Mirrors u :=
  ⟨h.1.trans h'.1, h.2.1.trans h'.2.1, h.2.2.trans h'.2.2⟩

/-- States that are alike have the same records, tenants apart. -/
theorem Alike.mirrors {T : Prop} (h : s.Alike T t) : s.Mirrors t :=
  ⟨h.entities .virtual nofun, h.entities .assignment nofun, h.entities .migration nofun⟩

/-- A state that mirrors a blank one is blank. -/
theorem Mirrors.blank (h : s.Mirrors t) : s.blank = t.blank := by
  rw [VirtualizationState.blank, h.1, h.2.1, h.2.2]
  rfl

end VirtualizationState

namespace VirtualizationState.Advances

variable {D D' : VirtualLifecycleState → VirtualLifecycleState → Prop} {sealed : Prop}
variable {s t u : VirtualizationState}

/-- No record changes. -/
theorem refl (hD : ∀ s, D s s) : s.Advances D sealed s where
  seat _ q hq := ⟨q, hq, .refl hD q⟩
  stage _ a ha := ⟨a, ha, le_rfl⟩
  passage _ p hp := ⟨p, hp, .refl p⟩

/-- Two changes in a row. -/
theorem trans (hD : ∀ s s' s'', D s s' → D s' s'' → D s s'') (h : s.Advances D sealed t)
    (h' : t.Advances D sealed u) : s.Advances D sealed u where
  seat x q hq := by
    obtain ⟨q', hq', he⟩ := h.seat x q hq
    obtain ⟨q'', hq'', he'⟩ := h'.seat x q' hq'
    exact ⟨q'', hq'', he.trans hD he'⟩
  stage g a ha := by
    obtain ⟨a', ha', hle⟩ := h.stage g a ha
    obtain ⟨a'', ha'', hle'⟩ := h'.stage g a' ha'
    exact ⟨a'', ha'', hle.trans hle'⟩
  passage m p hp := by
    obtain ⟨p', hp', hb⟩ := h.passage m p hp
    obtain ⟨p'', hp'', hb'⟩ := h'.passage m p' hp'
    exact ⟨p'', hp'', hb.trans hb'⟩

/-- More states may be reached. -/
theorem mono (h : s.Advances D sealed t) (hD : ∀ s s', D s s' → D' s s') :
    s.Advances D' sealed t :=
  { h with seat := fun x q hq =>
      (h.seat x q hq).imp fun _ he => ⟨he.1, he.2.mono hD id id⟩ }

/-- What becomes of the records is about the tables only. -/
theorem congr {s' t' : VirtualizationState} (h : s.Advances D sealed t) (hs : s'.Mirrors s)
    (ht : t.Mirrors t') : s'.Advances D sealed t' := by
  obtain ⟨hsv, hsa, hsm⟩ := hs
  obtain ⟨htv, hta, htm⟩ := ht
  obtain ⟨hseat, hstage, hpassage⟩ := h
  simp only [VirtualizationState.book, VirtualizationState.register, ← hsv, ← hsa, ← hsm, htv, hta,
    htm] at hseat hstage hpassage
  exact ⟨hseat, hstage, hpassage⟩

/-- Nothing is lost of nothing. -/
theorem of_blank (h : s.blank = true) : s.Advances D sealed t := by
  simp only [blank, Bool.and_eq_true, Std.ExtTreeMap.isEmpty_iff] at h
  obtain ⟨⟨hv, ha⟩, hm⟩ := h
  constructor
  · intro x q hq
    simp [VirtualizationState.book, hv] at hq
  · intro g a hg
    simp [VirtualizationState.register, ha] at hg
  · intro m p hp
    simp [VirtualizationState.register, hm] at hp

/-- Something is left of something. -/
theorem blank (h : s.Advances D sealed t) (ht : t.blank = true) : s.blank = true := by
  simp only [VirtualizationState.blank, Bool.and_eq_true, Std.ExtTreeMap.isEmpty_iff] at ht ⊢
  obtain ⟨⟨hv, ha⟩, hm⟩ := ht
  refine ⟨⟨?_, ?_⟩, ?_⟩
  · refine Std.ExtTreeMap.ext_getElem? fun x => ?_
    cases hx : s.virtuals[x]? with
    | none => rfl
    | some v =>
      obtain ⟨q, hq, -⟩ := h.seat x _ (Consistent.seat_of_record hx)
      simp [VirtualizationState.book, hv] at hq
  · refine Std.ExtTreeMap.ext_getElem? fun g => ?_
    cases hg : s.assignments[g]? with
    | none => rfl
    | some a =>
      obtain ⟨stage, hstage, -⟩ := h.stage g _ (congrArg (Option.map _) hg)
      simp [VirtualizationState.register, ha] at hstage
  · refine Std.ExtTreeMap.ext_getElem? fun k => ?_
    cases hk : s.migrations[k]? with
    | none => rfl
    | some m =>
      obtain ⟨p, hp, -⟩ := h.passage k _ (congrArg (Option.map _) hk)
      simp [VirtualizationState.register, hm] at hp

end VirtualizationState.Advances

namespace Impl

/-! ### One step -/

section Step

variable {σ : Type} {im im' : Impl σ} {D : VirtualLifecycleState → VirtualLifecycleState → Prop}
variable {grants sealed tight fair : Prop} {clock : Clock} {op : Op}

/-- Records advance along a run of the book and of the register. -/
theorem advances_of_turns {e l : Passage ℕ ℕ → Prop} (ho : im.register.Orderly)
    (hD : ∀ s, D s s) (hD' : ∀ s s' s'', D s s' → D s' s'' → D s s'')
    (ht : Turns (Evolves D grants sealed) Fresh tight fair im im')
    (hp : Passes e l im im') : im.state.Advances D sealed im'.state where
  seat x q hq := by
    obtain ⟨q', hq', he⟩ := Book.Steps.seat (.refl hD) (fun _ _ _ => .trans hD') ht hq
    exact ⟨q', hq', he.mono (fun _ _ => id) (fun _ => trivial) id⟩
  stage g a ha := hp.stage ho ha
  passage m p hm := hp.passage ho hm

/-- The body of an operation advances the records by what it may do to a state. -/
theorem advances_body {b : Body σ Unit} (hb : body clock op = some b) (hw : im.state.WellKeyed)
    (h : im.state.Consistent) (hsealed : sealed → im.sealing clock.now op = true) :
    im.state.Advances op.course sealed (b im.beginOp).1.state := by
  have ht : Lives op sealed False False im (b im.beginOp).1 :=
    lives_body hb hw h.leased (fun auth c _ hc => moving_of_commitMigrationCheck hw h hc)
      False.elim False.elim hsealed
  exact advances_of_turns h.orderly op.course_refl (fun _ _ _ => op.course_trans) ht
    (migrates_body hb hw h)

/-- Classifying one migration advances the records. -/
theorem advances_classifyMigration {s : Impl σ} {T : Set (RecordKind × ℕ)} {acc : Impl σ × Bool}
    (hs : Tracks s T acc.1) (h : acc.1.state.Consistent) (now : UnixMicros) (key : MigrationId) :
    acc.1.state.Advances (towards .provisioned) sealed (classifyMigration now acc key).1.state := by
  have hturns : Turns (Evolves (towards .provisioned) False sealed) Fresh False False acc.1
      (classifyMigration now acc key).1 :=
    turns_classifyMigration now acc key fun q hs =>
      evolves_legal rfl (by rw [hs]; rfl) (Nat.lt_succ_self _) nofun rfl nofun
  have hpasses : Passes (fun _ => True) (classifyMigration now acc key).1.Ceases acc.1
      (classifyMigration now acc key).1 :=
    passes_classifyMigration hs.wellKeyed h.orderly now acc.2 fun v =>
      ceases_classifyMigration now acc.2
  exact advances_of_turns h.orderly (towards_refl _) (fun _ _ _ => towards_trans) hturns hpasses

/-- Classifying the migrations advances the records. -/
theorem advances_classified (hw : im.state.WellKeyed) (h : im.state.Consistent)
    (now : UnixMicros) :
    im.state.Advances (towards .provisioned) sealed (im.classified now).1.state := by
  have ht : Tracks im ∅ im.beginOp := .beginOp hw
  exact (List.foldlRecOn _ _ (motive := fun acc : Impl σ × Bool =>
    Tracks im ∅ acc.1 ∧ acc.1.state.Consistent ∧
      im.state.Advances (towards .provisioned) sealed acc.1.state) ⟨ht, h, .refl (towards_refl _)⟩
    fun acc ⟨htracks, hc, hadv⟩ key _ => ⟨htracks.classifyMigration now key,
      consistent_classifyMigration htracks hc now key,
      hadv.trans (fun _ _ _ => towards_trans) (advances_classifyMigration htracks hc now key)⟩).2.2

/-- A virtual accelerator whose attachments end is parked. -/
theorem evolves_ended (q : Seat ℕ ℕ Phase) :
    Evolves (towards .provisioned) grants sealed q (parked q) :=
  evolves_parked (towards_refl _) fun _ hs => .inr ⟨rfl, isLegalTransition_provisioned hs⟩

/-- A start advances the records; what was attached is provisioned again. -/
theorem advances_startBody (h : im.state.Consistent) (clock : Clock) (recovered : Bool) :
    im.state.Advances (towards .provisioned) sealed (im.startBody clock recovered).state := by
  have ht : Turns (Evolves (towards .provisioned) False sealed) Fresh False False im
      (im.startBody clock recovered) := by
    cases recovered with
    | true => exact turns_startBody_recovered clock evolves_ended
    | false => exact turns_startBody_fresh clock False.elim
  exact advances_of_turns h.orderly (towards_refl _) (fun _ _ _ => towards_trans) ht
    (e := fun _ => True) (l := fun _ => True) (.of_register (register_startBody clock recovered))

/-- A shutdown advances the records in the same way. -/
theorem advances_shutdownBody (h : im.state.Consistent) (clock : Clock) :
    im.state.Advances (towards .provisioned) sealed (im.shutdownBody clock).state := by
  have ht : Turns (Evolves (towards .provisioned) False sealed) Fresh False False im
      (im.shutdownBody clock) := turns_shutdownBody clock evolves_ended
  exact advances_of_turns h.orderly (towards_refl _) (fun _ _ _ => towards_trans) ht
    (e := fun _ => True) (l := fun _ => True) (.of_register (register_shutdownBody clock))

end Step

/-! ### What a call leaves behind -/

section Calls

variable {im s im' : Impl Disk} {r : Impl Disk × Except Failure Unit}
variable {Q : VirtualizationState → Prop} {clock : Clock} {op : Op}

/-- A commit takes effect, and is written if the store is open and persistence is on; or it leaves
what it found, but for what tenants own. -/
theorem Written.cases (hw : Written im s im' r) : r.1.options = im.options ∧
    ((im.writable = true ∧ im'.state.Alike True r.1.state ∧
      ((r.1.store = im.store ∧ (im.store = none ∨ im.options.persist = false)) ∨
        ∃ d image, im.store = some d ∧ d.opened = true ∧
          r.1.store = some { d with image := some image })) ∨
      im.state.Alike False r.1.state ∧ r.1.store = im.store) := by
  have hstore : im'.extended.store = im.store := hw.ready.store.trans hw.store
  have hoptions : im'.extended.options = im.options := hw.ready.options.trans hw.options
  rw [hw.committed]
  obtain ⟨store, hp, hcommit⟩ | ⟨store, status, hp, hcommit⟩ := commit_cases im'
  · have hwritable : im.writable = true := hw.writable_of_commit (by rw [hcommit])
    rw [hcommit]
    refine ⟨hoptions, .inl ⟨hwritable, alike_extended im', ?_⟩⟩
    obtain ⟨hp', hnone⟩ | ⟨d, hd, hpersist, hopen, hp'⟩ | ⟨status, hp'⟩ :=
      persistChanges_cases im'.extended
    · obtain rfl : im'.extended.store = store := congrArg Prod.fst (hp'.symm.trans hp)
      refine .inl ⟨hstore, ?_⟩
      rw [hstore, hoptions, hw.ready.nonempty] at hnone
      exact hnone.imp_right fun h => h.resolve_right nofun
    · obtain rfl := congrArg Prod.fst (hp'.symm.trans hp)
      exact .inr ⟨d, _, hstore ▸ hd, hopen, rfl⟩
    · rw [hp'] at hp
      cases hp
  · rw [hcommit]
    obtain ⟨hp', -⟩ | ⟨d, -, -, -, hp'⟩ | ⟨status', hp'⟩ := persistChanges_cases im'.extended
    · rw [hp'] at hp
      cases hp
    · rw [hp'] at hp
      cases hp
    · obtain rfl : im'.extended.store = store := congrArg Prod.fst (hp'.symm.trans hp)
      have hundo := hw.ready.undoes im'.extended.store status
      obtain ⟨-, hepoch, hpolicy, hgeneration, haccounting, -⟩ := hundo.scalars_rollback
      refine ⟨hoptions, .inr ⟨hw.displaced.alike.symm.trans (.symm (.of_entities
        (funext hundo.entities_rollback) hepoch hpolicy hgeneration (congrArg _ haccounting))),
        hstore⟩⟩

/-- What holds of the state an operation finds, and of what its body makes of it, holds of the
state it leaves. What the body makes of it does not matter if the store does not take the change
set. -/
theorem state_exec (hq : Respects False Q) (hw : im.state.WellKeyed) (hidle : Q im.state)
    (hd : im.writable = true → Does Q im clock op) : Q (im.exec clock op).1.state := by
  have hq' : Respects True fun t => im.writable = true → Q t :=
    fun _ _ ha hQ hwritable => hq (ha.mono nofun) (hQ hwritable)
  have hd' : Does (fun t => im.writable = true → Q t) im clock op :=
    ⟨fun _ => hidle, fun b hb hwritable => (hd hwritable).body b hb,
      fun hop hwritable => (hd hwritable).classified hop⟩
  obtain hr | ⟨s, im', hwritten, hQ, -⟩ := exec_cases hq' hw hd'
  · exact hq hr.agrees.alike hidle
  · obtain ⟨-, ⟨hwritable, halike, -⟩ | ⟨halike, -⟩⟩ := hwritten.cases
    · exact hq (halike.mono nofun) (hQ hwritable)
    · exact hq halike hidle

/-- Who makes an assignment or a migration finds a virtual accelerator. -/
theorem virtual_of_makes {k : RecordKind} (hk : op.made = some k) (hm : im.makes op = true)
    (hkind : k = .assignment ∨ k = .migration) :
    ∃ (x : VirtualAcceleratorId) (v : VirtualAcceleratorRecord),
      im.state.virtuals[x]? = some v := by
  cases op <;> cases hk <;> simp only [reduceCtorEq, or_self] at hkind
  case assignBacking | replaceBacking =>
    obtain ⟨plan, hc⟩ := isOk_iff.mp hm
    exact ⟨_, _, (assignBackingCheck_ok hc).1.virtual⟩
  case planMigration =>
    obtain ⟨plan, hc⟩ := isOk_iff.mp hm
    exact ⟨_, _, (planMigrationCheck_ok hc).1.virtual⟩
  case prepareMigration =>
    obtain ⟨f, hc⟩ := isOk_iff.mp hm
    exact ⟨_, _, (prepareMigrationCheck_ok hc).1.owned.virtual⟩

/-- One operation makes virtual accelerators. -/
theorem createVirtual_of_made (h : (im.resolve op).made = some .virtual) :
    ∃ auth name owner ownerGeneration contract,
      op = .createVirtual auth name owner ownerGeneration contract := by
  cases op
  case createVirtual => exact ⟨_, _, _, _, _, rfl⟩
  case refreshPhysical =>
    simp only [resolve] at h
    split at h
    · split at h <;> cases h
    · cases h
  all_goals cases h

/-- In a process without virtual accelerators, assignments and migrations, all that an operation can
make of these is a virtual accelerator. -/
theorem blank_exec (hw : im.state.WellKeyed) (h : im.state.blank = true)
    (hop : ∀ auth name owner ownerGeneration contract,
      op = .createVirtual auth name owner ownerGeneration contract →
      (createVirtualCheck auth name owner ownerGeneration contract im).isOk = false) :
    (im.exec clock op).1.state.blank = true := by
  have hcount : ∀ t : VirtualizationState, t.blank = true ↔ t.census.count .virtual = 0 ∧
      t.census.count .assignment = 0 ∧ t.census.count .migration = 0 := by
    intro t
    simp only [VirtualizationState.blank, Bool.and_eq_true, and_assoc,
      Std.ExtTreeMap.isEmpty_eq_size_beq_zero, beq_iff_eq]
    rfl
  obtain ⟨hv, ha, hm⟩ := (hcount _).mp h
  have hnone : ∀ (x : VirtualAcceleratorId), im.state.virtuals[x]? = none := by
    simp only [VirtualizationState.blank, Bool.and_eq_true, Std.ExtTreeMap.isEmpty_iff] at h
    simp [h.1.1]
  refine state_exec (Q := fun t => t.blank = true) (fun t u halike ht => ?_) hw h fun _ =>
    ⟨h, fun b hb => ?_, fun _ => ?_⟩
  · exact halike.mirrors.blank.symm.trans ht
  · refine (hcount _).mpr (census_body (P := fun c => c.count .virtual = 0 ∧
      c.count .assignment = 0 ∧ c.count .migration = 0) hb hw ⟨hv, ha, hm⟩
      (fun _ _ _ _ _ => ⟨hv, ha, hm⟩) fun k c hk hmakes hgrown => ?_)
    have hle : ∀ k', k' ≠ k → im.census.count k' = 0 → c.count k' = 0 := fun k' hne hzero => by
      have hcount := hgrown.count k'
      rw [Pi.add_apply, Pi.single_eq_of_ne hne, hzero] at hcount
      exact Nat.le_zero.mp hcount
    -- only `create_virtual` makes the first record, and it is refused
    have hvirtual : k ≠ .virtual := by
      rintro rfl
      obtain ⟨auth, name, owner, ownerGeneration, contract, rfl⟩ := createVirtual_of_made hk
      exact absurd (hmakes.symm.trans (hop _ _ _ _ _ rfl)) (by decide)
    have hfound : ¬ (k = .assignment ∨ k = .migration) := fun hkind => by
      obtain ⟨x, v, hx⟩ := virtual_of_makes hk hmakes hkind
      rw [hnone x] at hx
      cases hx
    exact ⟨hle _ hvirtual.symm hv, hle _ (fun he => hfound (.inl he.symm)) ha,
      hle _ (fun he => hfound (.inr he.symm)) hm⟩
  · rw [hcount, show (im.classified clock.now).1.state.census = im.census from
      census_classified im clock.now]
    exact ⟨hv, ha, hm⟩

end Calls

/-! ### The state that counts -/

section Lasting

variable {im im' : Impl Disk} {event : Event} {clock : Clock} {op : Op}
variable {D : VirtualLifecycleState → VirtualLifecycleState → Prop} {sealed : Prop}

/-- The state that counts: the image, in a process that has not opened its store and writes to it,
or has nothing of its own; else the state. -/
def lasting (im : Impl Disk) : VirtualizationState :=
  match im.store with
  | some d =>
    if !d.opened && (im.options.persist || im.state.blank) then d.image.getD im.state else im.state
  | none => im.state

/-- Whether the store has what counts: there is nothing that counts, or the image has the same. -/
def stored (im : Impl Disk) : Bool :=
  im.lasting.blank || im.store.any fun d => d.image.any fun image => im.lasting.Mirrors image

/-- Whether a process that does not persist has nothing of its own, and has not opened a store that
has something. -/
def unread (im : Impl Disk) : Bool :=
  !im.options.persist && im.state.blank &&
    im.store.any fun d => !d.opened && d.image.any fun image => !image.blank

/-- Whether an event loses no record: what a start or a new process finds in the store is what
counts, and no virtual accelerator is made by a process that does not persist and has not read its
store yet. -/
def lossless (im : Impl Disk) : Event → Bool
  | .op (.createVirtual auth name owner ownerGeneration contract) _ _ => !im.unread ||
    !(createVirtualCheck auth name owner ownerGeneration contract im).isOk
  | .start _ => im.running || im.store.isNone || im.stored
  | .boot _ => im.stored
  | _ => true

/-- Without a store, what counts is in memory. -/
theorem lasting_of_none (h : im.store = none) : im.lasting = im.state := by
  rw [lasting, h]

/-- With an open store, what counts is in memory. -/
theorem lasting_of_opened {d : Disk} (h : im.store = some d) (ho : d.opened = true) :
    im.lasting = im.state := by
  simp [lasting, h, ho]

/-- Without persistence, what is in memory counts once it is not blank. -/
theorem lasting_of_off (h : im.options.persist = false) (hb : im.state.blank = false) :
    im.lasting = im.state := by
  unfold lasting
  split <;> simp [h, hb]

/-- With an empty store, what counts is in memory. -/
theorem lasting_of_unimaged {d : Disk} (h : im.store = some d) (hi : d.image = none) :
    im.lasting = im.state := by
  simp [lasting, h, hi]

/-- Before the store is read, what counts is the image. -/
theorem lasting_of_image {d : Disk} {image : VirtualizationState} (h : im.store = some d)
    (ho : d.opened = false) (hp : im.options.persist = true ∨ im.state.blank = true)
    (hi : d.image = some image) : im.lasting = image := by
  obtain hp | hp := hp <;> simp [lasting, h, hp, ho, hi]

/-- A store that is kept up has what counts. -/
theorem stored_of_persist {Q : VirtualizationState → Prop} (hk : Kept False Q im) {d : Disk}
    {image : VirtualizationState} (h : im.store = some d) (hp : im.options.persist = true)
    (hi : d.image = some image) : im.stored = true := by
  have hmirrors : im.lasting.Mirrors image := by
    cases ho : d.opened with
    | false =>
      rw [lasting_of_image h ho (.inl hp) hi]
      exact .refl image
    | true =>
      obtain ⟨image', hi', ha⟩ := hk.written d h ho hp
      rw [lasting_of_opened h ho, Option.some.inj (hi.symm.trans hi')]
      exact ha.alike.mirrors.symm
  simp [stored, h, hi, hmirrors]

/-- What the store will answer does not change what counts. -/
theorem lasting_answering (im : Impl Disk) (answer : Check) :
    (im.answering answer).lasting = im.lasting := by
  unfold lasting answering
  cases im.store <;> rfl

/-- What an operation leaves of the store and of the records: it writes to an open store, or leaves
the store, and writes no record if it has to write to it. -/
theorem wiring_exec (clock : Clock) (op : Op) (hw : im.state.WellKeyed) :
    (im.exec clock op).1.options = im.options ∧
      (((im.exec clock op).1.store = im.store ∧ (im.state.Mirrors (im.exec clock op).1.state ∨
          im.store = none ∨ im.options.persist = false)) ∨
        ∃ d image, im.store = some d ∧ d.opened = true ∧
          (im.exec clock op).1.store = some { d with image := some image }) := by
  have hdoes : Does (fun _ => True) im clock op := ⟨trivial, fun _ _ => trivial, fun _ => trivial⟩
  obtain hr | ⟨s, im', hwritten, -⟩ := exec_cases (fun _ _ _ _ => trivial) hw hdoes
  · exact ⟨hr.options, .inl ⟨hr.store, .inl (hr.agrees (T := False)).alike.mirrors⟩⟩
  · obtain ⟨hoptions, ⟨-, -, ⟨hstore, hnone⟩ | hopened⟩ | ⟨halike, hstore⟩⟩ := hwritten.cases
    · exact ⟨hoptions, .inl ⟨hstore, .inr hnone⟩⟩
    · exact ⟨hoptions, .inr hopened⟩
    · exact ⟨hoptions, .inl ⟨hstore, .inl halike.mirrors⟩⟩

/-- An operation takes away no record. -/
theorem advances_exec (clock : Clock) (op : Op) (h : im.state.Sound Consistent) :
    im.state.Advances (im.resolve op).course False (im.exec clock op).1.state := by
  refine state_exec (Q := fun t => im.state.Advances (im.resolve op).course False t)
    (fun t u ha ht => ht.congr (.refl _) ha.mirrors) h.wellKeyed
    (.refl (im.resolve op).course_refl) fun _ =>
      ⟨.refl (im.resolve op).course_refl, fun b hb => ?_, fun hop => ?_⟩
  · exact advances_body hb h.wellKeyed h.holds False.elim
  · subst hop
    exact advances_classified h.wellKeyed h.holds clock.now

/-- What has records before an operation has some after it. -/
theorem blank_of_exec (h : im.state.Sound Consistent)
    (hb : (im.exec clock op).1.state.blank = true) : im.state.blank = true :=
  (advances_exec clock op h).blank hb

/-- An operation changes the state that counts; or it leaves it, and changes no record or makes
none; or it makes the first record of a process that has not read its store. -/
theorem lasting_exec (clock : Clock) (op : Op) (h : im.state.Sound Consistent) :
    (im.exec clock op).1.lasting = im.lasting ∧ (im.state.Mirrors (im.exec clock op).1.state ∨
        (im.exec clock op).1.state.blank = true) ∨
      (im.exec clock op).1.lasting = (im.exec clock op).1.state ∧ (im.lasting = im.state ∨
        (im.exec clock op).1.state.blank = false ∧
          (im.unread = true ∨ im.lasting.blank = true)) := by
  have hleft := @blank_of_exec im clock op h
  obtain ⟨hoptions, hstore⟩ := wiring_exec clock op h.wellKeyed
  generalize (im.exec clock op).1 = r at hleft hoptions hstore ⊢
  obtain ⟨hstore, hmirrors⟩ | ⟨d, image, hd, hopen, hstore⟩ := hstore
  · cases hd : im.store with
    | none => exact .inr ⟨lasting_of_none (hstore.trans hd), .inl (lasting_of_none hd)⟩
    | some d =>
      have hd' : r.store = some d := hstore.trans hd
      cases ho : d.opened with
      | true => exact .inr ⟨lasting_of_opened hd' ho, .inl (lasting_of_opened hd ho)⟩
      | false =>
        cases hi : d.image with
        | none => exact .inr ⟨lasting_of_unimaged hd' hi, .inl (lasting_of_unimaged hd hi)⟩
        | some image =>
          cases hp : im.options.persist with
          | true =>
            -- nothing is written to a store that is not open
            have hsame : im.state.Mirrors r.state := hmirrors.resolve_right (by simp [hd, hp])
            exact .inl ⟨(lasting_of_image hd' ho (.inl (hoptions ▸ hp)) hi).trans
              (lasting_of_image hd ho (.inl hp) hi).symm, .inl hsame⟩
          | false =>
            have hp' : r.options.persist = false := hoptions ▸ hp
            cases hb : im.state.blank with
            | false =>
              have hb' : r.state.blank = false :=
                eq_false_of_ne_true fun h => absurd (hb.symm.trans (hleft h)) nofun
              exact .inr ⟨lasting_of_off hp' hb', .inl (lasting_of_off hp hb)⟩
            | true =>
              have himage : im.lasting = image := lasting_of_image hd ho (.inr hb) hi
              cases hb' : r.state.blank with
              | true =>
                exact .inl ⟨(lasting_of_image hd' ho (.inr hb') hi).trans himage.symm, .inr rfl⟩
              | false =>
                refine .inr ⟨lasting_of_off hp' hb', .inr ⟨rfl, ?_⟩⟩
                rw [himage]
                cases hblank : image.blank with
                | true => exact .inr rfl
                | false => exact .inl (by simp [unread, hd, hp, hb, ho, hi, hblank])
  · exact .inr ⟨lasting_of_opened hstore hopen, .inl (lasting_of_opened hd hopen)⟩

/-- A store that was compacted is open. -/
theorem lasting_compactStore (h : im.compactStore = (im', .ok ())) :
    im.lasting = im.state ∧ im'.lasting = im'.state ∧ im'.state = im.state := by
  unfold compactStore at h
  split at h
  · rename_i hnone
    cases h
    exact ⟨lasting_of_none hnone, lasting_of_none hnone, rfl⟩
  · rename_i d hd
    simp only [DurableStore.compact] at h
    split at h
    · rename_i hopen
      cases h
      exact ⟨lasting_of_opened hd hopen, lasting_of_opened rfl hopen, rfl⟩
    · cases h

/-- After a start that commits, what counts is in memory. -/
theorem lasting_startCommitted {clock : Clock} {recovered : Bool}
    (h : im.startCommitted clock recovered = (im', .ok ())) : im'.lasting = im'.state := by
  unfold startCommitted at h
  split at h
  · cases h
  split at h
  · cases h
  split at h
  · cases h
  rename_i i hcompact
  cases h
  exact (lasting_compactStore hcompact).2.1

/-- A store that was closed holds the state. -/
theorem lasting_closeStore (h : im.closeStore = (im', .ok ())) :
    (im.store = none ∨ ∃ d, im.store = some d ∧ d.opened = true) ∧ im'.lasting = im'.state ∧
      im'.state = im.state := by
  unfold closeStore at h
  split at h
  · rename_i hnone
    cases h
    exact ⟨.inl hnone, lasting_of_none hnone, rfl⟩
  · rename_i d hd
    simp only [DurableStore.compact, DurableStore.close] at h
    split at h
    · rename_i hopen
      cases h
      refine ⟨.inr ⟨d, hd, hopen⟩, ?_, rfl⟩
      unfold lasting
      simp
    · cases h

/-- A compaction does not change what counts. -/
theorem lasting_compact (im : Impl Disk) : im.compact.1.lasting = im.lasting := by
  unfold compact compactStore
  split
  · rfl
  · rename_i d hd
    simp only [DurableStore.compact]
    split
    · rename_i hopen
      rw [lasting_of_opened hd hopen]
      exact lasting_of_opened rfl hopen
    · simp [lasting, hd]

/-- A commit opens no store. -/
theorem opened_commit (hc : im.commit = (im', .ok ()))
    (h : im'.store = none ∨ ∃ d, im'.store = some d ∧ d.opened = true) :
    im.store = none ∨ ∃ d, im.store = some d ∧ d.opened = true := by
  obtain ⟨store, hp, hcommit⟩ | ⟨store, status, -, hcommit⟩ := commit_cases im
  · rw [hcommit] at hc
    cases hc
    obtain ⟨hp', -⟩ | ⟨d, hd, -, hopen, -⟩ | ⟨status, hp'⟩ := persistChanges_cases im.extended
    · obtain rfl : im.extended.store = store := congrArg Prod.fst (hp'.symm.trans hp)
      exact h
    · exact .inr ⟨d, hd, hopen⟩
    · rw [hp'] at hp
      cases hp
  · rw [hcommit] at hc
    cases hc

/-! ### One event -/

/-- Where an event may lead a virtual accelerator. -/
def course (im : Impl Disk) : Event → VirtualLifecycleState → VirtualLifecycleState → Prop
  | .op op _ answer => ((im.answering answer).resolve op).course
  | _ => towards .provisioned

/-- A state moves along the table, or not at all. -/
theorem course_legal {s s' : VirtualLifecycleState} (h : im.course event s s') :
    s' = s ∨ isLegalTransition s s' = true := by
  cases event with
  | op op clock answer => exact Op.course_legal h
  | start _ | shutdown _ | compact | boot _ =>
    obtain h | ⟨h, hlegal⟩ := h
    · exact .inl h
    · exact .inr (h ▸ hlegal)

/-- A state may stay where it is. -/
theorem course_refl (im : Impl Disk) (event : Event) (s : VirtualLifecycleState) :
    im.course event s s := by
  cases event with
  | op op clock answer => exact Op.course_refl _ s
  | start _ | shutdown _ | compact | boot _ => exact towards_refl _ s

/-- Whether an event leaves what is fenced alone, or is not written. -/
def seals (im : Impl Disk) : Event → Bool
  | .op op clock answer => !(im.answering answer).writable ||
    (im.answering answer).sealing clock.now ((im.answering answer).resolve op)
  | _ => true

/-- Whether a start loses anything does not depend on what the store will answer. -/
theorem lossless_answering (im : Impl Disk) (answer : Check) (clock : Clock) :
    (im.answering answer).lossless (.start clock) = im.lossless (.start clock) := by
  simp only [lossless, stored, lasting_answering]
  unfold answering
  cases im.store <;> rfl

/-- Whether the image is still to be read does not depend on what the store will answer. -/
theorem unread_answering (im : Impl Disk) (answer : Check) :
    (im.answering answer).unread = im.unread := by
  unfold unread answering
  cases im.store <;> rfl

/-- A shutdown, before it commits, leaves the store as it is. -/
theorem store_shutdownBody (im : Impl Disk) (clock : Clock) :
    (im.shutdownBody clock).store = im.store := by
  have hlease : ∀ (i : Impl Disk) id ended why,
      (i.endLease ended why clock.now id).store = i.store := by
    intro i id ended why
    unfold endLease
    split
    · rfl
    · split <;> rfl
  have hvirtual : ∀ (i : Impl Disk) id why,
      (i.releaseAttachments why clock.now id).store = i.store := by
    intro i id why
    unfold releaseAttachments
    split
    · rfl
    · dsimp only
      split <;> split <;> rfl
  have htenant : ∀ (i : Impl Disk) id, (i.releaseTenant none id).store = i.store := by
    intro i id
    unfold releaseTenant
    split
    · rfl
    · split <;> rfl
  simp only [shutdownBody]
  generalize h1 : im.state.leases.keys.foldl _ im = i1
  generalize h2 : i1.state.virtuals.keys.foldl _ i1 = i2
  generalize h3 : i2.state.tenants.keys.foldl _ i2 = i3
  calc i3.store = i2.store := h3 ▸ foldl_unchanged (f := fun i : Impl Disk => i.store) htenant _ i2
    _ = i1.store :=
      h2 ▸ foldl_unchanged (f := fun i : Impl Disk => i.store) (fun i id => hvirtual i id _) _ i1
    _ = im.store :=
      h1 ▸ foldl_unchanged (f := fun i : Impl Disk => i.store) (fun i id => hlease i id _ _) _ im

/-- A relation between the states that count before and after an event: it holds where nothing was
recorded and between states that are alike, and of what the event does: the body of an operation,
the classification of the migrations, a start and a shutdown. -/
structure Carries (Q : VirtualizationState → Prop)
    (R : VirtualizationState → VirtualizationState → Prop) (im : Impl Disk) (event : Event) :
    Prop where
  refl : ∀ s, R s s
  trans : ∀ s t u, R s t → R t u → R s u
  congr : ∀ s s' t t', s'.Mirrors s → t.Mirrors t' → R s t → R s' t'
  blank : ∀ s t, s.blank = true → R s t
  respects : Respects True Q
  body : ∀ op clock answer, event = .op op clock answer → ∀ b : Body Disk Unit,
    body clock ((im.answering answer).resolve op) = some b →
    (im.answering answer).writable = true → R im.state (b (im.answering answer).beginOp).1.state
  classified : ∀ clock, event = .start clock ∨
      (∃ answer, event = .op .classifyRecoveredMigrations clock answer) →
    ∀ i : Impl Disk, i.state.Sound Q →
      Q (i.classified clock.now).1.state ∧ R i.state (i.classified clock.now).1.state
  start : ∀ clock, event = .start clock → ∀ (i : Impl Disk) (recovered : Bool), i.state.Sound Q →
    Q (i.startBody clock recovered).state ∧ R i.state (i.startBody clock recovered).state
  shutdown : ∀ clock, event = .shutdown clock → ∀ i : Impl Disk, i.state.Sound Q →
    R i.state (i.shutdownBody clock).state

namespace Carries

variable {Q : VirtualizationState → Prop} {R : VirtualizationState → VirtualizationState → Prop}
variable {j : Impl Disk}

/-- What is carried along a call, between the states in memory. -/
theorem state {answer : Check} (hc : Carries Q R im (.op op clock answer))
    (h : im.state.Sound Q) : R im.state ((im.answering answer).exec clock op).1.state := by
  have hw : (im.answering answer).state.WellKeyed := h.wellKeyed
  refine state_exec (Q := R im.state) (fun s t ha hs => hc.congr _ _ _ _ (.refl _) ha.mirrors hs) hw
    (hc.refl im.state) fun hwritable => ⟨hc.refl im.state,
      fun b hb => hc.body op clock answer rfl b hb hwritable, fun hop => ?_⟩
  subst hop
  exact (hc.classified clock (.inr ⟨answer, rfl⟩) (im.answering answer) h).2

/-- An operation that makes no record over a store that was not read loses nothing. -/
theorem op' {answer : Check} (hc : Carries Q R im (.op op clock answer)) (h : im.state.Sound Q)
    (hcon : im.state.Sound Consistent) (hl : im.lossless (.op op clock answer) = true) :
    R im.lasting ((im.answering answer).exec clock op).1.lasting := by
  have hstate := hc.state h
  have hcases := @lasting_exec (im.answering answer) clock op hcon
  rw [lasting_answering, unread_answering] at hcases
  obtain ⟨hlasting, -⟩ | ⟨hafter, hbefore | ⟨hmade, hunread | hblank⟩⟩ := hcases
  · rw [hlasting]
    exact hc.refl _
  · rw [hbefore, hafter]
    exact hstate
  · -- the first record over a store that was not read
    have hempty : im.state.blank = true := by
      simp only [unread, Bool.and_eq_true] at hunread
      exact hunread.1.2
    have hnone := @blank_exec (im.answering answer) clock op
      hcon.wellKeyed hempty fun auth name owner ownerGeneration contract hop => by
        subst hop
        have hrefused : (createVirtualCheck auth name owner ownerGeneration contract im).isOk =
            false := by
          simpa [lossless, hunread] using hl
        exact hrefused
    rw [hmade] at hnone
    cases hnone
  · exact hc.blank _ _ hblank

/-- A start that loses nothing is over the state that counts. -/
theorem start' {clock : Clock} (hc : Carries Q R j (.start clock)) (hk : Kept False Q im)
    (hl : im.lossless (.start clock) = true) (hs : im.start clock = (im', .ok ())) :
    R im.lasting im'.lasting := by
  obtain ⟨-, rfl⟩ | ⟨hrunning, base, recovered, hcommitted, -, hbase⟩ := start_cases hs
  · exact hc.refl _
  by_cases hblank : im.lasting.blank = true
  · exact hc.blank _ _ hblank
  have hbase' : base.state.Sound Q ∧ im.lasting.Mirrors base.state := by
    obtain ⟨-, ⟨hstate, hstore⟩ | ⟨-, d, hd, himage⟩⟩ | ⟨-, d, hd, himage, -⟩ := hbase
    · rw [lasting_of_none hstore, hstate]
      exact ⟨hk.state, .refl _⟩
    · simp [lossless, stored, hrunning, hd, himage, hblank] at hl
    · refine ⟨hk.image d base.state hd himage, ?_⟩
      simpa [lossless, stored, hrunning, hd, himage, hblank] using hl
  obtain ⟨hsound, hmirrors⟩ := hbase'
  rw [lasting_startCommitted hcommitted]
  have hkept : Kept False (fun t => Q t ∧ R base.state t) im' := by
    refine Kept.startCommitted (fun _ _ ha hq => ⟨hc.respects ha hq.1,
      hc.congr _ _ _ _ (.refl _) ha.mirrors hq.2⟩) (fun i hi => ?_) ?_ hcommitted
    · obtain ⟨hQ, hR⟩ := hc.classified clock (.inl rfl) i ⟨hi.wellKeyed, hi.holds.1⟩
      exact ⟨hQ, hc.trans _ _ _ hi.holds.2 hR⟩
    · exact ⟨wellKeyed_startBody hsound.wellKeyed clock recovered,
        hc.start clock rfl base recovered hsound⟩
  exact hc.congr _ _ _ _ hmirrors (.refl _) hkept.state.holds.2

/-- What is carried along a shutdown, between the states that count. -/
theorem shutdown' {clock : Clock} (hc : Carries Q R j (.shutdown clock)) (h : im.state.Sound Q)
    (hs : im.shutdown clock = (im', .ok ())) : R im.lasting im'.lasting := by
  obtain ⟨-, rfl⟩ | ⟨-, im1, im2, hcommit, hclose, rfl⟩ := shutdown_cases hs
  · exact hc.refl _
  obtain ⟨hopened, hlasting, hstate⟩ := lasting_closeStore hclose
  have hbefore : im.lasting = im.state := by
    obtain hnone | ⟨d, hd, hopen⟩ := opened_commit hcommit hopened
    · exact lasting_of_none ((store_shutdownBody im.beginOp clock).symm.trans hnone)
    · exact lasting_of_opened ((store_shutdownBody im.beginOp clock).symm.trans hd) hopen
  rw [hbefore, show Impl.lasting { im2 with agents := ∅, running := false } = im2.lasting from rfl,
    hlasting, hstate]
  have hbegin : im.beginOp.state.Sound Q := h
  have hbody : (im.beginOp.shutdownBody clock).state.Sound (R im.state) :=
    ⟨wellKeyed_shutdownBody hbegin.wellKeyed clock, hc.shutdown clock rfl im.beginOp hbegin⟩
  exact (Sound.commit (fun _ _ ha hq => hc.congr _ _ _ _ (.refl _) ha.mirrors hq) hbody
    hcommit).holds

/-- An event that loses nothing carries the relation over. -/
theorem step (hc : Carries Q R im event) (hk : Kept False Q im) (hcon : Kept False Consistent im)
    (hl : im.lossless event = true) (hs : im.step event = some im') : R im.lasting im'.lasting := by
  cases event with
  | op op clock answer =>
    cases hs
    exact hc.op' hk.state hcon.state hl
  | start clock =>
    simp only [Impl.step] at hs
    split at hs
    · cases hs
      rw [← im.lasting_answering (.ok ())]
      exact hc.start' (hk.answering (.ok ())) ((im.lossless_answering _ clock).trans hl) ‹_›
    · cases hs
  | shutdown clock =>
    simp only [Impl.step] at hs
    split at hs
    · cases hs
      rw [← im.lasting_answering (.ok ())]
      exact hc.shutdown' (hk.answering (.ok ())).state ‹_›
    · cases hs
  | compact =>
    cases hs
    rw [lasting_compact]
    exact hc.refl _
  | boot options =>
    cases hs
    by_cases hblank : im.lasting.blank = true
    · exact hc.blank _ _ hblank
    have hl' : im.stored = true := hl
    simp only [stored, hblank, Bool.false_or, Option.any_eq_true, decide_eq_true_eq] at hl'
    obtain ⟨d, hd, image, himage, hmirrors⟩ := hl'
    have hlasting : Impl.lasting
        { options, store := im.store.map fun d => { d with opened := false } } = image :=
      lasting_of_image (d := { d with opened := false }) (by rw [hd]; rfl) rfl (.inr rfl) himage
    rw [hlasting]
    exact hc.congr _ _ _ _ hmirrors (.refl _) (hc.refl _)

/-- A run that loses nothing carries over what each of its events carries over. -/
theorem run {c : Impl Disk → Event → Bool} (hi : Invariant False Q)
    (hkeeps : ∀ im event, Kept False Q im → c im event = true → Keeps False Q im event)
    (hcarries : ∀ im event, Kept False Q im → c im event = true → Carries Q R im event)
    (hrefl : ∀ s, R s s) (htrans : ∀ s t u, R s t → R t u → R s u) {events : List Event}
    (hk : Kept False Q im) (hcon : Kept False Consistent im) (hr : im.run events = some im')
    (hl : im.throughout lossless events = true) (ht : im.throughout c events = true) :
    R im.lasting im'.lasting := by
  induction events generalizing im with
  | nil =>
    cases hr
    exact hrefl _
  | cons event events ih =>
    simp only [Impl.run, List.foldlM_cons, Option.bind_eq_bind, Option.bind_eq_some_iff] at hr
    obtain ⟨im1, hstep, hrest⟩ := hr
    simp only [throughout, hstep, Bool.and_eq_true] at hl ht
    have hfirst : R im.lasting im1.lasting := (hcarries im event hk ht.1).step hk hcon hl.1 hstep
    have hk1 : Kept False Q im1 := hk.step hi (hkeeps im event hk ht.1) hstep
    have hcon1 := hcon.step invariant_consistent (keeps_consistent hcon event) hstep
    exact htrans _ _ _ hfirst (ih hk1 hcon1 hrest hl.2 ht.2)

end Carries

/-- Two moves in a row. -/
theorem course_trans {s s' s'' : VirtualLifecycleState} (h : im.course event s s')
    (h' : im.course event s' s'') : im.course event s s'' := by
  cases event with
  | op op clock answer => exact Op.course_trans h h'
  | start _ | shutdown _ | compact | boot _ => exact towards_trans h h'

/-- Every event that loses nothing advances the records. -/
theorem carries_advances (hk : Kept False Consistent im)
    (hsealed : sealed → im.seals event = true) :
    Carries Consistent (Advances (im.course event) sealed) im event where
  refl _ := .refl (im.course_refl event)
  trans _ _ _ := .trans fun _ _ _ => course_trans
  congr _ _ _ _ hs ht h := h.congr hs ht
  blank _ _ := .of_blank
  respects := respects_consistent
  body op clock answer hevent b hb hwritable := by
    subst hevent
    exact advances_body hb (hk.answering answer).state.wellKeyed (hk.answering answer).state.holds
      fun h => of_writable (hsealed h) hwritable
  classified clock hevent i hi := by
    refine ⟨consistent_classified hi.wellKeyed hi.holds clock.now, ?_⟩
    have hadvances : i.state.Advances (towards .provisioned) sealed
      (i.classified clock.now).1.state :=
      advances_classified hi.wellKeyed hi.holds clock.now
    obtain rfl | ⟨answer, rfl⟩ := hevent <;> exact hadvances
  start clock hevent i recovered hi := by
    subst hevent
    exact ⟨consistent_startBody hi.wellKeyed hi.holds clock recovered,
      advances_startBody hi.holds clock recovered⟩
  shutdown clock hevent i hi := by
    subst hevent
    exact advances_shutdownBody hi.holds clock

/-- An event that loses nothing takes what counts to what it becomes. -/
theorem advances_step (hk : Kept False Consistent im) (hl : im.lossless event = true)
    (hsealed : sealed → im.seals event = true) (hs : im.step event = some im') :
    im.lasting.Advances (im.course event) sealed im'.lasting :=
  (carries_advances hk hsealed).step hk hk hl hs

/-! ### Runs -/

/-- What a run that loses nothing leaves of what counted before. -/
theorem advances_run {events : List Event} (hk : Kept False Consistent im)
    (hr : im.run events = some im') (hl : im.throughout lossless events = true)
    (hsealed : sealed → im.throughout seals events = true) :
    im.lasting.Advances (fun _ _ => True) sealed im'.lasting := by
  induction events generalizing im with
  | nil =>
    cases hr
    exact .refl fun _ => trivial
  | cons event events ih =>
    simp only [Impl.run, List.foldlM_cons, Option.bind_eq_bind, Option.bind_eq_some_iff] at hr
    obtain ⟨im1, hstep, hrest⟩ := hr
    simp only [throughout, hstep, Bool.and_eq_true] at hl hsealed
    have hfirst : im.lasting.Advances (fun _ _ => True) sealed im1.lasting :=
      (advances_step hk hl.1 (fun h => (hsealed h).1) hstep).mono fun _ _ _ => trivial
    have hk1 := hk.step invariant_consistent (keeps_consistent hk event) hstep
    exact hfirst.trans (fun _ _ _ _ _ => trivial) (ih hk1 hrest hl.2 fun h => (hsealed h).2)

/-- The virtual accelerators, assignments and migrations in memory are among those that count. -/
def Lasts (im : Impl Disk) : Prop := im.state.blank = true ∨ im.state.Mirrors im.lasting

/-- Where memory counts, the records in memory count. -/
theorem lasts_of_eq (h : im.lasting = im.state) : im.Lasts := .inr (h ▸ .refl _)

/-- A virtual accelerator in memory counts. -/
theorem Lasts.virtuals (h : im.Lasts) {id : VirtualAcceleratorId} {v : VirtualAcceleratorRecord}
    (hv : im.state.virtuals[id]? = some v) : im.lasting.virtuals[id]? = some v := by
  obtain hblank | hmirrors := h
  · simp only [VirtualizationState.blank, Bool.and_eq_true, Std.ExtTreeMap.isEmpty_iff] at hblank
    simp [hblank.1.1] at hv
  · exact hmirrors.1 ▸ hv

/-- An assignment in memory counts. -/
theorem Lasts.assignments (h : im.Lasts) {id : BackingAssignmentId} {a : BackingAssignment}
    (ha : im.state.assignments[id]? = some a) : im.lasting.assignments[id]? = some a := by
  obtain hblank | hmirrors := h
  · simp only [VirtualizationState.blank, Bool.and_eq_true, Std.ExtTreeMap.isEmpty_iff] at hblank
    simp [hblank.1.2] at ha
  · exact hmirrors.2.1 ▸ ha

/-- A migration in memory counts. -/
theorem Lasts.migrations (h : im.Lasts) {id : MigrationId} {m : MigrationRecord}
    (hm : im.state.migrations[id]? = some m) : im.lasting.migrations[id]? = some m := by
  obtain hblank | hmirrors := h
  · simp only [VirtualizationState.blank, Bool.and_eq_true, Std.ExtTreeMap.isEmpty_iff] at hblank
    simp [hblank.2] at hm
  · exact hmirrors.2.2 ▸ hm

/-- After a call the records in memory are still among those that count. -/
theorem Lasts.exec (h : im.Lasts) (hs : im.state.Sound Consistent) :
    (im.exec clock op).1.Lasts := by
  obtain ⟨hlasting, hmirrors | hblank⟩ | ⟨hafter, -⟩ := lasting_exec clock op hs
  · refine h.imp (fun hblank => hmirrors.blank ▸ hblank) fun hm => ?_
    rw [hlasting]
    exact hmirrors.symm.trans hm
  · exact .inl hblank
  · exact lasts_of_eq hafter

/-- After an event the records in memory are still among those that count. -/
theorem Lasts.step (hk : im.state.Sound Consistent) (h : im.Lasts)
    (hs : im.step event = some im') : im'.Lasts := by
  have hanswering : ∀ answer, (im.answering answer).Lasts := by
    intro answer
    rw [Lasts, lasting_answering]
    exact h
  cases event with
  | op op clock answer =>
    cases hs
    exact (hanswering answer).exec hk
  | start clock =>
    simp only [Impl.step] at hs
    split at hs
    · rename_i i hstart
      cases hs
      -- a start from an image loads what lasts
      obtain ⟨-, rfl⟩ | ⟨-, base, recovered, hcommitted, -⟩ := start_cases hstart
      · exact hanswering _
      · exact lasts_of_eq (lasting_startCommitted hcommitted)
    · cases hs
  | shutdown clock =>
    simp only [Impl.step] at hs
    split at hs
    · rename_i i hshutdown
      cases hs
      obtain ⟨-, rfl⟩ | ⟨-, im1, im2, -, hclose, rfl⟩ := shutdown_cases hshutdown
      · exact hanswering _
      · exact lasts_of_eq (lasting_closeStore hclose).2.1
    · cases hs
  | compact =>
    cases hs
    have hstate : im.compact.1.state = im.state := by
      unfold compact compactStore
      cases im.store <;> rfl
    rw [Lasts, lasting_compact, hstate]
    exact h
  | boot options =>
    cases hs
    exact .inl rfl

/-- So they are after a run. -/
theorem lasts_run {events : List Event} (hk : Kept False Consistent im) (h : im.Lasts)
    (hr : im.run events = some im') : im'.Lasts := by
  induction events generalizing im with
  | nil =>
    cases hr
    exact h
  | cons event events ih =>
    simp only [Impl.run, List.foldlM_cons, Option.bind_eq_bind, Option.bind_eq_some_iff] at hr
    obtain ⟨im1, hstep, hrest⟩ := hr
    exact ih (hk.step invariant_consistent (keeps_consistent hk event) hstep)
      (h.step hk.state hstep) hrest

/-- In every run the records in memory are among those that count. -/
theorem lasts_of_run {options : RuntimeOptions} {stored : Bool} {events : List Event}
    (hr : (initial options stored).run events = some im) : im.Lasts := by
  refine lasts_run (kept_initial invariant_consistent options stored) (lasts_of_eq ?_) hr
  unfold lasting initial
  cases stored <;> simp

/-- The state that counts is sound. -/
theorem sound_lasting {Q : VirtualizationState → Prop} (hk : Kept False Q im) :
    im.lasting.Sound Q := by
  unfold lasting
  split
  · rename_i d hd
    split
    · cases himage : d.image with
      | none => exact hk.state
      | some image => exact hk.image d image hd himage
    · exact hk.state
  · exact hk.state

end Lasting

end Impl

/-! ### Retirement -/

/-- A virtual accelerator that is retired, and nothing is bound to it, leased of it or assigned to
it. -/
structure VirtualizationState.Buried (s : VirtualizationState)
    (id : VirtualAcceleratorId) : Prop where
  retired : ∀ v : VirtualAcceleratorRecord, s.virtuals[id]? = some v →
    v.state = .retired ∧ v.backing = 0 ∧ v.assignment = 0
  unleased : ∀ (l : LeaseId) (lease : LeaseRecord), s.leases[l]? = some lease →
    lease.virtualId = id → leaseStateIsLive lease.state = false
  unassigned : ∀ (a : BackingAssignmentId) (r : BackingAssignment), s.assignments[a]? = some r →
    r.virtualId = id → r.authoritative = false

/-- A retired virtual accelerator has no lease, no backing and no assignment with authority. -/
theorem VirtualizationState.Consistent.buried {s : VirtualizationState} (h : s.Consistent)
    {id : VirtualAcceleratorId} {v : VirtualAcceleratorRecord} (hv : s.virtuals[id]? = some v)
    (hs : v.state = .retired) : s.Buried id where
  retired w hw := by
    obtain rfl := Option.some.inj (hv.symm.trans hw)
    have hbinding := h.retired id _ (Consistent.seat_of_record hv) hs
    exact ⟨hs, congrArg Prod.snd hbinding, congrArg Prod.fst hbinding⟩
  unleased l lease hl hid := by
    have hq := Consistent.seat_of_record hv
    have hl' := Consistent.lease_of_record hl
    have hactive := h.leased.vacant id _ hq (.inr hs)
    have hlive := h.leased.not_live hq hactive (h.leased.mem_leases hq hl' hid)
    rw [Book.live, hl', Option.any_some] at hlive
    exact hlive
  unassigned a r hr hid := by
    by_contra hauth
    have hgrant : s.ledger.grant a = some r.toGrant := by simp [VirtualizationState.ledger, hr]
    have hparty := h.coherent.pointed a _ hgrant (eq_true_of_ne_false hauth)
    rw [show r.toGrant.party = id from hid] at hparty
    simp only [VirtualizationState.ledger, hv, Option.map_some, Option.some.injEq] at hparty
    have hassignment := h.retired id _ (Consistent.seat_of_record hv) hs
    exact (ref_eq_some.mp (congrArg Pointer.grant hparty)).2 (congrArg Prod.fst hassignment)

/-- Nothing is leased of, or assigned to, a virtual accelerator that is not there. -/
theorem VirtualizationState.Consistent.buried_of_none {s : VirtualizationState} (h : s.Consistent)
    {id : VirtualAcceleratorId} (hv : s.virtuals[id]? = none) : s.Buried id where
  retired w hw := by
    rw [hv] at hw
    cases hw
  unleased l lease hl hid := by
    refine eq_false_of_ne_true fun hlive => ?_
    obtain ⟨q, hq, -⟩ := h.leased.listed l _ (Consistent.lease_of_record hl)
    obtain ⟨v, hv', -⟩ := Consistent.record_of_seat hq
    rw [show (lease.toLease).seat = id from hid, hv] at hv'
    cases hv'
  unassigned a r hr hid := by
    by_contra hauth
    have hgrant : s.ledger.grant a = some r.toGrant := by simp [VirtualizationState.ledger, hr]
    have hparty := h.coherent.pointed a _ hgrant (eq_true_of_ne_false hauth)
    rw [show r.toGrant.party = id from hid] at hparty
    simp [VirtualizationState.ledger, hv] at hparty

/-- Records in memory are buried with those that count. -/
theorem VirtualizationState.Buried.state {im : Impl Disk} {id : VirtualAcceleratorId}
    (hs : im.state.Consistent) (hl : im.Lasts) (h : im.lasting.Buried id) : im.state.Buried id := by
  cases hv : im.state.virtuals[id]? with
  | none => exact hs.buried_of_none hv
  | some v => exact hs.buried hv (h.retired v (hl.virtuals hv)).1

/-- Along every run, an event that loses no record moves each virtual accelerator along an edge of
the life cycle or leaves its state; and what is retired stays retired and unbound through every
further run that loses no record. -/
theorem lifecycle_of_run {options : RuntimeOptions} {stored : Bool} {events : List Event}
    {im : Impl Disk} (h : (Impl.initial options stored).run events = some im) :
    (∀ event im', im.lossless event = true → im.step event = some im' →
      ∀ (id : VirtualAcceleratorId) (v : VirtualAcceleratorRecord),
        im.lasting.virtuals[id]? = some v → ∃ v' : VirtualAcceleratorRecord,
          im'.lasting.virtuals[id]? = some v' ∧
            (v'.state = v.state ∨ isLegalTransition v.state v'.state = true)) ∧
    ∀ later im', im.throughout Impl.lossless later = true → im.run later = some im' →
      ∀ (id : VirtualAcceleratorId) (v : VirtualAcceleratorRecord),
        im.lasting.virtuals[id]? = some v → v.state = .retired →
          im'.lasting.virtuals[id]?.isSome = true ∧ im'.lasting.Buried id ∧
            im'.state.Buried id := by
  have hk := Impl.consistent_of_run h
  constructor
  · intro event im' hl hs id v hv
    have hadv : im.lasting.Advances (im.course event) False im'.lasting :=
      Impl.advances_step hk hl False.elim hs
    obtain ⟨q', hq', hev⟩ := hadv.seat id _ (Consistent.seat_of_record hv)
    obtain ⟨v', hv', rfl⟩ := Consistent.record_of_seat hq'
    exact ⟨v', hv', Impl.course_legal hev.state⟩
  · intro later im' hl hr id v hv hs
    have hadv : im.lasting.Advances (fun _ _ => True) False im'.lasting :=
      Impl.advances_run hk hr hl False.elim
    obtain ⟨q', hq', hev⟩ := hadv.seat id _ (Consistent.seat_of_record hv)
    obtain ⟨v', hv', rfl⟩ := Consistent.record_of_seat hq'
    -- a retired one stays retired, and nothing of it is live in the state reached
    have hk' : Impl.Kept False Consistent im' := hk.of_run Impl.invariant_consistent
      (fun _ event h => Impl.keeps_consistent h event) hr
    have hburied := (Impl.sound_lasting hk').holds.buried hv' (hev.final hs)
    exact ⟨Option.isSome_iff_exists.mpr ⟨v', hv'⟩, hburied,
      hburied.state hk'.state.holds (Impl.lasts_run hk (Impl.lasts_of_run h) hr)⟩

namespace Sample

/-- The authority of tenant 4 over its virtual accelerator 7, in an epoch. -/
def holder (epoch generation : ℕ) : Authority :=
  { epoch := some epoch, tenant := some 4, tenantGeneration := some 1
    virtualId := some 7, virtualGeneration := some generation }

/-- A tenant 4 with a virtual accelerator 7. -/
def provisioned : List Event :=
  [.start clock, call (.createTenant anyone (txt "tenant") []),
    call (.createVirtual anyone (txt "v") 4 1 contract)]

/-- The virtual accelerator is retired. -/
def retired : List Event := provisioned ++ [call (.retireVirtual (holder 1 1) [])]

/-- A new process over the store. -/
def restarted (options : RuntimeOptions) : List Event := [.boot options, .start clock]

/-- A process that does not persist is shut down, and the next one retires the virtual
accelerator. -/
def forgetful : List Event :=
  provisioned ++ [.shutdown clock, .boot { persist := false }, .start clock,
    call (.retireVirtual (holder 2 1) [])]

end Sample

/-- A virtual accelerator that is retired stays so through a restart. -/
theorem lifecycle_retired : ∃ im im', (Impl.initial {} true).run Sample.retired = some im ∧
    im.run (Sample.restarted {}) = some im' ∧ im'.lasting.Buried 7 ∧
    im'.state.virtuals[7]?.isSome = true := by
  have hrun : (((Impl.initial {} true).run Sample.retired).any fun im =>
      (im.lasting.virtuals[7]?.any fun v => v.state = .retired) &&
        (im.throughout Impl.lossless (Sample.restarted {}) &&
          (im.run (Sample.restarted {})).any fun im' => im'.state.virtuals[7]?.isSome)) = true := by
    decide +kernel
  obtain ⟨im, him, hgood⟩ := (Option.any_eq_true _ _).mp hrun
  rw [Bool.and_eq_true, Bool.and_eq_true] at hgood
  obtain ⟨hretired, hlossless, hlater⟩ := hgood
  obtain ⟨v, hv, hs⟩ := (Option.any_eq_true _ _).mp hretired
  obtain ⟨im', him', hthere⟩ := (Option.any_eq_true _ _).mp hlater
  exact ⟨im, im', him, him',
    ((lifecycle_of_run him).2 _ im' hlossless him' 7 v hv (of_decide_eq_true hs)).2.1, hthere⟩

/-- A process that does not persist loses a retirement: after a restart the virtual accelerator is
provisioned again. -/
theorem not_retired_forgetful : ∃ im im', (Impl.initial { persist := false } true).run
      Sample.forgetful = some im ∧
    (im.state.virtuals[7]?.any fun v => v.state = .retired) = true ∧
    im.run (Sample.restarted { persist := false }) = some im' ∧
    (im'.state.virtuals[7]?.any fun v => v.state = .provisioned) = true := by
  have hrun : (((Impl.initial { persist := false } true).run Sample.forgetful).any fun im =>
      (im.state.virtuals[7]?.any fun v => v.state = .retired) &&
        (im.run (Sample.restarted { persist := false })).any fun im' =>
          im'.state.virtuals[7]?.any fun v => v.state = .provisioned) = true := by
    decide +kernel
  obtain ⟨im, him, hbad⟩ := (Option.any_eq_true _ _).mp hrun
  rw [Bool.and_eq_true] at hbad
  obtain ⟨im', him', hlater⟩ := (Option.any_eq_true _ _).mp hbad.2
  exact ⟨im, im', him, hbad.1, him', hlater⟩

/-! ### Fencing -/

/-- A virtual accelerator that is fenced, with its owner, its contract, its binding and its leases
as another record has them, or that is retired. -/
def VirtualAcceleratorRecord.SealedAs (v v' : VirtualAcceleratorRecord) : Prop :=
  v'.state = .retired ∨ v'.state = .fenced ∧ v'.owner = v.owner ∧ v'.contract = v.contract ∧
    v'.assignment = v.assignment ∧ v'.backing = v.backing ∧ v'.leases = v.leases

/-- A fenced virtual accelerator stays sealed through every further run that loses no record and
whose operations leave what is fenced alone. -/
theorem sealed_of_run {options : RuntimeOptions} {stored : Bool} {events later : List Event}
    {im im' : Impl Disk} (h : (Impl.initial options stored).run events = some im)
    (hl : im.throughout Impl.lossless later = true) (hs : im.throughout Impl.seals later = true)
    (hr : im.run later = some im') {id : VirtualAcceleratorId} {v : VirtualAcceleratorRecord}
    (hv : im.lasting.virtuals[id]? = some v) (hf : v.state = .fenced) :
    (∃ v' : VirtualAcceleratorRecord, im'.lasting.virtuals[id]? = some v' ∧ v.SealedAs v') ∧
      ∀ v' : VirtualAcceleratorRecord, im'.state.virtuals[id]? = some v' → v.SealedAs v' := by
  have hk := Impl.consistent_of_run h
  have hadv : im.lasting.Advances (fun _ _ => True) True im'.lasting :=
    Impl.advances_run hk hr hl fun _ => hs
  obtain ⟨q', hq', hev⟩ := hadv.seat id _ (Consistent.seat_of_record hv)
  obtain ⟨v', hv', rfl⟩ := Consistent.record_of_seat hq'
  have hsealed : v.SealedAs v' := by
    -- the only way out of `Fenced` is retirement
    obtain hret | ⟨hf', howner, hcontract, hbinding, hleases⟩ := hev.fenced trivial hf
    · exact .inl hret
    · exact .inr ⟨hf', howner, hcontract, congrArg Prod.fst hbinding, congrArg Prod.snd hbinding,
        hleases⟩
  refine ⟨⟨v', hv', hsealed⟩, fun w hw => ?_⟩
  have hw' := (Impl.lasts_run hk (Impl.lasts_of_run h) hr).virtuals hw
  rw [Option.some.inj (hw'.symm.trans hv')]
  exact hsealed

namespace Sample

/-- The virtual accelerator 7 of tenant 4 is fenced; there is another tenant 12. -/
def fenced : List Event :=
  provisioned ++
    [call (.createTenant anyone (txt "other") []), call (.fenceVirtual (holder 1 1) [])]

end Sample

/-- A virtual accelerator that is fenced stays so through a restart. -/
theorem sealed_restarted : ∃ im im' v v', (Impl.initial {} true).run Sample.fenced = some im ∧
    im.run (Sample.restarted {}) = some im' ∧ im.lasting.virtuals[7]? = some v ∧
    v.state = .fenced ∧ im'.lasting.virtuals[7]? = some v' ∧ v.SealedAs v' := by
  have hrun : (((Impl.initial {} true).run Sample.fenced).any fun im =>
      (im.lasting.virtuals[7]?.any fun v => v.state = .fenced) &&
        (im.throughout Impl.lossless (Sample.restarted {}) &&
          (im.throughout Impl.seals (Sample.restarted {}) &&
            (im.run (Sample.restarted {})).isSome))) = true := by
    decide +kernel
  obtain ⟨im, him, hgood⟩ := (Option.any_eq_true _ _).mp hrun
  rw [Bool.and_eq_true, Bool.and_eq_true, Bool.and_eq_true] at hgood
  obtain ⟨hfenced, hlossless, hseals, hlater⟩ := hgood
  obtain ⟨v, hv, hf⟩ := (Option.any_eq_true _ _).mp hfenced
  obtain ⟨im', him'⟩ := Option.isSome_iff_exists.mp hlater
  obtain ⟨⟨v', hv', hsealed⟩, -⟩ :=
    sealed_of_run him hlossless hseals him' hv (of_decide_eq_true hf)
  exact ⟨im, im', v, v', him, him', hv, of_decide_eq_true hf, hv', hsealed⟩

/-- A fenced virtual accelerator is transferred to another tenant. -/
theorem not_sealed_transfer : ∃ im im' v v', (Impl.initial {} true).run Sample.fenced = some im ∧
    im.run [Sample.call (.transferOwnership (Sample.holder 1 2) 12 1)] = some im' ∧
    im.state.virtuals[7]? = some v ∧ v.state = .fenced ∧ im'.state.virtuals[7]? = some v' ∧
    ¬ v.SealedAs v' := by
  have hrun : (((Impl.initial {} true).run Sample.fenced).any fun im =>
      (im.state.virtuals[7]?.any fun v => v.state = .fenced && v.owner = 4) &&
        (im.run [Sample.call (.transferOwnership (Sample.holder 1 2) 12 1)]).any fun im' =>
          im'.state.virtuals[7]?.any fun v' => v'.state = .fenced && v'.owner = 12) = true := by
    decide +kernel
  obtain ⟨im, him, hbad⟩ := (Option.any_eq_true _ _).mp hrun
  rw [Bool.and_eq_true] at hbad
  obtain ⟨v, hv, hfenced⟩ := (Option.any_eq_true _ _).mp hbad.1
  obtain ⟨im', him', hlater⟩ := (Option.any_eq_true _ _).mp hbad.2
  obtain ⟨v', hv', hmoved⟩ := (Option.any_eq_true _ _).mp hlater
  simp only [Bool.and_eq_true, decide_eq_true_eq] at hfenced hmoved
  refine ⟨im, im', v, v', him, him', hv, hfenced.1, hv', ?_⟩
  rintro (hretired | ⟨-, howner, -⟩)
  · rw [hmoved.1] at hretired
    cases hretired
  · rw [hmoved.2, hfenced.2] at howner
    cases howner

/-! ### Revocation -/

/-- The stage of an assignment with authority. -/
theorem BackingAssignment.stage_active {a : BackingAssignment} :
    a.stage = .active ↔ a.authoritative = true := by
  unfold stage
  split
  · simp [*]
  · split <;> simp [*]

/-- The progress of a migration that was committed. -/
theorem MigrationState.progress_done {state : MigrationState} :
    state.progress = .done ↔ state = .committed := by
  cases state <;> simp [progress]

/-- The progress of a migration that was aborted. -/
theorem MigrationState.progress_aborted {state : MigrationState} :
    state.progress = .aborted ↔ state = .aborted := by
  cases state <;> simp [progress]

/-- What three moments of a history have in common: authority that was taken away does not come
back, a migration that was carried out is not carried out again, the source of a migration after
its cutover has no authority, nor has the destination of one that was aborted. -/
structure Irrevocable (s t u : VirtualizationState) : Prop where
  authority : ∀ (id : BackingAssignmentId) (a a' a'' : BackingAssignment),
    s.assignments[id]? = some a → t.assignments[id]? = some a' → u.assignments[id]? = some a'' →
    a.authoritative = true → a'.authoritative = false → a''.authoritative = false
  committed : ∀ (id : MigrationId) (m m' m'' : MigrationRecord),
    s.migrations[id]? = some m → t.migrations[id]? = some m' → u.migrations[id]? = some m'' →
    m.state = .committed → m'.state ≠ .committed → m''.state ≠ .committed
  source : ∀ (id : MigrationId) (m : MigrationRecord) (a : BackingAssignment),
    s.migrations[id]? = some m → migrationStateAfterCutover m.state = true →
    t.assignments[m.sourceAssignment]? = some a → a.authoritative = false
  destination : ∀ (id : MigrationId) (m : MigrationRecord) (a : BackingAssignment),
    s.migrations[id]? = some m → m.state = .aborted →
    t.assignments[m.destinationAssignment]? = some a → a.authoritative = false

section

variable {D : VirtualLifecycleState → VirtualLifecycleState → Prop} {s t u : VirtualizationState}

/-- The stage that the register has for an assignment. -/
theorem VirtualizationState.stage_of_record {id : BackingAssignmentId} {a : BackingAssignment}
    (h : s.assignments[id]? = some a) : s.register.stage id = some a.stage := by
  simp only [VirtualizationState.register, h, Option.map_some]

/-- The passage that the register has for a migration. -/
theorem VirtualizationState.passage_of_record {id : MigrationId} {m : MigrationRecord}
    (h : s.migrations[id]? = some m) : s.register.passage id = some m.toPassage := by
  simp only [VirtualizationState.register, h, Option.map_some]

/-- An assignment that ended stays ended. -/
theorem VirtualizationState.Advances.ended (h : s.Advances D False t) {id : BackingAssignmentId}
    {a : BackingAssignment} (hs : s.register.stage id = some .ended)
    (ha : t.assignments[id]? = some a) : a.authoritative = false := by
  obtain ⟨stage, hstage, hle⟩ := h.stage id _ hs
  obtain rfl := Option.some.inj (hstage.symm.trans (stage_of_record ha))
  refine eq_false_of_ne_true fun hauth => ?_
  rw [BackingAssignment.stage_active.mpr hauth] at hle
  exact absurd hle (by decide)

/-- An assignment whose authority was taken away has ended. -/
theorem VirtualizationState.Advances.revoked (h : s.Advances D False t) {id : BackingAssignmentId}
    {a a' : BackingAssignment} (ha : s.assignments[id]? = some a)
    (ha' : t.assignments[id]? = some a') (hauth : a.authoritative = true)
    (hauth' : a'.authoritative = false) : t.register.stage id = some .ended := by
  obtain ⟨stage, hstage, hle⟩ := h.stage id _ (stage_of_record ha)
  obtain rfl := Option.some.inj (hstage.symm.trans (stage_of_record ha'))
  rw [BackingAssignment.stage_active.mpr hauth] at hle
  rw [hstage, Option.some.injEq]
  have hne : a'.stage ≠ .active := fun hc => by
    rw [BackingAssignment.stage_active.mp hc] at hauth'
    cases hauth'
  revert hle hne
  cases a'.stage <;> simp [Stage.rank]

/-- A migration that was carried out comes to its end, or stays. -/
theorem VirtualizationState.Advances.done (h : s.Advances D False t) {id : MigrationId}
    {m m' : MigrationRecord} (hm : s.migrations[id]? = some m) (hm' : t.migrations[id]? = some m')
    (hs : m.state.progress = .done ∨ m.state.progress = .completed) :
    m'.state.progress = .completed ∨ m'.state.progress = m.state.progress := by
  obtain ⟨p, hp, hbefore⟩ := h.passage id _ (passage_of_record hm)
  obtain rfl := Option.some.inj (hp.symm.trans (passage_of_record hm'))
  have hprogress : m.state.progress.Before m'.state.progress := hbefore.progress
  revert hprogress
  generalize m'.state.progress = p'
  generalize m.state.progress = p at hs
  rintro (_ | _ | hp | _ | hp)
  · exact .inr rfl
  · obtain hs | hs := hs <;> cases hs
  · obtain rfl | rfl := hp <;> obtain hs | hs := hs <;> cases hs
  · exact .inl rfl
  · obtain rfl | rfl := hp <;> obtain hs | hs := hs <;> cases hs

/-- What advances does not come back. -/
theorem irrevocable_of_advances (hw : t.WellKeyed) (hs : s.Consistent) (h : s.Advances D False t)
    (h' : t.Advances D False u) : Irrevocable s t u where
  authority id a a' a'' ha ha' ha'' hauth hauth' := h'.ended (h.revoked ha ha' hauth hauth') ha''
  committed id m m' m'' hm hm' hm'' hc hc' := by
    have hdone : m.state.progress = .done := MigrationState.progress_done.mpr hc
    have hcompleted : m'.state.progress = .completed := by
      refine (h.done hm hm' (.inl hdone)).resolve_right fun heq => ?_
      exact hc' (MigrationState.progress_done.mp (heq.trans hdone))
    intro hc''
    have hdone'' := MigrationState.progress_done.mpr hc''
    obtain heq | heq := h'.done hm' hm'' (.inr hcompleted) <;>
      simp [hdone'', hcompleted] at heq
  source id m a hm hcut ha := by
    refine h.ended (hs.orderly.settled id _ (passage_of_record hm) ?_) ha
    have hknown := hs.orderly.known id _ (passage_of_record hm)
    revert hcut hknown
    simp only [MigrationRecord.toPassage]
    cases m.state <;> simp [migrationStateAfterCutover, MigrationState.progress]
  destination id m a hm hab ha := by
    by_cases h0 : m.destinationAssignment = 0
    · rw [h0, show t.assignments[0]? = none from hw.zero .assignment] at ha
      cases ha
    · refine h.ended (hs.orderly.dropped id _ _ (passage_of_record hm) ?_ (ref_of_ne h0)) ha
      exact MigrationState.progress_aborted.mpr hab

end

/-- Along every run that loses no record, revoked authority does not return. -/
theorem irrevocable_of_run {options : RuntimeOptions} {stored : Bool}
    {events later last : List Event} {im im' im'' : Impl Disk}
    (h : (Impl.initial options stored).run events = some im)
    (hl : im.throughout Impl.lossless later = true) (hr : im.run later = some im')
    (hl' : im'.throughout Impl.lossless last = true) (hr' : im'.run last = some im'') :
    Irrevocable im.lasting im'.lasting im''.lasting ∧
      Irrevocable im.state im'.state im''.state := by
  have hk := Impl.consistent_of_run h
  have hk' : Impl.Kept False Consistent im' := hk.of_run Impl.invariant_consistent
    (fun _ event h => Impl.keeps_consistent h event) hr
  have hlasting : Irrevocable im.lasting im'.lasting im''.lasting :=
    irrevocable_of_advances (Impl.sound_lasting hk').wellKeyed (Impl.sound_lasting hk).holds
      (Impl.advances_run hk hr hl False.elim) (Impl.advances_run hk' hr' hl' False.elim)
  -- what is in memory is also what lasts, so the second part follows from the first
  have hm := Impl.lasts_of_run h
  have hm' := Impl.lasts_run hk hm hr
  have hm'' := Impl.lasts_run hk' hm' hr'
  refine ⟨hlasting, ?_, ?_, ?_, ?_⟩
  · intro id a a' a'' ha ha' ha''
    exact hlasting.authority id a a' a'' (hm.assignments ha) (hm'.assignments ha')
      (hm''.assignments ha'')
  · intro id m m' m'' h1 h2 h3
    exact hlasting.committed id m m' m'' (hm.migrations h1) (hm'.migrations h2) (hm''.migrations h3)
  · intro id m a h1 hcut h2
    exact hlasting.source id m a (hm.migrations h1) hcut (hm'.assignments h2)
  · intro id m a h1 hab h2
    exact hlasting.destination id m a (hm.migrations h1) hab (hm'.assignments h2)

namespace Sample

/-- The planned migration is prepared and carried out. -/
def carriedOut : List Event :=
  [call (.prepareMigration (mover 14 2 28 1)), call (.commitMigration (mover 14 3 28 2))]

/-- Virtual accelerator 14 is assigned backing 7, and a process that does not persist takes
over. -/
def inherited : List Event :=
  planned.take 7 ++ [.shutdown clock, .boot { persist := false }, .start clock]

/-- It retires the virtual accelerator. -/
def withdrawn : List Event := [call (.retireVirtual { owner 14 2 with epoch := some 2 } [])]

/-- Whether an assignment is there and has, or has not, authority. -/
def authority (s : VirtualizationState) (id : BackingAssignmentId) (authoritative : Bool) : Bool :=
  s.assignments[id]?.any fun a => a.authoritative == authoritative

end Sample

/-- A migration that was carried out takes the authority of its source away for good. -/
theorem irrevocable_moved : ∃ im im' im'',
    (Impl.initial {} true).run Sample.planned = some im ∧ im.run Sample.carriedOut = some im' ∧
    im'.run (Sample.restarted {}) = some im'' ∧ Irrevocable im.state im'.state im''.state ∧
    Sample.authority im.state 24 true = true ∧ Sample.authority im'.state 24 false = true ∧
    Sample.authority im''.state 24 false = true := by
  have hrun : (((Impl.initial {} true).run Sample.planned).any fun im =>
      im.throughout Impl.lossless Sample.carriedOut && (Sample.authority im.state 24 true &&
        (im.run Sample.carriedOut).any fun im' =>
          im'.throughout Impl.lossless (Sample.restarted {}) &&
            (Sample.authority im'.state 24 false &&
              (im'.run (Sample.restarted {})).any fun im'' =>
                Sample.authority im''.state 24 false))) = true := by
    decide +kernel
  obtain ⟨im, him, hgood⟩ := (Option.any_eq_true _ _).mp hrun
  rw [Bool.and_eq_true, Bool.and_eq_true] at hgood
  obtain ⟨hl, ha, hlater⟩ := hgood
  obtain ⟨im', him', hgood'⟩ := (Option.any_eq_true _ _).mp hlater
  rw [Bool.and_eq_true, Bool.and_eq_true] at hgood'
  obtain ⟨hl', ha', hlast⟩ := hgood'
  obtain ⟨im'', him'', ha''⟩ := (Option.any_eq_true _ _).mp hlast
  exact ⟨im, im', im'', him, him', him'', (irrevocable_of_run him hl him' hl' him'').2, ha, ha',
    ha''⟩

/-- A process that does not persist loses a revocation: after a restart the assignment has its
authority again. -/
theorem not_irrevocable_withdrawn : ∃ im im' im'',
    (Impl.initial { persist := false } true).run Sample.inherited = some im ∧
    im.run Sample.withdrawn = some im' ∧
    im'.run (Sample.restarted { persist := false }) = some im'' ∧
    ¬ Irrevocable im.state im'.state im''.state := by
  have hrun : (((Impl.initial { persist := false } true).run Sample.inherited).any fun im =>
      Sample.authority im.state 24 true && (im.run Sample.withdrawn).any fun im' =>
        Sample.authority im'.state 24 false &&
          (im'.run (Sample.restarted { persist := false })).any fun im'' =>
            Sample.authority im''.state 24 true) = true := by
    decide +kernel
  obtain ⟨im, him, hbad⟩ := (Option.any_eq_true _ _).mp hrun
  rw [Bool.and_eq_true] at hbad
  obtain ⟨im', him', hbad'⟩ := (Option.any_eq_true _ _).mp hbad.2
  rw [Bool.and_eq_true] at hbad'
  obtain ⟨im'', him'', hbad''⟩ := (Option.any_eq_true _ _).mp hbad'.2
  obtain ⟨a, ha, hauth⟩ := (Option.any_eq_true _ _).mp hbad.1
  obtain ⟨a', ha', hauth'⟩ := (Option.any_eq_true _ _).mp hbad'.1
  obtain ⟨a'', ha'', hauth''⟩ := (Option.any_eq_true _ _).mp hbad''
  refine ⟨im, im', im'', him, him', him'', fun h => ?_⟩
  have hfalse := h.authority 24 a a' a'' ha ha' ha'' (eq_of_beq hauth) (eq_of_beq hauth')
  rw [eq_of_beq hauth''] at hfalse
  cases hfalse

end AcceleratorVirtualization
