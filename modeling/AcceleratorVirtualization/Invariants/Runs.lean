import AcceleratorVirtualization.Invariants.Effects

/-!
# Whole runs

A property of states that every body keeps holds in every state a run reaches: after operations
that were accepted, refused or rolled back, after restarts, and in the durable image a restart
loads. The image and the state agree on all records but the tenants; a transfer whose write
failed leaves what the tenants of the state own and use changed.
-/

namespace AcceleratorVirtualization

open VirtualizationState Custody

/-! ### Sound states -/

/-- The records carry their identities and the state has the property. -/
structure VirtualizationState.Sound (Q : VirtualizationState → Prop) (s : VirtualizationState) :
    Prop where
  wellKeyed : s.WellKeyed
  holds : Q s

/-- A property of the ledger. -/
def VirtualizationState.onLedger (P : Ledger ℕ ℕ ℕ ℕ → Prop) (s : VirtualizationState) : Prop :=
  P s.ledger

/-- What the image and the state have in common. -/
structure VirtualizationState.Agrees (T : Prop) (image s : VirtualizationState) : Prop where
  alike : image.Alike T s
  nextSequence : image.nextSequence ≤ s.nextSequence

variable {T : Prop} {P : Ledger ℕ ℕ ℕ ℕ → Prop} {Q : VirtualizationState → Prop}
variable {s t image : VirtualizationState}

/-- A state agrees with itself. -/
theorem VirtualizationState.Agrees.refl : s.Agrees T s := ⟨.refl, Nat.le_refl _⟩

/-- Agreement with the image is kept where the state agrees with the one before. -/
theorem VirtualizationState.Agrees.trans (h : image.Agrees T s) (h' : s.Agrees T t) :
    image.Agrees T t :=
  ⟨h.alike.trans h'.alike, h.nextSequence.trans h'.nextSequence⟩

/-- A property of the ledger does not tell apart states that agree. -/
theorem VirtualizationState.respects_onLedger : Respects T (onLedger P) := fun s t h hP => by
  rw [onLedger, ← h.ledger]
  exact hP

/-- A merged image has identities and agrees with the new state. -/
theorem VirtualizationState.Agrees.merge {new : VirtualizationState} {c : ChangeSet}
    (hi : image.WellKeyed) (hn : new.WellKeyed) (hle : image.nextSequence ≤ new.nextSequence)
    (hh : c.header = true)
    (hk : ∀ k, k ≠ .tenant → ∀ id, id ∉ c.ids k → image.find k id = new.find k id)
    (hstanding : ∀ id, id ∉ c.ids .tenant →
      image.tenants[id]?.map TenantRecord.standing = new.tenants[id]?.map TenantRecord.standing)
    (htenants : T → ∀ id, id ∉ c.ids .tenant → image.tenants[id]? = new.tenants[id]?) :
    (Disk.merge image new c).WellKeyed ∧ (Disk.merge image new c).Agrees T new := by
  obtain ⟨-, hseq, hepoch, hpolicy, hgeneration, haccounting⟩ := Disk.scalars_merge image new hh
  have hfind : ∀ id, (Disk.merge image new c).tenants[id]? =
      if id ∈ c.ids .tenant then new.tenants[id]? else image.tenants[id]? :=
    Disk.find_merge image new c .tenant
  have hagrees : (Disk.merge image new c).Agrees T new := by
    refine ⟨⟨fun k hne => Std.ExtTreeMap.ext_getElem? fun id => ?_, fun id => ?_, fun hT =>
      Std.ExtTreeMap.ext_getElem? fun id => ?_, hepoch, hpolicy, hgeneration,
      congrArg _ haccounting⟩, hseq.le⟩
    · change (Disk.merge image new c).find k id = new.find k id
      rw [Disk.find_merge]
      split
      · rfl
      · rename_i hid
        exact hk k hne id hid
    · rw [hfind]
      split
      · rfl
      · rename_i hid
        exact hstanding id hid
    · rw [hfind]
      split
      · rfl
      · rename_i hid
        exact htenants hT id hid
  -- a merged record comes from the state or from the image
  have hrec : ∀ k id r, (Disk.merge image new c).find k id = some r →
      new.find k id = some r ∨ image.find k id = some r := by
    intro k id r hr
    rw [Disk.find_merge] at hr
    split at hr
    · exact .inl hr
    · exact .inr hr
  refine ⟨⟨fun k id r hr => ?_, fun k id r hr => ?_, hseq ▸ hn.started⟩, hagrees⟩
  · obtain hr | hr := hrec k id r hr
    · exact hn.keyed k id r hr
    · exact hi.keyed k id r hr
  · rw [hseq]
    obtain hr | hr := hrec k id r hr
    · exact hn.issued k id r hr
    · obtain ⟨h0, hlt⟩ := hi.issued k id r hr
      exact ⟨h0, Nat.lt_of_lt_of_le hlt hle⟩

namespace Impl

/-! ### The invariant of a run -/

/-- The state and the image are sound. The image of a store that is written to agrees with the
state, also in its tenants if `T`. -/
structure Kept (T : Prop) (Q : VirtualizationState → Prop) (im : Impl Disk) : Prop where
  state : im.state.Sound Q
  image : ∀ d image, im.store = some d → d.image = some image → image.Sound Q
  written : ∀ d, im.store = some d → d.opened = true → im.options.persist = true →
    ∃ image, d.image = some image ∧ image.Agrees T im.state

variable {im s im' : Impl Disk} {r : Impl Disk × Except Failure Unit}

/-- What the store will answer is of no concern to the invariant. -/
theorem Kept.answering (h : Kept T Q im) (answer : Check) : Kept T Q (im.answering answer) := by
  refine ⟨h.state, ?_, ?_⟩
  · intro d image hd
    obtain ⟨d', hd', rfl⟩ := Option.map_eq_some_iff.mp hd
    exact h.image d' image hd'
  · intro d hd
    obtain ⟨d', hd', rfl⟩ := Option.map_eq_some_iff.mp hd
    exact h.written d' hd'

/-- A call that did not reach the store leaves a state that agrees with the one it found. -/
theorem Unwritten.agrees {σ : Type} {im : Impl σ} {r : Impl σ × Except Failure Unit}
    (hr : Unwritten im r) : im.state.Agrees T r.1.state := by
  obtain ⟨n, hn, hs⟩ := hr.state
  rw [hs]
  exact ⟨.of_entities rfl rfl rfl rfl rfl, hn⟩

/-- What is not written leaves the tables keyed. -/
theorem Unwritten.wellKeyed {σ : Type} {im : Impl σ} {r : Impl σ × Except Failure Unit}
    (hr : Unwritten im r) (hw : im.state.WellKeyed) : r.1.state.WellKeyed := by
  obtain ⟨n, hn, hs⟩ := hr.state
  rw [hs]
  exact hw.advance rfl hn

/-- What is not written keeps the invariant. -/
theorem Kept.unwritten (hq : Respects T Q) (h : Kept T Q im) (hr : Unwritten im r) :
    Kept T Q r.1 := by
  refine ⟨⟨hr.wellKeyed h.state.wellKeyed, hq hr.agrees.alike h.state.holds⟩, ?_, ?_⟩
  · rw [hr.store]
    exact h.image
  · rw [hr.store, hr.options]
    intro d hd ho hp
    obtain ⟨image, himage, ha⟩ := h.written d hd ho hp
    exact ⟨image, himage, ha.trans hr.agrees⟩

/-- A change set is not written, or it is merged into the image, or the store refuses it. -/
theorem persistChanges_cases (im : Impl Disk) :
    (im.persistChanges = (im.store, .ok ()) ∧
      (im.store = none ∨ im.options.persist = false ∨ im.changes.empty = true)) ∨
    (∃ d, im.store = some d ∧ im.options.persist = true ∧ d.opened = true ∧
      im.persistChanges =
        (some { d with image := some (Disk.merge (d.image.getD {}) im.state im.changes) },
          .ok ())) ∨
    ∃ status, im.persistChanges = (im.store, .error status) := by
  unfold persistChanges
  cases hd : im.store with
  | none => exact .inl ⟨rfl, .inl rfl⟩
  | some d =>
    cases hp : im.options.persist
    · exact .inl ⟨by simp, .inr (.inl rfl)⟩
    cases he : im.changes.empty
    · right
      simp only [DurableStore.applyChanges, Bool.not_false, Bool.and_self, if_true]
      cases ho : d.opened with
      | false => exact .inr ⟨_, rfl⟩
      | true =>
        cases ha : d.answer with
        | ok u => exact .inl ⟨d, rfl, trivial, ho, by simp [ho, ha]⟩
        | error status => exact .inr ⟨status, rfl⟩
    · exact .inl ⟨by simp, .inr (.inr rfl)⟩

/-- The windows are part of no property. -/
theorem alike_extended {σ : Type} (im : Impl σ) : im.state.Alike T im.extended.state :=
  .symm (.of_entities (entities_extended im) rfl rfl rfl rfl)

/-- Extending the windows keeps a state sound. -/
theorem Sound.extended {σ : Type} {im : Impl σ} (hq : Respects True Q) (h : im.state.Sound Q) :
    im.extended.state.Sound Q :=
  ⟨h.wellKeyed.advance (entities_extended im) (Nat.le_refl _), hq (alike_extended im) h.holds⟩

/-- Whether a change set that is handed over now is taken. -/
def writable (im : Impl Disk) : Bool :=
  match im.store with
  | none => true
  | some d => !im.options.persist || (d.opened && d.answer.isOk)

/-- A commit that succeeds was handed to a store that takes change sets. -/
theorem Written.writable_of_commit (hw : Written im s im' r) (h : im'.commit.2 = .ok ()) :
    im.writable = true := by
  have hstore : im'.extended.store = im.store := hw.ready.store.trans hw.store
  have hoptions : im'.extended.options = im.options := hw.ready.options.trans hw.options
  obtain ⟨store, hp, -⟩ | ⟨store, status, -, hcommit⟩ := commit_cases im'
  · unfold persistChanges at hp
    unfold writable
    rw [hstore, hoptions] at hp
    split
    · rfl
    · rename_i d hd
      cases hpersist : im.options.persist
      · rfl
      · simp only [hd, hw.ready.nonempty, hpersist, DurableStore.applyChanges, Bool.not_false,
          Bool.and_self, if_true] at hp
        cases ho : d.opened with
        | false => simp [ho] at hp
        | true =>
          cases ha : d.answer with
          | ok u => rfl
          | error status => simp [ho, ha] at hp
  · rw [hcommit] at h
    cases h

/-- A commit keeps the invariant, whatever the store answers. -/
theorem Kept.commit (hq : Respects T Q) (h : Kept T Q im) (hw : Written im s im' r)
    (hQ : im.writable = true → Q im'.state)
    (hT : T → ∀ status, im'.commit.2 = .error status → s.state.tenants = im.state.tenants) :
    Kept T Q im'.commit.1 := by
  have hready := hw.ready
  have hstore : im'.extended.store = im.store := hready.store.trans hw.store
  have hoptions : im'.extended.options = im.options := hready.options.trans hw.options
  have hseq : im.state.nextSequence ≤ im'.state.nextSequence := hw.grown.le
  have hbase : ∀ k, k ≠ .tenant → s.state.entities k = im.state.entities k :=
    hw.displaced.alike.entities
  obtain ⟨store, hp, hcommit⟩ | ⟨store, status, hp, hcommit⟩ := commit_cases im'
  · have hnew : im'.extended.state.Sound Q := Sound.extended (hq.mono fun _ => trivial)
      ⟨hready.wellKeyed, hQ (hw.writable_of_commit (by rw [hcommit]))⟩
    rw [hcommit]
    obtain ⟨hp', hnone⟩ | ⟨d, hd, hpersist, hopen, hp'⟩ | ⟨status, hp'⟩ :=
      persistChanges_cases im'.extended
    · -- Nothing is written: there is no store, or persistence is off.
      obtain rfl : im'.extended.store = store := congrArg Prod.fst (hp'.symm.trans hp)
      refine ⟨hnew, fun d image hd => h.image d image (hstore ▸ hd), fun d hd _ hpersist => ?_⟩
      obtain hno | hoff | hempty := hnone
      · simp [hno] at hd
      · rw [show im'.extended.options.persist = true from hpersist] at hoff
        cases hoff
      · rw [hready.nonempty] at hempty
        cases hempty
    · -- The image takes the change set.
      obtain rfl := congrArg Prod.fst (hp'.symm.trans hp)
      obtain ⟨image, himage, ha⟩ := h.written d (hstore ▸ hd) hopen (hoptions ▸ hpersist)
      have huntouched : ∀ k id, id ∉ im'.changes.ids k →
          im'.extended.state.find k id = s.state.find k id := fun k id hid => by
        rw [find, entities_extended]
        exact hready.untouched k id (mt (hready.listed k id).mpr hid)
      have htenant : ∀ id, id ∉ im'.changes.ids .tenant →
          im'.extended.state.tenants[id]? = im.state.tenants[id]? := fun id hid =>
        (huntouched .tenant id hid).trans (hw.tenants id hid)
      obtain ⟨hkeyed, hagrees⟩ := Agrees.merge (T := T) (h.image d image (hstore ▸ hd)
        himage).wellKeyed hnew.wellKeyed (ha.nextSequence.trans hseq) hready.header
        (fun k hk id hid => by
          rw [huntouched k id hid, find, ha.alike.entities k hk, ← hbase k hk, find])
        (fun id hid => by rw [ha.alike.standing, htenant id hid])
        fun hT id hid => by rw [ha.alike.tenants hT, htenant id hid]
      refine ⟨hnew, ?_, ?_⟩
      · rintro _ _ ⟨⟩ ⟨⟩
        rw [himage]
        exact ⟨hkeyed, hq hagrees.alike.symm hnew.holds⟩
      · rintro _ ⟨⟩ - -
        exact ⟨_, rfl, himage ▸ hagrees⟩
    · rw [hp'] at hp
      cases hp
  · -- The write failed and the state is rolled back.
    obtain ⟨hp', -⟩ | ⟨d, -, -, -, hp'⟩ | ⟨status', hp'⟩ := persistChanges_cases im'.extended
    · rw [hp'] at hp
      cases hp
    · rw [hp'] at hp
      cases hp
    · obtain rfl : im'.extended.store = store := congrArg Prod.fst (hp'.symm.trans hp)
      have hundo := hready.undoes im'.extended.store status
      obtain ⟨hseq', hepoch, hpolicy, hgeneration, haccounting, -⟩ := hundo.scalars_rollback
      have hs : s.state.Alike T im.state :=
        { hw.displaced.alike with tenants := fun ht => hT ht _ (by rw [hcommit]) }
      have hagrees : im.state.Agrees T (rollback { im'.extended with
          store := im'.extended.store, storeFailed := true, storeFailure := status }).state :=
        ⟨hs.symm.trans (.symm (.of_entities (funext hundo.entities_rollback) hepoch hpolicy
          hgeneration (congrArg _ haccounting))), hseq' ▸ hw.displaced.advanced⟩
      rw [hcommit]
      refine ⟨⟨?_, hq hagrees.alike h.state.holds⟩, ?_, ?_⟩
      · exact hw.displaced.wellKeyed.advance (funext hundo.entities_rollback) hseq'.ge
      · exact fun d image hd => h.image d image (hstore ▸ hd)
      · intro d hd hopen hpersist
        obtain ⟨image, himage, ha⟩ := h.written d (hstore ▸ hd) hopen (hoptions ▸ hpersist)
        exact ⟨image, himage, ha.trans hagrees⟩

/-- A store that takes change sets takes the one of a commit. -/
theorem Written.commit_of_writable (hw : Written im s im' r) (h : im.writable = true)
    (status : Status) : im'.commit.2 ≠ .error status := by
  intro hc
  obtain ⟨store, hp, hcommit⟩ | ⟨store, status', hp, hcommit⟩ := commit_cases im'
  · rw [hcommit] at hc
    cases hc
  · have hstore : im'.extended.store = im.store := hw.ready.store.trans hw.store
    have hoptions : im'.extended.options = im.options := hw.ready.options.trans hw.options
    unfold persistChanges at hp
    unfold writable at h
    rw [hstore, hoptions] at hp
    split at hp
    · rename_i d hd
      simp only [hd] at h
      cases hpersist : im.options.persist
      · simp [hpersist] at hp
      · simp only [hpersist, Bool.not_true, Bool.false_or, Bool.and_eq_true] at h
        cases ha : d.answer with
        | ok u => simp [hw.ready.nonempty, hpersist, DurableStore.applyChanges, h.1, ha] at hp
        | error e => simp [ha, Except.isOk, Except.toBool] at h
    · cases hp

/-- What is required unless the store takes no change sets is required if it takes them. -/
theorem of_writable {c : Bool} (h : (!im.writable || c) = true) (hw : im.writable = true) :
    c = true := by
  simpa only [hw, Bool.not_true, Bool.false_or] using h

/-- An operation keeps the invariant if its body and the classification keep the property, unless
the store does not take the change set. -/
theorem Kept.exec (hq : Respects T Q) (h : Kept T Q im) {clock : Clock} {op : Op}
    (hd : im.writable = true → Does Q im clock op)
    (hT : T → im.transfers op = false ∨ im.writable = true) :
    Kept T Q (im.exec clock op).1 := by
  have hq' : Respects True fun t => im.writable = true → Q t :=
    fun _ _ ha hQ hwritable => hq.mono (fun _ => trivial) ha (hQ hwritable)
  have hd' : Does (fun t => im.writable = true → Q t) im clock op :=
    ⟨fun hwritable => (hd hwritable).idle, fun b hb hwritable => (hd hwritable).body b hb,
      fun hop hwritable => (hd hwritable).classified hop⟩
  obtain hr | ⟨s, im', hw, hQ, -, htenants, -⟩ := exec_cases hq' h.state.wellKeyed hd'
  · exact h.unwritten hq hr
  · rw [hw.committed]
    refine h.commit hq hw hQ fun ht status hfailed => ?_
    obtain hno | hwritable := hT ht
    · exact htenants hno
    · exact absurd hfailed (hw.commit_of_writable hwritable status)

/-! ### Start and shutdown -/

/-- A store that was compacted holds the state. -/
theorem Kept.compacted (h : im.state.Sound Q) (hc : im.compactStore = (im', .ok ())) :
    Kept T Q im' := by
  unfold compactStore at hc
  split at hc
  · rename_i hnone
    cases hc
    exact ⟨h, fun d image hd => by simp [hnone] at hd, fun d hd => by simp [hnone] at hd⟩
  · rename_i d hd
    simp only [DurableStore.compact] at hc
    split at hc
    · cases hc
      refine ⟨h, ?_, ?_⟩
      · rintro _ _ ⟨⟩ ⟨⟩
        exact h
      · rintro _ ⟨⟩ - -
        exact ⟨_, rfl, .refl⟩
    · cases hc

/-- A compaction of a store that is not open changes nothing. -/
theorem Kept.compact (h : Kept T Q im) : Kept T Q im.compact.1 := by
  unfold Impl.compact compactStore
  split
  · exact h
  · rename_i d hd
    simp only [DurableStore.compact]
    split
    · refine Kept.compacted h.state (?_ : im.compactStore = _)
      simp [compactStore, DurableStore.compact, *]
    · exact ⟨h.state, fun d' image hd' => h.image d' image (hd.trans hd'),
        fun d' hd' => h.written d' (hd.trans hd')⟩

/-- The empty state is keyed. -/
theorem wellKeyed_empty : ({} : VirtualizationState).WellKeyed := by
  have hnone : ∀ k id, ({} : VirtualizationState).find k id = none := by
    intro k id
    cases k <;> simp [find, entities]
  refine ⟨fun k id r hr => ?_, fun k id r hr => ?_, by decide⟩
  · rw [hnone] at hr
    cases hr
  · rw [hnone] at hr
    cases hr

/-- A new process keeps the invariant. -/
theorem Kept.boot (h : Kept T Q im) (h0 : Q {}) (options : RuntimeOptions) :
    Kept T Q { options, store := im.store.map fun d => { d with opened := false } } := by
  refine ⟨⟨wellKeyed_empty, h0⟩, ?_, ?_⟩
  · intro d image hd
    obtain ⟨d', hd', rfl⟩ := Option.map_eq_some_iff.mp hd
    exact h.image d' image hd'
  · intro d hd hopen
    obtain ⟨d', hd', rfl⟩ := Option.map_eq_some_iff.mp hd
    cases hopen

section Release

variable {σ : Type} {im : Impl σ}

/-- A state with the same tables is as sound. -/
theorem Sound.advance {s t : VirtualizationState} (h : s.Sound (onLedger P))
    (he : t.entities = s.entities) (hn : s.nextSequence ≤ t.nextSequence) :
    t.Sound (onLedger P) :=
  ⟨h.wellKeyed.advance he hn, (Impl.ledger_of_entities he ▸ h.holds : P t.ledger)⟩

/-- A record changed in fields that neither its identity nor the ledger reads. -/
theorem Sound.edit (h : im.state.Sound (onLedger P)) (k : RecordKind) (id id' : ℕ)
    {f : k.Record → k.Record} (hf : ∀ r, k.idOf (f r) = k.idOf r)
    (hl : (im.modify k id f).ledger = im.ledger) :
    ((im.touch k id').modify k id f).state.Sound (onLedger P) :=
  ⟨h.wellKeyed.modify k id hf, (hl ▸ h.holds : P (im.modify k id f).ledger)⟩

theorem Sound.account (h : im.state.Sound (onLedger P))
    (f : AccountingCounters → AccountingCounters) :
    (im.account f).state.Sound (onLedger P) :=
  Sound.advance h rfl (Nat.le_refl _)

theorem Sound.beginOp (h : im.state.Sound (onLedger P)) : im.beginOp.state.Sound (onLedger P) := h

theorem Sound.touchHeader (h : im.state.Sound (onLedger P)) :
    im.touchHeader.state.Sound (onLedger P) := h

theorem Sound.recomputeDerivedAccounting (h : im.state.Sound (onLedger P)) :
    im.recomputeDerivedAccounting.state.Sound (onLedger P) :=
  Sound.advance h rfl (Nat.le_refl _)

theorem Sound.takeId (h : im.state.Sound (onLedger P)) : im.takeId.state.Sound (onLedger P) :=
  Sound.advance h rfl (Nat.le_succ _)

theorem Sound.endLease (h : im.state.Sound (onLedger P)) (ended : LeaseState) (reason : Text)
    (now : UnixMicros) (id : LeaseId) :
    (im.endLease ended reason now id).state.Sound (onLedger P) := by
  unfold Impl.endLease
  split
  · exact h
  · split
    · refine Sound.touchHeader (Sound.account (Sound.edit h .lease id _ ?_ rfl) _)
      exact fun _ => rfl
    · exact h

theorem Sound.releaseAttachments (h : im.state.Sound (onLedger P)) (reason : Text)
    (now : UnixMicros)
    (id : VirtualAcceleratorId) :
    (im.releaseAttachments reason now id).state.Sound (onLedger P) := by
  unfold Impl.releaseAttachments
  split
  · exact h
  · rename_i record hr
    have hc : (if record.activeAttachments ≠ 0 then
        (im.touchVirtual record.id).modify .virtual id fun v => { v with activeAttachments := 0 }
      else im).state.Sound (onLedger P) := by
      split
      · exact Sound.edit h .virtual id _ (fun _ => rfl) (ledger_modify_virtual fun _ => rfl)
      · exact h
    simp only
    split
    · exact Sound.edit hc .virtual id _ (fun _ => rfl) (ledger_modify_virtual fun _ => rfl)
    · exact hc

theorem Sound.releaseTenant (h : im.state.Sound (onLedger P)) (updated : Option UnixMicros)
    (id : TenantId) :
    (im.releaseTenant updated id).state.Sound (onLedger P) := by
  unfold Impl.releaseTenant
  split
  · exact h
  · split
    · exact Sound.edit h .tenant id _ (fun _ => rfl) rfl
    · exact h

theorem Sound.distrustBacking (h : im.state.Sound (onLedger P)) (id : BackingId) :
    (im.distrustBacking id).state.Sound (onLedger P) := by
  unfold Impl.distrustBacking
  split
  · exact h
  · exact Sound.edit h .backing id _ (fun _ => rfl) (ledger_modify_backing fun _ => rfl)

theorem Sound.distrustPhysical (h : im.state.Sound (onLedger P)) (id : PhysicalDeviceId) :
    (im.distrustPhysical id).state.Sound (onLedger P) := by
  unfold Impl.distrustPhysical
  split
  · exact h
  · exact Sound.edit h .physical id _ (fun _ => rfl) rfl

/-- A sweep whose steps keep a state sound keeps it sound. -/
theorem Sound.foldl {α : Type} {step : Impl σ → α → Impl σ}
    (hstep : ∀ im a, im.state.Sound (onLedger P) → (step im a).state.Sound (onLedger P))
    (l : List α)
    (h : im.state.Sound (onLedger P)) : (l.foldl step im).state.Sound (onLedger P) :=
  List.foldlRecOn l step (motive := fun im => im.state.Sound (onLedger P)) h fun im h a _ =>
    hstep im a h

theorem Sound.dropLocalAuthority (h : im.state.Sound (onLedger P)) (now : UnixMicros) :
    (im.dropLocalAuthority now).state.Sound (onLedger P) := by
  have hrequests : ∀ im : Impl σ, im.state.Sound (onLedger P) →
      ({ im with state.requests := [] } : Impl σ).state.Sound (onLedger P) :=
    fun im h => Sound.advance h rfl (Nat.le_refl _)
  unfold Impl.dropLocalAuthority
  refine Sound.touchHeader (Sound.recomputeDerivedAccounting (hrequests _ ?_))
  refine Sound.foldl (fun im id h => Sound.distrustPhysical h id) _ ?_
  refine Sound.foldl (fun im id h => Sound.distrustBacking h id) _ ?_
  refine Sound.foldl (fun im id h => Sound.releaseTenant h _ id) _ ?_
  refine Sound.foldl (fun im id h => Sound.releaseAttachments h _ now id) _ ?_
  exact Sound.foldl (fun im id h => Sound.endLease h _ _ now id) _ h

theorem Sound.record (h : im.state.Sound (onLedger P)) (clock : Clock) (context : OpContext)
    (outcome : StatusCode) (reason : Text) (kind : AuditKind) :
    (im.record clock context outcome reason kind).state.Sound (onLedger P) :=
  Sound.advance h rfl (Nat.le_add_right _ 2)

theorem Sound.enterEpoch (h : im.state.Sound (onLedger P)) (recovered : Bool) :
    (im.enterEpoch recovered).state.Sound (onLedger P) := by
  unfold Impl.enterEpoch
  refine Sound.touchHeader (Sound.account ?_ _)
  dsimp only
  split
  · exact Sound.advance h rfl (Nat.le_succ _)
  · split
    · exact Sound.advance h rfl (Nat.le_succ _)
    · exact Sound.advance h rfl (Nat.le_refl _)

/-- A start keeps the state sound. -/
theorem Sound.startBody (h : im.state.Sound (onLedger P)) (clock : Clock) (recovered : Bool) :
    (im.startBody clock recovered).state.Sound (onLedger P) := by
  have he := Sound.enterEpoch h recovered
  simp only [Impl.startBody]
  split
  · exact Sound.record (Sound.dropLocalAuthority he clock.now) clock _ _ _ _
  · exact Sound.record he clock _ _ _ _

/-- A shutdown keeps the state sound. -/
theorem Sound.shutdownBody (h : im.state.Sound (onLedger P)) (clock : Clock) :
    (im.shutdownBody clock).state.Sound (onLedger P) := by
  unfold Impl.shutdownBody
  refine Sound.record (Sound.touchHeader (Sound.recomputeDerivedAccounting ?_)) clock _ _ _ _
  refine Sound.foldl (fun im id h => Sound.releaseTenant h _ id) _ ?_
  refine Sound.foldl (fun im id h => Sound.releaseAttachments h _ clock.now id) _ ?_
  exact Sound.foldl (fun im id h => Sound.endLease h _ _ clock.now id) _ h

/-- A commit that succeeds keeps a sound state sound. -/
theorem Sound.commit [DurableStore σ] {im' : Impl σ} (hq : Respects True Q)
    (h : im.state.Sound Q) (hc : im.commit = (im', .ok ())) : im'.state.Sound Q := by
  obtain ⟨store, -, hcommit⟩ | ⟨store, status, -, hcommit⟩ := commit_cases im
  · rw [hcommit] at hc
    cases hc
    exact Sound.extended hq h
  · rw [hcommit] at hc
    cases hc

/-- The classification of the migrations keeps the state sound. -/
theorem Sound.classifyRecoveredMigrations [DurableStore σ] {im' : Impl σ} {clock : Clock}
    (hq : Respects True Q) (h : im.state.Sound Q) (hQ : Q (im.classified clock.now).1.state)
    (hc : im.classifyRecoveredMigrations clock = (im', .ok ())) : im'.state.Sound Q := by
  have hexec : im.exec clock .classifyRecoveredMigrations = (im', .ok ()) := hc
  have hdoes : Does Q im clock .classifyRecoveredMigrations := ⟨h.holds, nofun, fun _ => hQ⟩
  obtain hr | ⟨s, im1, hw, hQ, -⟩ := exec_cases hq h.wellKeyed hdoes
  · rw [hexec] at hr
    exact ⟨hr.wellKeyed h.wellKeyed, hq hr.agrees.alike h.holds⟩
  · rw [hexec] at hw
    cases hcommit : im1.commit with
    | mk im2 status =>
      have him := hw.committed
      rw [hcommit] at him
      cases status with
      | ok u =>
        rw [show im' = im2 from him]
        exact Sound.commit hq ⟨hw.ready.wellKeyed, hQ⟩ hcommit
      | error status =>
        have hfailed := (hw.failed status).mpr (by rw [hcommit])
        cases hfailed

end Release

/-- What a start commits has a property that the classification of the migrations keeps: then
the started runtime has it. -/
theorem Kept.startCommitted {clock : Clock} {recovered : Bool} (hq : Respects True Q)
    (hclassified : ∀ im : Impl Disk, im.state.Sound Q → Q (im.classified clock.now).1.state)
    (h : (im.startBody clock recovered).state.Sound Q)
    (hs : im.startCommitted clock recovered = (im', .ok ())) : Kept T Q im' := by
  unfold Impl.startCommitted at hs
  split at hs
  · cases hs
  rename_i im1 hcommit
  have h1 : im1.state.Sound Q := Sound.commit hq h hcommit
  split at hs
  · cases hs
  rename_i im2 hrecovered
  have h2 : im2.state.Sound Q := by
    split at hrecovered
    · unfold startRecovered at hrecovered
      split at hrecovered
      · cases hrecovered
      · rename_i im3 hclassify
        obtain rfl := congrArg Prod.fst hrecovered
        exact Sound.classifyRecoveredMigrations hq h1 (hclassified im1 h1) hclassify
    · cases hrecovered
      exact h1
  split at hs
  · cases hs
  rename_i im3 hcompacted
  have h3 := Kept.compacted (T := T) h2 hcompacted
  cases hs
  exact ⟨h3.state, h3.image, h3.written⟩

/-- A start that is not a repeated one loads the image, or starts from the state there is. -/
theorem start_cases {clock : Clock} (hs : im.start clock = (im', .ok ())) :
    (im.running = true ∧ im' = im) ∨
    im.running = false ∧ ∃ (base : Impl Disk) (recovered : Bool),
      base.startCommitted clock recovered = (im', .ok ()) ∧ base.changes = {} ∧
      ((recovered = false ∧ (base.state = im.state ∧ im.store = none ∨
          base.state = {} ∧ ∃ d, im.store = some d ∧ d.image = none)) ∨
        recovered = true ∧ ∃ d, im.store = some d ∧ d.image = some base.state ∧
          base.state.validateState = .ok ()) := by
  unfold Impl.start at hs
  split at hs
  · rename_i hrunning
    cases hs
    exact .inl ⟨hrunning, rfl⟩
  rename_i hrunning
  refine .inr ⟨by simpa using hrunning, ?_⟩
  split at hs
  · rename_i hnone
    exact ⟨_, _, hs, rfl, .inl ⟨rfl, .inl ⟨rfl, hnone⟩⟩⟩
  rename_i d hd
  simp only [DurableStore.open_, DurableStore.load] at hs
  cases himage : d.image with
  | none =>
    simp only [himage] at hs
    exact ⟨_, _, hs, rfl, .inl ⟨by simp [DurableStore.present], .inr ⟨rfl, d, hd, himage⟩⟩⟩
  | some image =>
    simp only [himage] at hs
    cases hv : image.validateState with
    | error status => simp [hv, Except.map] at hs
    | ok u =>
      simp only [hv, Except.map] at hs
      exact ⟨_, _, hs, rfl, .inr ⟨by simp [DurableStore.present], d, hd, himage, hv⟩⟩

/-- A start keeps the tables keyed. -/
theorem wellKeyed_startBody (h : im.state.WellKeyed) (clock : Clock) (recovered : Bool) :
    (im.startBody clock recovered).state.WellKeyed :=
  (Sound.startBody (P := fun _ => True) ⟨h, trivial⟩ clock recovered).wellKeyed

/-- A shutdown keeps the tables keyed. -/
theorem wellKeyed_shutdownBody (h : im.state.WellKeyed) (clock : Clock) :
    (im.shutdownBody clock).state.WellKeyed :=
  (Sound.shutdownBody (P := fun _ => True) ⟨h, trivial⟩ clock).wellKeyed

/-! ### Invariants -/

/-- A property of states that holds of the empty one and is kept by what no operation asks for:
the classification of the migrations and a shutdown. -/
structure Invariant (T : Prop) (Q : VirtualizationState → Prop) : Prop where
  respects : Respects T Q
  empty : Q {}
  classified : ∀ {im : Impl Disk} (now : UnixMicros), im.state.Sound Q →
    Q (im.classified now).1.state
  shutdown : ∀ {im : Impl Disk} (clock : Clock), im.state.Sound Q → Q (im.shutdownBody clock).state

/-- A start that recovers nothing is from an empty state, or without a store from the state there
is. -/
def Restarts (im base : Impl Disk) : Prop :=
  (base.state = im.state ∧ im.store = none ∧ im.running = false) ∨ base.state = {}

/-- What an event has to keep: the body of an operation, unless the store does not take the change
set, and a start from the image, from an empty state or from the state there is. If `T`, a transfer
has to be written. -/
structure Keeps (T : Prop) (Q : VirtualizationState → Prop) (im : Impl Disk) (event : Event) :
    Prop where
  body : ∀ op clock answer, event = .op op clock answer → ∀ b : Body Disk Unit,
    body clock ((im.answering answer).resolve op) = some b →
    (im.answering answer).writable = true → Q (b (im.answering answer).beginOp).1.state
  start : ∀ clock, event = .start clock → ∀ (base : Impl Disk) (recovered : Bool),
    base.state.Sound Q → (recovered = false → im.Restarts base) →
    Q (base.startBody clock recovered).state
  written : T → ∀ op clock answer, event = .op op clock answer →
    (im.answering answer).transfers op = false ∨ (im.answering answer).writable = true

variable (hi : Invariant T Q)

include hi

/-- A start loads the image, or starts from an empty state. -/
theorem Kept.start {clock : Clock} (h : Kept T Q im)
    (hstart : ∀ (base : Impl Disk) (recovered : Bool), base.state.Sound Q →
      (recovered = false → im.Restarts base) →
      Q (base.startBody clock recovered).state)
    (hs : im.start clock = (im', .ok ())) : Kept T Q im' := by
  obtain ⟨-, rfl⟩ | ⟨hrunning, base, recovered, hcommitted, -, hbase⟩ := start_cases hs
  · exact h
  have hsound : base.state.Sound Q := by
    obtain ⟨-, ⟨hstate, -⟩ | ⟨hempty, -⟩⟩ | ⟨-, d, hd, himage, -⟩ := hbase
    · rw [hstate]
      exact h.state
    · rw [hempty]
      exact ⟨wellKeyed_empty, hi.empty⟩
    · exact h.image d base.state hd himage
  refine Kept.startCommitted (hi.respects.mono fun _ => trivial)
    (fun _ h => hi.classified clock.now h)
    ⟨wellKeyed_startBody hsound.wellKeyed clock recovered, hstart base recovered hsound ?_⟩
      hcommitted
  intro hrecovered
  obtain ⟨-, ⟨hstate, hstore⟩ | ⟨hempty, -⟩⟩ | ⟨htrue, -⟩ := hbase
  · exact .inl ⟨hstate, hstore, hrunning⟩
  · exact .inr hempty
  · rw [hrecovered] at htrue
    cases htrue

omit hi in
/-- A store that is compacted and closed holds the state. -/
theorem Kept.closed (h : im.state.Sound Q) (hc : im.closeStore = (im', .ok ())) :
    Kept T Q im' := by
  unfold closeStore at hc
  split at hc
  · rename_i hnone
    cases hc
    exact ⟨h, fun d image hd => by simp [hnone] at hd, fun d hd => by simp [hnone] at hd⟩
  · rename_i d hd
    simp only [DurableStore.compact, DurableStore.close] at hc
    split at hc
    · cases hc
      refine ⟨h, ?_, ?_⟩
      · rintro _ _ ⟨⟩ ⟨⟩
        exact h
      · rintro _ ⟨⟩ hopen
        cases hopen
    · cases hc

omit hi in
/-- A shutdown that is not a repeated one commits and compacts what it released. -/
theorem shutdown_cases {σ : Type} [DurableStore σ] {im im' : Impl σ} {clock : Clock}
    (hs : im.shutdown clock = (im', .ok ())) :
    (im.running = false ∧ im' = im) ∨ im.running = true ∧ ∃ im1 im2,
      (im.beginOp.shutdownBody clock).commit = (im1, .ok ()) ∧ im1.closeStore = (im2, .ok ()) ∧
      im' = { im2 with agents := ∅, running := false } := by
  unfold Impl.shutdown at hs
  split at hs
  · rename_i hrunning
    cases hs
    exact .inl ⟨by simpa using hrunning, rfl⟩
  rename_i hrunning
  refine .inr ⟨by simpa using hrunning, ?_⟩
  cases hc : im.shutdownCommitted clock with
  | mk im2 result =>
    rw [hc] at hs
    cases hs
    unfold shutdownCommitted at hc
    split at hc
    · cases hc
    · rename_i im1 hcommit
      exact ⟨im1, im2, hcommit, hc, rfl⟩

/-- A shutdown keeps the invariant. -/
theorem Kept.shutdown {clock : Clock} (h : Kept T Q im) (hs : im.shutdown clock = (im', .ok ())) :
    Kept T Q im' := by
  obtain ⟨-, rfl⟩ | ⟨-, im1, im2, hcommit, hclose, rfl⟩ := shutdown_cases hs
  · exact h
  have hbegin : im.beginOp.state.Sound Q := ⟨h.state.wellKeyed, h.state.holds⟩
  have h1 : im1.state.Sound Q := Sound.commit (hi.respects.mono fun _ => trivial)
    ⟨wellKeyed_shutdownBody hbegin.wellKeyed clock, hi.shutdown clock hbegin⟩ hcommit
  have h2 := Kept.closed (T := T) h1 hclose
  exact ⟨h2.state, h2.image, h2.written⟩

/-! ### Runs -/

/-- An event keeps the invariant if it keeps the property. -/
theorem Kept.step {event : Event} (h : Kept T Q im) (hk : Keeps T Q im event)
    (hs : im.step event = some im') : Kept T Q im' := by
  cases event with
  | op op clock answer =>
    cases hs
    have ha := h.answering answer
    refine ha.exec hi.respects (fun hwritable => ⟨ha.state.holds, fun b hb => ?_,
      fun _ => hi.classified clock.now ha.state⟩) fun hT => hk.written hT op clock answer rfl
    exact hk.body op clock answer rfl b hb hwritable
  | start clock =>
    simp only [Impl.step] at hs
    split at hs
    · cases hs
      refine (h.answering (.ok ())).start hi (fun base recovered hsound hnew => ?_) ‹_›
      refine hk.start clock rfl base recovered hsound fun hrecovered => ?_
      refine (hnew hrecovered).imp_left fun ⟨hstate, hstore, hrunning⟩ => ⟨hstate, ?_, hrunning⟩
      exact Option.map_eq_none_iff.mp hstore
    · cases hs
  | shutdown clock =>
    simp only [Impl.step] at hs
    split at hs
    · cases hs
      exact (h.answering (.ok ())).shutdown hi ‹_›
    · cases hs
  | compact =>
    cases hs
    exact h.compact
  | boot options =>
    cases hs
    exact h.boot hi.empty options

/-- The invariant holds before anything happened. -/
theorem kept_initial (options : RuntimeOptions) (stored : Bool) :
    Kept T Q (initial options stored) := by
  refine ⟨⟨wellKeyed_empty, hi.empty⟩, ?_, ?_⟩
  · intro d image hd himage
    unfold initial at hd
    split at hd <;> cases hd
    cases himage
  · intro d hd hopen
    unfold initial at hd
    split at hd <;> cases hd
    cases hopen

omit hi in
/-- Whether every event of a run meets a condition, in the state it happens in. -/
def throughout (c : Impl Disk → Event → Bool) (im : Impl Disk) : List Event → Bool
  | [] => true
  | event :: events => c im event &&
      match im.step event with
      | some im' => im'.throughout c events
      | none => true

/-- A run whose events keep the property under a condition keeps the invariant. -/
theorem Kept.run {c : Impl Disk → Event → Bool}
    (hc : ∀ im event, Kept T Q im → c im event = true → Keeps T Q im event) {events : List Event}
    (h : Kept T Q im) (hr : im.run events = some im') (ht : im.throughout c events = true) :
    Kept T Q im' := by
  induction events generalizing im with
  | nil =>
    cases hr
    exact h
  | cons event events ih =>
    simp only [Impl.run, List.foldlM_cons, Option.bind_eq_bind, Option.bind_eq_some_iff] at hr
    obtain ⟨im1, hstep, hrest⟩ := hr
    simp only [throughout, hstep, Bool.and_eq_true] at ht
    exact ih (h.step hi (hc im event h ht.1) hstep) hrest ht.2

omit hi in
/-- A condition that every event meets in every state. -/
theorem throughout_of_forall {c : Impl Disk → Event → Bool} {events : List Event}
    (h : ∀ event ∈ events, ∀ im, c im event = true) (im : Impl Disk) :
    im.throughout c events = true := by
  induction events generalizing im with
  | nil => rfl
  | cons event events ih =>
    rw [List.forall_mem_cons] at h
    simp only [throughout, h.1 im, Bool.true_and]
    split
    · exact ih h.2 _
    · rfl

omit hi in
theorem throughout_true (im : Impl Disk) (events : List Event) :
    im.throughout (fun _ _ => true) events = true :=
  throughout_of_forall (fun _ _ _ => rfl) im

omit hi in
/-- Two conditions that hold throughout a run hold together. -/
theorem throughout_and {c c' : Impl Disk → Event → Bool} {events : List Event}
    (h : im.throughout c events = true) (h' : im.throughout c' events = true) :
    im.throughout (fun im event => c im event && c' im event) events = true := by
  induction events generalizing im with
  | nil => rfl
  | cons event events ih =>
    simp only [throughout, Bool.and_eq_true] at h h' ⊢
    refine ⟨⟨h.1, h'.1⟩, ?_⟩
    cases hstep : im.step event with
    | none => rfl
    | some im' =>
      simp only [hstep] at h h'
      exact ih h.2 h'.2

/-- A run whose events all keep the property keeps the invariant. -/
theorem Kept.of_run (hc : ∀ im event, Kept T Q im → Keeps T Q im event) {events : List Event}
    (h : Kept T Q im) (hr : im.run events = some im') : Kept T Q im' :=
  h.run hi (fun im event h _ => hc im event h) hr (throughout_true im events)

omit hi

/-! ### Properties of the ledger -/

/-- Classifying the migrations after a restart leaves the ledger as it is. -/
theorem ledger_classified {σ : Type} (im : Impl σ) (now : UnixMicros) :
    (im.classified now).1.ledger = im.ledger :=
  ledger_classifyMigrations now (im.beginOp, false) im.beginOp.state.migrations.keys

/-- A property of the ledger is kept by all that does not run a body. -/
theorem invariant_onLedger (h0 : P ({} : VirtualizationState).ledger) :
    Invariant T (onLedger P) where
  respects := respects_onLedger
  empty := h0
  classified {im} now h := by
    have hl : (im.classified now).1.state.ledger = im.state.ledger := ledger_classified im now
    rw [onLedger, hl]
    exact h.holds
  shutdown clock h := (Sound.shutdownBody h clock).holds

/-- A property of the ledger is kept if the bodies keep it. -/
theorem keeps_onLedger {event : Event} (h : ∀ op clock answer, event = .op op clock answer →
      ∀ b : Body Disk Unit, body clock ((im.answering answer).resolve op) = some b →
      (im.answering answer).writable = true →
      P (b (im.answering answer).beginOp).1.ledger) : Keeps False (onLedger P) im event where
  body := h
  start clock _ _ recovered hs _ := (Sound.startBody hs clock recovered).holds
  written := nofun

/-- The ledger of the empty state is coherent. -/
theorem coherent_empty : ({} : VirtualizationState).ledger.Coherent := by
  constructor <;> simp [VirtualizationState.ledger]

/-- A run keeps the ledger coherent. -/
theorem coherent_run {events : List Event} (h : Kept False (onLedger Ledger.Coherent) im)
    (hr : im.run events = some im') : Kept False (onLedger Ledger.Coherent) im' :=
  h.of_run (invariant_onLedger coherent_empty) (fun _ _ h => keeps_onLedger
    fun _ _ answer _ _ hb _ =>
      coherent_body hb (h.answering answer).state.wellKeyed (h.answering answer).state.holds) hr

/-- In every run the ledger is coherent. -/
theorem coherent_of_run {options : RuntimeOptions} {stored : Bool} {events : List Event}
    (h : (initial options stored).run events = some im) :
    Kept False (onLedger Ledger.Coherent) im :=
  coherent_run (kept_initial (invariant_onLedger coherent_empty) options stored) h

end Impl

/-! ### Single authority -/

/-- Every virtual accelerator has at most one authoritative assignment, and it is the one the
virtual accelerator points to, together with its backing. -/
structure VirtualizationState.SingleAuthority (s : VirtualizationState) : Prop where
  unique : ∀ (id id' : BackingAssignmentId) (a a' : BackingAssignment),
    s.assignments[id]? = some a → s.assignments[id']? = some a' →
    a.authoritative = true → a'.authoritative = true → a.virtualId = a'.virtualId → id = id'
  pointed : ∀ (id : BackingAssignmentId) (a : BackingAssignment), s.assignments[id]? = some a →
    a.authoritative = true → ∃ v : VirtualAcceleratorRecord,
      s.virtuals[a.virtualId]? = some v ∧ v.assignment = a.id ∧ v.backing = a.backing

/-- A coherent ledger gives every virtual accelerator at most one authority. -/
theorem VirtualizationState.Sound.singleAuthority (h : s.Sound (onLedger Ledger.Coherent)) :
    s.SingleAuthority := by
  have hpoint : ∀ (id : ℕ) (a : BackingAssignment), s.assignments[id]? = some a →
      a.authoritative = true → ∃ v : VirtualAcceleratorRecord,
        s.virtuals[a.virtualId]? = some v ∧ v.assignment = id ∧ v.backing = a.backing := by
    intro id a ha hauth
    have hg : s.ledger.grant id = some a.toGrant := by simp [VirtualizationState.ledger, ha]
    have hp := (h.holds : s.ledger.Coherent).pointed id a.toGrant hg hauth
    obtain ⟨v, hv, hq⟩ := Option.map_eq_some_iff.mp hp
    exact ⟨v, hv, (ref_eq_some.mp (congrArg Pointer.grant hq)).1,
      (ref_eq_some.mp (congrArg Pointer.resource hq)).1⟩
  constructor
  · intro id id' a a' ha ha' hauth hauth' hv
    obtain ⟨v, hv1, hid, -⟩ := hpoint id a ha hauth
    obtain ⟨v', hv2, hid', -⟩ := hpoint id' a' ha' hauth'
    rw [← hv, hv1] at hv2
    rw [← hid, ← hid', Option.some.inj hv2]
  · intro id a ha hauth
    obtain ⟨v, hv, hid, hb⟩ := hpoint id a ha hauth
    exact ⟨v, hv, hid.trans (h.wellKeyed.keyed .assignment id a ha).symm, hb⟩

/-- In every state a run reaches, authority is single. -/
theorem singleAuthority_of_run {options : RuntimeOptions} {stored : Bool} {events : List Event}
    {im : Impl Disk} (h : (Impl.initial options stored).run events = some im) :
    im.state.SingleAuthority :=
  (Impl.coherent_of_run h).state.singleAuthority

/-! ### A run with a migration -/

namespace Sample

/-- A clock that stands at zero. -/
def clock : Clock := { now := 0 }

/-- An operation whose write succeeds. -/
def call (op : Op) : Event := .op op clock (.ok ())

/-- The authority of the first epoch. -/
def anyone : Authority := { epoch := some 1 }

/-- The authority of the tenant over one of its virtual accelerators. -/
def owner (virtualId generation : ℕ) : Authority :=
  { anyone with
    tenant := some 11, tenantGeneration := some 1
    virtualId := some virtualId, virtualGeneration := some generation }

/-- The same, for a phase of a migration. -/
def mover (virtualId generation migration migrationGeneration : ℕ) : Authority :=
  { owner virtualId generation with
    migration := some migration, migrationGeneration := some migrationGeneration }

/-- An exclusive backing that meets the isolation requirements of the default policy. -/
def dedicated (label : String) : BackingDescriptor :=
  { label := txt label, klass := .dedicatedPhysical, multiplexing := .dedicated
    isolation := [{ dimension := .tenantState, state := .partially },
      { dimension := .adminControl, state := .partially }] }

/-- A device that offers two dedicated backings. -/
def device : PhysicalDeviceDescriptor :=
  { stableKey := txt "gpu", provenance := .real, backings := [dedicated "a", dedicated "b"] }

/-- A contract that allows migrations. -/
def contract : ResourceContract := { migrationAllowed := true }

/-- A device with backings 7 and 8, and a tenant with virtual accelerators 14 and 19, the first
of which is assigned backing 7 and plans to move to backing 8. -/
def planned : List Event :=
  [.start clock, call (.registerAgent (txt "agent") [] 0 1),
    call (.registerPhysical anyone 1 4 device), call (.createTenant anyone (txt "tenant") []),
    call (.createVirtual anyone (txt "v") 11 1 contract),
    call (.createVirtual anyone (txt "w") 11 1 contract),
    call (.assignBacking (owner 14 1) 7 []),
    call (.planMigration (owner 14 2) 8 .rebindOnly)]

/-- The planned migration is carried out, and the process restarts. -/
def moved : List Event :=
  planned ++ [call (.prepareMigration (mover 14 2 28 1)), call (.commitMigration (mover 14 3 28 2)),
    .shutdown clock, .boot {}, .start clock]

end Sample

/-- After the migration and the restart the destination has the authority, and nothing else. -/
theorem singleAuthority_moved : ∃ im, (Impl.initial {} true).run Sample.moved = some im ∧
    im.state.SingleAuthority ∧
    (im.state.assignments[31]?.any fun a => a.authoritative && a.backing = 8) = true := by
  have hrun : (((Impl.initial {} true).run Sample.moved).any fun im =>
      im.state.assignments[31]?.any fun a => a.authoritative && a.backing = 8) = true := by
    decide +kernel
  obtain ⟨im, him, hauth⟩ := (Option.any_eq_true _ _).mp hrun
  exact ⟨im, him, singleAuthority_of_run him, hauth⟩

end AcceleratorVirtualization
