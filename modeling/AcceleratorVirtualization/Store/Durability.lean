import AcceleratorVirtualization.Invariants.Sweeps
import AcceleratorVirtualization.Store.Contents

/-!
# Runs over the files

As long as the file system carries out what it is asked for, the files hold the state of the
runtime: every record that an operation changes is in its change set, and the replay of the journal
inserts and truncates as the operation did in memory. A process may end between any two calls.
-/

namespace AcceleratorVirtualization

open VirtualizationState Journaling

/-- What can happen to a runtime over the files. -/
inductive StoreEvent
  | op (op : Op) (clock : Clock)
  | start (clock : Clock)
  | shutdown (clock : Clock)
  | compact
  /-- A new process over the files there are. -/
  | boot (options : RuntimeOptions) (storeOptions : StoreOptions)

/-- A process that is started with persistence on. -/
def StoreEvent.persistent : StoreEvent → Bool
  | .boot options storeOptions => options.persist && storeOptions.enabled
  | _ => true

namespace Impl

/-- One event of a run. Starts and shutdowns are clean. -/
def stepFiles (im : Impl FileDurableStore) : StoreEvent → Option (Impl FileDurableStore)
  | .op op clock => some (im.exec clock op).1
  | .start clock =>
    match im.start clock with
    | (im, .ok ()) => some im
    | (_, .error _) => none
  | .shutdown clock =>
    match im.shutdown clock with
    | (im, .ok ()) => some im
    | (_, .error _) => none
  | .compact => some im.compact.1
  | .boot options storeOptions =>
    some { options, store := im.store.map fun st => st.reopened storeOptions }

/-- A run of the runtime over the files of a directory; `none` once a step is not possible. -/
def runFiles (im : Impl FileDurableStore) (events : List StoreEvent) :
    Option (Impl FileDurableStore) := events.foldlM stepFiles im

/-- A process over an empty directory. -/
def onFiles (options : RuntimeOptions) (storeOptions : StoreOptions) : Impl FileDurableStore :=
  { options, store := some { options := storeOptions } }

end Impl

/-- Nothing in the state is more than the codec takes, in a snapshot or in a journal. -/
structure VirtualizationState.Encodable (s : VirtualizationState) : Prop where
  snapped : s.Snapped
  header : (Edit.header s).Storable
  entity : ∀ k id r, s.find k id = some r → (Edit.entity k r).Storable
  audit : ∀ entry ∈ s.audit, (Edit.audit entry).Storable
  decision : ∀ entry ∈ s.decisions, (Edit.decision entry).Storable
  request : ∀ record ∈ s.requests, (Edit.request record).Storable

/-- The records of a change set are those of the state that is written. -/
theorem VirtualizationState.Encodable.edits {s : VirtualizationState} {changes : ChangeSet}
    (h : s.Encodable) (ha : ∀ entry ∈ changes.audit, entry ∈ s.audit)
    (hd : ∀ entry ∈ changes.decisions, entry ∈ s.decisions)
    (hr : ∀ record ∈ changes.requests, record ∈ s.requests) :
    ∀ e ∈ edits s changes, e.Storable := by
  intro e he
  cases e with
  | header source =>
    obtain ⟨-, rfl⟩ := mem_edits_header.mp he
    exact h.header
  | entity k record =>
    obtain ⟨id, -, hr'⟩ := mem_edits_entity.mp he
    exact h.entity k id record hr'
  | audit entry =>
    have hmem := List.mem_filterMap.mpr ⟨_, he, (rfl : Edit.auditEntry (.audit entry) = some entry)⟩
    rw [filterMap_edits _ _ (fun _ => rfl) fun _ _ => rfl] at hmem
    exact h.audit entry (ha entry (by simpa [Edit.auditEntry] using hmem))
  | decision entry =>
    have hmem := List.mem_filterMap.mpr
      ⟨_, he, (rfl : Edit.decisionEntry (.decision entry) = some entry)⟩
    rw [filterMap_edits _ _ (fun _ => rfl) fun _ _ => rfl] at hmem
    exact h.decision entry (hd entry (by simpa [Edit.decisionEntry] using hmem))
  | request record =>
    have hmem := List.mem_filterMap.mpr
      ⟨_, he, (rfl : Edit.requestEntry (.request record) = some record)⟩
    rw [filterMap_edits _ _ (fun _ => rfl) fun _ _ => rfl] at hmem
    exact h.request record (hr record (by simpa [Edit.requestEntry] using hmem))

namespace Impl

/-! ### What a commit writes -/

section Commit

variable {σ : Type} {im s im' : Impl σ} {r : Impl σ × Except Failure Unit}

/-- No record vanishes. -/
def Keeping (s t : VirtualizationState) : Prop :=
  ∀ k id, (s.find k id).isSome → (t.find k id).isSome

/-- Keeping what is stored does not tell apart states that agree. -/
theorem respects_keeping (s : VirtualizationState) : Respects True (Keeping s) := by
  intro t t' ha ht k id hs
  have hentities : t.entities k = t'.entities k := by
    by_cases hk : k = .tenant
    · subst hk
      exact ha.tenants trivial
    · exact ha.entities k hk
  have hsome := ht k id hs
  rwa [find, hentities] at hsome

/-- An operation takes no record away. -/
theorem does_keeping (hw : im.state.WellKeyed) (clock : Clock) (op : Op) :
    Does (Keeping im.state) im clock op where
  idle _ _ hs := hs
  body b hb := by
    obtain ⟨m, ht, -, -, -, hstanding⟩ := tracks_body hb hw
    intro k id hs
    refine ht.kept k id ?_
    by_cases hk : k = .tenant
    · subst hk
      have hid := congrArg Option.isSome (hstanding id)
      rw [Option.isSome_map, Option.isSome_map] at hid
      exact hid.trans hs
    · cases k <;> first | exact hs | exact absurd rfl hk
  classified _ := (Tracks.classifyMigrations clock.now (Tracks.beginOp hw) _).kept

/-- What is written is, over a state that differs in identities used up since, the new state. -/
theorem Written.merge_eq [DurableStore σ] {old : VirtualizationState} {n : ℕ}
    (h : Written im s im' r)
    (hold : old = { im.state with nextSequence := n }) :
    Disk.merge old im'.extended.state im'.changes = im'.extended.state := by
  have hs := h.displaced.state
  have hfind : ∀ k id, old.find k id = im.state.find k id := by
    intro k id
    rw [hold]
    cases k <;> rfl
  refine state_ext (fun k => Std.ExtTreeMap.ext_getElem? fun id => ?_) ?_ ?_
  · change (Disk.merge _ _ _).find k id = _
    rw [Disk.find_merge]
    split
    · rfl
    · rename_i hid
      rw [entities_extended, hfind]
      have hbefore : s.state.find k id = im.state.find k id := by
        by_cases hk : k = .tenant
        · subst hk
          exact h.tenants id hid
        · rw [find, h.displaced.alike.entities k hk, find]
      rw [← hbefore]
      exact (h.ready.untouched k id (mt (h.ready.listed k id).mpr hid)).symm
  · obtain ⟨hsc, hn, he, hp, hg, ha⟩ := Disk.scalars_merge old im'.extended.state h.ready.header
    exact ⟨hn, he, hp, hg, ha, hsc⟩
  · obtain ⟨ha, hd, hr⟩ := Disk.windows_merge old im'.extended.state im'.changes
    have hwindows : s.state.audit = old.audit ∧ s.state.decisions = old.decisions ∧
        s.state.requests = old.requests := by
      rw [hs, hold]
      exact ⟨rfl, rfl, rfl⟩
    obtain ⟨hra, hrd, hrr⟩ := h.ready.windows
    rw [ha, hd, hr, ← hwindows.1, ← hwindows.2.1, ← hwindows.2.2, ← hra, ← hrd, ← hrr]
    exact ⟨rfl, rfl, rfl⟩

/-- The windows that are extended slide within their capacities. -/
theorem windowed_extended (im : Impl σ) : im.extended.state.Windowed where
  audit := by
    change (pushWindow _ _ _).length ≤ _
    rw [pushWindow_eq_slide]
    exact length_slide_le _ _
  decisions := by
    change (pushWindow _ _ _).length ≤ _
    rw [pushWindow_eq_slide]
    exact length_slide_le _ _
  requests := by
    change (pushWindow _ _ _).length ≤ _
    rw [pushWindow_eq_slide]
    exact length_slide_le _ _

/-- A rollback leaves the windows no longer than they were. -/
theorem windowed_rollback {t : VirtualizationState} (h : Undoes t im) (ht : t.Windowed) :
    im.rollback.state.Windowed := by
  obtain ⟨ha, hd, hr⟩ := h.windows_rollback
  constructor
  · rw [ha, List.length_take]
    exact (Nat.min_le_left _ _).trans ht.audit
  · rw [hd, List.length_take]
    exact (Nat.min_le_left _ _).trans ht.decisions
  · rw [hr, List.length_take]
    exact (Nat.min_le_left _ _).trans ht.requests

end Commit

/-! ### The invariant of a run -/

/-- The files hold a base and a log whose content is, once the store is open, the state of the
runtime, but for identities that were used up since. Nothing goes wrong in a call to them. -/
structure Mirrors (im : Impl FileDurableStore) (st : FileDurableStore)
    (base : Option VirtualizationState) (log : Option (List Edit)) : Prop where
  persist : im.options.persist = true
  keyed : im.state.WellKeyed
  windowed : im.state.Windowed
  store : im.store = some st
  enabled : st.options.enabled = true
  calm : st.files.moments = []
  holds : st.files.Holds base log []
  started : base = none → log = none ∨ (held base log).content edited ≠ {}
  contentKeyed : ((held base log).content edited).WellKeyed
  contentWindowed : ((held base log).content edited).Windowed
  initialized : st.opened = true → st.journalInitialized = log.isSome
  current : st.opened = true → ∃ n ≤ im.state.nextSequence,
    (held base log).content edited = { im.state with nextSequence := n }

variable {im s im' : Impl FileDurableStore} {r : Impl FileDurableStore × Except Failure Unit}
  {st : FileDurableStore} {base : Option VirtualizationState} {log : Option (List Edit)}

/-- An open store whose files mirror the process serves it. -/
theorem Mirrors.serves (h : Mirrors im st base log) (hopened : st.opened = true) :
    st.Serves base log :=
  ⟨h.enabled, hopened, h.holds, h.initialized hopened⟩

/-- What writes nothing keeps the files a mirror. -/
theorem Mirrors.unwritten (h : Mirrors im st base log) (hr : Unwritten im r) :
    Mirrors r.1 st base log where
  persist := by
    rw [hr.options]
    exact h.persist
  keyed := hr.wellKeyed h.keyed
  windowed := by
    obtain ⟨m, -, hstate⟩ := hr.state
    rw [hstate]
    exact ⟨h.windowed.audit, h.windowed.decisions, h.windowed.requests⟩
  store := hr.store.trans h.store
  enabled := h.enabled
  calm := h.calm
  holds := h.holds
  started := h.started
  contentKeyed := h.contentKeyed
  contentWindowed := h.contentWindowed
  initialized := h.initialized
  current hopened := by
    obtain ⟨m, hm, hstate⟩ := hr.state
    obtain ⟨n, hn, hcontent⟩ := h.current hopened
    refine ⟨n, ?_, ?_⟩
    · rw [hstate]
      exact hn.trans hm
    · rw [hcontent, hstate]

/-- An open store that serves what the state is. -/
theorem Mirrors.of_serves (hpersist : im.options.persist = true) (hkeyed : im.state.WellKeyed)
    (hwindowed : im.state.Windowed) (hstore : im.store = some st) (hcalm : st.files.moments = [])
    (hserves : st.Serves base log) (hcontent : (held base log).content edited = im.state)
    (hstarted : base = none → im.state ≠ {}) : Mirrors im st base log where
  persist := hpersist
  keyed := hkeyed
  windowed := hwindowed
  store := hstore
  enabled := hserves.enabled
  calm := hcalm
  holds := hserves.holds
  started hbase := .inr (hcontent ▸ hstarted hbase)
  contentKeyed := hcontent ▸ hkeyed
  contentWindowed := hcontent ▸ hwindowed
  initialized _ := hserves.initialized
  current _ := ⟨_, le_rfl, hcontent⟩

/-- What a store does with a change set that is handed over. -/
theorem persistChanges_files {st : FileDurableStore} (hst : im.store = some st)
    (hpersist : im.options.persist = true) (hchanges : im.changes.empty = false) :
    im.persistChanges = (some (st.applyChanges im.state im.changes).1,
      (st.applyChanges im.state im.changes).2) := by
  unfold persistChanges
  rw [hst]
  simp only [hpersist, hchanges, Bool.not_false, Bool.and_self, if_true]
  rfl

/-- A store that is not open refuses every change. -/
theorem applyChanges_not_opened {st : FileDurableStore} (henabled : st.options.enabled = true)
    (hopened : st.opened = false) (state : VirtualizationState) (changes : ChangeSet) :
    st.applyChanges state changes = (st, .error Disk.notOpen) := by
  simp only [FileDurableStore.applyChanges, henabled, hopened, Bool.not_true, Bool.not_false,
    Bool.false_eq_true, if_false, if_true]

/-- The records that a commit hands over lead from the content of an open store to the new state. -/
theorem Mirrors.leads (h : Mirrors im st base log) (hopened : st.opened = true)
    (hw : Written im s im' r) (hkeeping : Keeping im.state im'.state) :
    (edits im'.extended.state im'.changes).foldl edited ((held base log).content edited) =
      im'.extended.state := by
  obtain ⟨n, -, hcontent⟩ := h.current hopened
  have hkeyed : im'.extended.state.WellKeyed :=
    hw.ready.wellKeyed.advance (entities_extended im') le_rfl
  rw [foldl_edits h.contentWindowed hkeyed.keyed (fun k id _ hnone => ?_) hw.ready.header,
    hw.merge_eq hcontent]
  by_contra hne
  have hold : (im.state.find k id).isSome := by
    rw [hcontent] at hne
    cases k <;> exact Option.ne_none_iff_isSome.mp hne
  have hnew := hkeeping k id hold
  rw [find, entities_extended] at hnone
  rw [find, hnone] at hnew
  cases hnew

/-- What is entered into the windows is in them after the commit. -/
theorem storable_edits {reported : Bool} {request : RequestId}
    (henters : im'.changes.Enters reported request) (hencodable : im'.extended.state.Encodable) :
    ∀ e ∈ edits im'.extended.state im'.changes, e.Storable := by
  obtain ⟨ha, hd, hr⟩ := henters
  refine hencodable.edits (fun entry hentry => ?_) (fun entry hentry => ?_) fun record hrecord => ?_
  · change entry ∈ pushWindow auditCapacity _ _
    rw [pushWindow_eq_slide]
    exact mem_slide_of_mem (ha.trans_le (reported.toNat_le.trans (by decide))) hentry
  · change entry ∈ pushWindow decisionCapacity _ _
    rw [pushWindow_eq_slide]
    exact mem_slide_of_mem (hd.trans_le (reported.toNat_le.trans (by decide))) hentry
  · change record ∈ pushWindow requestWindowCapacity _ _
    rw [pushWindow_eq_slide]
    exact mem_slide_of_mem (hr.trans_le ((Bool.toNat_le _).trans (by decide))) hrecord

/-- A commit to a store that is not open is refused, and rolled back. -/
theorem Mirrors.commit_closed (h : Mirrors im st base log) (hopened : st.opened = false)
    (hw : Written im s im' r) :
    im'.extended.persistChanges = (some st, .error Disk.notOpen) ∧
      Mirrors im'.commit.1 st base log := by
  have hstore : im'.extended.store = some st := hw.ready.store.trans (hw.store.trans h.store)
  have hpersist : im'.extended.options.persist = true := by
    rw [show im'.extended.options = im.options from hw.ready.options.trans hw.options]
    exact h.persist
  have hpersisted := persistChanges_files hstore hpersist hw.ready.nonempty
  rw [applyChanges_not_opened h.enabled hopened] at hpersisted
  refine ⟨hpersisted, ?_⟩
  obtain ⟨store, hp, -⟩ | ⟨store, status, hp, hcommit⟩ := commit_cases im'
  · rw [hpersisted] at hp
    cases hp
  rw [hpersisted] at hp
  cases hp
  have hundo := hw.ready.undoes (some st) Disk.notOpen
  obtain ⟨hseq, -⟩ := hundo.scalars_rollback
  have hwindowed : s.state.Windowed := by
    rw [hw.displaced.state]
    exact ⟨h.windowed.audit, h.windowed.decisions, h.windowed.requests⟩
  rw [hcommit]
  exact {
    persist := hpersist
    keyed := hw.displaced.wellKeyed.advance (funext hundo.entities_rollback) hseq.ge
    windowed := windowed_rollback hundo hwindowed
    store := rfl
    enabled := h.enabled
    calm := h.calm
    holds := h.holds
    started := h.started
    contentKeyed := h.contentKeyed
    contentWindowed := h.contentWindowed
    initialized := fun hopened' => absurd (hopened.symm.trans hopened') (by decide)
    current := fun hopened' => absurd (hopened.symm.trans hopened') (by decide) }

/-- A commit to an open store writes the change set: the files hold the new state. -/
theorem Mirrors.commit_opened {reported : Bool} {request : RequestId} (h : Mirrors im st base log)
    (hopened : st.opened = true) (hw : Written im s im' r) (hkeeping : Keeping im.state im'.state)
    (henters : im'.changes.Enters reported request) (hencodable : im'.commit.1.state.Encodable) :
    ∃ st' base' log', im'.extended.persistChanges = (some st', .ok ()) ∧ st'.opened = true ∧
      Mirrors im'.commit.1 st' base' log' ∧
      (held base' log').content edited = im'.extended.state := by
  have hready := hw.ready
  have hstore : im'.extended.store = some st := hready.store.trans (hw.store.trans h.store)
  have hpersist : im'.extended.options.persist = true := by
    rw [show im'.extended.options = im.options from hready.options.trans hw.options]
    exact h.persist
  have hkeyed : im'.extended.state.WellKeyed :=
    hready.wellKeyed.advance (entities_extended im') le_rfl
  have hpersisted : im'.extended.persistChanges =
      (some (st.applyChanges im'.extended.state im'.changes).1,
        (st.applyChanges im'.extended.state im'.changes).2) :=
    persistChanges_files hstore hpersist hready.nonempty
  have hcalm := (FileDurableStore.carries_applyChanges st im'.extended.state im'.changes).calm
    h.enabled hopened h.calm
  obtain ⟨store, hp, hcommit⟩ | ⟨store, status, hp, -⟩ := commit_cases im'
  · rw [hcommit] at hencodable ⊢
    obtain ⟨st', hst', ⟨happly, base', log', hserves', hcontent'⟩ | ⟨hfault, -⟩⟩ :=
      FileDurableStore.applyChanges_cases (h.serves hopened) hkeyed.keyed
        (storable_edits henters hencodable) hencodable.snapped hready.header
        (h.leads hopened hw hkeeping)
    · rw [happly] at hpersisted
      have hstore' : store = some st' := (Prod.mk.inj (hp.symm.trans hpersisted)).1
      -- the clock of identifiers has moved, so the state is not the empty one
      have hstarted : im'.extended.state ≠ {} := by
        intro heq
        have hlt : 1 < im'.extended.state.nextSequence :=
          Nat.lt_of_le_of_lt h.keyed.started hw.grown
        rw [heq] at hlt
        exact absurd hlt (by decide)
      exact ⟨st', base', log', hpersisted, hserves'.opened, .of_serves hpersist hkeyed
        (windowed_extended im') hstore' (hst'.moments h.calm) hserves' hcontent'
        fun _ => hstarted, hcontent'⟩
    · exact absurd h.calm hfault
  · -- nothing goes wrong, so the store does not fail
    have := hpersisted.symm.trans hp
    rw [Prod.ext_iff] at this
    exact absurd (hcalm.symm.trans this.2) (by simp)

/-! ### Start and shutdown -/

/-- A runtime over a store in which nothing goes wrong. -/
structure Recording (im : Impl FileDurableStore) : Prop where
  persist : im.options.persist = true
  keyed : im.state.WellKeyed
  store : ∃ st, im.store = some st ∧ st.options.enabled = true ∧ st.files.moments = []

/-- It stays one with a commit that succeeds. -/
theorem Recording.commit (h : Recording im) (hc : im.commit = (im', .ok ())) :
    Recording im' ∧ im'.state.Windowed := by
  obtain ⟨st, hst, henabled, hmoments⟩ := h.store
  obtain ⟨store, hp, hcommit⟩ | ⟨store, status, -, hcommit⟩ := commit_cases im
  · rw [hcommit] at hc
    cases hc
    refine ⟨⟨h.persist, h.keyed.advance (entities_extended im) le_rfl, ?_⟩, windowed_extended im⟩
    have hstore : im.extended.store = some st := hst
    unfold persistChanges at hp
    rw [hstore] at hp
    simp only at hp
    split at hp
    · have happly := FileDurableStore.carries_applyChanges st im.extended.state im.extended.changes
      refine ⟨_, (Prod.mk.inj hp).1.symm, ?_, happly.continues.moments hmoments⟩
      exact happly.continues.options ▸ henabled
    · exact ⟨st, (Prod.mk.inj hp).1.symm, henabled, hmoments⟩
  · rw [hcommit] at hc
    cases hc

/-- And with the classification of the migrations. -/
theorem Recording.classify {clock : Clock} (h : Recording im) (hwindowed : im.state.Windowed)
    (hc : im.classifyRecoveredMigrations clock = (im', .ok ())) :
    Recording im' ∧ im'.state.Windowed := by
  have hexec : im.exec clock .classifyRecoveredMigrations = (im', .ok ()) := hc
  obtain hr | ⟨s, im1, hw, -⟩ := exec_cases (respects_keeping im.state) h.keyed
    (does_keeping h.keyed clock .classifyRecoveredMigrations)
  · rw [hexec] at hr
    obtain ⟨m, -, hstate⟩ := hr.state
    simp only at hstate
    refine ⟨⟨?_, hr.wellKeyed h.keyed, ?_⟩, ?_⟩
    · rw [hr.options]
      exact h.persist
    · rw [hr.store]
      exact h.store
    · rw [hstate]
      exact ⟨hwindowed.audit, hwindowed.decisions, hwindowed.requests⟩
  · rw [hexec] at hw
    cases hcommit : im1.commit with
    | mk im2 status =>
      have him : im' = im2 := by
        have := hw.committed
        rwa [hcommit] at this
      cases status with
      | ok u =>
        rw [him]
        refine Recording.commit ⟨?_, hw.ready.wellKeyed, ?_⟩ hcommit
        · rw [hw.ready.options, hw.options]
          exact h.persist
        · rw [hw.ready.store, hw.store]
          exact h.store
      | error status => exact absurd ((hw.failed status).mpr (by rw [hcommit])) (by simp)

/-- A compaction leaves the state in memory as it is. -/
theorem state_compactStore {σ : Type} [DurableStore σ] (im : Impl σ) :
    im.compactStore.1.state = im.state := by
  unfold compactStore
  split <;> rfl

/-- A compaction that succeeds makes the state what the files hold. -/
theorem Recording.compact (h : Recording im) (hwindowed : im.state.Windowed)
    (hencodable : im.state.Encodable) (hc : im.compactStore = (im', .ok ())) :
    ∃ st', Mirrors im' st' (some im.state) (some []) ∧ st'.opened = true := by
  obtain ⟨st, hst, henabled, hmoments⟩ := h.store
  unfold compactStore at hc
  rw [hst] at hc
  simp only [DurableStore.compact] at hc
  cases hopened : st.opened with
  | false =>
    simp only [FileDurableStore.compact, henabled, hopened, Bool.not_true, Bool.not_false,
      Bool.false_eq_true, if_false, if_true] at hc
    cases hc
  | true =>
    obtain ⟨st', hst', ⟨hcompact, hserves⟩ | ⟨hfault, -⟩⟩ :=
      FileDurableStore.compact_cases henabled hopened hencodable.snapped
    · rw [hcompact] at hc
      cases hc
      exact ⟨st', .of_serves h.persist h.keyed hwindowed rfl (hst'.moments hmoments) hserves rfl
        (by rintro ⟨⟩), hserves.opened⟩
    · exact absurd hmoments hfault

section Wiring

variable {σ : Type}

/-- What a sweep over records leaves alone. -/
def wiring (im : Impl σ) : Option σ × RuntimeOptions := (im.store, im.options)

/-- The wiring is part of the stamp. -/
theorem wiring_of_stamp {im im' : Impl σ} (h : im'.stamp = im.stamp) : im'.wiring = im.wiring :=
  congrArg (fun p => p.2.2) h

/-- A start, after it has loaded, leaves the wiring as it is. -/
theorem wiring_startBody (im : Impl σ) (clock : Clock) (recovered : Bool) :
    (im.startBody clock recovered).wiring = im.wiring := by
  have henter : (im.enterEpoch recovered).wiring = im.wiring := by
    unfold enterEpoch
    dsimp only
    split
    · rfl
    · split <;> rfl
  exact (wiring_of_stamp (im.stamp_startBody clock recovered)).trans henter

/-- A shutdown, before it commits, leaves the wiring as it is. -/
theorem wiring_shutdownBody (im : Impl σ) (clock : Clock) :
    (im.shutdownBody clock).wiring = im.wiring :=
  wiring_of_stamp (im.stamp_shutdownBody clock)

end Wiring

/-- What is recorded depends on the wiring and on the keys of the tables. -/
theorem Recording.congr (h : Recording im) (hwiring : im'.wiring = im.wiring)
    (hkeyed : im'.state.WellKeyed) : Recording im' := by
  obtain ⟨hstore, hoptions⟩ := Prod.mk.inj hwiring
  refine ⟨?_, hkeyed, ?_⟩
  · rw [hoptions]
    exact h.persist
  · rw [hstore]
    exact h.store

/-- A start that gets through leaves files that hold the state. -/
theorem Recording.startCommitted {clock : Clock} {recovered : Bool} (h : Recording im)
    (hs : im.startCommitted clock recovered = (im', .ok ())) (hencodable : im'.state.Encodable) :
    ∃ st', Mirrors im' st' (some im'.state) (some []) ∧ st'.opened = true := by
  have hbody : Recording (im.startBody clock recovered) :=
    h.congr (wiring_startBody im clock recovered)
      (Sound.startBody (P := fun _ => True) ⟨h.keyed, trivial⟩ clock recovered).wellKeyed
  unfold Impl.startCommitted at hs
  split at hs
  · cases hs
  rename_i im1 hcommit
  obtain ⟨h1, hw1⟩ := hbody.commit hcommit
  split at hs
  · cases hs
  rename_i im2 hrecovered
  have h2 : Recording im2 ∧ im2.state.Windowed := by
    split at hrecovered
    · unfold startRecovered at hrecovered
      split at hrecovered
      · cases hrecovered
      · rename_i im3 hclassify
        obtain rfl := congrArg Prod.fst hrecovered
        exact h1.classify hw1 hclassify
    · cases hrecovered
      exact ⟨h1, hw1⟩
  split at hs
  · cases hs
  rename_i im3 hcompacted
  cases hs
  have hstate : im3.state = im2.state := by
    rw [← state_compactStore im2, hcompacted]
  obtain ⟨st', h3, hopened⟩ := h2.1.compact h2.2 (hstate ▸ hencodable) hcompacted
  rw [← hstate] at h3
  exact ⟨st',
    ⟨h3.persist, h3.keyed, h3.windowed, h3.store, h3.enabled, h3.calm, h3.holds, h3.started,
    h3.contentKeyed, h3.contentWindowed, h3.initialized, h3.current⟩, hopened⟩

/-- A start opens the store and goes on from what it loads. -/
theorem start_eq {σ : Type} [DurableStore σ] {im : Impl σ} {st st1 st2 : σ}
    {loaded : VirtualizationState} (clock : Clock) (hrunning : im.running = false)
    (hst : im.store = some st) (hopen : DurableStore.open_ st = (st1, .ok ()))
    (hload : DurableStore.load st1 = (st2, .ok loaded)) :
    im.start clock = { im.beginOp with store := some st2, state := loaded }.startCommitted clock
      (DurableStore.present st1) := by
  have hbegin : { ({ im with store := some st1 } : Impl σ).beginOp with
      store := some st2, state := loaded } =
        { im.beginOp with store := some st2, state := loaded } :=
    rfl
  rw [← hbegin]
  unfold Impl.start
  rw [hrunning, if_neg (by decide), hst]
  simp only [hopen, hload]

/-- A start either finds the runtime running or loads what the store holds. -/
theorem start_loads {σ : Type} [DurableStore σ] {im im' : Impl σ} {st : σ} {clock : Clock}
    (hst : im.store = some st) (hs : im.start clock = (im', .ok ())) :
    (im.running = true ∧ im' = im) ∨ im.running = false ∧ ∃ st1 st2 loaded,
      DurableStore.open_ st = (st1, .ok ()) ∧ DurableStore.load st1 = (st2, .ok loaded) := by
  unfold Impl.start at hs
  split at hs
  · rename_i hrunning
    cases hs
    exact .inl ⟨hrunning, rfl⟩
  rename_i hrunning
  rw [hst] at hs
  simp only at hs
  split at hs
  · cases hs
  rename_i st1 hopen
  split at hs
  · cases hs
  · rename_i st2 loaded hload
    exact .inr ⟨by simpa using hrunning, st1, st2, loaded, hopen, hload⟩

/-- Opening and loading give what the files hold, unless it is not valid. -/
theorem Mirrors.load_eq (h : Mirrors im st base log) {st1 : FileDurableStore}
    (hopen : st.open_ = (st1, .ok ())) :
    (∃ discardedTail, st1.load.1 = { st1 with discardedTail }) ∧
      st1.options.enabled = true ∧ st1.files.moments = [] ∧
      st1.load.2 = if base.isSome || log.isSome then
          ((held base log).content edited).validateState.map fun _ => (held base log).content edited
        else .ok ((held base log).content edited) := by
  obtain ⟨st1', hopen', hoptions, hfiles, -⟩ := st.open_calm h.calm
  obtain rfl : st1' = st1 := congrArg Prod.fst (hopen'.symm.trans hopen)
  have henabled : st1'.options.enabled = true := hoptions ▸ h.enabled
  obtain ⟨hstore, hloaded⟩ := st1'.load_calm henabled (hfiles ▸ h.calm)
  have hrecovered : st1'.files.recovered st1'.options.tornTail =
      .ok ((held base log).content edited, false) := by
    rw [hfiles]
    exact h.holds.found _
  have hpresent : ((st1'.files.content .snapshot).isSome ||
      ((st1'.files.content .journal).filter (!·.isEmpty)).isSome) =
        (base.isSome || log.isSome) := by
    rw [hfiles, h.holds.snapshot, h.holds.journal]
    cases log with
    | none => cases base <;> rfl
    | some l => rw [Option.map_some, filter_journalOf, Option.isSome_map, Option.isSome_some,
        Option.isSome_some]
  rw [hrecovered] at hloaded
  simp only [hpresent] at hloaded
  exact ⟨hstore, henabled, hfiles ▸ h.calm, hloaded⟩

/-- What a store that is opened and loaded in a clean start gives. -/
theorem Mirrors.loads (h : Mirrors im st base log) {st1 st2 : FileDurableStore}
    {loaded : VirtualizationState} (hopen : st.open_ = (st1, .ok ()))
    (hload : st1.load = (st2, .ok loaded)) :
    loaded = (held base log).content edited ∧
      (base.isSome || log.isSome → loaded.validateState = .ok ()) ∧
      st2.options.enabled = true ∧ st2.files.moments = [] := by
  obtain ⟨⟨discarded, hstore⟩, henabled, hcalm, hloaded⟩ := h.load_eq hopen
  rw [hload] at hstore hloaded
  obtain rfl : st2 = { st1 with discardedTail := discarded } := hstore
  split at hloaded
  · cases hvalid : ((held base log).content edited).validateState with
    | error status =>
      rw [hvalid] at hloaded
      cases hloaded
    | ok u =>
      rw [hvalid] at hloaded
      obtain rfl := Except.ok.inj hloaded
      exact ⟨rfl, fun _ => hvalid, henabled, hcalm⟩
  · rename_i habsent
    obtain rfl := Except.ok.inj hloaded
    exact ⟨rfl, fun hpresent => absurd hpresent habsent, henabled, hcalm⟩

/-- Whether there is something to load. -/
theorem Mirrors.present (h : Mirrors im st base log) {st1 : FileDurableStore}
    (hopen : st.open_ = (st1, .ok ())) : st1.present = (base.isSome || log.isSome) := by
  obtain ⟨st1', hopen', -, -, -, hpresent⟩ := st.open_calm h.calm
  obtain rfl : st1' = st1 := congrArg Prod.fst (hopen'.symm.trans hopen)
  rw [hpresent, h.holds.snapshot, h.holds.journal]
  cases base with
  | some s => rfl
  | none =>
    cases log with
    | none => rfl
    | some l =>
      have hl : l ≠ [] := by
        rintro rfl
        obtain hnone | hne := h.started rfl
        · cases hnone
        · exact hne rfl
      have hlength := List.length_pos_iff_ne_nil.mpr (frames_ne_nil hl)
      simp only [Option.map_none, Option.isSome_none, Option.map_some, List.append_nil,
        Option.getD_some, length_journalOf, Bool.false_or, Option.isSome_some, decide_eq_true_eq]
      omega

/-- The runtime that a clean start goes on from. -/
theorem Mirrors.recording (h : Mirrors im st base log) {st1 st2 : FileDurableStore}
    {loaded : VirtualizationState} (hopen : st.open_ = (st1, .ok ()))
    (hload : st1.load = (st2, .ok loaded)) :
    Recording { im.beginOp with store := some st2, state := loaded } := by
  obtain ⟨hcontent, -, henabled, hcalm⟩ := h.loads hopen hload
  refine ⟨h.persist, ?_, st2, rfl, henabled, hcalm⟩
  change loaded.WellKeyed
  rw [hcontent]
  exact h.contentKeyed

/-- Only an open store can be closed after a commit. -/
theorem opened_of_closed (hst : im.store = some st) (henabled : st.options.enabled = true)
    {im1 im2 : Impl FileDurableStore} (hcommit : im.commit = (im1, .ok ()))
    (hclose : im1.closeStore = (im2, .ok ())) : st.opened = true := by
  by_contra hopened
  rw [Bool.not_eq_true] at hopened
  obtain ⟨store, hp, hcommit'⟩ | ⟨store, status, -, hcommit'⟩ := commit_cases im
  · rw [hcommit'] at hcommit
    cases hcommit
    have hstore : im.extended.store = some st := hst
    unfold persistChanges at hp
    rw [hstore] at hp
    simp only [DurableStore.applyChanges, applyChanges_not_opened henabled hopened] at hp
    split at hp
    · cases hp
    · -- nothing was written, and the compaction is refused
      cases hp
      simp only [closeStore, DurableStore.compact, FileDurableStore.compact, henabled, hopened,
        Bool.not_true, Bool.not_false, Bool.false_eq_true, if_false, if_true] at hclose
      cases hclose
  · rw [hcommit'] at hcommit
    cases hcommit

/-- A clean shutdown leaves files that hold the state, and closes the store. -/
theorem Mirrors.shutdown {clock : Clock} (h : Mirrors im st base log)
    (hs : im.shutdown clock = (im', .ok ())) (hencodable : im'.state.Encodable) :
    im' = im ∨ ∃ st', Mirrors im' st' (some im'.state) (some []) ∧ st'.opened = false := by
  obtain ⟨-, rfl⟩ | ⟨-, im1, im2, hcommit, hclose, rfl⟩ := shutdown_cases hs
  · exact .inl rfl
  have hbody : Recording (im.beginOp.shutdownBody clock) := by
    have hbegin : Recording im.beginOp := ⟨h.persist, h.keyed, st, h.store, h.enabled, h.calm⟩
    have hsound : im.beginOp.state.Sound (onLedger fun _ => True) := ⟨h.keyed, trivial⟩
    exact hbegin.congr (wiring_shutdownBody im.beginOp clock)
      (Sound.shutdownBody hsound clock).wellKeyed
  obtain ⟨h1, hwindowed⟩ := hbody.commit hcommit
  obtain ⟨st1, hst1, -⟩ := h1.store
  unfold closeStore at hclose
  rw [hst1] at hclose
  simp only [DurableStore.compact, DurableStore.close] at hclose
  obtain ⟨hstate, hcompacted⟩ := Prod.mk.inj hclose
  have hcompact : im1.compactStore =
      ({ im1 with store := some (st1.compact im1.state).1 }, .ok ()) := by
    unfold compactStore
    rw [hst1]
    refine Prod.ext rfl ?_
    cases hok : (st1.compact im1.state).2 with
    | ok u => rfl
    | error status =>
      rw [hok] at hcompacted
      cases hcompacted
  rw [← hstate] at hencodable ⊢
  obtain ⟨st', hmirrors, -⟩ := h1.compact hwindowed hencodable hcompact
  obtain rfl := Option.some.inj hmirrors.store
  refine .inr ⟨_, ⟨h1.persist, h1.keyed, hwindowed, rfl, hmirrors.enabled, hmirrors.calm,
    hmirrors.holds, hmirrors.started, hmirrors.contentKeyed, hmirrors.contentWindowed, ?_, ?_⟩, rfl⟩
  all_goals
    intro hopened
    cases hopened

/-- A compaction in between makes the state what the files hold, or the store is not open. -/
theorem Mirrors.compact (h : Mirrors im st base log) (hencodable : im.state.Encodable) :
    st.opened = true ∧ (∃ st', Mirrors im.compact.1 st' (some im.state) (some []) ∧
        st'.opened = true) ∨
      st.opened = false ∧ im.compact.1 = im := by
  cases hopened : st.opened with
  | true =>
    have hcalm := (FileDurableStore.carries_compact st im.state).calm h.enabled hopened h.calm
    have hcompact : im.compactStore = (im.compact.1, .ok ()) := by
      unfold Impl.compact compactStore
      rw [h.store]
      exact Prod.ext rfl hcalm
    exact .inl
      ⟨rfl, Recording.compact ⟨h.persist, h.keyed, st, h.store, h.enabled, h.calm⟩ h.windowed
      hencodable hcompact⟩
  | false =>
    refine .inr ⟨rfl, ?_⟩
    unfold Impl.compact compactStore
    rw [h.store]
    simp only [DurableStore.compact, FileDurableStore.compact, h.enabled, hopened, Bool.not_true,
      Bool.not_false, Bool.false_eq_true, if_false, if_true]
    rw [← h.store]

/-- Empty windows are within their capacities. -/
theorem windowed_empty : ({} : VirtualizationState).Windowed where
  audit := by decide
  decisions := by decide
  requests := by decide

/-- A new process finds the files as they are. -/
theorem Mirrors.boot (h : Mirrors im st base log) {options : RuntimeOptions}
    {storeOptions : StoreOptions} (hpersist : options.persist = true)
    (henabled : storeOptions.enabled = true) :
    Mirrors { options, store := im.store.map fun st => st.reopened storeOptions }
      (st.reopened storeOptions) base log where
  persist := hpersist
  keyed := wellKeyed_empty
  windowed := windowed_empty
  store := by
    rw [h.store]
    rfl
  enabled := henabled
  calm := rfl
  holds := h.holds.congr rfl
  started := h.started
  contentKeyed := h.contentKeyed
  contentWindowed := h.contentWindowed
  initialized := by
    intro hopened
    cases hopened
  current := by
    intro hopened
    cases hopened

/-- An empty directory holds nothing. -/
theorem mirrors_onFiles {options : RuntimeOptions} {storeOptions : StoreOptions}
    (hpersist : options.persist = true) (henabled : storeOptions.enabled = true) :
    Mirrors (onFiles options storeOptions) { options := storeOptions } none none where
  persist := hpersist
  keyed := wellKeyed_empty
  windowed := windowed_empty
  store := rfl
  enabled := henabled
  calm := rfl
  holds := {
    snapshot := rfl
    journal := rfl
    snapped := by
      rintro s ⟨⟩
    storable := by
      rintro l ⟨⟩
    torn := .inl rfl }
  started _ := .inl rfl
  contentKeyed := wellKeyed_empty
  contentWindowed := windowed_empty
  initialized := by
    intro hopened
    cases hopened
  current := by
    intro hopened
    cases hopened

end Impl

end AcceleratorVirtualization
