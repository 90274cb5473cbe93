import AcceleratorVirtualization.Store.Refinement

/-!
# What a crash leaves behind

A process can end in the middle of a write, and a write can fail after some of its bytes are in
the file. Nothing goes on after a crash, so what the next process finds is what the files hold
after a call in which, from some moment on, everything goes wrong. Whatever goes wrong, and however
often, the next process finds each record as it was or as the call left it.
-/

namespace AcceleratorVirtualization

open VirtualizationState Journaling Impl

/-- The store, when these are the moments of the calls to come. -/
def FileDurableStore.faulted (st : FileDurableStore) (moments : List Moment) : FileDurableStore :=
  { st with files := { st.files with moments } }

/-- The records of a change set that fill a cell all say what the state says. -/
theorem look_edited_of_mem_edits {state : VirtualizationState} {changes : ChangeSet} {e : Edit}
    {c : Cell} (hkeyed : ∀ k id r, state.find k id = some r → k.idOf r = id)
    (he : e ∈ edits state changes) (hc : e.cell = some c) (s : VirtualizationState) :
    (s.edited e).look c = state.look c := by
  cases c with
  | header =>
    cases e with
    | header source =>
      obtain ⟨-, rfl⟩ := mem_edits_header.mp he
      rfl
    | _ => cases hc
  | entity k id =>
    obtain ⟨r, rfl, -, hr⟩ := eq_entity_of_mem_edits hkeyed he hc
    have hid : k.idOf r = id := hkeyed k id r hr
    subst hid
    change (s.put k _ r).find k _ = state.find k _
    rw [find_put_self, if_pos rfl, hr]

/-- What a first part of the records of a change set leads to. -/
theorem look_foldl_edits {state : VirtualizationState} {changes : ChangeSet}
    (before : VirtualizationState) (k : ℕ)
    (hkeyed : ∀ k id r, state.find k id = some r → k.idOf r = id)
    (hheader : changes.header = true) :
    (∀ c, (((edits state changes).take k).foldl edited before).look c = before.look c) ∨
      (((edits state changes).take k).foldl edited before).header = state.header ∧
      ∀ c, (((edits state changes).take k).foldl edited before).look c = before.look c ∨
        (((edits state changes).take k).foldl edited before).look c = state.look c := by
  have ho := overwriting_edited
  have hvalue : ∀ c, ∀ e ∈ edits state changes, e.cell = some c → ∀ s,
      (edited s e).look c = state.look c :=
    fun c e he hc s => look_edited_of_mem_edits hkeyed he hc s
  cases k with
  | zero => exact .inl fun c => rfl
  | succ k =>
    -- the header is the first record
    have hmem : Edit.header state ∈ (edits state changes).take (k + 1) := by
      simp [edits, hheader]
    exact .inr ⟨ho.look_foldl_eq (c := Cell.header)
      (fun e he => hvalue _ e (List.mem_of_mem_take he)) ⟨_, hmem, rfl⟩ before,
      fun c => ho.look_foldl_take (hvalue c) (k + 1) before⟩

/-- What a new process finds in the files after a call in which things went wrong: every record as
it was before the call or as the call was to leave it, and the scalars as the call was to leave them
unless nothing at all is new. An incomplete last record is dropped, or the files are refused. -/
structure Survives (before after : VirtualizationState) (files : Files) (s : VirtualizationState)
    (torn : Bool) : Prop where
  found : files.recovered .discard = .ok (s, torn)
  cells : (∀ c, s.look c = before.look c) ∨
    s.header = after.header ∧ ∀ c, s.look c = before.look c ∨ s.look c = after.look c
  refused : files.recovered .reject = .ok (s, false) ∨
    torn = true ∧ ∃ status : Status, status.code = .truncatedState ∧
      files.recovered .reject = .error status

/-- Files that hold a state let it survive. -/
theorem Files.Holds.survives {f : Files} {base : Option VirtualizationState}
    {log : Option (List Edit)} (h : f.Holds base log []) (after : VirtualizationState) :
    Survives ((held base log).content edited) after f ((held base log).content edited) false :=
  ⟨h.found _, .inl fun _ => rfl, .inl (h.found _)⟩

namespace Impl

section Faults

variable {im s im' : Impl FileDurableStore} {r : Impl FileDurableStore × Except Failure Unit}
  {st : FileDurableStore} {base : Option VirtualizationState} {log : Option (List Edit)}
  {clock : Clock} {op : Op}

/-- The commit of an operation to a store in which things go wrong. -/
theorem Mirrors.commit_faulted {reported : Bool} {request : RequestId} (h : Mirrors im st base log)
    (hopened : st.opened = true) (hw : Written im s im' r) (hkeeping : Keeping im.state im'.state)
    (henters : im'.changes.Enters reported request) (hencodable : im'.extended.state.Encodable)
    (moments : List Moment) :
    ∃ st' found torn, (im'.upon (some (st.faulted moments))).commit.1.store = some st' ∧
      Survives ((held base log).content edited) im'.extended.state st'.files found torn ∧
      ((im'.upon (some (st.faulted moments))).commit.2 = .ok () →
        found = im'.extended.state ∧ torn = false) := by
  have hready := hw.ready
  have hkeyed : im'.extended.state.WellKeyed :=
    hready.wellKeyed.advance (entities_extended im') le_rfl
  have hserves : (st.faulted moments).Serves base log :=
    ⟨h.enabled, hopened, h.holds.congr rfl, h.initialized hopened⟩
  have hpersist : im'.options.persist = true := by
    rw [show im'.options = im.options from hready.options.trans hw.options]
    exact h.persist
  have hstore : (im'.upon (some (st.faulted moments))).extended.store =
    some (st.faulted moments) := rfl
  have hpersisted := persistChanges_files hstore hpersist hready.nonempty
  obtain ⟨found, torn, hfound, hok, ⟨k, -, hlook⟩, hrefused⟩ :=
    FileDurableStore.recovered_applyChanges hserves hkeyed.keyed (storable_edits henters hencodable)
      hencodable.snapped hready.header (h.leads hopened hw hkeeping)
  -- a prefix of the edits was written, so each cell is old or new
  have hcells : (∀ c, found.look c = ((held base log).content edited).look c) ∨
      found.header = im'.extended.state.header ∧ ∀ c,
        found.look c = ((held base log).content edited).look c ∨
        found.look c = im'.extended.state.look c := by
    obtain hold | ⟨hheader, hcells⟩ :=
      look_foldl_edits ((held base log).content edited) k hkeyed.keyed hready.header
    · exact .inl fun c => (hlook c).trans (hold c)
    · refine .inr ⟨(hlook .header).trans hheader, fun c => ?_⟩
      rw [hlook c]
      exact hcells c
  refine ⟨_, found, torn, ?_, ⟨hfound, hcells, hrefused⟩, fun hcommit => ?_⟩
  · obtain ⟨store, hp, hcommit⟩ | ⟨store, status, hp, hcommit⟩ :=
      commit_cases (im'.upon (some (st.faulted moments)))
    all_goals
      rw [hcommit]
      exact (Prod.mk.inj (hp.symm.trans hpersisted)).1
  · refine hok ?_
    obtain ⟨store, hp, -⟩ | ⟨store, status, -, hfailed⟩ :=
      commit_cases (im'.upon (some (st.faulted moments)))
    · exact (Prod.mk.inj (hpersisted.symm.trans hp)).2
    · rw [hfailed] at hcommit
      cases hcommit

/-- Whatever goes wrong while an operation is written, a new process reads each record as it was or
as the operation leaves it, before it validates what it has read; if the operation is not answered
with a failure to persist, its answer is that of a call in which nothing goes wrong, and all that it
leaves is read. -/
theorem exec_faulted {options : RuntimeOptions} {storeOptions : StoreOptions}
    {events : List StoreEvent} (h : CleanRun options storeOptions events im)
    (hst : im.store = some st) (hopened : st.opened = true)
    (hencodable : (im.exec clock op).1.state.Encodable) (moments : List Moment) :
    ∃ before st' found torn, st.files.recovered .discard = .ok (before, false) ∧
      ((im.upon (some (st.faulted moments))).exec clock op).1.store = some st' ∧
      Survives before (im.exec clock op).1.state st'.files found torn ∧
      ((∀ status, ((im.upon (some (st.faulted moments))).exec clock op).2 ≠
          .error (.persistence status)) →
        ((im.upon (some (st.faulted moments))).exec clock op).2 = (im.exec clock op).2 ∧
        torn = false ∧ ∃ n ≤ (im.exec clock op).1.state.nextSequence,
          found = { (im.exec clock op).1.state with nextSequence := n }) := by
  obtain ⟨st', base, log, hmirrors⟩ := h.mirrors
  obtain rfl : st' = st := Option.some.inj (hmirrors.store.symm.trans hst)
  refine ⟨(held base log).content edited, ?_⟩
  -- either nothing is committed, or the commit meets the fault
  obtain ⟨hr, hover⟩ | ⟨s, im', answer, hw, hkeeping, henters, hfailed, hr, hover⟩ :=
    abreast_exec (some (st'.faulted moments)) (respects_keeping im.state) hmirrors.keyed
      (does_keeping hmirrors.keyed clock op)
  · have hholds : (st'.faulted moments).files.Holds base log [] := hmirrors.holds.congr rfl
    refine ⟨st'.faulted moments, _, false, hmirrors.holds.found _, by rw [hover]; rfl,
      hholds.survives _, fun _ => ⟨by rw [hover]; rfl, rfl, ?_⟩⟩
    obtain ⟨n, hn, hcontent⟩ := hmirrors.current hopened
    obtain ⟨m, hm, hstate⟩ := hr.state
    rw [hstate, hcontent]
    exact ⟨n, hn.trans hm, rfl⟩
  · rw [hr] at hencodable
    obtain ⟨_, _, _, hp, -⟩ :=
      hmirrors.commit_opened hopened hw hkeeping henters hencodable
    have hcommit : im'.commit = (im'.commit.1, .ok ()) ∧
        im'.commit.1.state = im'.extended.state := by
      obtain ⟨store, -, hc⟩ | ⟨store, status, hp', -⟩ := commit_cases im'
      · rw [hc]
        exact ⟨rfl, rfl⟩
      · rw [hp] at hp'
        cases hp'
    rw [hcommit.2] at hencodable
    obtain ⟨st2, found, torn, hst2, hsurvives, hok⟩ :=
      hmirrors.commit_faulted hopened hw hkeeping henters hencodable moments
    rw [hr, hover]
    refine ⟨st2, found, torn, hmirrors.holds.found _, hst2, hcommit.2 ▸ hsurvives, fun hne => ?_⟩
    have hok' : (im'.upon (some (st'.faulted moments))).commit.2 = .ok () := by
      cases hc : (im'.upon (some (st'.faulted moments))).commit.2 with
      | ok u => rfl
      | error status => exact absurd ((hfailed _ status).mpr hc) (hne status)
    obtain ⟨hfound, htorn⟩ := hok hok'
    refine ⟨?_, htorn, _, le_rfl, hfound.trans hcommit.2.symm⟩
    rw [hok', hcommit.1]

/-- A registration whose append is cut short, in a store that has just been opened. -/
theorem exec_faulted_registration : ∃ (im : Impl FileDurableStore) (st : FileDurableStore)
    (before : VirtualizationState) (st' : FileDurableStore) (found : VirtualizationState)
    (torn : Bool), im.store = some st ∧ st.files.recovered .discard = .ok (before, false) ∧
      ((im.upon (some (st.faulted [{ append := some (.short 9) }]))).exec { now := 6 }
        Sample.registration).1.store = some st' ∧
      Survives before (im.exec { now := 6 } Sample.registration).1.state st'.files found torn := by
  obtain ⟨im, st, h, hst, hopened, hencodable⟩ := Sample.cleanRun_begun
  obtain ⟨before, st', found, torn, hbefore, hst', hsurvives, -⟩ :=
    exec_faulted h hst hopened hencodable [{ append := some (.short 9) }]
  exact ⟨im, st, before, st', found, torn, hst, hbefore, hst', hsurvives⟩

/-- Whatever goes wrong in a compaction, a new process reads each entity record as it is, and the
scalars as they are or were written last. Where the old journal is replayed over the new snapshot,
it reads the entries of the windows twice. -/
theorem compact_faulted {options : RuntimeOptions} {storeOptions : StoreOptions}
    {events : List StoreEvent} (h : CleanRun options storeOptions events im)
    (hst : im.store = some st) (hopened : st.opened = true) (moments : List Moment) :
    ∃ before st' found, st.files.recovered .discard = .ok (before, false) ∧
      (im.upon (some (st.faulted moments))).compact.1.store = some st' ∧
      Survives before im.state st'.files found false ∧
      (∀ k id, found.find k id = im.state.find k id) ∧
      ((im.upon (some (st.faulted moments))).compact.2 = .ok () → found = im.state) := by
  obtain ⟨st', base, log, hmirrors⟩ := h.mirrors
  obtain rfl : st' = st := Option.some.inj (hmirrors.store.symm.trans hst)
  have hsnapped := (h.encodable events im List.prefix_rfl h.reached).snapped
  obtain ⟨n, -, hcontent⟩ := hmirrors.current hopened
  have hsame : ∀ k id, ((held base log).content edited).find k id = im.state.find k id := by
    intro k id
    rw [hcontent]
    cases k <;> rfl
  have henabled : (st'.faulted moments).options.enabled = true := hmirrors.enabled
  have hopened' : (st'.faulted moments).opened = true := hopened
  have hholds : (st'.faulted moments).files.Holds base log [] := hmirrors.holds.congr rfl
  have hcompact : (im.upon (some (st'.faulted moments))).compact =
      ({ im with store := some ((st'.faulted moments).compact im.state).1 },
        ((st'.faulted moments).compact im.state).2) := rfl
  refine ⟨(held base log).content edited, ?_⟩
  rw [hcompact]
  obtain ⟨st2, -, ⟨heq, hserves⟩ | ⟨-, ⟨status, heq⟩, hkept⟩⟩ :=
    FileDurableStore.compact_cases henabled hopened' hsnapped
  · rw [heq]
    have hfound := hserves.holds.found
    refine ⟨st2, im.state, hmirrors.holds.found _, rfl, ⟨hfound _, ?_, .inl (hfound _)⟩,
      fun k id => rfl, fun _ => rfl⟩
    exact .inr ⟨rfl, fun c => .inr rfl⟩
  · rw [heq]
    obtain hold | hnew := hkept base log [] hholds
    · exact ⟨st2, _, hmirrors.holds.found _, rfl, hold.survives _, hsame, fun hok => by cases hok⟩
    · -- the journal is replayed over the snapshot that has it
      have hcells : ∀ c, ((held (some im.state) log).content edited).look c =
            ((held base log).content edited).look c ∨
          ((held (some im.state) log).content edited).look c = im.state.look c :=
        fun c => overwriting_edited.look_foldl_or (log.getD []) c (base.getD {}) im.state
      have hfind : ∀ k id, ((held (some im.state) log).content edited).find k id =
          im.state.find k id := by
        intro k id
        obtain hold | hnew := hcells (.entity k id)
        · exact Eq.trans hold (hsame k id)
        · exact hnew
      refine ⟨st2, _, hmirrors.holds.found _, rfl, ⟨hnew.found _, ?_, .inl (hnew.found _)⟩, hfind,
        fun hok => by cases hok⟩
      obtain hold | hheader := hcells .header
      · refine .inl fun c => ?_
        cases c with
        | header => exact hold
        | entity k id => exact (hfind k id).trans (hsame k id).symm
      · exact .inr ⟨hheader, hcells⟩

/-- A compaction that fails between its two files. -/
theorem compact_faulted_begun : ∃ (im : Impl FileDurableStore) (st : FileDurableStore)
    (before : VirtualizationState) (st' : FileDurableStore) (found : VirtualizationState),
    im.store = some st ∧ st.files.recovered .discard = .ok (before, false) ∧
      (im.upon (some (st.faulted [{}, { write := some .sync }]))).compact.1.store = some st' ∧
      Survives before im.state st'.files found false ∧
      ∀ k id, found.find k id = im.state.find k id := by
  obtain ⟨im, st, h, hst, hopened, -⟩ := Sample.cleanRun_begun
  obtain ⟨before, st', found, hbefore, hst', hsurvives, hfind, -⟩ :=
    compact_faulted h hst hopened [{}, { write := some .sync }]
  exact ⟨im, st, before, st', found, hst, hbefore, hst', hsurvives, hfind⟩

end Faults

end Impl

end AcceleratorVirtualization
