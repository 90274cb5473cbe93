import AcceleratorVirtualization.Store.Recovery

/-!
# What a store holds after its calls

A change set that is taken adds its records to the log of the files, and a compaction makes the
content the base. Whatever goes wrong in a call, the files hold a base and a log again, perhaps with
an incomplete record behind it: of the records of a change set, a first part has reached the log,
and in the middle of a compaction the log is replayed over a base that has it already.
-/

namespace AcceleratorVirtualization

open VirtualizationState Journaling

/-! ### Calls to the file system -/

namespace Files

variable {f : Files}

/-- Where nothing is foreseen, time passes without a trace. -/
theorem pass_of_nil (h : f.moments = []) : f.pass = f := by
  cases f
  cases h
  rfl

/-- Where nothing is foreseen, nothing goes wrong. -/
theorem moment_of_nil (h : f.moments = []) : f.moment = {} := by
  rw [moment, h]
  rfl

/-- Where nothing is foreseen, nothing will be. -/
theorem moments_pass_of_nil (h : f.moments = []) : f.pass.moments = [] := by
  rw [pass_of_nil h, h]

/-- A file is replaced, or something goes wrong and it is not. -/
theorem writeFileAtomic_cases (f : Files) (file : StoreFile) (path : Text) (data : Bytes)
    (durable : Bool) :
    f.writeFileAtomic file path data durable = (f.pass.set file data, .ok ()) ∨
      f.moments ≠ [] ∧
        ∃ status, f.writeFileAtomic file path data durable = (f.pass, .error status) := by
  by_cases hclean : f.moments = []
  · left
    unfold writeFileAtomic
    simp only [moment_of_nil hclean]
  · unfold writeFileAtomic
    simp only
    split
    · exact .inl rfl
    · exact .inr ⟨hclean, _, rfl⟩
    · split
      · exact .inl rfl
      · exact .inr ⟨hclean, _, rfl⟩
    · exact .inr ⟨hclean, _, rfl⟩
    · split
      · exact .inr ⟨hclean, _, rfl⟩
      · exact .inl rfl
    · exact .inr ⟨hclean, _, rfl⟩

/-- The bytes are appended, or something goes wrong: the file is not opened, or only some of them
are. -/
theorem appendFileBytes_cases (f : Files) (file : StoreFile) (path : Text) {data : Bytes}
    (durable : Bool) (hdata : data ≠ []) :
    f.appendFileBytes file path data durable =
        (f.pass.set file ((f.content file).getD [] ++ data), .ok ()) ∨
      f.moments ≠ [] ∧ ∃ status,
        f.appendFileBytes file path data durable = (f.pass, .error status) ∨
          ∃ kept, f.appendFileBytes file path data durable =
            (f.pass.set file ((f.content file).getD [] ++ data.take kept), .error status) := by
  have hempty : ¬ data.isEmpty = true := by simpa using hdata
  by_cases hclean : f.moments = []
  · left
    unfold appendFileBytes
    simp only [if_neg hempty, moment_of_nil hclean, List.take_length]
  · unfold appendFileBytes
    simp only [if_neg hempty, List.take_length]
    split
    · exact .inl rfl
    · exact .inr ⟨hclean, _, .inl rfl⟩
    · exact .inr ⟨hclean, _, .inr ⟨_, rfl⟩⟩
    · exact .inr ⟨hclean, _, .inr ⟨_, rfl⟩⟩
    · split
      · exact .inr ⟨hclean, _, .inr ⟨_, rfl⟩⟩
      · exact .inl rfl

/-- The content of the files after one was set. -/
theorem content_set (file other : StoreFile) (data : Bytes) :
    (f.set file data).content other = if other = file then some data else f.content other :=
  Function.update_apply ..

/-! ### What the files hold -/

variable {base : Option VirtualizationState} {log : Option (List Edit)} {part : Bytes}
  {more : List Edit} {state : VirtualizationState}

/-- Only the contents of the files matter. -/
theorem Holds.congr {f' : Files} (h : f.Holds base log part) (hf : f'.content = f.content) :
    f'.Holds base log part :=
  { h with
    snapshot := by rw [hf]; exact h.snapshot
    journal := by rw [hf]; exact h.journal }

/-- The passing of a moment leaves the files with what they hold. -/
theorem Holds.pass (h : f.Holds base log part) : f.pass.Holds base log part := h.congr rfl

/-- An empty journal. -/
theorem Holds.initialize (h : f.Holds base log part) :
    (f.set .journal journalHeaderBytes).Holds base (some []) [] where
  snapshot := by
    rw [content_set, if_neg (by decide)]
    exact h.snapshot
  journal := by
    rw [content_set, if_pos rfl]
    simp [journalOf, frames]
  snapped := h.snapped
  storable l hl e he := by
    obtain rfl := Option.some.inj hl
    cases he
  torn := .inl rfl

/-- A snapshot of a state that fits. -/
theorem Holds.snapshot_set (h : f.Holds base log part) (hs : state.Snapped) :
    (f.set .snapshot (encodeSnapshotFile state)).Holds (some state) log part where
  snapshot := by
    rw [content_set, if_pos rfl]
    rfl
  journal := by
    rw [content_set, if_neg (by decide)]
    exact h.journal
  snapped s hs' := Option.some.inj hs' ▸ hs
  storable := h.storable
  torn := h.torn

/-- The first bytes of the records that are appended: a first part of the records, and perhaps an
incomplete one. -/
theorem Holds.append_take {l : List Edit} (h : f.Holds base (some l) [])
    (hmore : ∀ e ∈ more, e.Storable) (kept : ℕ) :
    ∃ k ≤ more.length, ∃ part, (f.set .journal ((f.content .journal).getD [] ++
      (frames more).take kept)).Holds base (some (l ++ more.take k)) part := by
  obtain ⟨k, rest, hk, htake, hrest⟩ := take_flatMap Edit.framed more kept
  refine ⟨k, hk, rest, ?_⟩
  have hjournal : (f.content .journal).getD [] = journalOf l := by
    rw [h.journal]
    simp
  refine ⟨?_, ?_, h.snapped, fun l' hl' e he => ?_, ?_⟩
  · rw [content_set, if_neg (by decide)]
    exact h.snapshot
  · rw [content_set, if_pos rfl, hjournal, frames, htake, Option.map_some, journalOf, journalOf,
      frames_append]
    simp only [List.append_assoc, frames]
  · obtain rfl := Option.some.inj hl'
    rcases List.mem_append.mp he with he | he
    · exact h.storable l rfl e he
    · exact hmore e (List.mem_of_mem_take he)
  · by_cases hnil : rest = []
    · exact .inl hnil
    · obtain ⟨-, hnil', -⟩ | ⟨e, he, hprefix, hlt, -⟩ := hrest
      · exact absurd hnil' hnil
      · exact .inr ⟨by simp, e, hmore e (List.mem_of_getElem? he), hprefix, hlt, hnil⟩

/-- Whole records behind a whole journal extend its log. -/
theorem Holds.append {l : List Edit} (h : f.Holds base (some l) [])
    (hmore : ∀ e ∈ more, e.Storable) :
    (f.set .journal ((f.content .journal).getD [] ++ frames more)).Holds base (some (l ++ more))
      [] where
  snapshot := by
    rw [content_set, if_neg (by decide)]
    exact h.snapshot
  journal := by
    rw [content_set, if_pos rfl, h.journal]
    simp [journalOf, frames_append]
  snapped := h.snapped
  storable l' hl' e he := by
    obtain rfl := Option.some.inj hl'
    rcases List.mem_append.mp he with he | he
    · exact h.storable l rfl e he
    · exact hmore e he
  torn := .inl rfl

end Files

/-! ### A base and a log -/

variable {base : Option VirtualizationState} {log : Option (List Edit)} {more : List Edit}
  {state : VirtualizationState}

/-- The state that is held after more records, from the state held before. -/
theorem content_held_append (l : List Edit) (more : List Edit) :
    (held base (some (l ++ more))).content edited =
      more.foldl edited ((held base (some l)).content edited) :=
  Journaled.content_append ⟨base.getD {}, l⟩ more

/-- A snapshot with an empty journal holds the state of the snapshot. -/
theorem content_held_checkpoint : (held (some state) (some [])).content edited = state := rfl

/-- A log is replayed over a base that has it already: the cells are those of the base. -/
theorem look_held_rebase (h : (held base log).content edited = state) (c : Cell) :
    ((held (some state) log).content edited).look c = state.look c := by
  have hrebase := Journaled.look_content_rebase overwriting_edited (held base log) c
  rw [h] at hrebase
  subst h
  exact hrebase

/-! ### Calls to a store -/

namespace FileDurableStore

variable {st : FileDurableStore} {changes : ChangeSet}

/-- A store that is used: it is enabled and open, its files hold a base and a log, and it knows
whether there is a journal. -/
structure Serves (st : FileDurableStore) (base : Option VirtualizationState)
    (log : Option (List Edit)) : Prop where
  enabled : st.options.enabled = true
  opened : st.opened = true
  holds : st.files.Holds base log []
  initialized : st.journalInitialized = log.isSome

/-- What a step leaves alone. -/
structure Continues (st st' : FileDurableStore) : Prop where
  options : st'.options = st.options
  opened : st'.opened = st.opened
  moments : st.files.moments = [] → st'.files.moments = []

theorem Continues.refl : Continues st st := ⟨rfl, rfl, id⟩

theorem Continues.trans {st' st'' : FileDurableStore} (h : Continues st st')
    (h' : Continues st' st'') : Continues st st'' :=
  ⟨h'.options.trans h.options, h'.opened.trans h.opened, fun hclean =>
    h'.moments (h.moments hclean)⟩

/-- Either the snapshot is replaced, or something was foreseen and the files hold what they held. -/
theorem replaceSnapshot_cases (st : FileDurableStore) (state : VirtualizationState) :
    ∃ st', Continues st st' ∧
      (st.replaceSnapshot state = (st', .ok ()) ∧
          st'.files = st.files.pass.set .snapshot (encodeSnapshotFile state) ∨
        st.files.moments ≠ [] ∧ st'.files = st.files.pass ∧
          ∃ status, st.replaceSnapshot state = (st', .error status)) := by
  unfold replaceSnapshot
  obtain hwrite | ⟨hfault, status, hwrite⟩ := st.files.writeFileAtomic_cases .snapshot
    st.snapshotPath (encodeSnapshotFile state) st.options.durableSync
  · simp only [hwrite]
    refine ⟨_, ?_, .inl ⟨rfl, rfl⟩⟩
    exact ⟨rfl, rfl, Files.moments_pass_of_nil⟩
  · simp only [hwrite]
    refine ⟨_, ?_, .inr ⟨hfault, ?_, status, rfl⟩⟩
    · exact ⟨rfl, rfl, Files.moments_pass_of_nil⟩
    · rfl

/-- Either the journal is replaced by its header, or something was foreseen. -/
theorem truncateJournal_cases (st : FileDurableStore) :
    ∃ st', Continues st st' ∧
      (st.truncateJournal = (st', .ok ()) ∧ st'.journalInitialized = true ∧
          st'.files = st.files.pass.set .journal journalHeaderBytes ∨
        st.files.moments ≠ [] ∧ st'.files = st.files.pass ∧
          ∃ status, st.truncateJournal = (st', .error status)) := by
  unfold truncateJournal
  obtain hwrite | ⟨hfault, status, hwrite⟩ := st.files.writeFileAtomic_cases .journal
    st.journalPath journalHeaderBytes st.options.durableSync
  · simp only [hwrite]
    refine ⟨_, ?_, .inl ⟨rfl, rfl, rfl⟩⟩
    exact ⟨rfl, rfl, Files.moments_pass_of_nil⟩
  · simp only [hwrite]
    refine ⟨_, ?_, .inr ⟨hfault, ?_, status, rfl⟩⟩
    · exact ⟨rfl, rfl, Files.moments_pass_of_nil⟩
    · rfl

/-- A compaction makes the state the base, whatever the files were. Where something goes wrong, they
hold what they held, or the state as the base with the log behind it that there was. -/
theorem compact_cases (henabled : st.options.enabled = true) (hopened : st.opened = true)
    (hs : state.Snapped) :
    ∃ st', Continues st st' ∧
      (st.compact state = (st', .ok ()) ∧ st'.Serves (some state) (some []) ∨
        st.files.moments ≠ [] ∧ (∃ status, st.compact state = (st', .error status)) ∧
          ∀ base log part, st.files.Holds base log part →
            st'.files.Holds base log part ∨ st'.files.Holds (some state) log part) := by
  have heq : st.compact state = Check.andThen (st.replaceSnapshot state) truncateJournal := by
    simp only [compact, henabled, hopened, Bool.not_true, Bool.false_eq_true, if_false]
  rw [heq]
  -- first the snapshot is replaced, then the journal is truncated
  obtain ⟨st1, hst1, ⟨hreplace, hfiles⟩ | ⟨hfault, hfiles, status, hreplace⟩⟩ :=
    replaceSnapshot_cases st state
  · rw [hreplace]
    simp only [Check.andThen]
    obtain ⟨st2, hst2, ⟨htruncate, hinit, hfiles'⟩ | ⟨hfault, hfiles', status, htruncate⟩⟩ :=
      truncateJournal_cases st1
    · refine ⟨st2, hst1.trans hst2, .inl ⟨htruncate, ?_, ?_, ?_, hinit⟩⟩
      · rw [hst2.options, hst1.options, henabled]
      · rw [hst2.opened, hst1.opened, hopened]
      · have hsnapshot :
          (st.files.pass.set .snapshot (encodeSnapshotFile state)).content .snapshot =
            some (encodeSnapshotFile state) := by rw [Files.content_set, if_pos rfl]
        rw [hfiles', hfiles]
        constructor
        · rw [Files.content_set, if_neg (by decide)]
          exact hsnapshot
        · rw [Files.content_set, if_pos rfl]
          simp [journalOf, frames]
        · rintro s ⟨⟩
          exact hs
        · rintro l ⟨⟩ e he
          cases he
        · exact .inl rfl
    · refine ⟨st2, hst1.trans hst2, .inr ⟨fun hclean => hfault (hst1.moments hclean),
        ⟨status, htruncate⟩, fun base log part hholds => .inr ?_⟩⟩
      rw [hfiles', hfiles]
      exact (hholds.pass.snapshot_set hs).pass
  · rw [hreplace]
    refine ⟨st1, hst1, .inr ⟨hfault, ⟨status, rfl⟩, fun base log part hholds => .inl ?_⟩⟩
    rw [hfiles]
    exact hholds.pass

/-- Either the journal has a header afterwards, or something was foreseen. -/
theorem initializeJournal_cases (h : st.Serves base log) :
    ∃ st', Continues st st' ∧
      (st.initializeJournal = (st', .ok ()) ∧ st'.Serves base (some (log.getD [])) ∨
        st.files.moments ≠ [] ∧ (∃ status, st.initializeJournal = (st', .error status)) ∧
          st'.files.Holds base log []) := by
  unfold initializeJournal
  cases log with
  | some l =>
    have hinit : st.journalInitialized = true := h.initialized
    rw [if_pos hinit]
    exact ⟨st, .refl, .inl ⟨rfl, h⟩⟩
  | none =>
    rw [if_neg (by rw [h.initialized]; decide)]
    obtain hwrite | ⟨hfault, status, hwrite⟩ := st.files.writeFileAtomic_cases .journal
      st.journalPath journalHeaderBytes st.options.durableSync
    · simp only [hwrite]
      refine ⟨_, ?_, .inl ⟨rfl, ?_⟩⟩
      · exact ⟨rfl, rfl, Files.moments_pass_of_nil⟩
      · exact ⟨h.enabled, h.opened, h.holds.pass.initialize, rfl⟩
    · simp only [hwrite]
      refine ⟨_, ?_, .inr ⟨hfault, ⟨status, rfl⟩, ?_⟩⟩
      · exact ⟨rfl, rfl, Files.moments_pass_of_nil⟩
      · exact h.holds.pass

/-- The records are appended, or a first part of them. -/
theorem appendBatch_cases {l : List Edit} (h : st.Serves base (some l))
    (hmore : ∀ e ∈ more, e.Storable) (hne : more ≠ []) :
    ∃ st', Continues st st' ∧
      (st.appendBatch (more.map Edit.encoded) = (st', .ok ()) ∧ st'.Serves base (some (l ++ more)) ∨
        st.files.moments ≠ [] ∧
          (∃ status, st.appendBatch (more.map Edit.encoded) = (st', .error status)) ∧
          ∃ k ≤ more.length, ∃ part, st'.files.Holds base (some (l ++ more.take k)) part) := by
  have hbatch : (more.map Edit.encoded).flatMap frameJournalRecord = frames more :=
    List.flatMap_map ..
  have hdata : frames more ≠ [] := frames_ne_nil hne
  unfold appendBatch
  simp only [hbatch]
  obtain happend | ⟨hfault, status, happend | ⟨kept, happend⟩⟩ :=
    st.files.appendFileBytes_cases .journal st.journalPath st.options.durableSync hdata
  · simp only [happend]
    refine ⟨_, ?_, .inl ⟨rfl, ?_⟩⟩
    · exact ⟨rfl, rfl, Files.moments_pass_of_nil⟩
    · exact ⟨h.enabled, h.opened, h.holds.pass.append hmore, h.initialized⟩
  · simp only [happend]
    refine ⟨_, ?_, .inr ⟨hfault, ⟨status, rfl⟩, 0, Nat.zero_le _, [], ?_⟩⟩
    · exact ⟨rfl, rfl, Files.moments_pass_of_nil⟩
    · rw [List.take_zero, List.append_nil]
      exact h.holds.pass
  · simp only [happend]
    obtain ⟨k, hk, part, hholds⟩ := h.holds.pass.append_take hmore kept
    refine ⟨_, ?_, .inr ⟨hfault, ⟨status, rfl⟩, k, hk, part, ?_⟩⟩
    · exact ⟨rfl, rfl, Files.moments_pass_of_nil⟩
    · exact hholds

/-- Compacting where it is worth it. -/
theorem compactIfGrown_cases (h : st.Serves base log) (hs : state.Snapped)
    (hcontent : (held base log).content edited = state) :
    ∃ st', Continues st st' ∧
      (st.compactIfGrown state = (st', .ok ()) ∧ (∃ base' log', st'.Serves base' log' ∧
          (held base' log').content edited = state) ∨
        st.files.moments ≠ [] ∧ (∃ status, st.compactIfGrown state = (st', .error status)) ∧
          ∃ base', st'.files.Holds base' log [] ∧
            ∀ c, ((held base' log).content edited).look c = state.look c) := by
  unfold compactIfGrown
  simp only
  split
  · obtain ⟨st', hst', ⟨hcompact, hserves⟩ | ⟨hfault, hcompact, hholds⟩⟩ :=
      compact_cases h.enabled h.opened hs
    · exact ⟨st', hst', .inl ⟨hcompact, _, _, hserves, content_held_checkpoint⟩⟩
    · refine ⟨st', hst', .inr ⟨hfault, hcompact, ?_⟩⟩
      obtain hold | hnew := hholds base log [] h.holds
      · exact ⟨base, hold, fun c => by rw [hcontent]⟩
      · exact ⟨some state, hnew, look_held_rebase hcontent⟩
  · exact ⟨st, .refl, .inl ⟨rfl, base, log, h, hcontent⟩⟩

/-- A change set is taken, or, where something goes wrong, the cells are those that a first part of
its records leads to. -/
theorem applyChanges_cases (h : st.Serves base log)
    (hkeyed : ∀ k id r, state.find k id = some r → k.idOf r = id)
    (hmore : ∀ e ∈ edits state changes, e.Storable) (hs : state.Snapped)
    (hheader : changes.header = true)
    (hstate : (edits state changes).foldl edited ((held base log).content edited) = state) :
    ∃ st', Continues st st' ∧
      (st.applyChanges state changes = (st', .ok ()) ∧ (∃ base' log', st'.Serves base' log' ∧
          (held base' log').content edited = state) ∨
        st.files.moments ≠ [] ∧ (∃ status, st.applyChanges state changes = (st', .error status)) ∧
          ∃ base' log' part, st'.files.Holds base' log' part ∧
            ∃ k ≤ (edits state changes).length, ∀ c, ((held base' log').content edited).look c =
              (((edits state changes).take k).foldl edited
                ((held base log).content edited)).look c) := by
  have hempty : changes.empty = false := by simp [ChangeSet.empty, hheader]
  have hne : edits state changes ≠ [] :=
    List.ne_nil_of_mem (mem_edits_header.mpr ⟨hheader, rfl⟩)
  have hencoded : ¬ (encodeChanges state changes).isEmpty = true := by
    rw [encodeChanges_eq hkeyed, List.isEmpty_iff, List.map_eq_nil_iff]
    exact hne
  have heq : st.applyChanges state changes = Check.andThen (Check.andThen st.initializeJournal
      fun st => st.appendBatch (encodeChanges state changes)) fun st =>
        st.compactIfGrown state := by
    simp only [applyChanges, h.enabled, h.opened, hempty, Bool.not_true, Bool.false_eq_true,
      if_false, if_neg hencoded]
  -- initialise the journal, append the batch, compact when it has grown: each may fail
  rw [heq, encodeChanges_eq hkeyed]
  obtain ⟨st1, hst1, ⟨hinit, hserves1⟩ | ⟨hfault, ⟨status, hinit⟩, hholds⟩⟩ :=
    initializeJournal_cases h
  · rw [hinit]
    simp only [Check.andThen]
    have hcontent1 : (held base (some (log.getD []))).content edited =
        (held base log).content edited := by cases log <;> rfl
    obtain ⟨st2, hst2, ⟨happend, hserves2⟩ | ⟨hfault, ⟨status, happend⟩, k, hk, part, hholds⟩⟩ :=
      appendBatch_cases hserves1 hmore hne
    · rw [happend]
      simp only
      have hcontent2 : (held base (some (log.getD [] ++ edits state changes))).content edited =
          state := by rw [content_held_append, hcontent1, hstate]
      obtain ⟨st3, hst3, hok | ⟨hfault, hgrown, base', hholds, hlook⟩⟩ :=
        compactIfGrown_cases hserves2 hs hcontent2
      · exact ⟨st3, (hst1.trans hst2).trans hst3, .inl hok⟩
      · refine ⟨st3, (hst1.trans hst2).trans hst3, .inr ⟨fun hclean => hfault ((hst1.trans
          hst2).moments hclean), hgrown, base', _, [], hholds, _, le_rfl, fun c => ?_⟩⟩
        rw [hlook, List.take_length, hstate]
    · rw [happend]
      refine ⟨st2, hst1.trans hst2, .inr ⟨fun hclean => hfault (hst1.moments hclean),
        ⟨status, rfl⟩, base, _, part, hholds, k, hk, fun c => ?_⟩⟩
      rw [content_held_append, hcontent1]
  · rw [hinit]
    exact ⟨st1, hst1, .inr ⟨hfault, ⟨status, rfl⟩, base, log, [], hholds, 0, Nat.zero_le _,
      fun c => rfl⟩⟩

/-- A call that leaves the options and the store open; where nothing goes wrong in it or later, an
open store does not fail. -/
structure Carries (st : FileDurableStore) (r : FileDurableStore × Check) : Prop where
  continues : Continues st r.1
  calm : st.options.enabled = true → st.opened = true → st.files.moments = [] → r.2 = .ok ()

theorem Carries.refl : Carries st (st, .ok ()) := ⟨.refl, fun _ _ _ => rfl⟩

/-- Two calls in a row. -/
theorem Carries.andThen {r : FileDurableStore × Check}
    {next : FileDurableStore → FileDurableStore × Check} (h : Carries st r)
    (hnext : ∀ st, Carries st (next st)) : Carries st (Check.andThen r next) := by
  obtain ⟨st', status | ⟨⟩⟩ := r
  · exact ⟨h.continues, fun henabled hopened hmoments => absurd
      (h.calm henabled hopened hmoments) (by simp)⟩
  · refine ⟨h.continues.trans (hnext st').continues, fun henabled hopened hmoments => ?_⟩
    exact (hnext st').calm (h.continues.options ▸ henabled) (h.continues.opened ▸ hopened)
      (h.continues.moments hmoments)

theorem carries_replaceSnapshot (st : FileDurableStore) (state : VirtualizationState) :
    Carries st (st.replaceSnapshot state) := by
  obtain ⟨st', hst', ⟨h, -⟩ | ⟨hfault, -, status, h⟩⟩ := replaceSnapshot_cases st state <;> rw [h]
  · exact ⟨hst', fun _ _ _ => rfl⟩
  · exact ⟨hst', fun _ _ hmoments => absurd hmoments hfault⟩

theorem carries_truncateJournal (st : FileDurableStore) : Carries st st.truncateJournal := by
  obtain ⟨st', hst', ⟨h, -⟩ | ⟨hfault, -, status, h⟩⟩ := truncateJournal_cases st <;> rw [h]
  · exact ⟨hst', fun _ _ _ => rfl⟩
  · exact ⟨hst', fun _ _ hmoments => absurd hmoments hfault⟩

theorem carries_compact (st : FileDurableStore) (state : VirtualizationState) :
    Carries st (st.compact state) := by
  unfold compact
  split
  · exact .refl
  split
  · rename_i hopened
    exact ⟨.refl, fun _ hopened' => by simp [hopened'] at hopened⟩
  · exact (carries_replaceSnapshot st state).andThen carries_truncateJournal

theorem carries_initializeJournal (st : FileDurableStore) : Carries st st.initializeJournal := by
  unfold initializeJournal
  split
  · exact .refl
  obtain hwrite | ⟨hfault, status, hwrite⟩ := st.files.writeFileAtomic_cases .journal
    st.journalPath journalHeaderBytes st.options.durableSync
  all_goals simp only [hwrite]
  · exact ⟨⟨rfl, rfl, Files.moments_pass_of_nil⟩, fun _ _ _ => rfl⟩
  · exact ⟨⟨rfl, rfl, Files.moments_pass_of_nil⟩, fun _ _ hmoments => absurd hmoments hfault⟩

theorem carries_appendBatch (st : FileDurableStore) (encoded : List EncodedChange) :
    Carries st (st.appendBatch encoded) := by
  unfold appendBatch
  simp only
  by_cases hdata : encoded.flatMap frameJournalRecord = []
  · simp only [Files.appendFileBytes, hdata, List.isEmpty_nil, if_true]
    exact ⟨⟨rfl, rfl, id⟩, fun _ _ _ => rfl⟩
  · obtain happend | ⟨hfault, status, happend | ⟨kept, happend⟩⟩ :=
      st.files.appendFileBytes_cases .journal st.journalPath st.options.durableSync hdata
    all_goals simp only [happend]
    · exact ⟨⟨rfl, rfl, Files.moments_pass_of_nil⟩, fun _ _ _ => rfl⟩
    all_goals exact ⟨⟨rfl, rfl, Files.moments_pass_of_nil⟩,
      fun _ _ hmoments => absurd hmoments hfault⟩

theorem carries_compactIfGrown (st : FileDurableStore) (state : VirtualizationState) :
    Carries st (st.compactIfGrown state) := by
  unfold compactIfGrown
  simp only
  split
  · exact carries_compact st state
  · exact .refl

theorem carries_applyChanges (st : FileDurableStore) (state : VirtualizationState)
    (changes : ChangeSet) : Carries st (st.applyChanges state changes) := by
  unfold applyChanges
  split
  · exact .refl
  split
  · rename_i hopened
    exact ⟨.refl, fun _ hopened' => by simp [hopened'] at hopened⟩
  split
  · exact .refl
  simp only
  split
  · exact .refl
  · exact ((carries_initializeJournal st).andThen fun st => carries_appendBatch st _).andThen
      fun st => carries_compactIfGrown st state

/-! ### What a new process finds -/

/-- An opened store has read its files and left them alone. -/
theorem open_calm (st : FileDurableStore) (hmoments : st.files.moments = []) :
    ∃ st', st.open_ = (st', .ok ()) ∧ st'.options = st.options ∧ st'.files = st.files ∧
      st'.opened = true ∧ st'.present = ((st.files.content .snapshot).isSome ||
        decide (((st.files.content .journal).map List.length).getD 0 > journalHeaderSize)) := by
  have hread : ∀ file path, st.files.readFileBytes file path =
    (st.files, .ok (st.files.content file)) :=
    fun file path => by
      simp only [Files.readFileBytes, Files.moment_of_nil hmoments, Files.pass_of_nil hmoments]
  have hensure : st.files.ensureDirectory st.options.directory = (st.files, .ok ()) := by
    unfold Files.ensureDirectory
    split
    · rfl
    · simp only [Files.moment_of_nil hmoments, Files.pass_of_nil hmoments]
  unfold open_
  simp only [hensure, hread]
  exact ⟨_, rfl, rfl, rfl, rfl, rfl⟩

/-- A load in which nothing goes wrong validates what it recovers, if there is anything. -/
theorem load_calm (st : FileDurableStore) (henabled : st.options.enabled = true)
    (hmoments : st.files.moments = []) :
    (∃ discardedTail, st.load.1 = { st with discardedTail }) ∧ st.load.2 =
      match st.files.recovered st.options.tornTail with
      | .error status => .error status
      | .ok (s, _) =>
        if (st.files.content .snapshot).isSome ||
            ((st.files.content .journal).filter (!·.isEmpty)).isSome then
          s.validateState.map fun _ => s
        else .ok s := by
  have hread : ∀ file path, st.files.readFileBytes file path =
    (st.files, .ok (st.files.content file)) :=
    fun file path => by
      simp only [Files.readFileBytes, Files.moment_of_nil hmoments, Files.pass_of_nil hmoments]
  unfold load
  simp only [henabled, Bool.not_true, Bool.false_eq_true, if_false, hread, Files.recovered]
  cases (st.files.content .snapshot).elim (.ok {}) decodeSnapshotFile with
  | error status => exact ⟨⟨_, rfl⟩, rfl⟩
  | ok s =>
    simp only [loadJournal]
    cases (st.files.content .journal).filter (!·.isEmpty) with
    | none =>
      simp only [Option.isSome_none, Bool.or_false]
      exact ⟨⟨_, rfl⟩, trivial⟩
    | some bytes =>
      simp only [Option.isSome_some, Bool.or_true, if_true]
      cases replayJournal st.options.tornTail s bytes with
      | error status => exact ⟨⟨_, rfl⟩, rfl⟩
      | ok r => exact ⟨⟨_, rfl⟩, rfl⟩

/-- Whatever goes wrong while a change set is written, a new process finds the scalars and every
record as they are after a first part of the records of the change set, unless it refuses an
incomplete one; it finds all of the change set if the write succeeded. -/
theorem recovered_applyChanges (h : st.Serves base log)
    (hkeyed : ∀ k id r, state.find k id = some r → k.idOf r = id)
    (hmore : ∀ e ∈ edits state changes, e.Storable) (hs : state.Snapped)
    (hheader : changes.header = true)
    (hstate : (edits state changes).foldl edited ((held base log).content edited) = state) :
    ∃ s torn, (st.applyChanges state changes).1.files.recovered .discard = .ok (s, torn) ∧
      ((st.applyChanges state changes).2 = .ok () → s = state ∧ torn = false) ∧
      (∃ k ≤ (edits state changes).length, ∀ c, s.look c =
        (((edits state changes).take k).foldl edited ((held base log).content edited)).look c) ∧
      ((st.applyChanges state changes).1.files.recovered .reject = .ok (s, false) ∨
        torn = true ∧ ∃ status : Status, status.code = .truncatedState ∧
          (st.applyChanges state changes).1.files.recovered .reject = .error status) := by
  obtain ⟨st', -, ⟨happly, base', log', hserves, hcontent⟩ |
    ⟨-, ⟨status, happly⟩, base', log', part, hholds, k, hk, hlook⟩⟩ :=
    applyChanges_cases h hkeyed hmore hs hheader hstate
  · rw [happly]
    obtain ⟨hdiscard, hreject, -⟩ := hserves.holds.recovered
    refine ⟨state, false, by rw [hdiscard, hcontent]; rfl, fun _ => ⟨rfl, rfl⟩,
      ⟨_, le_rfl, fun c => by rw [List.take_length, hstate]⟩, .inl (by rw [hreject rfl, hcontent])⟩
  · rw [happly]
    obtain ⟨hdiscard, hreject, htorn⟩ := hholds.recovered
    refine ⟨_, _, hdiscard, fun hok => (by cases hok), ⟨k, hk, hlook⟩, ?_⟩
    by_cases hnil : part = []
    · exact .inl (hreject hnil)
    · exact .inr ⟨decide_eq_true hnil, htorn hnil⟩

end FileDurableStore

end AcceleratorVirtualization
