import AcceleratorVirtualization.Lib.Simulation
import AcceleratorVirtualization.Store.Durability
import AcceleratorVirtualization.Store.Exchange

/-!
# The files are a disk

The runtime over the files does what it does over the durable image that a store is for: every clean
run over the files is a run over the image, with the same state after every event, and the image is
what a new process finds in the files.
-/

namespace AcceleratorVirtualization

open VirtualizationState Journaling

/-- The event as it is over the image. -/
def StoreEvent.event : StoreEvent → Event
  | .op o clock => .op o clock (.ok ())
  | .start clock => .start clock
  | .shutdown clock => .shutdown clock
  | .compact => .compact
  | .boot options _ => .boot options

namespace Impl

/-! ### Two stores in step -/

section Paired

variable {im im' : Impl FileDurableStore} {st : FileDurableStore} {d : Disk} {clock : Clock}

/-- An image that takes change sets. -/
def Takes (d : Disk) : Prop := d.opened = true ∧ d.answer = .ok ()

/-- A store that takes everything takes the changes of a commit. -/
theorem persistChanges_takes (km : Impl FileDurableStore) (hd : Takes d) :
    ∃ d', (km.upon (some d)).persistChanges = (some d', .ok ()) ∧ Takes d' := by
  obtain ⟨hopened, hanswer⟩ := hd
  simp only [persistChanges, upon, DurableStore.applyChanges, hopened, hanswer, if_true]
  split
  · exact ⟨_, rfl, rfl, rfl⟩
  · exact ⟨_, rfl, hopened, hanswer⟩

/-- A commit that both stores take. -/
theorem upon_commit_takes (hd : Takes d) (hc : im.commit = (im', .ok ())) :
    ∃ d', (im.upon (some d)).commit = (im'.upon (some d'), .ok ()) ∧ Takes d' := by
  obtain ⟨d', hpersist, hd'⟩ := persistChanges_takes im.extended hd
  refine ⟨d', ?_, hd'⟩
  have hanswer : im.extended.persistChanges.2 = .ok () := by
    obtain ⟨store, hp, -⟩ | ⟨store, status, -, hcommit⟩ := commit_cases im
    · rw [hp]
    · rw [hcommit] at hc
      cases hc
  rw [upon_commit (some d) (by rw [hpersist, hanswer]), hpersist, hc]
  rfl

/-- The classification of the migrations, over a store that takes everything. -/
theorem upon_classify_takes (hd : Takes d) (hw : im.state.WellKeyed)
    (hc : im.classifyRecoveredMigrations clock = (im', .ok ())) :
    ∃ d', (im.upon (some d)).classifyRecoveredMigrations clock = (im'.upon (some d'), .ok ()) ∧
      Takes d' := by
  have hexec : im.exec clock .classifyRecoveredMigrations = (im', .ok ()) := hc
  obtain ⟨-, hover⟩ | ⟨s, im1, answer, hw, -, -, -, hr, hover⟩ :=
    abreast_exec (some d) (respects_keeping im.state) hw
      (does_keeping hw clock .classifyRecoveredMigrations)
  · rw [hexec] at hover
    exact ⟨d, hover, hd⟩
  · rw [hexec] at hr
    obtain ⟨him, hanswer⟩ := Prod.mk.inj hr
    have hok : im1.commit = (im', .ok ()) := by
      cases hstatus : im1.commit.2 with
      | ok u => exact Prod.ext him.symm hstatus
      | error status => exact absurd ((hw.failed status).mpr hstatus) (by rw [hexec]; simp)
    obtain ⟨d', hcommit, hd'⟩ := upon_commit_takes hd hok
    rw [hok] at hanswer
    refine ⟨d', ?_, hd'⟩
    rw [show (im.upon (some d)).classifyRecoveredMigrations clock = _ from hover, hcommit,
      ← hanswer]

/-- A compaction changes the store only. -/
theorem upon_compactStore {σ τ : Type} [DurableStore σ] (im : Impl σ) :
    im.compactStore.1.upon = im.upon (τ := τ) := by
  unfold compactStore
  split <;> rfl

/-- A start that gets through over the files does so over the image, which then is the state. -/
theorem upon_startCommitted {recovered : Bool} (h : Recording im) (hd : Takes d)
    (hs : im.startCommitted clock recovered = (im', .ok ())) :
    ∃ d', (im.upon (some d)).startCommitted clock recovered = (im'.upon (some d'), .ok ()) ∧
      d'.opened = true ∧ d'.image = some im'.state := by
  have hbody : Recording (im.startBody clock recovered) :=
    h.congr (wiring_startBody im clock recovered)
      (Sound.startBody (P := fun _ => True) ⟨h.keyed, trivial⟩ clock recovered).wellKeyed
  -- three writes in turn: the first commit, the recovered migrations and the compaction
  unfold Impl.startCommitted at hs
  split at hs
  · cases hs
  rename_i im1 hcommit
  obtain ⟨h1, -⟩ := hbody.commit hcommit
  obtain ⟨d1, hcommit', hd1⟩ := upon_commit_takes hd hcommit
  split at hs
  · cases hs
  rename_i im2 hrecovered
  obtain ⟨d2, hrecovered', hd2⟩ : ∃ d2, (if recovered then (im1.upon (some d1)).startRecovered clock
      else (im1.upon (some d1), .ok ())) = (im2.upon (some d2), .ok ()) ∧ Takes d2 := by
    cases recovered with
    | false =>
      simp only [Bool.false_eq_true, if_false] at hrecovered ⊢
      cases hrecovered
      exact ⟨d1, rfl, hd1⟩
    | true =>
      simp only [if_true] at hrecovered ⊢
      unfold startRecovered at hrecovered ⊢
      split at hrecovered
      · cases hrecovered
      · rename_i im3 hclassify
        obtain ⟨d2, hclassify', hd2⟩ := upon_classify_takes hd1 h1.keyed hclassify
        obtain ⟨rfl, hvalid⟩ := Prod.mk.inj hrecovered
        rw [hclassify']
        simp only [state_upon, hvalid]
        exact ⟨d2, rfl, hd2⟩
  split at hs
  · cases hs
  rename_i im3 hcompacted
  cases hs
  have hstate : im3.state = im2.state := by
    rw [← state_compactStore im2, hcompacted]
  have hover : im3.upon = im2.upon (τ := Disk) := by
    rw [← upon_compactStore im2, hcompacted]
  have hdisk : (im2.upon (some d2)).compactStore =
      (im3.upon (some { d2 with image := some im3.state }), .ok ()) := by
    rw [hover, hstate]
    simp only [compactStore, upon, DurableStore.compact, hd2.1, if_true]
  refine ⟨{ d2 with image := some im3.state }, ?_, hd2.1, rfl⟩
  simp only [startCommitted, upon_startBody, hcommit', hrecovered', hdisk]
  rfl

end Paired

/-! ### The simulation -/

/-- The image that a base and a log make up, if there are files. -/
def imageOf (base : Option VirtualizationState) (log : Option (List Edit)) :
    Option VirtualizationState :=
  if base.isSome || log.isSome then some ((held base log).content edited) else none

/-- The image, or the state of an empty store, is what the files hold. -/
theorem getD_imageOf (base : Option VirtualizationState) (log : Option (List Edit)) :
    (imageOf base log).getD {} = (held base log).content edited := by
  cases base <;> cases log <;> rfl

/-- Files that hold something have an image. -/
theorem imageOf_eq_some {base : Option VirtualizationState} {log : Option (List Edit)}
    (h : (held base log).content edited ≠ {}) :
    imageOf base log = some ((held base log).content edited) := by
  cases base with
  | some s => rfl
  | none =>
    cases log with
    | some l => rfl
    | none => exact absurd rfl h

/-- There is an image when there is a snapshot or a journal. -/
theorem isSome_imageOf (base : Option VirtualizationState) (log : Option (List Edit)) :
    (imageOf base log).isSome = (base.isSome || log.isSome) := by
  unfold imageOf
  split <;> simp_all

/-- The runtime over the image that the files hold. -/
def Refines (im : Impl FileDurableStore) (jm : Impl Disk) : Prop :=
  ∃ st base log d, Mirrors im st base log ∧ jm = im.upon (some d) ∧ d.opened = st.opened ∧
    d.image = imageOf base log

section Refines

variable {im im' s : Impl FileDurableStore} {jm : Impl Disk} {st : FileDurableStore} {d : Disk}
  {base : Option VirtualizationState} {log : Option (List Edit)} {clock : Clock} {op : Op}
  {r : Impl FileDurableStore × Except Failure Unit}

/-- What an image does with a change set that is handed over. -/
theorem persistChanges_disk {km : Impl FileDurableStore} (hpersist : km.options.persist = true)
    (hchanges : km.changes.empty = false) (hanswer : d.answer = .ok ()) :
    (km.upon (some d)).persistChanges =
      if d.opened then
        (some { d with image := some (Disk.merge (d.image.getD {}) km.state km.changes) }, .ok ())
      else (some d, .error Disk.notOpen) := by
  simp only [persistChanges, upon, DurableStore.applyChanges, hpersist, hchanges, hanswer,
    Bool.not_false, Bool.and_self, if_true]
  split <;> rfl

/-- The two commits of an operation. -/
theorem Mirrors.upon_commit {reported : Bool} {request : RequestId} (h : Mirrors im st base log)
    (hw : Written im s im' r) (hkeeping : Keeping im.state im'.state)
    (henters : im'.changes.Enters reported request) (hopened : d.opened = st.opened)
    (himage : d.image = imageOf base log) (hanswer : d.answer = .ok ())
    (hencodable : im'.commit.1.state.Encodable) :
    ∃ d', (im'.upon (some d)).commit = ferry im'.commit (some d') ∧
      Refines im'.commit.1 (im'.commit.1.upon (some d')) := by
  have hpersist : im'.extended.options.persist = true := by
    rw [show im'.extended.options = im.options from hw.ready.options.trans hw.options]
    exact h.persist
  have hdisk := persistChanges_disk hpersist hw.ready.nonempty hanswer
  cases hst : st.opened with
  | false =>
    obtain ⟨hp, hmirrors⟩ := h.commit_closed hst hw
    rw [hopened, hst, if_neg (by decide)] at hdisk
    refine ⟨d, ?_, st, base, log, d, hmirrors, rfl, hopened, himage⟩
    rw [Impl.upon_commit (some d) (by rw [hdisk, hp]), hdisk]
  | true =>
    obtain ⟨st', base', log', hp, hopened', hmirrors, hcontent⟩ :=
      h.commit_opened hst hw hkeeping henters hencodable
    obtain ⟨n, -, hold⟩ := h.current hst
    rw [hopened, hst, if_pos rfl] at hdisk
    refine ⟨_, by rw [Impl.upon_commit (some d) (by rw [hdisk, hp]), hdisk], st', base', log', _,
      hmirrors, rfl, ?_, ?_⟩
    · exact hopened'.symm
    · rw [imageOf_eq_some ?_, hcontent]
      · rw [himage, getD_imageOf]
        exact congrArg some (hw.merge_eq hold)
      · rw [hcontent]
        intro heq
        have hlt : 1 < im'.extended.state.nextSequence :=
          Nat.lt_of_le_of_lt h.keyed.started hw.grown
        rw [heq] at hlt
        exact absurd hlt (by decide)

/-- A new process finds the image in the files. -/
theorem Mirrors.load_image (h : Mirrors im st base log) (himage : d.image = imageOf base log)
    {st1 : FileDurableStore} (hopen : st.open_ = (st1, .ok ())) :
    (DurableStore.load d).1 = d ∧ (DurableStore.load d).2 = st1.load.2 := by
  obtain ⟨-, -, -, hload⟩ := h.load_eq hopen
  rw [hload]
  simp only [DurableStore.load, himage, imageOf]
  split
  · rename_i hfiles
    split at hfiles
    · cases hfiles
    · rename_i hnone
      rw [if_neg hnone]
      obtain ⟨hbase, hlog⟩ := Bool.or_eq_false_iff.mp (Bool.not_eq_true _ ▸ hnone)
      rw [Option.isSome_eq_false_iff, Option.isNone_iff_eq_none] at hbase hlog
      subst hbase hlog
      exact ⟨rfl, rfl⟩
  · rename_i hfiles
    split at hfiles
    · rename_i hsome
      cases hfiles
      rw [if_pos hsome]
      exact ⟨rfl, rfl⟩
    · cases hfiles

/-- An operation over the files is one over the image, and is answered the same. -/
theorem Refines.exec (h : Refines im jm) (hencodable : (im.exec clock op).1.state.Encodable) :
    ∃ jm', (jm.answering (.ok ())).exec clock op = (jm', (im.exec clock op).2) ∧
      Refines (im.exec clock op).1 jm' := by
  obtain ⟨st, base, log, d, hmirrors, rfl, hopened, himage⟩ := h
  obtain ⟨hr, hover⟩ | ⟨s, im', answer, hw, hkeeping, henters, -, hr, hover⟩ :=
    abreast_exec (some { d with answer := .ok () }) (respects_keeping im.state) hmirrors.keyed
      (does_keeping hmirrors.keyed clock op)
  · exact ⟨_, hover, st, base, log, _, hmirrors.unwritten hr, rfl, hopened, himage⟩
  · obtain ⟨d', hcommit, hrefines⟩ := hmirrors.upon_commit (d := { d with answer := .ok () }) hw
      hkeeping henters hopened himage rfl (by rw [hr] at hencodable; exact hencodable)
    rw [hcommit] at hover
    rw [hr]
    exact ⟨_, hover, hrefines⟩

/-- A clean start over the files is one over the image. -/
theorem Refines.start (h : Refines im jm) (hs : im.start clock = (im', .ok ()))
    (hencodable : im'.state.Encodable) :
    ∃ jm', (jm.answering (.ok ())).start clock = (jm', .ok ()) ∧ Refines im' jm' := by
  obtain ⟨st, base, log, d, hmirrors, rfl, hopened, himage⟩ := h
  obtain ⟨hrunning, rfl⟩ | ⟨hrunning, st1, st2, loaded, hopen, hload⟩ :=
    start_loads hmirrors.store hs
  · refine ⟨im'.upon (some { d with answer := .ok () }), ?_, st, base, log, _, hmirrors, rfl,
      hopened, himage⟩
    have hrunning' : (answering (im'.upon (some d)) (.ok ())).running = true := hrunning
    unfold Impl.start
    rw [if_pos hrunning']
    rfl
  · let d1 : Disk := { d with answer := .ok (), opened := true }
    have hpresent : st1.present = (base.isSome || log.isSome) := hmirrors.present hopen
    have hload' : DurableStore.load d1 = (d1, .ok loaded) := by
      obtain ⟨hsame, hstate⟩ := hmirrors.load_image (d := d1) himage hopen
      exact Prod.ext hsame (hstate.trans (congrArg Prod.snd hload))
    have hrecording := hmirrors.recording hopen hload
    rw [start_eq clock hrunning hmirrors.store hopen hload] at hs
    obtain ⟨st', hmirrors', hopened'⟩ := hrecording.startCommitted hs hencodable
    obtain ⟨d', hdisk, hopened'', himage'⟩ := upon_startCommitted (d := d1) hrecording ⟨rfl, rfl⟩ hs
    refine ⟨im'.upon (some d'), ?_, st', _, _, d', hmirrors', rfl, hopened''.trans hopened'.symm,
      himage'⟩
    have hsame : DurableStore.present d1 = DurableStore.present st1 := by
      rw [show DurableStore.present st1 = st1.present from rfl, hpresent]
      rw [← isSome_imageOf, ← himage]
      rfl
    have hrunning' : (answering (im.upon (some d)) (.ok ())).running = false := hrunning
    have hst :
      (answering (im.upon (some d)) (.ok ())).store = some { d with answer := .ok () } := rfl
    have hopen' : DurableStore.open_ { d with answer := .ok () } = (d1, .ok ()) := rfl
    rw [start_eq clock hrunning' hst hopen' hload', hsame]
    exact hdisk

/-- A clean shutdown over the files is one over the image. -/
theorem Refines.shutdown (h : Refines im jm) (hs : im.shutdown clock = (im', .ok ()))
    (hencodable : im'.state.Encodable) :
    ∃ jm', (jm.answering (.ok ())).shutdown clock = (jm', .ok ()) ∧ Refines im' jm' := by
  obtain ⟨st, base, log, d, hmirrors, rfl, hopened, himage⟩ := h
  have hrunning : ((im.upon (some d)).answering (.ok ())).running = im.running := rfl
  obtain ⟨hstopped, rfl⟩ | ⟨hstarted, im1, im2, hcommit, hclose, rfl⟩ := shutdown_cases hs
  · refine ⟨im'.upon (some { d with answer := .ok () }), ?_, st, base, log, _, hmirrors, rfl,
      hopened, himage⟩
    unfold Impl.shutdown
    rw [hrunning, hstopped]
    rfl
  -- a store that closes was open
  · have hopened' : st.opened = true := by
      have hstore := congrArg Prod.fst (wiring_shutdownBody im.beginOp clock)
      exact opened_of_closed (hstore.trans hmirrors.store) hmirrors.enabled hcommit hclose
    obtain ⟨st', hmirrors', hclosed⟩ : ∃ st', Mirrors { im2 with agents := ∅, running := false } st'
        (some im2.state) (some []) ∧ st'.opened = false := by
      obtain heq | hmirrors' := hmirrors.shutdown hs hencodable
      · have hstopped : false = im.running := congrArg (·.running) heq
        rw [hstarted] at hstopped
        cases hstopped
      · exact hmirrors'
    -- the image takes the same commit and the same closing compaction
    have htakes : Takes { d with answer := .ok () } := ⟨hopened.trans hopened', rfl⟩
    obtain ⟨d', hcommit', hd'⟩ := upon_commit_takes htakes hcommit
    have hdisk : (im1.upon (some d')).closeStore =
        (im2.upon (some { d' with image := some im2.state, opened := false }), .ok ()) := by
      obtain ⟨hstate, hover⟩ : im2.state = im1.state ∧ im2.upon = im1.upon (τ := Disk) := by
        unfold closeStore at hclose
        split at hclose
        · cases hclose
          exact ⟨rfl, rfl⟩
        · obtain rfl := congrArg Prod.fst hclose
          exact ⟨rfl, rfl⟩
      rw [hover, hstate]
      simp only [closeStore, upon, DurableStore.compact, DurableStore.close, hd'.1, if_true]
      rfl
    have hcommitted : ((im.upon (some d)).answering (.ok ())).shutdownCommitted clock =
        (im2.upon (some { d' with image := some im2.state, opened := false }), .ok ()) := by
      have hbody := upon_shutdownBody im.beginOp (some { d with answer := .ok () }) clock
      have hbegin : ((im.upon (some d)).answering (.ok ())).beginOp =
        im.beginOp.upon (some { d with answer := .ok () }) := rfl
      unfold shutdownCommitted
      rw [hbegin, hbody, hcommit']
      exact hdisk
    refine ⟨{ im2 with agents := ∅, running := false }.upon
      (some { d' with image := some im2.state, opened := false }), ?_, st', _, _, _, hmirrors', rfl,
      hclosed.symm, rfl⟩
    simp only [Impl.shutdown, hrunning, hstarted, hcommitted]
    rfl

/-- A compaction keeps the files a refinement of the image. -/
theorem Refines.compact (h : Refines im jm) (hencodable : im.state.Encodable) :
    Refines im.compact.1 jm.compact.1 := by
  obtain ⟨st, base, log, d, hmirrors, rfl, hopened, himage⟩ := h
  obtain ⟨hst, st', hmirrors', hst'⟩ | ⟨hst, hsame⟩ := hmirrors.compact hencodable
  · refine ⟨st', _, _, { d with image := some im.state }, hmirrors', ?_, ?_, rfl⟩
    · rw [show im.compact.1.upon = im.upon (τ := Disk) from upon_compactStore im]
      simp only [Impl.compact, compactStore, upon, DurableStore.compact, hopened, hst, if_true]
    · rw [hst']
      exact hopened.trans hst
  · refine ⟨st, base, log, d, ?_, ?_, hopened, himage⟩
    · rw [hsame]
      exact hmirrors
    · rw [hsame]
      simp only [Impl.compact, compactStore, upon, DurableStore.compact, hopened, hst,
        Bool.false_eq_true, if_false]

/-- A new process over the same files refines one over the same image. -/
theorem Refines.boot (h : Refines im jm) {options : RuntimeOptions} {storeOptions : StoreOptions}
    (hpersist : options.persist = true) (henabled : storeOptions.enabled = true) :
    Refines { options, store := im.store.map fun st => st.reopened storeOptions }
      { options, store := jm.store.map fun d => { d with opened := false } } := by
  obtain ⟨st, base, log, d, hmirrors, rfl, -, himage⟩ := h
  exact ⟨_, base, log, { d with opened := false }, hmirrors.boot hpersist henabled, rfl, rfl,
    himage⟩

/-- Empty files refine the empty image. -/
theorem refines_onFiles {options : RuntimeOptions} {storeOptions : StoreOptions}
    (hpersist : options.persist = true) (henabled : storeOptions.enabled = true) :
    Refines (onFiles options storeOptions) (initial options true) :=
  ⟨_, none, none, {}, mirrors_onFiles hpersist henabled, rfl, rfl, rfl⟩

/-- Every event over the files is one over the image. -/
theorem Refines.step (h : Refines im jm) {event : StoreEvent}
    (hadmits : event.persistent ∧ im'.state.Encodable) (hs : im.stepFiles event = some im') :
    ∃ jm', jm.step event.event = some jm' ∧ Refines im' jm' := by
  obtain ⟨hpersistent, hencodable⟩ := hadmits
  cases event with
  | op o clock =>
    obtain rfl := Option.some.inj hs
    obtain ⟨jm', hexec, hrefines⟩ := h.exec hencodable
    refine ⟨jm', ?_, hrefines⟩
    change some ((jm.answering (.ok ())).exec clock o).1 = some jm'
    rw [hexec]
  | start clock =>
    simp only [stepFiles] at hs
    split at hs
    · rename_i hstart
      cases hs
      obtain ⟨jm', hstart', hrefines⟩ := h.start hstart hencodable
      exact ⟨jm', by simp only [StoreEvent.event, Impl.step, hstart'], hrefines⟩
    · cases hs
  | shutdown clock =>
    simp only [stepFiles] at hs
    split at hs
    · rename_i hshutdown
      cases hs
      obtain ⟨jm', hshutdown', hrefines⟩ := h.shutdown hshutdown hencodable
      exact ⟨jm', by simp only [StoreEvent.event, Impl.step, hshutdown'], hrefines⟩
    · cases hs
  | compact =>
    obtain rfl := Option.some.inj hs
    refine ⟨_, rfl, h.compact ?_⟩
    rw [← state_compactStore im]
    exact hencodable
  | boot options storeOptions =>
    obtain rfl := Option.some.inj hs
    obtain ⟨hpersist, henabled⟩ := Bool.and_eq_true_iff.mp hpersistent
    exact ⟨_, rfl, h.boot hpersist henabled⟩

end Refines

end Impl

open Impl

/-- A run over an empty directory, with clean starts and shutdowns and new processes at any time.
Every process persists, and every state is small enough for the codec. -/
structure CleanRun (options : RuntimeOptions) (storeOptions : StoreOptions)
    (events : List StoreEvent) (im : Impl FileDurableStore) : Prop where
  persist : options.persist = true
  enabled : storeOptions.enabled = true
  persistent : ∀ event ∈ events, event.persistent
  encodable : ∀ past s, past <+: events →
    (onFiles options storeOptions).runFiles past = some s → s.state.Encodable
  reached : (onFiles options storeOptions).runFiles events = some im

section CleanRun

variable {options : RuntimeOptions} {storeOptions : StoreOptions} {events : List StoreEvent}
  {im : Impl FileDurableStore}

/-- A clean run over files is matched by one over the image, and refines it. -/
theorem CleanRun.refines (h : CleanRun options storeOptions events im) :
    ∃ jm, (initial options true).run (events.map StoreEvent.event) = some jm ∧ Refines im jm := by
  have hstep : ∀ (s : Impl FileDurableStore) (jm : Impl Disk) (event : StoreEvent)
      (s' : Impl FileDurableStore), Refines s jm → (event.persistent ∧ s'.state.Encodable) →
      s.stepFiles event = some s' → ∃ jm', jm.step event.event = some jm' ∧ Refines s' jm' :=
    fun s jm event s' h hadmits hs => h.step hadmits hs
  have hadmits : ∀ past event, past ++ [event] <+: events → ∀ s,
      (past ++ [event]).foldlM stepFiles (onFiles options storeOptions) = some s →
      event.persistent ∧ s.state.Encodable := by
    intro past event hpast s hs
    exact ⟨h.persistent event (hpast.subset (by simp)), h.encodable _ s hpast hs⟩
  exact Simulation.run hstep (refines_onFiles h.persist h.enabled) hadmits h.reached

/-- Along a clean run the files mirror the state. -/
theorem CleanRun.mirrors (h : CleanRun options storeOptions events im) :
    ∃ st base log, Mirrors im st base log := by
  obtain ⟨-, -, st, base, log, -, hmirrors, -⟩ := h.refines
  exact ⟨st, base, log, hmirrors⟩

/-- A clean run over the files is one over an image. The states are the same, and so is the answer
to every operation that follows; the image is what a new process loads from the files, whatever it
does with a torn tail. While the store is open, the image is the state but for the next sequence
number, which can be one that was already given to an operation that was not written. -/
theorem refines_image (h : CleanRun options storeOptions events im) :
    ∃ st d, im.store = some st ∧
      (initial options true).run (events.map StoreEvent.event) = some (im.upon (some d)) ∧
      d.opened = st.opened ∧
      (∀ tornTail, st.files.recovered tornTail = .ok (d.image.getD {}, false)) ∧
      (∀ restarted st1, (st.reopened restarted).open_ = (st1, .ok ()) → restarted.enabled = true →
        st1.load.2 = (DurableStore.load d).2) ∧
      (st.opened = true → ∃ n ≤ im.state.nextSequence,
        d.image.getD {} = { im.state with nextSequence := n }) ∧
      ∀ o clock, (im.exec clock o).1.state.Encodable →
        (((im.upon (some d)).answering (.ok ())).exec clock o).2 = (im.exec clock o).2 := by
  obtain ⟨jm, hjm, hrefines⟩ := h.refines
  obtain ⟨st, base, log, d, hmirrors, rfl, hopened, himage⟩ := id hrefines
  refine ⟨st, d, hmirrors.store, hjm, hopened, ?_, ?_, ?_, ?_⟩
  · intro tornTail
    rw [himage, getD_imageOf]
    exact hmirrors.holds.found tornTail
  · intro restarted st1 hopen hrestarted
    have hboot := hmirrors.boot h.persist hrestarted
    exact (hboot.load_image himage hopen).2.symm
  · intro hst
    obtain ⟨n, hn, hcontent⟩ := hmirrors.current hst
    exact ⟨n, hn, by rw [himage, getD_imageOf, hcontent]⟩
  · intro o clock hencodable
    obtain ⟨jm', hexec, -⟩ := hrefines.exec hencodable
    rw [hexec]

end CleanRun

namespace Sample

/-- The registration of an agent. -/
def registration : Op := .registerAgent (txt "agent") (txt "local") 1 0

/-- A start over an empty directory, an agent that registers, a new tenant, a compaction, and a new
process. -/
def rebooted : List StoreEvent :=
  [.start { now := 5 }, .op registration { now := 6 },
    .op (.createTenant { epoch := some 1 } (txt "tenant") []) { now := 7 }, .compact, .boot {} {}]

/-- What the start writes, and the registration of an agent after it. -/
def begun (registered : Bool) : VirtualizationState where
  nextSequence := if registered then 6 else 4
  epoch := 1
  policy := { VirtualizationPolicy.defaultPolicy with id := 1, generation := 1 }
  policyGeneration := 1
  accounting := { coordinatorBoots := 1, agentBoots := if registered then 1 else 0 }
  audit := [{
    id := 3, at_ := 5, kind := .recovery, operation := txt "coordinator_start", outcome := .ok
    detail := txt "coordinator started with empty durable state", epoch := 1 }]
  decisions := [{
    id := 2, at_ := 5, operation := txt "coordinator_start", outcome := .ok
    reason := txt "coordinator started with empty durable state", epoch := 1 }]

/-- The tenant that the run creates, as the state holds it afterwards. -/
def tenant : TenantRecord :=
  { id := 6, generation := 1, name := txt "tenant", createdAt := 7, updatedAt := 7 }

/-- What is there once a tenant is. -/
def peopled : VirtualizationState :=
  { begun true with
    nextSequence := 9
    tenants := ({} : Std.ExtTreeMap ℕ TenantRecord compare).insert 6 tenant
    audit := (begun true).audit ++ [{
      id := 8, at_ := 7, kind := .mutation, operation := txt "create_tenant", outcome := .ok
      epoch := 1, tenant := 6, tenantGeneration := 1 }]
    decisions := (begun true).decisions ++ [{
      id := 7, at_ := 7, operation := txt "create_tenant", outcome := .ok
      epoch := 1, tenant := 6, tenantGeneration := 1 }] }

/-- The header after the first start fits its codec. -/
theorem headerFits_begun (registered : Bool) {c : Nesting}
    (hc : c = journalNesting ∨ c = snapshotNesting) : (begun registered).HeaderFits c := by
  obtain rfl | rfl := hc <;> cases registered <;> exact {
    schema := by decide
    words := by decide
    policy :=
      { words := by decide, halves := by decide, lists := by decide, forbidden := by decide }
    counters := by decide }

/-- The state after the first start can be encoded. -/
theorem encodable_begun (registered : Bool) : (begun registered).Encodable where
  snapped := {
    fits := {
      header := headerFits_begun registered (.inr rfl)
      sizes k := by cases registered <;> cases k <;> decide
      keyed k := by cases registered <;> cases k <;> decide
      records k entry hentry := by cases k <;> cases hentry
      tails := by cases registered <;> decide
      audit entry hentry := by
        obtain rfl := List.mem_singleton.mp hentry
        exact { words := by decide, at_ := by decide, outcome := by decide, texts := by decide }
      decisions decision hdecision := by
        obtain rfl := List.mem_singleton.mp hdecision
        exact { subject := by decide, bounds := by decide, at_ := by decide, outcome := by decide,
                texts := by decide }
      requests r hr := by cases hr }
    size := by cases registered <;> decide +kernel }
  header := ⟨headerFits_begun registered (.inl rfl), by cases registered <;> decide +kernel⟩
  entity k id r hr := by cases k <;> cases hr
  audit entry hentry := by
    obtain rfl := List.mem_singleton.mp hentry
    exact ⟨{ words := by decide, at_ := by decide, outcome := by decide, texts := by decide },
      by decide +kernel⟩
  decision entry hentry := by
    obtain rfl := List.mem_singleton.mp hentry
    exact ⟨{ subject := by decide, bounds := by decide, at_ := by decide, outcome := by decide,
             texts := by decide }, by decide +kernel⟩
  request entry hentry := by cases hentry

/-- The header of the empty state fits its codec. -/
theorem headerFits_empty {c : Nesting} (hc : c = journalNesting ∨ c = snapshotNesting) :
    ({} : VirtualizationState).HeaderFits c := by
  obtain rfl | rfl := hc <;> exact {
    schema := by decide
    words := by decide
    policy :=
      { words := by decide, halves := by decide, lists := by decide, forbidden := by decide }
    counters := by decide }

/-- The empty state can be encoded. -/
theorem encodable_empty : ({} : VirtualizationState).Encodable where
  snapped := {
    fits := {
      header := headerFits_empty (.inr rfl)
      sizes k := by cases k <;> decide
      keyed k := by cases k <;> decide
      records k entry hentry := by cases k <;> cases hentry
      tails := by decide
      audit entry hentry := by cases hentry
      decisions decision hdecision := by cases hdecision
      requests r hr := by cases hr }
    size := by decide +kernel }
  header := ⟨headerFits_empty (.inl rfl), by decide +kernel⟩
  entity k id r hr := by cases k <;> cases hr
  audit entry hentry := by cases hentry
  decision entry hentry := by cases hentry
  request entry hentry := by cases hentry

/-- The first start over files, and the registration behind it. -/
theorem start_begun : ∃ im st, (onFiles {} {}).start { now := 5 } = (im, .ok ()) ∧
    im.state = begun false ∧ im.store = some st ∧ st.opened = true ∧
    (im.exec { now := 6 } registration).1.state = begun true := by
  have hok : ((onFiles {} {}).start { now := 5 }).2.isOk ∧
    ((onFiles {} {}).start { now := 5 }).1.state = begun false ∧
    (((onFiles {} {}).start { now := 5 }).1.store.any fun st => st.opened) ∧
    (((onFiles {} {}).start { now := 5 }).1.exec { now := 6 } registration).1.state =
      begun true := by decide +kernel
  generalize (onFiles {} {}).start { now := 5 } = r at hok
  obtain ⟨im, ⟨⟩ | ⟨⟨⟩⟩⟩ := r
  · exact absurd hok.1 Bool.false_ne_true
  · obtain ⟨-, hstate, hstore, hregistered⟩ := hok
    change im.store.any (fun st => st.opened) = true at hstore
    cases hst : im.store with
    | none =>
      rw [hst] at hstore
      cases hstore
    | some st =>
      rw [hst] at hstore
      exact ⟨im, st, rfl, hstate, hst, hstore, hregistered⟩

/-- The header after the tenant was made fits its codec. -/
theorem headerFits_peopled {c : Nesting} (hc : c = journalNesting ∨ c = snapshotNesting) :
    peopled.HeaderFits c := by
  obtain rfl | rfl := hc <;> exact {
    schema := by decide
    words := by decide
    policy :=
      { words := by decide, halves := by decide, lists := by decide, forbidden := by decide }
    counters := by decide }

/-- The tenant fits its codec. -/
theorem fits_tenant {c : Nesting} (hc : c = journalNesting ∨ c = snapshotNesting.deeper) :
    tenant.Fits c := by
  obtain rfl | rfl := hc <;> exact {
    words := by decide
    texts := by decide
    times := by decide
    activeAttachments := by decide
    owned := ⟨by decide, by decide, .nil⟩ }

/-- The audit entries of the run fit their codec. -/
theorem fits_audit {limits : DecodeLimits}
    (hl : limits = journalNesting.limits ∨ limits = snapshotNesting.limits) :
    ∀ entry ∈ peopled.audit, entry.Fits limits := by
  intro entry hentry
  obtain rfl | rfl := List.mem_pair.mp hentry <;> obtain rfl | rfl := hl <;>
    exact { words := by decide, at_ := by decide, outcome := by decide, texts := by decide }

/-- The decisions of the run fit their codec. -/
theorem fits_decisions {limits : DecodeLimits}
    (hl : limits = journalNesting.limits ∨ limits = snapshotNesting.limits) :
    ∀ decision ∈ peopled.decisions, decision.Fits limits := by
  intro decision hdecision
  obtain rfl | rfl := List.mem_pair.mp hdecision <;> obtain rfl | rfl := hl <;>
    exact { subject := by decide, bounds := by decide, at_ := by decide, outcome := by decide,
            texts := by decide }

/-- The state with the tenant can be encoded. -/
theorem encodable_peopled : peopled.Encodable where
  snapped := {
    fits := {
      header := headerFits_peopled (.inr rfl)
      sizes k := by cases k <;> decide +kernel
      keyed k := by cases k <;> decide +kernel
      records k entry hentry := by
        cases k
        case tenant =>
          obtain rfl : entry = (6, tenant) := List.mem_singleton.mp hentry
          exact fits_tenant (.inr rfl)
        all_goals cases hentry
      tails := by decide
      audit := fits_audit (.inr rfl)
      decisions := fits_decisions (.inr rfl)
      requests r hr := by cases hr }
    size := by decide +kernel }
  header := ⟨headerFits_peopled (.inl rfl), by decide +kernel⟩
  entity k id r hr := by
    cases k
    case tenant =>
      have hentry : (id, r) = (6, tenant) :=
        List.mem_singleton.mp (Std.ExtTreeMap.mem_toList_iff_getElem?_eq_some.mpr hr)
      cases hentry
      exact ⟨fits_tenant (.inl rfl), by decide +kernel⟩
    all_goals cases hr
  audit entry hentry := by
    refine ⟨fits_audit (.inl rfl) entry hentry, ?_⟩
    obtain rfl | rfl := List.mem_pair.mp hentry <;> decide +kernel
  decision entry hentry := by
    refine ⟨fits_decisions (.inl rfl) entry hentry, ?_⟩
    obtain rfl | rfl := List.mem_pair.mp hentry <;> decide +kernel
  request entry hentry := by cases hentry

/-- The states of the run, from its first event to its last. -/
theorem states_rebooted :
    rebooted.inits.map (fun past => ((onFiles {} {}).runFiles past).map fun s => s.state) =
      [some {}, some (begun false), some (begun true), some peopled, some peopled, some {}] := by
  decide +kernel

/-- Every state of the run can be encoded. -/
theorem encodable_rebooted (past : List StoreEvent) (s : Impl FileDurableStore)
    (hpast : past <+: rebooted) (hs : (onFiles {} {}).runFiles past = some s) :
    s.state.Encodable := by
  have hstate : some s.state ∈
      rebooted.inits.map fun past => ((onFiles {} {}).runFiles past).map fun s => s.state :=
    List.mem_map.mpr ⟨past, (List.mem_inits _ _).mpr hpast, by rw [hs]; rfl⟩
  rw [states_rebooted] at hstate
  simp only [List.mem_cons, Option.some.injEq, List.not_mem_nil, or_false] at hstate
  obtain hstate | hstate | hstate | hstate | hstate | hstate := hstate <;> rw [hstate]
  · exact encodable_empty
  · exact encodable_begun false
  · exact encodable_begun true
  · exact encodable_peopled
  · exact encodable_peopled
  · exact encodable_empty

/-- The run is clean. -/
theorem cleanRun_rebooted : ∃ im, CleanRun {} {} rebooted im := by
  have hrun : ((onFiles {} {}).runFiles rebooted).isSome := by decide +kernel
  obtain ⟨im, him⟩ := Option.isSome_iff_exists.mp hrun
  exact ⟨im, rfl, rfl, by decide, encodable_rebooted, him⟩

/-- The first half of the run. -/
theorem cleanRun_begun : ∃ im st, CleanRun {} {} [.start { now := 5 }] im ∧ im.store = some st ∧
    st.opened = true ∧ (im.exec { now := 6 } registration).1.state.Encodable := by
  obtain ⟨im, st, hstart, -, hst, hopened, hregistered⟩ := start_begun
  refine ⟨im, st, ⟨rfl, rfl, by decide, fun past s hpast => ?_, ?_⟩, hst, hopened, ?_⟩
  · exact encodable_rebooted past s (hpast.trans ((List.prefix_cons_inj _).mpr List.nil_prefix))
  · have hstep : (onFiles {} {}).stepFiles (.start { now := 5 }) = some im := by
      simp only [stepFiles, hstart]
    simp only [runFiles, List.foldlM_cons, List.foldlM_nil, hstep]
    rfl
  · rw [hregistered]
    exact encodable_begun true

end Sample

/-- A run with a registration, a tenant, a compaction and a new process. -/
theorem refines_image_rebooted : ∃ im st d, (onFiles {} {}).runFiles Sample.rebooted = some im ∧
    im.store = some st ∧
    (initial {} true).run (Sample.rebooted.map StoreEvent.event) = some (im.upon (some d)) ∧
    ∀ tornTail, st.files.recovered tornTail = .ok (d.image.getD {}, false) := by
  obtain ⟨im, h⟩ := Sample.cleanRun_rebooted
  obtain ⟨st, d, hst, hd, -, hrecovered, -⟩ := refines_image h
  exact ⟨im, st, d, h.reached, hst, hd, hrecovered⟩

end AcceleratorVirtualization
