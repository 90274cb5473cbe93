import AcceleratorVirtualization.Invariants.Limits
import AcceleratorVirtualization.Invariants.Recoverable
import AcceleratorVirtualization.Invariants.Restart
import AcceleratorVirtualization.Invariants.Sweeps

/-!
# A process that comes back

Whether a new process starts over what a run left depends on the size of the image alone: no more
virtual accelerators and tenants than its policy permits, and no tenant with more entries than there
are virtual accelerators. Nothing else that a run does makes an image that a start would refuse, and
a start changes nothing of this, so that it never refuses what it has just made of the image.
-/

namespace AcceleratorVirtualization

open VirtualizationState Custody

variable {s t : VirtualizationState}

/-! ### Scalars -/

theorem VirtualizationState.Entered.congr (h : s.Entered) (hs : t.schema = s.schema)
    (he : t.epoch = s.epoch) (hg : t.policyGeneration = s.policyGeneration) : t.Entered :=
  ⟨hs.trans h.schema, he ▸ h.epoch, hg ▸ h.governed⟩

namespace Impl

/-! ### Operations -/

section

variable {im im' i : Impl Disk} {r : Impl Disk × Except Failure Unit} {clock : Clock} {op : Op}

/-- Every body leaves a policy where there is one. -/
theorem does_governed (im : Impl Disk) (clock : Clock) (op : Op) :
    Does (fun t => valid im.state.policyGeneration = true → valid t.policyGeneration = true)
      im clock op where
  idle h := h
  body _ hb := (asks_body hb).governed
  classified _ h := by
    have hsame : (im.classified clock.now).1.state.policyGeneration = im.state.policyGeneration :=
      congrArg Demands.generation (demands_classified im clock.now)
    rwa [hsame]

theorem respects_governed {T : Prop} {p : Prop} :
    Respects T fun t => p → valid t.policyGeneration = true :=
  fun _ _ h hs hp => h.policyGeneration ▸ hs hp

/-- What is committed has the scalars of what was found. -/
theorem Written.entered (hw : Written im i im' r) (h : im.state.Entered)
    (hg : valid im.state.policyGeneration = true → valid im'.state.policyGeneration = true) :
    i.state.Entered ∧ im'.state.Entered := by
  have hschema : i.state.schema = im.state.schema := by rw [hw.displaced.state]
  have hepoch : i.state.epoch = im.state.epoch := by rw [hw.displaced.state]
  have hgeneration : i.state.policyGeneration = im.state.policyGeneration := by
    rw [hw.displaced.state]
  refine ⟨h.congr hschema hepoch hgeneration, ?_, ?_, hg h.governed⟩
  · rw [hw.ready.schema, hschema, h.schema]
  · rw [hw.ready.epoch, hepoch, h.epoch]

theorem Unwritten.entered (hr : Unwritten im r) (h : im.state.Entered) : r.1.state.Entered := by
  obtain ⟨n, -, hs⟩ := hr.state
  rw [hs]
  exact ⟨h.schema, h.epoch, h.governed⟩

/-- A commit, whatever comes of it. -/
theorem Written.entered_commit (hw : Written im i im' r) (h : im.state.Entered)
    (hg : valid im.state.policyGeneration = true → valid im'.state.policyGeneration = true) :
    im'.commit.1.state.Entered := by
  obtain ⟨hi, hnew⟩ := hw.entered h hg
  obtain ⟨store, -, hcommit⟩ | ⟨store, status, -, hcommit⟩ := commit_cases im'
  · rw [hcommit]
    exact ⟨hnew.schema, hnew.epoch, hnew.governed⟩
  · have hundo := hw.ready.undoes store status
    obtain ⟨-, hepoch, -, hgeneration, -, hschema⟩ := hundo.scalars_rollback
    rw [hcommit]
    exact hi.congr hschema hepoch hgeneration

/-- No operation leaves the epoch. -/
theorem entered_exec (hw : im.state.WellKeyed) (h : im.state.Entered) :
    (im.exec clock op).1.state.Entered := by
  obtain hr | ⟨i, im', hwritten, hg, -⟩ :=
    exec_cases respects_governed hw (does_governed im clock op)
  · exact hr.entered h
  · rw [hwritten.committed]
    exact hwritten.entered_commit h hg

/-- The image, and the state once the store is open, have what a start sets. -/
structure Begun (im : Impl Disk) : Prop where
  image : ∀ d image, im.store = some d → d.image = some image → image.Entered
  opened : ∀ d, im.store = some d → d.opened = true → im.state.Entered

theorem Begun.of_entered (h : im.state.Entered)
    (hi : ∀ d image, im.store = some d → d.image = some image → image.Entered) : im.Begun :=
  ⟨hi, fun _ _ _ => h⟩

/-- A commit leaves the store, or it writes the image of an open one. -/
theorem store_commit (im : Impl Disk) : im.commit.1.store = im.store ∨
    ∃ d, im.store = some d ∧ d.opened = true ∧ im.commit.1.store = some { d with
      image := some (Disk.merge (d.image.getD {}) im.extended.state im.changes) } := by
  have hcommit : im.commit.1.store = im.extended.persistChanges.1 := by
    obtain ⟨store, hp, hc⟩ | ⟨store, status, hp, hc⟩ := commit_cases im
    · rw [hc, hp]
    · rw [hc, hp]
      rfl
  obtain ⟨hp, -⟩ | ⟨d, hd, -, hopen, hp⟩ | ⟨status, hp⟩ := persistChanges_cases im.extended
  · exact .inl (hcommit.trans (congrArg Prod.fst hp))
  · exact .inr ⟨d, hd, hopen, hcommit.trans (congrArg Prod.fst hp)⟩
  · exact .inl (hcommit.trans (congrArg Prod.fst hp))

theorem Begun.commit (h : im.Begun) (hw : Written im i im' r)
    (hg : valid im.state.policyGeneration = true → valid im'.state.policyGeneration = true) :
    im'.commit.1.Begun := by
  have hstore : im'.store = im.store := hw.ready.store.trans hw.store
  have hopened : ∀ d, im.store = some d → d.opened = true → im'.commit.1.state.Entered :=
    fun d hd ho => hw.entered_commit (h.opened d hd ho) hg
  obtain hsame | ⟨d, hd, hopen, hwritten⟩ := store_commit im'
  · rw [hstore] at hsame
    exact ⟨fun d image hd => h.image d image (hsame ▸ hd), fun d hd => hopened d (hsame ▸ hd)⟩
  · -- only the image of an open store is written
    have hd' : im.store = some d := hstore ▸ hd
    refine .of_entered (hopened d hd' hopen) fun d' image hd' himage => ?_
    rw [hwritten] at hd'
    obtain rfl := Option.some.inj hd'
    obtain rfl := Option.some.inj himage
    obtain ⟨-, hnew⟩ := hw.entered (h.opened d (hstore ▸ hd) hopen) hg
    obtain ⟨hschema, -, hepoch, -, hgeneration, -⟩ :=
      Disk.scalars_merge (d.image.getD {}) im'.extended.state hw.ready.header
    exact hnew.congr hschema hepoch hgeneration

theorem Begun.exec (h : im.Begun) (hw : im.state.WellKeyed) : (im.exec clock op).1.Begun := by
  obtain hr | ⟨i, im', hwritten, hg, -⟩ :=
    exec_cases respects_governed hw (does_governed im clock op)
  · refine ⟨?_, fun d hd ho => ?_⟩
    · rw [hr.store]
      exact h.image
    · exact hr.entered (h.opened d (hr.store ▸ hd) ho)
  · rw [hwritten.committed]
    exact h.commit hwritten hg

end

/-! ### Starts -/

section

variable {σ : Type} {im : Impl σ}

theorem entered_enterEpoch (im : Impl σ) (recovered : Bool) :
    (im.enterEpoch recovered).state.Entered := by
  have hepoch : valid (if !valid im.state.epoch then 1
      else if recovered then im.state.epoch + 1 else im.state.epoch) = true := by
    split
    · rfl
    · rename_i hvalid
      split
      · exact decide_eq_true (Nat.succ_ne_zero _)
      · simpa using hvalid
  simp only [enterEpoch]
  split
  · exact ⟨rfl, hepoch, rfl⟩
  · rename_i hgoverned
    have hgoverned' : valid im.state.policyGeneration = true := by simpa using hgoverned
    split
    · exact ⟨rfl, hepoch, hgoverned'⟩
    · exact ⟨rfl, hepoch, hgoverned'⟩

theorem entered_of_stamp {im' : Impl σ} (h : im.state.Entered) (hs : im'.stamp = im.stamp)
    (hd : im'.demands = im.demands) : im'.state.Entered :=
  h.congr (congrArg Prod.fst hs) (congrArg (fun p => p.2.1) hs) (congrArg Demands.generation hd)

/-- What a start sets. -/
theorem entered_startBody (im : Impl σ) (clock : Clock) (recovered : Bool) :
    (im.startBody clock recovered).state.Entered :=
  entered_of_stamp (im.entered_enterEpoch recovered) (im.stamp_startBody clock recovered)
    (congrArg Dossier.demands (dossier_startBody clock recovered))

end

section

variable {im im' base : Impl Disk} {clock : Clock} {recovered : Bool}

theorem entered_commit (h : im.state.Entered) (hc : im.commit = (im', .ok ())) :
    im'.state.Entered := by
  obtain ⟨store, -, hcommit⟩ | ⟨store, status, -, hcommit⟩ := commit_cases im
  · rw [hcommit] at hc
    cases hc
    exact ⟨h.schema, h.epoch, h.governed⟩
  · rw [hcommit] at hc
    cases hc

/-- What is compacted is the state. -/
theorem begun_compactStore (h : im.state.Entered) (hc : im.compactStore = (im', .ok ())) :
    im'.state.Entered ∧ im'.Begun := by
  unfold compactStore at hc
  split at hc
  · rename_i hnone
    cases hc
    exact ⟨h, .of_entered h fun d _ hd => by simp [hnone] at hd⟩
  · rename_i d hd
    simp only [DurableStore.compact] at hc
    split at hc
    · cases hc
      refine ⟨h, .of_entered h ?_⟩
      rintro _ _ ⟨⟩ ⟨⟩
      exact h
    · cases hc

theorem begun_startCommitted (hw : base.state.WellKeyed)
    (hs : base.startCommitted clock recovered = (im', .ok ())) : im'.Begun := by
  have h0 := base.entered_startBody clock recovered
  have hw0 := wellKeyed_startBody hw clock recovered
  unfold startCommitted at hs
  split at hs
  · cases hs
  rename_i im1 hcommit
  have h1 : im1.state.Entered := entered_commit h0 hcommit
  have hw1 : im1.state.WellKeyed :=
    (Sound.commit (Q := fun _ => True) (fun _ _ _ _ => trivial) ⟨hw0, trivial⟩ hcommit).wellKeyed
  split at hs
  · cases hs
  rename_i im2 hrecovered
  have h2 : im2.state.Entered := by
    split at hrecovered
    · unfold startRecovered at hrecovered
      split at hrecovered
      · cases hrecovered
      · rename_i im3 hclassify
        obtain rfl := congrArg Prod.fst hrecovered
        have hexec : im1.exec clock .classifyRecoveredMigrations = (im3, .ok ()) := hclassify
        have hentered : (im1.exec clock .classifyRecoveredMigrations).1.state.Entered :=
          entered_exec hw1 h1
        rwa [hexec] at hentered
    · cases hrecovered
      exact h1
  split at hs
  · cases hs
  rename_i im3 hcompacted
  obtain ⟨-, h3⟩ := begun_compactStore h2 hcompacted
  cases hs
  exact ⟨h3.image, h3.opened⟩

/-! ### Every event -/

theorem Begun.answering (h : im.Begun) (answer : Check) : (im.answering answer).Begun := by
  constructor
  · intro d image hd
    obtain ⟨d', hd', rfl⟩ := Option.map_eq_some_iff.mp hd
    exact h.image d' image hd'
  · intro d hd
    obtain ⟨d', hd', rfl⟩ := Option.map_eq_some_iff.mp hd
    exact h.opened d' hd'

theorem Begun.start (h : im.Begun) (hk : Kept False Sturdy im)
    (hs : im.start clock = (im', .ok ())) : im'.Begun := by
  obtain ⟨-, rfl⟩ | ⟨-, base, recovered, hcommitted, -, hbase⟩ := start_cases hs
  · exact h
  · refine begun_startCommitted ?_ hcommitted
    obtain ⟨-, ⟨hstate, -⟩ | ⟨hempty, -⟩⟩ | ⟨-, d, hd, himage, -⟩ := hbase
    · rw [hstate]
      exact hk.state.wellKeyed
    · rw [hempty]
      exact wellKeyed_empty
    · exact (hk.image d base.state hd himage).wellKeyed

/-- What is closed holds the state. -/
theorem begun_closeStore (h : ∀ d, im.store = some d → d.opened = true → im.state.Entered)
    (hc : im.closeStore = (im', .ok ())) : im'.Begun := by
  unfold closeStore at hc
  split at hc
  · rename_i hnone
    cases hc
    constructor
    · intro d _ hd
      simp [hnone] at hd
    · intro d hd
      simp [hnone] at hd
  · rename_i d hd
    simp only [DurableStore.compact, DurableStore.close] at hc
    split at hc
    · rename_i hopen
      cases hc
      constructor
      · rintro _ _ ⟨⟩ ⟨⟩
        exact h d hd hopen
      · rintro _ ⟨⟩ hclosed
        cases hclosed
    · cases hc

theorem Begun.shutdown (h : im.Begun) (hs : im.shutdown clock = (im', .ok ())) : im'.Begun := by
  obtain ⟨-, rfl⟩ | ⟨-, im1, im2, hcommit, hclose, rfl⟩ := shutdown_cases hs
  · exact h
  have hstamp := im.beginOp.stamp_shutdownBody clock
  have hdemands : (im.beginOp.shutdownBody clock).demands = im.beginOp.demands :=
    demands_shutdownBody clock
  have hopened : ∀ d, im1.store = some d → d.opened = true → im1.state.Entered := by
    intro d hd hopen
    have hstore : (im.beginOp.shutdownBody clock).store = im.store :=
      congrArg (fun p => p.2.2.1) hstamp
    -- a commit opens no store
    have hbefore : ∃ d, im.store = some d ∧ d.opened = true := by
      have hwritten := store_commit (im.beginOp.shutdownBody clock)
      rw [hcommit, hstore] at hwritten
      obtain hsame | ⟨d', hd', hopen', -⟩ := hwritten
      · exact ⟨d, hsame ▸ hd, hopen⟩
      · exact ⟨d', hd', hopen'⟩
    obtain ⟨d', hd', hopen'⟩ := hbefore
    have hentered : im.beginOp.state.Entered := h.opened d' hd' hopen'
    exact entered_commit (entered_of_stamp hentered hstamp hdemands) hcommit
  obtain ⟨himage, hclosed⟩ := begun_closeStore hopened hclose
  exact ⟨himage, hclosed⟩

theorem Begun.compact (h : im.Begun) : im.compact.1.Begun := by
  unfold Impl.compact compactStore
  split
  · exact h
  · rename_i d hd
    simp only [DurableStore.compact]
    split
    · rename_i hopen
      refine .of_entered (h.opened d hd hopen) ?_
      rintro _ _ ⟨⟩ ⟨⟩
      exact h.opened d hd hopen
    · exact ⟨fun d' image hd' => h.image d' image (hd.trans hd'),
        fun d' hd' => h.opened d' (hd.trans hd')⟩

theorem Begun.boot (h : im.Begun) (options : RuntimeOptions) :
    Begun { options, store := im.store.map fun d => { d with opened := false } } := by
  constructor
  · intro d image hd
    obtain ⟨d', hd', rfl⟩ := Option.map_eq_some_iff.mp hd
    exact h.image d' image hd'
  · intro d hd hopen
    obtain ⟨d', -, rfl⟩ := Option.map_eq_some_iff.mp hd
    cases hopen

theorem Begun.step {event : Event} (h : im.Begun) (hk : Kept False Sturdy im)
    (hs : im.step event = some im') : im'.Begun := by
  cases event with
  | op op clock answer =>
    cases hs
    exact (h.answering answer).exec (hk.answering answer).state.wellKeyed
  | start clock =>
    simp only [Impl.step] at hs
    split at hs
    · cases hs
      exact (h.answering (.ok ())).start (hk.answering (.ok ())) ‹_›
    · cases hs
  | shutdown clock =>
    simp only [Impl.step] at hs
    split at hs
    · cases hs
      exact (h.answering (.ok ())).shutdown ‹_›
    · cases hs
  | compact =>
    cases hs
    exact h.compact
  | boot options =>
    cases hs
    exact h.boot options

theorem begun_initial (options : RuntimeOptions) (stored : Bool) :
    (initial options stored).Begun := by
  constructor
  · intro d image hd himage
    unfold initial at hd
    split at hd <;> cases hd
    cases himage
  · intro d hd hopen
    unfold initial at hd
    split at hd <;> cases hd
    cases hopen

theorem begun_of_run {options : RuntimeOptions} {stored : Bool} {events : List Event}
    (h : (initial options stored).run events = some im) : im.Begun := by
  have hrun : ∀ i : Impl Disk, Kept False Sturdy i → i.Begun → i.run events = some im →
      im.Begun := by
    clear h
    induction events with
    | nil =>
      intro i _ hb hr
      cases hr
      exact hb
    | cons event events ih =>
      intro i hk hb hr
      simp only [Impl.run, List.foldlM_cons, Option.bind_eq_bind, Option.bind_eq_some_iff] at hr
      obtain ⟨i', hstep, hrest⟩ := hr
      exact ih i' (hk.step invariant_sturdy (keeps_sturdy hk event) hstep) (hb.step hk hstep) hrest
  exact hrun _ (kept_initial invariant_sturdy options stored) (begun_initial options stored) h

end

end Impl

/-- A state that was entered and is sound is trusted if it is not too large. -/
theorem VirtualizationState.Sound.trusted (hs : s.Sound Sturdy) (he : s.Entered) :
    s.validateState = .ok () ↔ s.Sized := by
  rw [hs.holds.validateState_eq_ok hs.wellKeyed]
  exact and_iff_right he

/-! ### What a start does to the size -/

theorem VirtualizationState.Sized.congr (h : s.Sized) (hc : t.census = s.census)
    (hr : t.registry = s.registry) : t.Sized := by
  have hcount := congrFun (congrArg Census.count hc)
  have hlimit := congrFun (congrArg Census.limit hc)
  have hvirtuals : t.virtuals.size = s.virtuals.size := hcount .virtual
  have htenants : t.tenants.size = s.tenants.size := hcount .tenant
  refine ⟨?_, ?_, fun id tenant hid => ?_⟩
  · rw [hvirtuals]
    exact h.virtuals.trans (hlimit .virtual).ge
  · rw [htenants]
    exact h.tenants.trans (hlimit .tenant).ge
  · have hroster := congrFun (congrArg Rosters.Registry.roster hr) id
    simp only [registry, hid, Option.map_some] at hroster
    obtain ⟨r, hfound, hsame⟩ := Option.map_eq_some_iff.mp hroster.symm
    have howned : r.owned = tenant.owned := congrArg Rosters.Roster.members hsame
    rw [hvirtuals, ← howned]
    exact h.owned id r hfound

theorem VirtualizationState.respects_sized : Respects True Sized :=
  fun _ _ h hs => hs.congr h.census.symm h.registry

namespace Impl

variable {σ : Type} {im : Impl σ}

/-- A start changes no limit of a policy that is there. -/
theorem census_enterEpoch (hg : valid im.state.policyGeneration = true) (recovered : Bool) :
    (im.enterEpoch recovered).census = im.census := by
  simp only [enterEpoch, census_touchHeader, census_account, hg, Bool.not_true, Bool.false_eq_true,
    if_false]
  split
  · simp only [census, VirtualizationState.census, Census.mk.injEq]
    exact ⟨funext fun k => by cases k <;> rfl, rfl, rfl⟩
  · exact census_congr (fun k => by cases k <;> rfl) rfl rfl

/-- A start, after it has loaded, leaves the counts and the limits as they are. -/
theorem census_startBody (hg : valid im.state.policyGeneration = true) (clock : Clock)
    (recovered : Bool) : (im.startBody clock recovered).census = im.census := by
  have hentered := census_enterEpoch hg recovered
  simp only [startBody]
  generalize im.enterEpoch recovered = i at hentered ⊢
  split
  · rw [census_record, census_dropLocalAuthority, hentered]
  · rw [census_record, hentered]

theorem sized_startBody (h : im.state.Sized) (hg : valid im.state.policyGeneration = true)
    (clock : Clock) (recovered : Bool) : (im.startBody clock recovered).state.Sized :=
  h.congr (census_startBody hg clock recovered) (registry_startBody im clock recovered)

theorem sized_classified (h : im.state.Sized) (now : UnixMicros) :
    (im.classified now).1.state.Sized :=
  h.congr (census_classified im now) (registry_classified im now)

section

variable {im im' im1 im2 base : Impl Disk} {clock : Clock} {recovered : Bool}

/-- What a start made of a trusted state is trusted. -/
theorem trusted_recovered (hs : base.state.Sound Sturdy) (hv : base.state.validateState = .ok ())
    (hcommit : (base.startBody clock true).commit = (im1, .ok ()))
    (hclassify : im1.classifyRecoveredMigrations clock = (im2, .ok ())) :
    im2.state.validateState = .ok () := by
  obtain ⟨hentered, hsized⟩ := (hs.holds.validateState_eq_ok hs.wellKeyed).mp hv
  have hq : Respects True fun t => t.Sturdy ∧ t.Sized :=
    fun _ _ h ht => ⟨respects_sturdy h ht.1, respects_sized h ht.2⟩
  have h0 : (base.startBody clock true).state.Sound fun t => t.Sturdy ∧ t.Sized :=
    ⟨wellKeyed_startBody hs.wellKeyed clock true, sturdy_startBody hs clock true,
      sized_startBody hsized hentered.governed clock true⟩
  have h1 : im1.state.Sound fun t => t.Sturdy ∧ t.Sized := Sound.commit hq h0 hcommit
  have hclassified : (im1.classified clock.now).1.state.Sturdy :=
    (invariant_sturdy (T := True)).classified clock.now ⟨h1.wellKeyed, h1.holds.1⟩
  have h2 : im2.state.Sound fun t => t.Sturdy ∧ t.Sized :=
    Sound.classifyRecoveredMigrations hq h1
      ⟨hclassified, sized_classified h1.holds.2 clock.now⟩ hclassify
  have he1 : im1.state.Entered := entered_commit (base.entered_startBody clock true) hcommit
  have he2 : im2.state.Entered := by
    have hexec : im1.exec clock .classifyRecoveredMigrations = (im2, .ok ()) := hclassify
    have hentered : (im1.exec clock .classifyRecoveredMigrations).1.state.Entered :=
      entered_exec h1.wellKeyed he1
    rwa [hexec] at hentered
  exact (h2.holds.1.validateState_eq_ok h2.wellKeyed).mpr ⟨he2, h2.holds.2⟩

/-! ### A store that takes what it is given -/

/-- The store, if there is one, is open and refuses nothing. -/
def Accepting (im : Impl Disk) : Prop :=
  ∀ d, im.store = some d → d.opened = true ∧ d.answer = .ok ()

theorem Accepting.persistChanges (h : im.Accepting) : im.persistChanges.2 = .ok () := by
  unfold Impl.persistChanges
  cases hd : im.store with
  | none => rfl
  | some d =>
    obtain ⟨hopened, hanswer⟩ := h d hd
    simp only [DurableStore.applyChanges, hopened, hanswer, if_true]
    split <;> rfl

theorem Accepting.commit (h : im.Accepting) :
    ∃ im', im.commit = (im', .ok ()) ∧ im'.Accepting := by
  obtain ⟨store, -, hcommit⟩ | ⟨store, status, hp, -⟩ := commit_cases im
  · refine ⟨_, hcommit, ?_⟩
    have hstore := store_commit im
    rw [hcommit] at hstore
    obtain hsame | ⟨d, hd, -, hwritten⟩ := hstore
    · exact fun d hd => h d (hsame.symm.trans hd)
    · intro d' hd'
      obtain rfl := Option.some.inj (hwritten.symm.trans hd')
      exact h d hd
  · have haccepts : im.extended.persistChanges.2 = .ok () := Accepting.persistChanges h
    rw [hp] at haccepts
    cases haccepts

theorem Accepting.classify (h : im.Accepting) (hw : im.state.WellKeyed) (clock : Clock) :
    ∃ im', im.classifyRecoveredMigrations clock = (im', .ok ()) ∧ im'.Accepting := by
  have hbegin : Tracks im ∅ (im.beginOp, false).1 := .beginOp hw
  have hstore : (im.classified clock.now).1.store = im.store :=
    (hbegin.classifyMigrations clock.now _).store
  unfold classified at hstore
  simp only [classifyRecoveredMigrations]
  split
  · rename_i im1 hacc
    rw [hacc] at hstore
    exact ⟨_, rfl, fun d hd => h d (hstore.symm.trans hd)⟩
  · rename_i im1 hacc
    rw [hacc] at hstore
    rw [finalize_eq]
    have hsettled : Accepting (im1.touchHeader.settle clock
        { operation := txt "classify_recovered_migrations", epoch := im.beginOp.state.epoch } {}
        .recovery) := by
      intro d hd
      rw [(settles im1.touchHeader ..).store] at hd
      exact h d (hstore.symm.trans hd)
    obtain ⟨im2, hcommit, haccepting⟩ := hsettled.commit
    rw [hcommit]
    exact ⟨im2, rfl, haccepting⟩

theorem Accepting.compactStore (h : im.Accepting) :
    ∃ im', im.compactStore = (im', .ok ()) := by
  unfold Impl.compactStore
  cases hd : im.store with
  | none => exact ⟨_, rfl⟩
  | some d =>
    simp only [DurableStore.compact, (h d hd).1, if_true]
    exact ⟨_, rfl⟩

/-- A start over a trusted state succeeds. -/
theorem Accepting.startCommitted (h : base.Accepting) (hs : base.state.Sound Sturdy)
    (hv : recovered = true → base.state.validateState = .ok ()) :
    ∃ im', base.startCommitted clock recovered = (im', .ok ()) := by
  have h0 : (base.startBody clock recovered).Accepting := by
    have hstore : (base.startBody clock recovered).store = base.store := by
      have hstamp := congrArg (fun p => p.2.2.1) (base.stamp_startBody clock recovered)
      refine Eq.trans hstamp ?_
      simp only [stamp, enterEpoch]
      split
      · rfl
      · split <;> rfl
    exact fun d hd => h d (hstore.symm.trans hd)
  obtain ⟨im1, hcommit, h1⟩ := h0.commit
  have hw1 : im1.state.WellKeyed :=
    (Sound.commit (Q := fun _ => True) (fun _ _ _ _ => trivial)
      ⟨wellKeyed_startBody hs.wellKeyed clock recovered, trivial⟩ hcommit).wellKeyed
  unfold Impl.startCommitted
  rw [hcommit]
  cases recovered with
  | false =>
    obtain ⟨im3, hcompact⟩ := h1.compactStore
    simp only [Bool.false_eq_true, if_false, hcompact]
    exact ⟨_, rfl⟩
  | true =>
    obtain ⟨im2, hclassify, h2⟩ := h1.classify hw1 clock
    obtain ⟨im3, hcompact⟩ := h2.compactStore
    have htrusted := trusted_recovered hs (hv rfl) hcommit hclassify
    simp only [if_true, startRecovered, hclassify, htrusted, Except.mapError, hcompact]
    exact ⟨_, rfl⟩

/-! ### A new process -/

section

variable {d : Disk} {image : VirtualizationState} {options : RuntimeOptions}

theorem start_fresh (hr : im.running = false) (hstate : im.state = {})
    (h : ∀ d, im.store = some d → d.image = none ∧ d.answer = .ok ()) :
    ∃ base : Impl Disk, base.state = {} ∧ base.Accepting ∧
      im.start clock = base.startCommitted clock false := by
  unfold Impl.start
  rw [if_neg (by simp [hr])]
  cases hd : im.store with
  | none =>
    exact ⟨im.beginOp, hstate, fun d hd' => absurd (hd.symm.trans hd') (by simp), rfl⟩
  | some d =>
    obtain ⟨himage, hanswer⟩ := h d hd
    simp only [DurableStore.open_, DurableStore.load, DurableStore.present, himage,
      Option.isSome_none]
    refine ⟨_, ?_, ?_, rfl⟩
    · rfl
    · rintro _ ⟨⟩
      exact ⟨rfl, hanswer⟩

theorem start_trusted (hr : im.running = false) (hd : im.store = some d)
    (himage : d.image = some image) (hanswer : d.answer = .ok ())
    (hv : image.validateState = .ok ()) :
    ∃ base : Impl Disk, base.state = image ∧ base.Accepting ∧
      im.start clock = base.startCommitted clock true := by
  unfold Impl.start
  rw [if_neg (by simp [hr])]
  simp only [hd, DurableStore.open_, DurableStore.load, DurableStore.present, himage, hv,
    Except.map, Option.isSome_some]
  refine ⟨_, ?_, ?_, rfl⟩
  · rfl
  · rintro _ ⟨⟩
    exact ⟨rfl, hanswer⟩

/-- A new process starts if it trusts the image, if there is one. -/
theorem restarts_iff_trusted
    (hi : ∀ d image, im.store = some d → d.image = some image → image.Sound Sturdy) :
    (im.run [.boot options, .start clock]).isSome = true ↔
      ∀ d image, im.store = some d → d.image = some image → image.validateState = .ok () := by
  obtain ⟨i, hr, hstate, hstore, hrun⟩ : ∃ i : Impl Disk, i.running = false ∧ i.state = {} ∧
      i.store = im.store.map (fun d => { d with opened := false, answer := .ok () }) ∧
      ((im.run [.boot options, .start clock]).isSome = true ↔
        ∃ im', i.start clock = (im', .ok ())) := by
    refine ⟨Impl.answering { options, store := im.store.map fun d => { d with opened := false } }
      (.ok ()), rfl, rfl, ?_, ?_⟩
    · simp only [answering, Option.map_map, Function.comp_def]
    · simp only [run, List.foldlM_cons, List.foldlM_nil, step, Option.bind_eq_bind,
        Option.bind_some]
      split <;> rename_i hs
      · exact iff_of_true rfl ⟨_, hs⟩
      · refine iff_of_false (by simp) ?_
        rintro ⟨im', hs'⟩
        rw [hs] at hs'
        cases hs'
  rw [hrun]
  constructor
  · rintro ⟨im', hs⟩ d image hd himage
    have hd' : i.store = some { d with opened := false, answer := .ok () } := by
      rw [hstore, hd]
      rfl
    obtain ⟨hrunning, -⟩ | ⟨-, base, recovered, -, -, hbase⟩ := start_cases hs
    · exact absurd (hr.symm.trans hrunning) (by simp)
    · obtain ⟨-, ⟨-, hnone⟩ | ⟨-, d', hd'', hnone⟩⟩ | ⟨-, d', hd'', himage', hv⟩ := hbase
      · exact absurd (hd'.symm.trans hnone) (by simp)
      · obtain rfl := Option.some.inj (hd'.symm.trans hd'')
        exact absurd (himage.symm.trans hnone) (by simp)
      · obtain rfl := Option.some.inj (hd'.symm.trans hd'')
        rwa [Option.some.inj (himage.symm.trans himage')]
  · intro hv
    -- with nothing stored the new process starts from the empty state
    by_cases hfresh : ∀ d, i.store = some d → d.image = none ∧ d.answer = .ok ()
    · obtain ⟨base, hempty, haccepting, hstart⟩ := start_fresh hr hstate hfresh
      rw [hstart]
      refine haccepting.startCommitted ?_ (by simp)
      rw [hempty]
      exact ⟨wellKeyed_empty, sturdy_empty⟩
    · simp only [not_forall] at hfresh
      obtain ⟨d', hd', hne⟩ := hfresh
      rw [hstore, Option.map_eq_some_iff] at hd'
      obtain ⟨d, hd, rfl⟩ := hd'
      obtain ⟨image, himage⟩ : ∃ image, d.image = some image :=
        Option.ne_none_iff_exists'.mp fun hnone => hne ⟨hnone, rfl⟩
      have hd' : i.store = some { d with opened := false, answer := .ok () } := by
        rw [hstore, hd]
        rfl
      obtain ⟨base, hloaded, haccepting, hstart⟩ :=
        start_trusted hr hd' himage rfl (hv d image hd himage)
      rw [hstart]
      refine haccepting.startCommitted ?_ fun _ => ?_
      · rw [hloaded]
        exact hi d image hd himage
      · rw [hloaded]
        exact hv d image hd himage

end

end

end Impl

/-- An image that a run left is trusted if and only if it is not too large for its policy and no
tenant lists more than there is; and so is the state over an open store. -/
theorem trusted_iff_sized {options : RuntimeOptions} {stored : Bool} {events : List Event}
    {im : Impl Disk} (h : (Impl.initial options stored).run events = some im) :
    (∀ d image, im.store = some d → d.image = some image →
      (image.validateState = .ok () ↔ image.Sized)) ∧
    ∀ d, im.store = some d → d.opened = true →
      (im.state.validateState = .ok () ↔ im.state.Sized) := by
  have hk := Impl.sturdy_of_run h
  have hb := Impl.begun_of_run h
  constructor
  · intro d image hd himage
    exact (hk.image d image hd himage).trusted (hb.image d image hd himage)
  · intro d hd hopen
    exact hk.state.trusted (hb.opened d hd hopen)

namespace Sample

/-- One virtual accelerator at most. -/
def single : VirtualizationPolicy :=
  { VirtualizationPolicy.defaultPolicy with maxVirtualAccelerators := 1 }

/-- There are two virtual accelerators when the policy comes to permit one. -/
def crowded : List Event := planned ++ [call (.setPolicy anyone single)]

/-- A transfer to tenant 31 is not written, and the process is shut down. -/
def untransferred (epoch : ℕ) : List Event :=
  [.op (.transferOwnership { owner 19 1 with epoch := some epoch } 31 1) clock full,
    .shutdown clock]

/-- It is tried again under each epoch. -/
def relisted : List Event :=
  joined ++ untransferred 1 ++ restarted {} ++ untransferred 2 ++ restarted {} ++ untransferred 3

end Sample

/-- A policy that permits less than there is leaves an image that is not trusted. -/
theorem trusted_iff_sized_crowded : ∃ im d image,
    (Impl.initial {} true).run Sample.crowded = some im ∧ im.store = some d ∧
    d.image = some image ∧ image.validateState ≠ .ok () := by
  have hrun : (((Impl.initial {} true).run Sample.crowded).any fun im => im.store.any fun d =>
      d.image.any fun image =>
        decide (image.policy.maxVirtualAccelerators < image.virtuals.size)) = true := by
    decide +kernel
  obtain ⟨im, him, hgood⟩ := (Option.any_eq_true _ _).mp hrun
  obtain ⟨d, hd, hgood⟩ := (Option.any_eq_true _ _).mp hgood
  obtain ⟨image, himage, hlow⟩ := (Option.any_eq_true _ _).mp hgood
  refine ⟨im, d, image, him, hd, himage, fun hv => ?_⟩
  have hsized := ((trusted_iff_sized him).1 d image hd himage).mp hv
  exact absurd hsized.virtuals (Nat.not_le.mpr (of_decide_eq_true hlow))

/-- A new process starts over what a run left if and only if the image is not too large. -/
theorem restarts_iff_sized {options options' : RuntimeOptions} {stored : Bool} {events : List Event}
    {im : Impl Disk} (h : (Impl.initial options stored).run events = some im) (clock : Clock) :
    (im.run [.boot options', .start clock]).isSome = true ↔
      ∀ d image, im.store = some d → d.image = some image → image.Sized := by
  have hk := Impl.sturdy_of_run h
  have hb := Impl.begun_of_run h
  rw [Impl.restarts_iff_trusted hk.image]
  refine forall₂_congr fun d image => forall₂_congr fun hd himage => ?_
  exact (hk.image d image hd himage).trusted (hb.image d image hd himage)

/-- A transfer that was not written, three times, leaves a tenant that lists more than there is. -/
theorem restarts_iff_sized_relisted : ∃ im, (Impl.initial {} true).run Sample.relisted = some im ∧
    im.run [.boot {}, .start Sample.clock] = none := by
  have hrun : (((Impl.initial {} true).run Sample.relisted).any fun im => im.store.any fun d =>
      d.image.any fun image => image.tenants[31]?.any fun tenant =>
        decide (image.virtuals.size < tenant.owned.length)) = true := by
    decide +kernel
  obtain ⟨im, him, hgood⟩ := (Option.any_eq_true _ _).mp hrun
  obtain ⟨d, hd, hgood⟩ := (Option.any_eq_true _ _).mp hgood
  obtain ⟨image, himage, hgood⟩ := (Option.any_eq_true _ _).mp hgood
  obtain ⟨tenant, htenant, hlong⟩ := (Option.any_eq_true _ _).mp hgood
  refine ⟨im, him, Option.not_isSome_iff_eq_none.mp fun hsome => ?_⟩
  have hsized := (restarts_iff_sized him Sample.clock).mp hsome d image hd himage
  exact absurd (hsized.owned 31 tenant htenant) (Nat.not_le.mpr (of_decide_eq_true hlong))

/-! ### Runs that can always be taken up again -/

/-- A tenant that lists in order what it owns lists no more than there is. -/
theorem VirtualizationState.length_owned_le (h : s.registry.Listed) {id : TenantId}
    {tenant : TenantRecord} (ht : s.tenants[id]? = some tenant) :
    tenant.owned.length ≤ s.virtuals.size := by
  have hroster : s.registry.roster id = some tenant.roster := by simp [registry, ht]
  have hnodup : tenant.owned.Nodup := (h.sorted id _ hroster).imp ne_of_lt
  have hlisted : tenant.owned ⊆ s.virtuals.keys := by
    intro x hx
    obtain ⟨d, hd, -⟩ := h.own id _ x hroster hx
    obtain ⟨v, hv, -⟩ := Option.map_eq_some_iff.mp hd
    refine Std.ExtTreeMap.mem_keys.mpr (Std.ExtTreeMap.mem_iff_isSome_getElem?.mpr ?_)
    rw [hv]
    rfl
  calc tenant.owned.length ≤ s.virtuals.keys.length := hnodup.length_le_of_subset hlisted
    _ = s.virtuals.size := Std.ExtTreeMap.length_keys

/-- A new process starts over whatever a run left that lowers no limit, and in which every transfer
is written. -/
theorem restarts_of_run {options options' : RuntimeOptions} {stored : Bool} {events : List Event}
    {im : Impl Disk} (h : (Impl.initial options stored).run events = some im)
    (hlimits : (Impl.initial options stored).throughout Impl.unlowered events = true)
    (hsettled : (Impl.initial options stored).throughout Impl.settling events = true)
    (clock : Clock) : (im.run [.boot options', .start clock]).isSome = true := by
  have hk := Impl.sturdy_of_run h
  have hb := Impl.begun_of_run h
  have hlisted := Impl.listed_of_run h hsettled
  have hi : Impl.Invariant False (Limited {.virtual, .tenant}) := Impl.invariant_limited
  have hlimited := (Impl.kept_initial hi options stored).run hi (c := Impl.unlowered)
    (fun im event hk hc => Impl.keeps_limited hk hc (by simp)) h hlimits
  refine (Impl.restarts_iff_trusted hk.image).mpr fun d image hd himage => ?_
  refine ((hk.image d image hd himage).trusted (hb.image d image hd himage)).mpr ?_
  have hwithin := (hlimited.image d image hd himage).holds
  refine ⟨hwithin.count .virtual (by simp), hwithin.count .tenant (by simp),
    fun id tenant ht => ?_⟩
  exact length_owned_le (hlisted.image d image hd himage).holds.2 ht

/-- A new process takes up two virtual accelerators, one of which plans to move. -/
theorem restarts_planned : ∃ im, (Impl.initial {} true).run Sample.planned = some im ∧
    (im.run [.boot {}, .start Sample.clock]).isSome = true := by
  have hrun : ((Impl.initial {} true).run Sample.planned).isSome = true := by decide +kernel
  obtain ⟨im, him⟩ := Option.isSome_iff_exists.mp hrun
  exact ⟨im, him, restarts_of_run him (by decide +kernel) (by decide +kernel) _⟩

end AcceleratorVirtualization
