import AcceleratorVirtualization.Runtime.Views
import AcceleratorVirtualization.Invariants.Histories

/-!
# What an opaque view discloses

Two states that differ in nothing but the binding of one virtual accelerator are compared by what a
caller is shown of it while the policy withholds the backing. Identities, device keys and models are
withheld; the class of the backing, its provenance and mechanism, and the generations and the
mechanism in the projection are shown as they are, so that the views agree if and only if these do.
-/

namespace AcceleratorVirtualization

open VirtualizationState

/-- A projection without the generations and the mechanism it was derived from. -/
def CapabilityProjection.anonymous (p : CapabilityProjection) : CapabilityProjection :=
  { p with backingGeneration := 0, physicalGeneration := 0, fingerprint := 0, mechanism := [] }

/-- A virtual accelerator without its binding. -/
def VirtualAcceleratorRecord.anonymous (v : VirtualAcceleratorRecord) : VirtualAcceleratorRecord :=
  { v with
    projection := v.projection.anonymous
    assignment := 0
    backing := 0, backingGeneration := 0
    physical := 0, physicalGeneration := 0
    backingClass := .unknown
    backingHistory := [] }

/-- The states differ in the binding of one virtual accelerator only, whatever the backings, devices
and assignments are, and what was recorded about them. -/
structure VirtualizationState.Rebinds (x : VirtualAcceleratorId) (s s' : VirtualizationState)
    (v v' : VirtualAcceleratorRecord) : Prop where
  rest : s' = { s with
    virtuals := s'.virtuals, backings := s'.backings, physical := s'.physical
    assignments := s'.assignments, audit := s'.audit, decisions := s'.decisions }
  others : ∀ y : ℕ, y ≠ x → s'.virtuals[y]? = s.virtuals[y]?
  before : s.virtuals[x]? = some v
  after : s'.virtuals[x]? = some v'
  record : v'.anonymous = v.anonymous

/-- What an opaque view shows of a binding: the class, the generations and the mechanism of the
projection with their fingerprint, and the provenance and mechanism of the backing. -/
structure Disclosure where
  backingClass : BackingClass
  backingGeneration : Generation
  physicalGeneration : Generation
  fingerprint : ℕ
  mechanism : Text
  backingProvenance : Provenance
  backingMechanism : Text
  deriving DecidableEq

/-- What a view of `v` lets through about the place behind it. -/
def VirtualizationState.disclosed (s : VirtualizationState) (v : VirtualAcceleratorRecord) :
    Disclosure where
  backingClass := v.backingClass
  backingGeneration := v.projection.backingGeneration
  physicalGeneration := v.projection.physicalGeneration
  fingerprint := v.projection.fingerprint
  mechanism := v.projection.mechanism
  backingProvenance := s.backings[v.backing]?.elim .unknown BackingRecord.provenance
  backingMechanism := s.backings[v.backing]?.elim v.projection.mechanism BackingRecord.mechanism

variable {s s' : VirtualizationState} {v v' : VirtualAcceleratorRecord} {x : VirtualAcceleratorId}

/-- The view of a virtual accelerator whose backing is withheld. -/
theorem makeView_withheld (h : s.policy.transparency = .opaqueBacking) (auth : Authority) :
    makeView s v auth = VirtualView.describeLease s v auth {
      id := v.id, generation := v.generation, name := v.name, state := v.state
      stateGeneration := v.stateGeneration, stateReason := v.stateReason
      owner := v.owner, ownerGeneration := v.ownerGeneration
      ownerIsCaller := auth.tenant = some v.owner
      contract := v.contract, projection := v.projection, multiplexing := v.multiplexing
      isolationClass := v.isolationClass
      activeAttachments := v.activeAttachments, allocatedBytes := v.allocatedBytes
      createdAt := v.createdAt, updatedAt := v.updatedAt
      migrationSupported := (migrationCapability s.policy v.contract).supported
      migrationClass := if (migrationCapability s.policy v.contract).supported then
        (migrationCapability s.policy v.contract).klass else .unsupported
      hasActiveMigration := valid v.migration && s.migrations[v.migration]?.any fun m =>
        !migrationStateIsTerminal m.state
      backingClass := v.backingClass
      backingProvenance := s.backings[v.backing]?.elim .unknown BackingRecord.provenance
      backingMechanism :=
        s.backings[v.backing]?.elim v.projection.mechanism BackingRecord.mechanism } := by
  simp only [makeView, VirtualView.disclose, h, VirtualView.describeBacking]
  cases s.backings[v.backing]? <;> rfl

/-- What a view shows of a binding that is withheld. -/
def VirtualView.shown (view : VirtualView) : Disclosure where
  backingClass := view.backingClass
  backingGeneration := view.projection.backingGeneration
  physicalGeneration := view.projection.physicalGeneration
  fingerprint := view.projection.fingerprint
  mechanism := view.projection.mechanism
  backingProvenance := view.backingProvenance
  backingMechanism := view.backingMechanism

theorem shown_describeLease (s : VirtualizationState) (v : VirtualAcceleratorRecord)
    (auth : Authority) (view : VirtualView) :
    (VirtualView.describeLease s v auth view).shown = view.shown := by
  unfold VirtualView.describeLease
  split
  · rfl
  · split <;> rfl

theorem shown_makeView (h : s.policy.transparency = .opaqueBacking) (auth : Authority) :
    (makeView s v auth).shown = s.disclosed v := by
  rw [makeView_withheld h, shown_describeLease]
  rfl

/-- Projections that agree without what they were derived from, and in what is shown of it. -/
theorem projection_eq_of_anonymous {p p' : CapabilityProjection} (h : p'.anonymous = p.anonymous)
    (hb : p'.backingGeneration = p.backingGeneration)
    (hp : p'.physicalGeneration = p.physicalGeneration) (hf : p'.fingerprint = p.fingerprint)
    (hm : p'.mechanism = p.mechanism) : p' = p := by
  cases p
  cases p'
  simp only [CapabilityProjection.anonymous, CapabilityProjection.mk.injEq] at h
  simp_all

namespace VirtualizationState.Rebinds

/-- The views of the virtual accelerator agree if and only if what they show of the binding does. -/
theorem makeView_eq_iff (h : Rebinds x s s' v v') (ho : s.policy.transparency = .opaqueBacking)
    (auth : Authority) :
    makeView s' v' auth = makeView s v auth ↔ s'.disclosed v' = s.disclosed v := by
  have hpolicy : s'.policy = s.policy := by rw [h.rest]
  have hleases : s'.leases = s.leases := by rw [h.rest]
  have hmigrations : s'.migrations = s.migrations := by rw [h.rest]
  have ho' : s'.policy.transparency = .opaqueBacking := by rw [hpolicy, ho]
  constructor
  · intro hview
    rw [← shown_makeView ho' auth, hview, shown_makeView ho auth]
  · intro hshown
    simp only [disclosed, Disclosure.mk.injEq] at hshown
    obtain ⟨hclass, hbacking, hphysical, hfingerprint, hmechanism, hprovenance, hbacked⟩ := hshown
    have hprojection : v'.projection = v.projection :=
      projection_eq_of_anonymous (congrArg VirtualAcceleratorRecord.projection h.record) hbacking
        hphysical hfingerprint hmechanism
    have hrecord := h.record
    rw [makeView_withheld ho', makeView_withheld ho, hprovenance, hbacked, hprojection, hclass,
      hpolicy,
      hmigrations]
    simp only [VirtualAcceleratorRecord.anonymous, VirtualAcceleratorRecord.mk.injEq] at hrecord
    simp only [hrecord, VirtualView.describeLease, hleases]

theorem queryVirtual_eq_iff (h : Rebinds x s s' v v') (ho : s.policy.transparency = .opaqueBacking)
    (auth : Authority) : s'.queryVirtual auth x = s.queryVirtual auth x ↔
      s'.disclosed v' = s.disclosed v := by
  simp only [queryVirtual, h.before, h.after, Except.ok.injEq]
  exact h.makeView_eq_iff ho auth

/-! ### Listings -/

/-- The entries of the virtual accelerators, with the one that is bound elsewhere replaced. -/
theorem toList_eq (h : Rebinds x s s' v v') : s'.virtuals.toList =
    s.virtuals.toList.map fun entry => if entry.1 = x then (x, v') else entry := by
  have hordered : ∀ map : IdMap VirtualAcceleratorRecord,
      map.toList.Pairwise fun a b => a.1 < b.1 := fun map =>
    Std.ExtTreeMap.ordered_keys_toList.imp fun hlt => Nat.compare_eq_lt.mp hlt
  have hsorted :
    (s.virtuals.toList.map fun entry => if entry.1 = x then (x, v') else entry).Pairwise
      fun a b => a.1 < b.1 := by
    refine List.pairwise_map.mpr ((hordered s.virtuals).imp fun {a b} hlt => ?_)
    have hfst : ∀ entry : ℕ × VirtualAcceleratorRecord,
        (if entry.1 = x then (x, v') else entry).1 = entry.1 := by
      intro entry
      split
      · rename_i hx
        exact hx.symm
      · rfl
    rw [hfst, hfst]
    exact hlt
  -- two ascending lists with the same entries are equal
  refine List.Perm.eq_of_pairwise ?_ (hordered s'.virtuals) hsorted ?_
  · intro a b _ _ hab hba
    exact absurd (hab.trans hba) (lt_irrefl _)
  · refine (List.perm_ext_iff_of_nodup ?_ ?_).mpr fun entry => ?_
    · exact (hordered _).imp fun hlt heq => absurd (heq ▸ hlt) (lt_irrefl _)
    · exact hsorted.imp fun hlt heq => absurd (heq ▸ hlt) (lt_irrefl _)
    · obtain ⟨y, w⟩ := entry
      rw [Std.ExtTreeMap.mem_toList_iff_getElem?_eq_some, List.mem_map]
      constructor
      · intro hw
        by_cases hy : y = x
        · rw [hy, h.after, Option.some.injEq] at hw
          refine ⟨(x, v), Std.ExtTreeMap.mem_toList_iff_getElem?_eq_some.mpr h.before, ?_⟩
          rw [if_pos rfl, hy, hw]
        · rw [h.others y hy] at hw
          exact ⟨(y, w), Std.ExtTreeMap.mem_toList_iff_getElem?_eq_some.mpr hw, if_neg hy⟩
      · rintro ⟨entry, hentry, heq⟩
        have hv := Std.ExtTreeMap.mem_toList_iff_getElem?_eq_some.mp hentry
        split at heq
        · cases heq
          exact h.after
        · rename_i hy
          rw [heq] at hy hv
          rw [h.others y hy]
          exact hv

/-- The virtual accelerators a listing shows are the same ones. -/
theorem listVirtual_eq (h : Rebinds x s s' v v') (auth : Authority) : s'.listVirtual auth =
    ((s.virtuals.toList.filter fun entry => auth.tenant.all (· = entry.2.owner)).take
      kMaxListedVirtuals).map fun entry =>
        makeView s' (if entry.1 = x then v' else entry.2) auth := by
  have howner : v'.owner = v.owner :=
    show v'.anonymous.owner = v.anonymous.owner from congrArg _ h.record
  have hfilter : s.virtuals.toList.filter (fun entry =>
      auth.tenant.all (· = (if entry.1 = x then (x, v') else entry).2.owner)) =
      s.virtuals.toList.filter fun entry => auth.tenant.all (· = entry.2.owner) := by
    refine List.filter_congr fun entry hentry => ?_
    split
    · rename_i hx
      have hv : s.virtuals[entry.1]? = some entry.2 :=
        Std.ExtTreeMap.mem_toList_iff_getElem?_eq_some.mp hentry
      rw [hx, h.before, Option.some.injEq] at hv
      rw [← hv, howner]
    · rfl
  rw [listVirtual, h.toList_eq, List.filter_map, ← List.map_take, List.map_map]
  simp only [Function.comp_def, hfilter]
  refine List.map_congr_left fun entry _ => ?_
  split <;> rfl

end VirtualizationState.Rebinds

theorem id_makeView (h : s.policy.transparency = .opaqueBacking) (v : VirtualAcceleratorRecord)
    (auth : Authority) : (makeView s v auth).id = v.id := by
  rw [makeView_withheld h]
  unfold VirtualView.describeLease
  split
  · rfl
  · split <;> rfl

/-- The views of the virtual accelerator in a listing. -/
theorem VirtualizationState.Rebinds.filter_listVirtual (h : Rebinds x s s' v v')
    (ho : s.policy.transparency = .opaqueBacking) (hk : s.WellKeyed) (hk' : s'.WellKeyed)
    (hd : s'.disclosed v' = s.disclosed v) (auth : Authority) :
    (s'.listVirtual auth).filter (·.id = x) = (s.listVirtual auth).filter (·.id = x) := by
  have ho' : s'.policy.transparency = .opaqueBacking := by rw [h.rest, ho]
  have hid : v.id = x := hk.keyed .virtual _ _ h.before
  have hid' : v'.id = x := hk'.keyed .virtual _ _ h.after
  have hview := (h.makeView_eq_iff ho auth).mpr hd
  rw [h.listVirtual_eq, listVirtual]
  generalize hl : (s.virtuals.toList.filter fun entry =>
    auth.tenant.all (· = entry.2.owner)).take kMaxListedVirtuals = l
  have hmem : ∀ entry ∈ l, s.virtuals[entry.1]? = some entry.2 := by
    intro entry hentry
    rw [← hl] at hentry
    exact Std.ExtTreeMap.mem_toList_iff_getElem?_eq_some.mp
      (List.mem_filter.mp (List.mem_of_mem_take hentry)).1
  clear hl
  induction l with
  | nil => rfl
  | cons entry l ih =>
    have hentry := hmem entry List.mem_cons_self
    have ih := ih fun e he => hmem e (List.mem_cons_of_mem _ he)
    have hkey : entry.2.id = entry.1 := hk.keyed .virtual _ _ hentry
    rw [List.map_cons, List.map_cons, List.filter_cons, List.filter_cons, ih, id_makeView ho',
      id_makeView ho]
    by_cases hx : entry.1 = x
    · rw [hx, h.before, Option.some.injEq] at hentry
      rw [if_pos hx, ← hentry, hview, hid, hid']
    · rw [if_neg hx, hkey]
      simp [hx]

/-- Under a policy that withholds the backing, two states that differ in the binding of one virtual
accelerator show every caller the same of it if and only if the backings agree in class, provenance
and mechanism, and the projections in the generations they were derived from. -/
theorem views_agree_iff (hk : s.WellKeyed) (hk' : s'.WellKeyed)
    (ho : s.policy.transparency = .opaqueBacking) (h : Rebinds x s s' v v') :
    (∀ auth, s'.queryVirtual auth x = s.queryVirtual auth x ∧
        (s'.listVirtual auth).filter (·.id = x) = (s.listVirtual auth).filter (·.id = x)) ↔
      s'.disclosed v' = s.disclosed v := by
  constructor
  · intro hviews
    exact (h.queryVirtual_eq_iff ho {}).mp (hviews {}).1
  · intro hd auth
    exact ⟨(h.queryVirtual_eq_iff ho auth).mpr hd, h.filter_listVirtual ho hk hk' hd auth⟩

namespace Sample

/-- A device whose backings are offered by different mechanisms. -/
def mixed : PhysicalDeviceDescriptor :=
  { device with backings := [dedicated "a", { dedicated "b" with mechanism := txt "partition" }] }

/-- The device is registered, the backing is withheld from now on, and virtual accelerator 14 is
bound to one of the two backings. -/
def bindTo (d : PhysicalDeviceDescriptor) (backing : BackingId) : List Event :=
  [.start clock, call (.registerAgent (txt "agent") [] 0 1),
    call (.registerPhysical anyone 1 4 d), call (.createTenant anyone (txt "tenant") []),
    call (.createVirtual anyone (txt "v") 11 1 contract),
    call (.setPolicy anyone
      { VirtualizationPolicy.defaultPolicy with transparency := .opaqueBacking }),
    call (.assignBacking (owner 14 1) backing [])]

/-- Whether two states differ in nothing but the binding of virtual accelerator 14. -/
def rebinds (s s' : VirtualizationState) (v v' : VirtualAcceleratorRecord) : Bool :=
  decide (s.policy.transparency = .opaqueBacking) &&
    (decide (s' = { s with
      virtuals := s'.virtuals, backings := s'.backings, physical := s'.physical
      assignments := s'.assignments, audit := s'.audit, decisions := s'.decisions }) &&
    (decide (s'.virtuals = s.virtuals.insert 14 v') && decide (v'.anonymous = v.anonymous)))

theorem rebinds_sound {s s' : VirtualizationState} {v v' : VirtualAcceleratorRecord}
    (h : rebinds s s' v v' = true) (hv : s.virtuals[14]? = some v) :
    s.policy.transparency = .opaqueBacking ∧ Rebinds 14 s s' v v' := by
  simp only [rebinds, Bool.and_eq_true, decide_eq_true_eq] at h
  obtain ⟨ho, hrest, hvirtuals, hrecord⟩ := h
  refine ⟨ho, hrest, fun y hy => ?_, hv, ?_, hrecord⟩
  · rw [hvirtuals, Std.ExtTreeMap.getElem?_insert, if_neg]
    exact fun heq => hy (Nat.compare_eq_eq.mp heq).symm
  · rw [hvirtuals, Std.ExtTreeMap.getElem?_insert_self]

end Sample

/-- Two backings of one device that are offered alike cannot be told apart. -/
theorem views_agree_alike : ∃ im im' v v',
    (Impl.initial {} true).run (Sample.bindTo Sample.device 7) = some im ∧
    (Impl.initial {} true).run (Sample.bindTo Sample.device 8) = some im' ∧
    im.state.virtuals[14]? = some v ∧ im'.state.virtuals[14]? = some v' ∧ v.backing ≠ v'.backing ∧
    ∀ auth, im'.state.queryVirtual auth 14 = im.state.queryVirtual auth 14 := by
  have hrun : (((Impl.initial {} true).run (Sample.bindTo Sample.device 7)).any fun im =>
      ((Impl.initial {} true).run (Sample.bindTo Sample.device 8)).any fun im' =>
        im.state.virtuals[14]?.any fun v => im'.state.virtuals[14]?.any fun v' =>
          Sample.rebinds im.state im'.state v v' && decide (v.backing ≠ v'.backing) &&
            decide (im'.state.disclosed v' = im.state.disclosed v)) = true := by
    decide +kernel
  obtain ⟨im, him, hrun⟩ := (Option.any_eq_true _ _).mp hrun
  obtain ⟨im', him', hrun⟩ := (Option.any_eq_true _ _).mp hrun
  obtain ⟨v, hv, hrun⟩ := (Option.any_eq_true _ _).mp hrun
  obtain ⟨v', hv', hrun⟩ := (Option.any_eq_true _ _).mp hrun
  simp only [Bool.and_eq_true, decide_eq_true_eq] at hrun
  obtain ⟨⟨hrebinds, hne⟩, hdisclosed⟩ := hrun
  obtain ⟨ho, h⟩ := Sample.rebinds_sound hrebinds hv
  have hk := (Impl.coherent_of_run him).state.wellKeyed
  have hk' := (Impl.coherent_of_run him').state.wellKeyed
  exact ⟨im, im', v, v', him, him', hv, hv', hne,
    fun auth => ((views_agree_iff hk hk' ho h).mpr hdisclosed auth).1⟩

/-- Two backings that are offered by different mechanisms can be told apart by everybody. -/
theorem not_views_agree_mixed : ∃ im im' v v',
    (Impl.initial {} true).run (Sample.bindTo Sample.mixed 7) = some im ∧
    (Impl.initial {} true).run (Sample.bindTo Sample.mixed 8) = some im' ∧
    im.state.policy.transparency = .opaqueBacking ∧ Rebinds 14 im.state im'.state v v' ∧
    ∀ auth, im'.state.queryVirtual auth 14 ≠ im.state.queryVirtual auth 14 := by
  have hrun : (((Impl.initial {} true).run (Sample.bindTo Sample.mixed 7)).any fun im =>
      ((Impl.initial {} true).run (Sample.bindTo Sample.mixed 8)).any fun im' =>
        im.state.virtuals[14]?.any fun v => im'.state.virtuals[14]?.any fun v' =>
          Sample.rebinds im.state im'.state v v' &&
            decide (im'.state.disclosed v' ≠ im.state.disclosed v)) = true := by
    decide +kernel
  obtain ⟨im, him, hrun⟩ := (Option.any_eq_true _ _).mp hrun
  obtain ⟨im', him', hrun⟩ := (Option.any_eq_true _ _).mp hrun
  obtain ⟨v, hv, hrun⟩ := (Option.any_eq_true _ _).mp hrun
  obtain ⟨v', hv', hrun⟩ := (Option.any_eq_true _ _).mp hrun
  simp only [Bool.and_eq_true, decide_eq_true_eq] at hrun
  obtain ⟨ho, h⟩ := Sample.rebinds_sound hrun.1 hv
  exact ⟨im, im', v, v', him, him', ho, h,
    fun auth heq => hrun.2 ((h.queryVirtual_eq_iff ho auth).mp heq)⟩

end AcceleratorVirtualization
