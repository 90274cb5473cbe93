import AcceleratorVirtualization.Invariants.Progress
import AcceleratorVirtualization.Invariants.Reach

/-!
# Devices and their backings

A device is found by its stable key, and its backings by the list it keeps and by the device they
name. The inventory is that much of a state. In every state of a run it is tidy: no two devices
have one key, and what a device lists names it. A registration adds to one device at most.
-/

namespace AcceleratorVirtualization

open VirtualizationState Custody

/-! ### The inventory -/

/-- The key of a device with the backings it lists, and the device of a backing. -/
structure Inventory where
  device : ℕ → Option (Text × List ℕ)
  shelf : ℕ → Option ℕ

namespace Inventory

/-- No two devices have one key, and a backing that a device lists is one of the device. -/
structure Tidy (I : Inventory) : Prop where
  keys : ∀ p q k l l', I.device p = some (k, l) → I.device q = some (k, l') → p = q
  listed : ∀ p k l, I.device p = some (k, l) → ∀ b ∈ l, I.shelf b = some p

/-- Enter a device that lists nothing. -/
def enter (I : Inventory) (p : ℕ) (key : Text) : Inventory :=
  { I with device := Function.update I.device p (some (key, [])) }

/-- Enter a backing of a device, which lists it. -/
def furnish (I : Inventory) (p b : ℕ) : Inventory where
  device := Function.update I.device p
    ((I.device p).map fun r => (r.1, (r.2 ++ [b]).insertionSort (· ≤ ·)))
  shelf := Function.update I.shelf b (some p)

/-- Nothing was added but to one device. -/
structure Extends (p : ℕ) (I I' : Inventory) : Prop where
  device : ∀ q, q ≠ p → I'.device q = I.device q
  known : (I.device p).isSome → (I'.device p).isSome
  shelf : ∀ b, I'.shelf b = I.shelf b ∨ I.shelf b = none ∧ I'.shelf b = some p

variable {I I' I'' : Inventory} {p b : ℕ} {key : Text}

theorem Tidy.enter (h : I.Tidy) (hkey : ∀ q k l, I.device q = some (k, l) → k ≠ key) :
    (I.enter p key).Tidy := by
  have hcases : ∀ q k l, (I.enter p key).device q = some (k, l) →
      (q = p ∧ k = key ∧ l = []) ∨ q ≠ p ∧ I.device q = some (k, l) := by
    intro q k l hq
    obtain rfl | hne := eq_or_ne q p
    · simp only [Inventory.enter, Function.update_self, Option.some.injEq, Prod.mk.injEq] at hq
      exact .inl ⟨rfl, hq.1.symm, hq.2.symm⟩
    · simp only [Inventory.enter, Function.update_of_ne hne] at hq
      exact .inr ⟨hne, hq⟩
  refine ⟨fun q q' k l l' hq hq' => ?_, fun q k l hq b hb => ?_⟩
  · rcases hcases q k l hq with ⟨rfl, rfl, -⟩ | ⟨-, hold⟩ <;>
      rcases hcases q' _ l' hq' with ⟨rfl, hk, -⟩ | ⟨-, hold'⟩
    · rfl
    · exact absurd rfl (hkey _ _ _ hold')
    · exact absurd hk (hkey _ _ _ hold)
    · exact h.keys _ _ _ _ _ hold hold'
  · rcases hcases q k l hq with ⟨-, -, rfl⟩ | ⟨-, hold⟩
    · cases hb
    · exact h.listed q k l hold b hb

theorem Tidy.furnish (h : I.Tidy) (hb : I.shelf b = none) : (I.furnish p b).Tidy := by
  have hcases : ∀ q k l, (I.furnish p b).device q = some (k, l) →
      ∃ l', I.device q = some (k, l') ∧ ∀ x ∈ l, x ∈ l' ∨ q = p ∧ x = b := by
    intro q k l hq
    obtain rfl | hne := eq_or_ne q p
    · simp only [Inventory.furnish, Function.update_self, Option.map_eq_some_iff,
        Prod.mk.injEq] at hq
      obtain ⟨⟨k', l'⟩, hold, rfl, rfl⟩ := hq
      refine ⟨l', hold, fun x hx => ?_⟩
      rw [List.mem_insertionSort, List.mem_append, List.mem_singleton] at hx
      exact hx.imp_right fun hxb => ⟨rfl, hxb⟩
    · simp only [Inventory.furnish, Function.update_of_ne hne] at hq
      exact ⟨l, hq, fun x hx => .inl hx⟩
  refine ⟨fun q q' k l l' hq hq' => ?_, fun q k l hq x hx => ?_⟩
  · obtain ⟨_, hold, -⟩ := hcases q k l hq
    obtain ⟨_, hold', -⟩ := hcases q' k l' hq'
    exact h.keys _ _ _ _ _ hold hold'
  · obtain ⟨l', hold, hmem⟩ := hcases q k l hq
    obtain hx | ⟨rfl, rfl⟩ := hmem x hx
    · have hshelf := h.listed q k l' hold x hx
      have hne : x ≠ b := by
        rintro rfl
        exact absurd (hb.symm.trans hshelf) nofun
      simp [Inventory.furnish, Function.update_of_ne hne, hshelf]
    · simp [Inventory.furnish]

namespace Extends

theorem refl : Extends p I I := ⟨fun _ _ => rfl, id, fun _ => .inl rfl⟩

theorem trans (h : Extends p I I') (h' : Extends p I' I'') : Extends p I I'' where
  device q hq := (h'.device q hq).trans (h.device q hq)
  known hp := h'.known (h.known hp)
  shelf b := by
    rcases h.shelf b with hs | ⟨hnone, hp⟩ <;> rcases h'.shelf b with hs' | ⟨hnone', hp'⟩
    · exact .inl (hs'.trans hs)
    · exact .inr ⟨hs.symm.trans hnone', hp'⟩
    · exact .inr ⟨hnone, hs'.trans hp⟩
    · exact absurd (hnone'.symm.trans hp) nofun

theorem of_eq (h : I' = I) : Extends p I I' := h ▸ refl

theorem enter : Extends p I (I.enter p key) :=
  ⟨fun _ hq => Function.update_of_ne hq _ _, fun _ => by simp [Inventory.enter], fun _ => .inl rfl⟩

theorem furnish (hb : I.shelf b = none) : Extends p I (I.furnish p b) where
  device _ hq := Function.update_of_ne hq _ _
  known hp := by simpa [Inventory.furnish] using hp
  shelf x := by
    obtain rfl | hne := eq_or_ne x b
    · exact .inr ⟨hb, Function.update_self _ _ _⟩
    · exact .inl (Function.update_of_ne hne _ _)

end Extends

end Inventory

/-- Which keys and backings the devices list, and which device each backing is of. -/
def VirtualizationState.inventory (s : VirtualizationState) : Inventory where
  device id := s.physical[id]?.map fun r => (r.stableKey, r.backings)
  shelf id := s.backings[id]?.map (·.physical)

namespace Impl

variable {σ : Type} {im im' : Impl σ}

/-- The inventory of the state of a runtime. -/
def inventory (im : Impl σ) : Inventory := im.state.inventory

/-! ### Steps that leave it alone -/

theorem inventory_modify_physical {id : PhysicalDeviceId}
    {f : PhysicalDeviceRecord → PhysicalDeviceRecord}
    (h : ∀ r, ((f r).stableKey, (f r).backings) = (r.stableKey, r.backings)) :
    (im.modify .physical id f).inventory = im.inventory := by
  have hdevice : (im.modify .physical id f).inventory.device = im.inventory.device :=
    funext fun j => map_modify_part h j
  exact congrArg (Inventory.mk · im.inventory.shelf) hdevice

theorem inventory_modify_backing {id : BackingId} {f : BackingRecord → BackingRecord}
    (h : ∀ b, (f b).physical = b.physical) :
    (im.modify .backing id f).inventory = im.inventory := by
  have hshelf : (im.modify .backing id f).inventory.shelf = im.inventory.shelf :=
    funext fun j => map_modify_part h j
  exact congrArg (Inventory.mk im.inventory.device) hshelf

theorem inventory_enter {id : PhysicalDeviceId} {r : PhysicalDeviceRecord}
    (hid : im.state.physical[id]? = none) (hr : r.backings = []) :
    (im.emplace .physical id r).inventory = im.inventory.enter id r.stableKey := by
  have hdevice : (im.emplace .physical id r).inventory.device =
      (im.inventory.enter id r.stableKey).device := by
    refine Eq.trans ?_ ((map_insert im.state.physical id r
      fun r => (r.stableKey, r.backings)).trans ?_)
    · rw [← insertIfNew_of_none hid]
      rfl
    · rw [hr]
      rfl
  exact congrArg (Inventory.mk · im.inventory.shelf) hdevice

theorem inventory_furnish {key : PhysicalDeviceId} {id : BackingId} {b : BackingRecord}
    (hid : im.state.backings[id]? = none) (hb : b.physical = key) :
    ((im.emplace .backing id b).modify .physical key fun r =>
      { r with backings := (r.backings ++ [id]).insertionSort (· ≤ ·) }).inventory =
      im.inventory.furnish key id := by
  have hdevice : ((im.emplace .backing id b).modify .physical key fun r =>
      { r with backings := (r.backings ++ [id]).insertionSort (· ≤ ·) }).inventory.device =
      (im.inventory.furnish key id).device :=
    map_modify im.state.physical key _ _
      (fun r => (r.1, (r.2 ++ [id]).insertionSort (· ≤ ·))) fun _ => rfl
  have hshelf :
    (im.emplace .backing id b).inventory.shelf = (im.inventory.furnish key id).shelf := by
    refine Eq.trans ?_ ((map_insert im.state.backings id b BackingRecord.physical).trans ?_)
    · rw [← insertIfNew_of_none hid]
      rfl
    · rw [hb]
      rfl
  exact congrArg₂ Inventory.mk hdevice hshelf

/-- What leaves devices and offers alone leaves the inventory alone. -/
theorem inventory_of_fixtures (hd : im'.fixtures.device = im.fixtures.device)
    (ho : im'.fixtures.offer = im.fixtures.offer) : im'.inventory = im.inventory := by
  have hdevice : im'.inventory.device = im.inventory.device := funext fun j =>
    congrArg (Option.map fun r : PhysicalDeviceRecord => (r.stableKey, r.backings)) (congrFun hd j)
  have hshelf : im'.inventory.shelf = im.inventory.shelf := by
    refine funext fun j => ?_
    have hmap := congrArg (Option.map BackingRecord.physical) (congrFun ho j)
    change (im'.state.backings[j]?.map _).map _ = (im.state.backings[j]?.map _).map _ at hmap
    rwa [Option.map_map, Option.map_map] at hmap
  calc im'.inventory = ⟨im'.inventory.device, im'.inventory.shelf⟩ := rfl
    _ = im.inventory := by rw [hdevice, hshelf]

theorem inventory_of_fixtures_eq (h : im'.fixtures = im.fixtures) : im'.inventory = im.inventory :=
  inventory_of_fixtures (congrArg Fixtures.device h) (congrArg Fixtures.offer h)

theorem inventory_foldl {α : Type} {step : Impl σ → α → Impl σ}
    (h : ∀ im a, (step im a).inventory = im.inventory) (l : List α) (im : Impl σ) :
    (l.foldl step im).inventory = im.inventory :=
  foldl_unchanged h l im

/-- Refreshing a backing leaves the inventory as it is. -/
theorem inventory_refreshBacking (device : PhysicalDeviceRecord) (now : UnixMicros) (im : Impl σ)
    (id : BackingId) : (im.refreshBacking device now id).inventory = im.inventory := by
  unfold refreshBacking
  split
  · rfl
  · exact inventory_modify_backing fun _ => rfl

/-- Losing a backing leaves the inventory as it is. -/
theorem inventory_loseBacking (reason : Text) (now : UnixMicros) (im : Impl σ) (id : BackingId) :
    (im.loseBacking reason now id).inventory = im.inventory := by
  have hlost : ((im.touchBacking id).modify .backing id fun b =>
      { b with available := false, evidenceFresh := false }).inventory = im.inventory :=
    inventory_modify_backing fun _ => rfl
  unfold loseBacking
  split
  · rfl
  · dsimp only
    split
    · exact hlost
    · split
      · exact hlost
      · rename_i record _
        refine ((inventory_modify_backing fun _ => ?_).trans
          (inventory_of_fixtures_eq ?_)).trans hlost
        · rfl
        · rw [fixtures_revokeValid, fixtures_fenceLeases]
          unfold interruptHolder
          dsimp only
          split <;> rfl

/-- Losing a device leaves the inventory as it is. -/
theorem inventory_physicalLostAct {id : PhysicalDeviceId} {generation : Generation} {reason : Text}
    {clock : Clock} {device : PhysicalDeviceRecord} :
    (physicalLostAct id generation reason clock device im).1.inventory = im.inventory := by
  have hmissing : ((im.touchPhysical id).modify .physical id fun r =>
      { r with present := false }).inventory = im.inventory :=
    inventory_modify_physical fun _ => rfl
  have hlost := inventory_foldl (inventory_loseBacking reason clock.now) device.backings
    ((im.touchPhysical id).modify .physical id fun r => { r with present := false })
  refine (inventory_of_fixtures_eq ?_).trans (hlost.trans hmissing)
  simp only [physicalLostAct]
  rw [fixtures_touchHeader, fixtures_recomputeDerivedAccounting, fixtures_account]
  exact fixtures_foldl (fun im id => fixtures_recountTenant im clock.now id) _ _

/-! ### Start and shutdown -/

/-- Distrusting a backing after a restart leaves the inventory as it is. -/
theorem inventory_distrustBacking (im : Impl σ) (id : BackingId) :
    (im.distrustBacking id).inventory = im.inventory := by
  unfold distrustBacking
  split
  · rfl
  · exact inventory_modify_backing fun _ => rfl

/-- Distrusting a device after a restart leaves the inventory as it is. -/
theorem inventory_distrustPhysical (im : Impl σ) (id : PhysicalDeviceId) :
    (im.distrustPhysical id).inventory = im.inventory := by
  unfold distrustPhysical
  split
  · rfl
  · exact inventory_modify_physical fun _ => rfl

/-- A start, after it has loaded, leaves the inventory as it is. -/
theorem inventory_startBody (clock : Clock) (recovered : Bool) :
    (im.startBody clock recovered).inventory = im.inventory := by
  refine Eq.trans ?_ (inventory_of_fixtures_eq (im.fixtures_enterEpoch recovered))
  simp only [startBody]
  generalize im.enterEpoch recovered = i
  split
  · rw [inventory_of_fixtures_eq (fixtures_record ..), dropLocalAuthority,
      inventory_of_fixtures_eq (fixtures_touchHeader _),
      inventory_of_fixtures_eq (fixtures_recomputeDerivedAccounting _)]
    generalize h1 : i.state.leases.keys.foldl _ i = i1
    generalize h2 : i1.state.virtuals.keys.foldl _ i1 = i2
    generalize h3 : i2.state.tenants.keys.foldl _ i2 = i3
    generalize h4 : i3.state.backings.keys.foldl _ i3 = i4
    change (i4.state.physical.keys.foldl distrustPhysical i4).inventory = i.inventory
    rw [inventory_foldl inventory_distrustPhysical, ← h4,
      inventory_foldl inventory_distrustBacking, ← h3]
    refine inventory_of_fixtures_eq ?_
    rw [fixtures_foldl (fixtures_releaseTenant _), ← h2,
      fixtures_foldl (fixtures_releaseAttachments _ _), ← h1,
        fixtures_foldl (fixtures_endLease _ _ _)]
  · rfl

/-! ### Registering a device -/

/-- The located device is known under the key, or it is entered. -/
theorem inventory_locateDevice (hw : im.state.WellKeyed) (d : PhysicalDeviceDescriptor) :
    (∃ target : PhysicalDeviceRecord, im.state.physical[(im.locateDevice d).2.1]? = some target ∧
      target.stableKey = d.stableKey ∧ (im.locateDevice d).1.inventory = im.inventory) ∨
    im.findDevice d.stableKey = none ∧ (im.locateDevice d).2.1 = im.nextId ∧
      (im.locateDevice d).1.inventory = im.inventory.enter im.nextId d.stableKey := by
  unfold locateDevice
  split
  · rename_i hnone
    refine .inr ⟨hnone, rfl, ?_⟩
    exact inventory_enter (hw.fresh .physical le_rfl) rfl
  · rename_i key target hf
    refine .inl ⟨target, findDevice_some hf, ?_, ?_⟩
    · have hkey := List.find?_some hf
      exact of_decide_eq_true hkey
    · dsimp only
      split
      · exact inventory_modify_physical fun _ => rfl
      · rfl

theorem inventory_describeDevice (im : Impl σ) (agent : AgentId) (boot : AgentBootId)
    (d : PhysicalDeviceDescriptor) (now : UnixMicros) :
    (im.describeDevice agent boot d now).1.inventory = (im.locateDevice d).1.inventory := by
  simp only [describeDevice]
  generalize im.locateDevice d = located
  exact inventory_modify_physical fun _ => rfl

/-- A described backing is known, or it is entered for the device. -/
theorem inventory_materializeBacking (hw : im.state.WellKeyed) {key : PhysicalDeviceId}
    {device : PhysicalDeviceRecord} (hid : device.id = key) (now : UnixMicros)
    (source : BackingDescriptor) :
    (im.materializeBacking key device now source).inventory = im.inventory ∨
      im.inventory.shelf im.nextId = none ∧
        (im.materializeBacking key device now source).inventory =
          im.inventory.furnish key im.nextId := by
  have hnone : im.state.backings[im.nextId]? = none := hw.fresh .backing le_rfl
  unfold materializeBacking
  split
  · refine .inr ⟨congrArg (Option.map BackingRecord.physical) hnone, ?_⟩
    refine (inventory_modify_backing fun _ => ?_).trans ?_
    · rfl
    exact inventory_furnish hnone hid
  · exact .inl (inventory_modify_backing fun _ => rfl)

variable {s : Impl σ} {T : Set (RecordKind × ℕ)}

theorem inventory_settleBackings (hs : Tracks s T im) {key : PhysicalDeviceId}
    (htouched : (.physical, key) ∈ T) (hsome : (im.state.find .physical key).isSome)
    (ht : im.inventory.Tidy) (changed : Bool) (d : PhysicalDeviceDescriptor) (now : UnixMicros) :
    (im.settleBackings key changed d now).inventory.Tidy ∧
      Inventory.Extends key im.inventory (im.settleBackings key changed d now).inventory := by
  obtain ⟨device, hdevice⟩ := Option.isSome_iff_exists.mp hsome
  have hid : (im.state.physical[key]?.getD {}).id = key := by
    rw [show im.state.physical[key]? = some device from hdevice]
    exact hs.idOf_eq (k := .physical) hdevice
  simp only [settleBackings]
  generalize im.state.physical[key]?.getD {} = device at hid
  have hentered := List.foldlRecOn d.backings (materializeBacking key device now)
    (motive := fun i => Tracks s T i ∧ i.inventory.Tidy ∧
      Inventory.Extends key im.inventory i.inventory) ⟨hs, ht, .refl⟩ fun i hentered source _ => by
      obtain ⟨hsi, hti, hei⟩ := hentered
      refine ⟨hsi.materializeBacking htouched _ _ _, ?_⟩
      obtain heq | ⟨hnone, heq⟩ := inventory_materializeBacking hsi.wellKeyed hid now source
      · rw [heq]
        exact ⟨hti, hei⟩
      · rw [heq]
        exact ⟨hti.furnish hnone, hei.trans (.furnish hnone)⟩
  generalize d.backings.foldl (materializeBacking key device now) im = i at hentered
  obtain ⟨-, hti, hei⟩ := hentered
  split
  · rw [inventory_foldl fun im id =>
      inventory_of_fixtures_eq (fixtures_invalidateBacking now im id)]
    exact ⟨hti, hei⟩
  · rw [inventory_foldl (inventory_refreshBacking _ now)]
    exact ⟨hti, hei⟩

/-- A registration adds to the located device, which is known then. -/
theorem inventory_registerPhysicalAct (hs : Tracks s T im) (ht : im.inventory.Tidy)
    (auth : Authority) (agent : AgentId) (boot : AgentBootId) (d : PhysicalDeviceDescriptor)
    (clock : Clock) :
    (registerPhysicalAct auth agent boot d clock () im).1.inventory.Tidy ∧
      Inventory.Extends (im.locateDevice d).2.1 im.inventory
        (registerPhysicalAct auth agent boot d clock () im).1.inventory ∧
      ((registerPhysicalAct auth agent boot d clock () im).1.inventory.device
        (im.locateDevice d).2.1).isSome := by
  obtain ⟨hs1, hsome⟩ := hs.describeDevice agent boot d clock.now
  have hdescribed : (im.describeDevice agent boot d clock.now).1.inventory.Tidy ∧
      Inventory.Extends (im.locateDevice d).2.1 im.inventory
        (im.describeDevice agent boot d clock.now).1.inventory := by
    rw [inventory_describeDevice]
    obtain ⟨-, -, -, heq⟩ | ⟨hnone, hkey, heq⟩ := inventory_locateDevice hs.wellKeyed d
    · rw [heq]
      exact ⟨ht, .refl⟩
    · rw [heq, hkey]
      refine ⟨ht.enter fun q k l hq hk => ?_, .enter⟩
      -- a device with the key would have been found
      obtain ⟨r, hr, hview⟩ := Option.map_eq_some_iff.mp hq
      have hunlike := List.find?_eq_none.mp hnone (q, r)
        (Std.ExtTreeMap.mem_toList_iff_getElem?_eq_some.mpr hr)
      exact hunlike (decide_eq_true ((Prod.mk.inj hview).1.trans hk))
  obtain ⟨htidy, hextends⟩ := inventory_settleBackings hs1 (Set.mem_insert _ _) hsome hdescribed.1
    (im.describeDevice agent boot d clock.now).2.2 d clock.now
  have hknown : ((im.describeDevice agent boot d clock.now).1.inventory.device
      (im.locateDevice d).2.1).isSome := Option.isSome_map.trans hsome
  exact ⟨htidy, hdescribed.2.trans hextends, hextends.known hknown⟩

end Impl

/-! ### Runs -/

namespace VirtualizationState

/-- The inventory is tidy. -/
def Tidy (s : VirtualizationState) : Prop := s.inventory.Tidy

theorem respects_tidy {T : Prop} : Respects T Tidy := by
  intro s t h hs
  have hp : s.physical = t.physical := h.entities .physical nofun
  have hb : s.backings = t.backings := h.entities .backing nofun
  have heq : t.inventory = s.inventory := by
    simp only [inventory, hp, hb]
  exact (congrArg Inventory.Tidy heq).mpr hs

end VirtualizationState

namespace Impl

variable {im : Impl Disk}

theorem tidy_body {clock : Clock} {op : Op} {b : Body Disk Unit} (hb : body clock op = some b)
    (hw : im.state.WellKeyed) (ht : im.state.Tidy) : (b im.beginOp).1.state.Tidy := by
  have hs : Tracks im.beginOp ∅ im.beginOp := .beginOp (show im.beginOp.state.WellKeyed from hw)
  by_cases hop : op.reequips = true
  · cases op <;> simp only [Op.reequips, Bool.false_eq_true] at hop <;>
      simp only [body, Option.some.injEq] at hb <;> subst hb
    case registerPhysical =>
      exact fst_checked (p := fun im' : Impl Disk => im'.state.Tidy) ht fun _ _ =>
        (inventory_registerPhysicalAct hs ht _ _ _ _ _).1
    case physicalLost =>
      refine fst_checked (p := fun im' : Impl Disk => im'.state.Tidy) ht fun _ _ => ?_
      exact (congrArg Inventory.Tidy inventory_physicalLostAct).mpr ht
  · have hfixed := fixed_body hb hw
    rw [Bool.not_eq_true] at hop
    exact (congrArg Inventory.Tidy
      (inventory_of_fixtures (hfixed.device hop) (hfixed.offer hop))).mpr ht

theorem invariant_tidy {T : Prop} : Invariant T Tidy where
  respects := respects_tidy
  empty := by
    have hnone : ∀ p, ({} : VirtualizationState).inventory.device p = none := fun p => by
      simp [VirtualizationState.inventory]
    exact ⟨fun p _ _ _ _ hp => absurd ((hnone p).symm.trans hp) nofun,
      fun p _ _ hp => absurd ((hnone p).symm.trans hp) nofun⟩
  classified now h :=
    (congrArg Inventory.Tidy (inventory_of_fixtures_eq (fixtures_classified _ now))).mpr h.holds
  shutdown clock h :=
    (congrArg Inventory.Tidy (inventory_of_fixtures_eq (fixtures_shutdownBody clock))).mpr h.holds

theorem keeps_tidy (h : Kept False Tidy im) {event : Event} : Keeps False Tidy im event where
  body op clock answer _ b hb _ := by
    have hs := (h.answering answer).state
    exact tidy_body hb hs.wellKeyed hs.holds
  start clock _ base recovered hs _ :=
    (congrArg Inventory.Tidy (inventory_startBody clock recovered)).mpr hs.holds
  written := nofun

theorem tidy_of_run {options : RuntimeOptions} {stored : Bool} {events : List Event}
    (h : (initial options stored).run events = some im) : Kept False Tidy im :=
  (kept_initial invariant_tidy options stored).of_run invariant_tidy
    (fun _ _ hk => keeps_tidy hk) h

end Impl

end AcceleratorVirtualization
