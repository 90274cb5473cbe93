import AcceleratorVirtualization.Lib.Firsts
import AcceleratorVirtualization.Runtime.Helpers

/-!
# What a projection exposes

The surface of a projection is written statement by statement, and the last statement under a key
stands. Under every key it is therefore the last of: what the contract, the policy and the evidence
say, what the backing reports, the withholding of what the policy forbids, and, written after all
of them, how transparent the backing is.
-/

namespace AcceleratorVirtualization

open Enumeration (value)

/-! ### Statements and what they leave behind -/

theorem find_setCapability (surface : CapabilitySurface) (k : CapabilityKey)
    (verdict : CapabilityVerdict) (n : ℕ) (text : Text) (provenance : String)
    (key : CapabilityKey) :
    (setCapability surface k verdict n text provenance).find key =
      if k = key then some ⟨k, verdict, n, text, txt provenance⟩ else surface.find key :=
  CapabilitySurface.find_set ..

theorem isSome_find_setCapability (surface : CapabilitySurface) (k : CapabilityKey)
    (verdict : CapabilityVerdict) (n : ℕ) (text : Text) (provenance : String)
    (key : CapabilityKey) :
    ((setCapability surface k verdict n text provenance).find key).isSome ↔
      k = key ∨ (surface.find key).isSome := by
  rw [find_setCapability]
  split
  · rename_i hkey
    simp [hkey]
  · rename_i hkey
    simp [hkey]

theorem mem_sortUnique {α : Type} [Enumeration α] [DecidableEq α] {a : α} {l : List α} :
    a ∈ sortUnique l ↔ a ∈ l := by
  have hfound : ∀ l : List α, (l.find? fun b => value b = value a).isSome ↔ a ∈ l := by
    intro l
    simp only [Enumeration.value_inj, List.find?_isSome, decide_eq_true_eq, exists_eq_right]
  rw [← hfound, ← hfound, sortUnique]
  exact iff_of_eq (congrArg (·.isSome = true)
    ((KeyedList.find?_firsts (value a) _).trans (KeyedList.find?_insertionSort (value a) l)))

/-- What a reported capability becomes: what is unknown has no value. -/
def CapabilityEntry.projected (entry : CapabilityEntry) : CapabilityEntry :=
  if entry.verdict = .unknown then
    { key := entry.key, text := entry.text, provenance := entry.provenance }
  else entry

theorem CapabilityEntry.key_projected (entry : CapabilityEntry) :
    entry.projected.key = entry.key := by
  rw [CapabilityEntry.projected]
  split
  · rfl
  · rfl

theorem find_projectEntry (policy : VirtualizationPolicy) (p : CapabilityProjection)
    (entry : CapabilityEntry) (key : CapabilityKey) :
    (projectEntry policy p entry).surface.find key =
      if entry.key = key ∧ ¬ policy.forbidsCapability key then some entry.projected
      else p.surface.find key := by
  by_cases hkey : entry.key = key
  · subst hkey
    by_cases hforbids : policy.forbidsCapability entry.key = true
    · simp [projectEntry, hforbids]
    · by_cases hunknown : entry.verdict = .unknown
      · simp [projectEntry, hforbids, hunknown, CapabilitySurface.find_set,
          CapabilityEntry.projected]
      · simp [projectEntry, hforbids, hunknown, CapabilitySurface.find_set,
          CapabilityEntry.projected]
  · rw [if_neg fun h => hkey h.1, projectEntry]
    split
    · rfl
    · split
      · rw [CapabilitySurface.find_set, if_neg hkey]
      · rw [CapabilitySurface.find_set, if_neg hkey]

theorem hidden_projectEntry (policy : VirtualizationPolicy) (p : CapabilityProjection)
    (entry : CapabilityEntry) : (projectEntry policy p entry).hidden =
      p.hidden ++ if policy.forbidsCapability entry.key then [entry.key] else [] := by
  rw [projectEntry]
  split
  · rfl
  · split
    · simp
    · simp

/-- What the backing reports under a key replaces what was stated before, unless it is forbidden. -/
theorem find_projectEntries (policy : VirtualizationPolicy) (key : CapabilityKey)
    (entries : List CapabilityEntry)
    (hentries : KeyedList.Sorted (fun e => value e.key) entries) (p : CapabilityProjection) :
    (entries.foldl (projectEntry policy) p).surface.find key =
      if policy.forbidsCapability key then p.surface.find key
      else ((entries.find? fun e => e.key = key).map (·.projected)).or (p.surface.find key) := by
  induction entries generalizing p with
  | nil => simp
  | cons entry entries ih =>
    obtain ⟨hlater, hentries⟩ := List.pairwise_cons.mp hentries
    rw [List.foldl_cons, ih hentries, find_projectEntry]
    by_cases hforbids : policy.forbidsCapability key = true
    · simp [hforbids]
    · by_cases hkey : entry.key = key
      · -- no later entry has the key
        have hnone : (entries.find? fun e => e.key = key) = none := by
          refine List.find?_eq_none.mpr fun e he => ?_
          have hlt : value entry.key < value e.key := hlater e he
          simp only [decide_eq_true_eq]
          intro heq
          rw [heq, hkey] at hlt
          exact lt_irrefl _ hlt
        simp [hforbids, hkey, hnone]
      · simp [hforbids, hkey]

theorem mem_hidden_projectEntries (policy : VirtualizationPolicy) (key : CapabilityKey)
    (entries : List CapabilityEntry) (p : CapabilityProjection) :
    key ∈ (entries.foldl (projectEntry policy) p).hidden ↔
      key ∈ p.hidden ∨ policy.forbidsCapability key ∧ ∃ e ∈ entries, e.key = key := by
  induction entries generalizing p with
  | nil => simp
  | cons entry entries ih =>
    rw [List.foldl_cons, ih, hidden_projectEntry]
    by_cases hkey : entry.key = key
    · subst hkey
      by_cases hforbids : policy.forbidsCapability entry.key = true
      · simp [hforbids]
      · simp [hforbids]
    · have hne : key ∉ if policy.forbidsCapability entry.key then [entry.key] else [] := by
        split
        · simpa using Ne.symm hkey
        · exact List.not_mem_nil
      simp [hne, hkey]

theorem find_withhold (p : CapabilityProjection) (k key : CapabilityKey) :
    (withhold p k).surface.find key = if key = k then none else p.surface.find key := by
  rw [withhold]
  split
  · exact CapabilitySurface.find_without ..
  · rename_i habsent
    split
    · rename_i hkey
      rw [hkey]
      simpa using habsent
    · rfl

theorem hidden_withhold (p : CapabilityProjection) (k : CapabilityKey) :
    (withhold p k).hidden = p.hidden ++ if (p.surface.find k).isSome then [k] else [] := by
  rw [withhold]
  split
  · rfl
  · simp

/-- Withholding takes the forbidden keys off the surface, and nothing else. -/
theorem find_withholdAll (key : CapabilityKey) (forbidden : List CapabilityKey)
    (p : CapabilityProjection) : (forbidden.foldl withhold p).surface.find key =
      if key ∈ forbidden then none else p.surface.find key := by
  induction forbidden generalizing p with
  | nil => simp
  | cons k forbidden ih =>
    rw [List.foldl_cons, ih, find_withhold]
    by_cases hk : key = k
    · simp [hk]
    · simp [hk]

/-- Withholding lists the forbidden keys that were on the surface. -/
theorem mem_hidden_withholdAll (key : CapabilityKey) (forbidden : List CapabilityKey)
    (p : CapabilityProjection) : key ∈ (forbidden.foldl withhold p).hidden ↔
      key ∈ p.hidden ∨ key ∈ forbidden ∧ (p.surface.find key).isSome := by
  induction forbidden generalizing p with
  | nil => simp
  | cons k forbidden ih =>
    rw [List.foldl_cons, ih, find_withhold, hidden_withhold]
    by_cases hk : key = k
    · subst hk
      by_cases hsome : (p.surface.find key).isSome = true
      · simp [hsome]
      · simp [hsome]
    · have hne : key ∉ if (p.surface.find k).isSome then [k] else [] := by
        split
        · simpa using hk
        · exact List.not_mem_nil
      simp [hne, hk]

/-! ### The surface, key by key -/

/-- What the contract and the policy state, whatever the backing is. -/
def groundSurface (contract : ResourceContract) (policy : VirtualizationPolicy)
    (multiplexingText : Text) : CapabilitySurface :=
  let surface := setContractLimit {} .memoryBudgetBytes contract.memoryCeilingBytes
  let surface := setContractLimit surface .computeShareMilli contract.computeShareMilli
  let surface := setContractLimit surface .maxStreams contract.maxStreams
  let surface := setContractLimit surface .maxConcurrentKernels contract.maxConcurrency
  let surface := setCapability surface .virtualizationMechanism .supported 0 multiplexingText
    "virtualization-policy"
  let surface := setCapability surface .concurrencyMode .supported 0 multiplexingText
    "virtualization-policy"
  setCapability surface .migrationSupport
    (if contract.migrationAllowed && policy.migrationAllowed then .supported else .unsupported) 0 []
    "policy"

/-- What the evidence about a device adds. -/
def physicalSurface (surface : CapabilitySurface) (device : PhysicalDeviceRecord) :
    CapabilitySurface :=
  let surface := if device.computeCapabilityMajor > 0 then
      setCapability (setCapability surface .computeCapabilityMajor .supported
        device.computeCapabilityMajor [] "physical-evidence") .computeCapabilityMinor .supported
        device.computeCapabilityMinor [] "physical-evidence"
    else surface
  if !device.architecture.isEmpty then
    setCapability surface .architectureFamily .supported 0 device.architecture "physical-evidence"
  else surface

/-- What the evidence about the backing and its device adds. -/
def evidenceSurface (backing : BackingRecord) (physical : Option PhysicalDeviceRecord)
    (surface : CapabilitySurface) : CapabilitySurface :=
  let surface := setCapability surface .memoryTotalBytes .supported backing.capacityBytes []
    "backing-evidence"
  let surface := if backing.computeUnits > 0 then
      setCapability surface .smCount .supported backing.computeUnits [] "backing-evidence"
    else setCapability surface .smCount .unknown 0 [] "backing-evidence"
  physical.elim surface (physicalSurface surface)

theorem surface_projectPhysical (p : CapabilityProjection) (device : PhysicalDeviceRecord) :
    (projectPhysical p device).surface = physicalSurface p.surface device := by
  rw [projectPhysical, physicalSurface]
  by_cases hmajor : device.computeCapabilityMajor > 0
  · by_cases harchitecture : (!device.architecture.isEmpty) = true
    · simp only [if_pos hmajor, if_pos harchitecture]
    · simp only [if_pos hmajor, if_neg harchitecture]
  · by_cases harchitecture : (!device.architecture.isEmpty) = true
    · simp only [if_neg hmajor, if_pos harchitecture]
    · simp only [if_neg hmajor, if_neg harchitecture]

theorem hidden_projectPhysical (p : CapabilityProjection) (device : PhysicalDeviceRecord) :
    (projectPhysical p device).hidden = p.hidden := by
  rw [projectPhysical]
  by_cases hmajor : device.computeCapabilityMajor > 0
  · by_cases harchitecture : (!device.architecture.isEmpty) = true
    · simp only [if_pos hmajor, if_pos harchitecture]
    · simp only [if_pos hmajor, if_neg harchitecture]
  · by_cases harchitecture : (!device.architecture.isEmpty) = true
    · simp only [if_neg hmajor, if_pos harchitecture]
    · simp only [if_neg hmajor, if_neg harchitecture]

/-- What is stated last of all. -/
def transparencyEntry (policy : VirtualizationPolicy) : CapabilityEntry :=
  { key := .vendorVisible
    verdict := if policy.transparency = .opaqueBacking then .unsupported else .supported
    text := transparencyName policy.transparency
    provenance := txt "virtualization-policy" }

section Build

variable (contract : ResourceContract) (physical : Option PhysicalDeviceRecord)
  (policy : VirtualizationPolicy) (identity : ℕ) (generation : Generation) (key : CapabilityKey)

/-- Without a backing the surface is what the contract and the policy state. -/
theorem find_buildProjection_none :
    (buildProjection contract none physical policy identity generation).surface.find key =
      if .vendorVisible = key then some (transparencyEntry policy)
      else if .memoryTotalBytes = key then
        some { key := .memoryTotalBytes, provenance := txt "no-backing" }
      else (groundSurface contract policy (txt "unassigned")).find key := by
  change (setCapability (setCapability (groundSurface contract policy (txt "unassigned"))
    .memoryTotalBytes .unknown 0 [] "no-backing") .vendorVisible _ 0
    (transparencyName policy.transparency) "virtualization-policy").find key = _
  rw [find_setCapability, find_setCapability]
  rfl

theorem hidden_buildProjection_none :
    (buildProjection contract none physical policy identity generation).hidden = [] := by
  rfl

variable (backing : BackingRecord)

/-- With a backing, what it reports is laid over the rest and what is forbidden is withheld, before
the transparency is stated. -/
theorem buildProjection_some : ∃ p : CapabilityProjection,
    p.surface = evidenceSurface backing physical
      (groundSurface contract policy (multiplexingName backing.multiplexing)) ∧
    p.hidden = [] ∧
    (buildProjection contract (some backing) physical policy identity generation).surface =
      (policy.forbiddenCapabilities.foldl withhold
        (backing.capabilities.entries.foldl (projectEntry policy) p)).surface.set
          (transparencyEntry policy) ∧
    (buildProjection contract (some backing) physical policy identity generation).hidden =
      sortUnique (policy.forbiddenCapabilities.foldl withhold
        (backing.capabilities.entries.foldl (projectEntry policy) p)).hidden := by
  refine ⟨_, ?_, ?_, rfl, rfl⟩
  · by_cases hunits : backing.computeUnits > 0
    · cases physical with
      | none => simp only [evidenceSurface, Option.elim_none, if_pos hunits, groundSurface]; rfl
      | some device =>
        simp only [evidenceSurface, Option.elim_some, surface_projectPhysical, if_pos hunits]
        rfl
    · cases physical with
      | none => simp only [evidenceSurface, Option.elim_none, if_neg hunits, groundSurface]; rfl
      | some device =>
        simp only [evidenceSurface, Option.elim_some, surface_projectPhysical, if_neg hunits]
        rfl
  · by_cases hunits : backing.computeUnits > 0
    · cases physical with
      | none => simp only [Option.elim_none, if_pos hunits]
      | some device => simp only [Option.elim_some, hidden_projectPhysical, if_pos hunits]
    · cases physical with
      | none => simp only [Option.elim_none, if_neg hunits]
      | some device => simp only [Option.elim_some, hidden_projectPhysical, if_neg hunits]

/-- Under every key: the transparency; else nothing if it is forbidden; else what the backing
reports; else what the evidence, the contract and the policy state. -/
theorem find_buildProjection_some :
    (buildProjection contract (some backing) physical policy identity generation).surface.find key =
      if .vendorVisible = key then some (transparencyEntry policy)
      else if key ∈ policy.forbiddenCapabilities then none
      else ((backing.capabilities.find key).map (·.projected)).or
        ((evidenceSurface backing physical (groundSurface contract policy
          (multiplexingName backing.multiplexing))).find key) := by
  obtain ⟨p, hsurface, -, heq, -⟩ :=
    buildProjection_some contract physical policy identity generation backing
  rw [heq, CapabilitySurface.find_set, find_withholdAll,
    find_projectEntries _ _ _ backing.capabilities.sorted, hsurface]
  have hforbids : policy.forbidsCapability key = true ↔ key ∈ policy.forbiddenCapabilities := by
    rw [VirtualizationPolicy.forbidsCapability, List.contains_iff_mem]
  by_cases hvendor : CapabilityKey.vendorVisible = key
  · rw [if_pos hvendor, if_pos (show (transparencyEntry policy).key = key from hvendor)]
  · rw [if_neg hvendor, if_neg (show ¬ (transparencyEntry policy).key = key from hvendor)]
    by_cases hforbidden : key ∈ policy.forbiddenCapabilities
    · rw [if_pos hforbidden, if_pos hforbidden]
    · rw [if_neg hforbidden, if_neg hforbidden, if_neg (hforbids.not.mpr hforbidden)]
      rfl

/-- Listed as withheld is what is forbidden and either reported by the backing or stated. -/
theorem mem_hidden_buildProjection_some :
    key ∈ (buildProjection contract (some backing) physical policy identity generation).hidden ↔
      key ∈ policy.forbiddenCapabilities ∧ ((backing.capabilities.find key).isSome ∨
        ((evidenceSurface backing physical (groundSurface contract policy
          (multiplexingName backing.multiplexing))).find key).isSome) := by
  obtain ⟨p, hsurface, hhidden, -, heq⟩ :=
    buildProjection_some contract physical policy identity generation backing
  have hforbids : policy.forbidsCapability key = true ↔ key ∈ policy.forbiddenCapabilities := by
    rw [VirtualizationPolicy.forbidsCapability, List.contains_iff_mem]
  have hreported : (∃ e ∈ backing.capabilities.entries, e.key = key) ↔
      (backing.capabilities.find key).isSome := by
    simp [CapabilitySurface.find]
  rw [heq, mem_sortUnique, mem_hidden_withholdAll, mem_hidden_projectEntries, hhidden, hforbids,
    hreported, find_projectEntries _ _ _ backing.capabilities.sorted, hsurface]
  by_cases hforbidden : key ∈ policy.forbiddenCapabilities
  · rw [if_pos (hforbids.mpr hforbidden)]
    simp [hforbidden]
  · simp [hforbidden]

end Build

/-! ### What the policy forbids -/

/-- The keys of the statements that do not depend on a backing, but for the last one. -/
def CapabilityKey.alwaysStated : List CapabilityKey :=
  [.memoryBudgetBytes, .computeShareMilli, .maxStreams, .maxConcurrentKernels,
   .virtualizationMechanism, .concurrencyMode, .migrationSupport, .memoryTotalBytes]

/-- The policy with nothing forbidden. -/
def VirtualizationPolicy.unrestricted (policy : VirtualizationPolicy) : VirtualizationPolicy :=
  { policy with forbiddenCapabilities := [] }

/-- Nothing forbidden is exposed, and what is forbidden and would be exposed by the `unrestricted`
projection is listed as withheld. -/
structure CapabilityProjection.Withholds (p unrestricted : CapabilityProjection)
    (forbidden : List CapabilityKey) : Prop where
  exposed : ∀ e ∈ p.surface.entries, e.key ∉ forbidden
  listed : ∀ e ∈ unrestricted.surface.entries, e.key ∈ forbidden → e.key ∈ p.hidden

theorem isSome_find_groundSurface (contract : ResourceContract) (policy : VirtualizationPolicy)
    (text : Text) (key : CapabilityKey) :
    .memoryTotalBytes = key ∨ ((groundSurface contract policy text).find key).isSome ↔
      key ∈ CapabilityKey.alwaysStated := by
  have hempty : (({} : CapabilitySurface).find key).isSome ↔ False := by
    simp [CapabilitySurface.find]
  simp only [groundSurface, setContractLimit, isSome_find_setCapability, hempty, or_false,
    CapabilityKey.alwaysStated, List.mem_cons, List.not_mem_nil, eq_comm (a := key)]
  constructor
  · rintro (h | h | h | h | h | h | h | h)
    all_goals simp [h]
  · rintro (h | h | h | h | h | h | h | h)
    all_goals simp [h]

section Withholding

variable (contract : ResourceContract) (physical : Option PhysicalDeviceRecord)
  (policy : VirtualizationPolicy) (identity : ℕ) (generation : Generation) (key : CapabilityKey)

theorem isSome_find_buildProjection_none :
    ((buildProjection contract none physical policy identity generation).surface.find key).isSome ↔
      key = .vendorVisible ∨ key ∈ CapabilityKey.alwaysStated := by
  rw [find_buildProjection_none, ← isSome_find_groundSurface contract policy (txt "unassigned")]
  split
  · rename_i hvendor
    simp [← hvendor]
  · rename_i hvendor
    split
    · rename_i htotal
      simp [htotal]
    · rename_i htotal
      simp [Ne.symm hvendor, htotal]

theorem mem_surface_iff {p : CapabilityProjection} {forbidden : List CapabilityKey} :
    (∀ e ∈ p.surface.entries, e.key ∉ forbidden) ↔
      ∀ key ∈ forbidden, p.surface.find key = none := by
  constructor
  · intro h key hkey
    refine Option.eq_none_iff_forall_ne_some.mpr fun e he => ?_
    obtain ⟨hmem, rfl⟩ := CapabilitySurface.find_eq_some_iff.mp he
    exact h e hmem hkey
  · intro h e he hforbidden
    have hnone := h e.key hforbidden
    rw [CapabilitySurface.find_eq_some_iff.mpr ⟨he, rfl⟩] at hnone
    exact nomatch hnone

/-- A projection withholds what the policy forbids if and only if the policy does not forbid to
show the vendor and, where there is no backing, forbids none of the keys that are always stated. -/
theorem withholds_iff (backing : Option BackingRecord) :
    (buildProjection contract backing physical policy identity generation).Withholds
      (buildProjection contract backing physical policy.unrestricted identity generation)
      policy.forbiddenCapabilities ↔
    .vendorVisible ∉ policy.forbiddenCapabilities ∧
      (backing = none →
        ∀ key ∈ policy.forbiddenCapabilities, key ∉ CapabilityKey.alwaysStated) := by
  constructor
  · intro h
    have hexposed := mem_surface_iff.mp h.exposed
    constructor
    · intro hvendor
      -- `VendorVisible` is written last, whatever the policy forbids
      have hnone := hexposed _ hvendor
      cases backing with
      | none =>
        rw [find_buildProjection_none, if_pos rfl] at hnone
        exact nomatch hnone
      | some backing =>
        rw [find_buildProjection_some, if_pos rfl] at hnone
        exact nomatch hnone
    · rintro rfl key hkey halways
      have hsome := (isSome_find_buildProjection_none contract physical policy identity generation
        key).mpr (.inr halways)
      rw [hexposed key hkey] at hsome
      exact nomatch hsome
  · rintro ⟨hvendor, halways⟩
    have hne : ∀ key ∈ policy.forbiddenCapabilities, key ≠ .vendorVisible := by
      rintro key hkey rfl
      exact hvendor hkey
    cases backing with
    | none =>
      refine ⟨mem_surface_iff.mpr fun key hkey => ?_, fun e he hkey => ?_⟩
      · refine Option.not_isSome_iff_eq_none.mp fun hsome => ?_
        rcases (isSome_find_buildProjection_none ..).mp hsome with hv | ha
        · exact hne key hkey hv
        · exact halways rfl key hkey ha
      · have hsome := congrArg Option.isSome (CapabilitySurface.find_eq_some_iff.mpr ⟨he, rfl⟩)
        rcases (isSome_find_buildProjection_none ..).mp hsome with hv | ha
        · exact absurd hv (hne _ hkey)
        · exact absurd ha (halways rfl _ hkey)
    | some backing =>
      refine ⟨mem_surface_iff.mpr fun key hkey => ?_, fun e he hkey => ?_⟩
      · rw [find_buildProjection_some, if_neg (Ne.symm (hne key hkey)), if_pos hkey]
      · -- what is exposed without the prohibition is reported or stated
        have hsome := congrArg Option.isSome (CapabilitySurface.find_eq_some_iff.mpr ⟨he, rfl⟩)
        rw [find_buildProjection_some, if_neg (Ne.symm (hne _ hkey)),
          if_neg (show e.key ∉ policy.unrestricted.forbiddenCapabilities from List.not_mem_nil),
          Option.isSome_or, Option.isSome_map, Option.isSome_some, Bool.or_eq_true] at hsome
        exact (mem_hidden_buildProjection_some ..).mpr ⟨hkey, hsome⟩

end Withholding

/-- Without a backing the surface is not filtered: what the policy forbids is shown. -/
theorem not_withholds : ¬ ∀ (contract : ResourceContract) (backing : Option BackingRecord)
    (physical : Option PhysicalDeviceRecord) (policy : VirtualizationPolicy) (identity : ℕ)
    (generation : Generation),
    (buildProjection contract backing physical policy identity generation).Withholds
      (buildProjection contract backing physical policy.unrestricted identity generation)
      policy.forbiddenCapabilities := by
  intro h
  have hexposed := (h {} none none { forbiddenCapabilities := [.memoryTotalBytes] } 1 1).exposed
  revert hexposed
  decide

/-! ### What the sources bound -/

/-- The limits of the contract with the keys they are stated under. -/
def ResourceContract.limits (contract : ResourceContract) : List (CapabilityKey × ℕ) :=
  [(.memoryBudgetBytes, contract.memoryCeilingBytes),
   (.computeShareMilli, contract.computeShareMilli), (.maxStreams, contract.maxStreams),
   (.maxConcurrentKernels, contract.maxConcurrency)]

/-- What a backing reports; nothing where there is none. -/
def reportedBy (backing : Option BackingRecord) : List CapabilityEntry :=
  backing.elim [] (·.capabilities.entries)

/-- The surface is not stronger than the contract, the policy and what the backing reports. -/
structure CapabilityProjection.BoundedBy (p : CapabilityProjection) (contract : ResourceContract)
    (policy : VirtualizationPolicy) (reported : List CapabilityEntry) : Prop where
  limits : ∀ e ∈ p.surface.entries, ∀ limit ∈ contract.limits, e.key = limit.1 → 0 < limit.2 →
    e.value ≤ limit.2
  migration : ∀ e ∈ p.surface.entries, e.key = .migrationSupport → e.verdict = .supported →
    contract.migrationAllowed ∧ policy.migrationAllowed
  proven : ∀ r ∈ reported, r.verdict = .unknown ∨ r.verdict = .unsupported →
    ∀ e ∈ p.surface.entries, e.key = r.key → e.verdict ≠ .supported

/-- What the backing reports under the keys of the contract and the policy is not stronger than
these, unless it is withheld; and where the vendor is shown it is reported. -/
structure ReportsWithin (contract : ResourceContract) (policy : VirtualizationPolicy)
    (reported : List CapabilityEntry) : Prop where
  limits : ∀ r ∈ reported, r.key ∉ policy.forbiddenCapabilities → r.verdict ≠ .unknown →
    ∀ limit ∈ contract.limits, r.key = limit.1 → 0 < limit.2 → r.value ≤ limit.2
  migration : ∀ r ∈ reported, r.key ∉ policy.forbiddenCapabilities → r.key = .migrationSupport →
    r.verdict = .supported → contract.migrationAllowed ∧ policy.migrationAllowed
  vendor : ∀ r ∈ reported, r.key = .vendorVisible →
    r.verdict = .unknown ∨ r.verdict = .unsupported → policy.transparency = .opaqueBacking

theorem CapabilityEntry.verdict_projected (entry : CapabilityEntry) :
    entry.projected.verdict = entry.verdict := by
  rw [CapabilityEntry.projected]
  split
  · rename_i hunknown
    exact hunknown.symm
  · rfl

theorem CapabilityEntry.value_projected_le {entry : CapabilityEntry} {n : ℕ} :
    entry.projected.value ≤ n ↔ (entry.verdict ≠ .unknown → entry.value ≤ n) := by
  rw [CapabilityEntry.projected]
  split
  · rename_i hunknown
    simp [hunknown]
  · rename_i hunknown
    simp [hunknown]

/-- The keys that only the evidence speaks about. -/
theorem find_evidenceSurface (backing : BackingRecord) (physical : Option PhysicalDeviceRecord)
    (surface : CapabilitySurface) {key : CapabilityKey} (hkey : key ∉ [.memoryTotalBytes, .smCount,
      .computeCapabilityMajor, .computeCapabilityMinor, .architectureFamily]) :
    (evidenceSurface backing physical surface).find key = surface.find key := by
  simp only [List.mem_cons, List.not_mem_nil, or_false, not_or] at hkey
  obtain ⟨htotal, hcount, hmajor, hminor, harchitecture⟩ := hkey
  have hdevice : ∀ (surface : CapabilitySurface) (device : PhysicalDeviceRecord),
      (physicalSurface surface device).find key = surface.find key := by
    intro surface device
    rw [physicalSurface]
    split
    · split
      · simp [find_setCapability, Ne.symm hmajor, Ne.symm hminor, Ne.symm harchitecture]
      · simp [find_setCapability, Ne.symm harchitecture]
    · split
      · simp [find_setCapability, Ne.symm hmajor, Ne.symm hminor]
      · rfl
  have hunits : ∀ surface : CapabilitySurface, (if backing.computeUnits > 0 then
      setCapability surface .smCount .supported backing.computeUnits [] "backing-evidence"
      else setCapability surface .smCount .unknown 0 [] "backing-evidence").find key =
        surface.find key := by
    intro surface
    split
    · rw [find_setCapability, if_neg (Ne.symm hcount)]
    · rw [find_setCapability, if_neg (Ne.symm hcount)]
  rw [evidenceSurface]
  cases physical with
  | none =>
    rw [Option.elim_none, hunits, find_setCapability, if_neg (Ne.symm htotal)]
  | some device =>
    rw [Option.elim_some, hdevice, hunits, find_setCapability, if_neg (Ne.symm htotal)]

/-- A limit of the contract is stated with its own value. -/
theorem find_groundSurface_limit (contract : ResourceContract) (policy : VirtualizationPolicy)
    (text : Text) {limit : CapabilityKey × ℕ} (h : limit ∈ contract.limits) :
    ∃ e, (groundSurface contract policy text).find limit.1 = some e ∧ e.value = limit.2 := by
  simp only [ResourceContract.limits, List.mem_cons, List.not_mem_nil, or_false] at h
  rcases h with rfl | rfl | rfl | rfl
  all_goals simp [groundSurface, setContractLimit, find_setCapability]

theorem find_groundSurface_migration (contract : ResourceContract) (policy : VirtualizationPolicy)
    (text : Text) : ∃ e, (groundSurface contract policy text).find .migrationSupport = some e ∧
      (e.verdict = .supported ↔ contract.migrationAllowed ∧ policy.migrationAllowed) := by
  refine ⟨_, by rw [groundSurface, find_setCapability, if_pos rfl], ?_⟩
  simp

/-- The keys the contract and the policy bound are not ones the evidence speaks about. -/
theorem limit_fst_mem {contract : ResourceContract} {limit : CapabilityKey × ℕ}
    (h : limit ∈ contract.limits) : limit.1 ∈ [CapabilityKey.memoryBudgetBytes, .computeShareMilli,
      .maxStreams, .maxConcurrentKernels] := by
  have hmem : limit.1 ∈ contract.limits.map Prod.fst := List.mem_map_of_mem h
  exact hmem

section Bounds

variable {contract : ResourceContract} {backing : Option BackingRecord}
  {physical : Option PhysicalDeviceRecord} {policy : VirtualizationPolicy} {identity : ℕ}
  {generation : Generation} {key : CapabilityKey} {e r : CapabilityEntry}

/-- What the backing reports is what is shown, but for the vendor and for what is forbidden. -/
theorem find_of_reported (hr : r ∈ reportedBy backing) (hvendor : r.key ≠ .vendorVisible) :
    (buildProjection contract backing physical policy identity generation).surface.find r.key =
      if r.key ∈ policy.forbiddenCapabilities then none else some r.projected := by
  cases backing with
  | none => exact absurd hr List.not_mem_nil
  | some b =>
    have hfind : b.capabilities.find r.key = some r :=
      CapabilitySurface.find_eq_some_iff.mpr ⟨hr, rfl⟩
    rw [find_buildProjection_some, if_neg (Ne.symm hvendor), hfind]
    rfl

/-- What is shown under a key that no evidence speaks about is reported by the backing, or stated by
the contract and the policy. -/
theorem reported_or_ground (hvendor : key ≠ .vendorVisible) (hkey : key ∉ [.memoryTotalBytes,
      .smCount, .computeCapabilityMajor, .computeCapabilityMinor, .architectureFamily])
    (h : (buildProjection contract backing physical policy identity generation).surface.find key =
      some e) :
    (∃ r ∈ reportedBy backing, r.key = key ∧ key ∉ policy.forbiddenCapabilities ∧
      e = r.projected) ∨
    ∃ text, (groundSurface contract policy text).find key = some e := by
  cases backing with
  | none =>
    have htotal : .memoryTotalBytes ≠ key := by
      rintro rfl
      exact hkey List.mem_cons_self
    rw [find_buildProjection_none, if_neg (Ne.symm hvendor), if_neg htotal] at h
    exact .inr ⟨_, h⟩
  | some b =>
    rw [find_buildProjection_some, if_neg (Ne.symm hvendor)] at h
    split at h
    · exact nomatch h
    · rename_i hforbidden
      cases hr : b.capabilities.find key with
      | none =>
        rw [hr, Option.map_none, Option.none_or, find_evidenceSurface b physical _ hkey] at h
        exact .inr ⟨_, h⟩
      | some r =>
        rw [hr, Option.map_some, Option.some_or] at h
        obtain ⟨hmem, hrkey⟩ := CapabilitySurface.find_eq_some_iff.mp hr
        exact .inl ⟨r, hmem, hrkey, hforbidden, (Option.some.inj h).symm⟩

/-- A projection is bounded by its sources if and only if what the backing reports is. -/
theorem boundedBy_iff (contract : ResourceContract) (backing : Option BackingRecord)
    (physical : Option PhysicalDeviceRecord) (policy : VirtualizationPolicy) (identity : ℕ)
    (generation : Generation) :
    (buildProjection contract backing physical policy identity generation).BoundedBy contract policy
      (reportedBy backing) ↔ ReportsWithin contract policy (reportedBy backing) := by
  have hmem : ∀ {e : CapabilityEntry},
      e ∈ (buildProjection contract backing physical policy identity generation).surface.entries ↔
      (buildProjection contract backing physical policy identity generation).surface.find e.key =
        some e := by
    intro e
    simp [CapabilitySurface.find_eq_some_iff]
  -- what is reported under a bounded key and not forbidden is shown
  have hshown : ∀ {r : CapabilityEntry}, r ∈ reportedBy backing → r.key ≠ .vendorVisible →
      r.key ∉ policy.forbiddenCapabilities → r.projected ∈
        (buildProjection contract backing physical policy identity generation).surface.entries := by
    intro r hr hvendor hforbidden
    rw [hmem, CapabilityEntry.key_projected, find_of_reported hr hvendor, if_neg hforbidden]
  have hlimit : ∀ {limit : CapabilityKey × ℕ}, limit ∈ contract.limits →
      limit.1 ≠ .vendorVisible ∧ limit.1 ∉ [.memoryTotalBytes, .smCount, .computeCapabilityMajor,
        .computeCapabilityMinor, .architectureFamily] := by
    intro limit h
    have hfst := limit_fst_mem h
    simp only [List.mem_cons, List.not_mem_nil, or_false] at hfst
    rcases hfst with hfst | hfst | hfst | hfst
    all_goals simp [hfst]
  constructor
  · intro h
    refine ⟨fun r hr hforbidden hknown limit hl hkey hpos => ?_,
      fun r hr hforbidden hkey hsupported => ?_, fun r hr hkey hverdict => ?_⟩
    · have hr' := hshown hr (hkey ▸ (hlimit hl).1) hforbidden
      have hle := h.limits _ hr' limit hl (r.key_projected.trans hkey) hpos
      exact CapabilityEntry.value_projected_le.mp hle hknown
    · have hr' := hshown hr (by simp [hkey]) hforbidden
      exact h.migration _ hr' (r.key_projected.trans hkey) (r.verdict_projected.trans hsupported)
    · -- the transparency is stated under the key the backing reports
      by_contra htransparent
      have hlast : transparencyEntry policy ∈
          (buildProjection contract backing physical policy identity
            generation).surface.entries := by
        rw [hmem]
        cases backing with
        | none => rw [find_buildProjection_none]; rfl
        | some b => rw [find_buildProjection_some]; rfl
      refine h.proven r hr hverdict _ hlast hkey.symm ?_
      rw [transparencyEntry]
      exact if_neg htransparent
  · intro h
    refine ⟨fun e he limit hl hkey hpos => ?_, fun e he hkey hsupported => ?_,
      fun r hr hverdict e he hkey => ?_⟩
    · rw [hmem, hkey] at he
      rcases reported_or_ground (hlimit hl).1 (hlimit hl).2 he with
        ⟨r, hr, hrkey, hforbidden, rfl⟩ | ⟨text, hground⟩
      · refine CapabilityEntry.value_projected_le.mpr fun hknown => ?_
        exact h.limits r hr (hrkey ▸ hforbidden) hknown limit hl hrkey hpos
      · obtain ⟨e', he', hvalue⟩ := find_groundSurface_limit contract policy text hl
        rw [hground] at he'
        cases he'
        exact hvalue.le
    · rw [hmem, hkey] at he
      rcases reported_or_ground (by decide) (by decide) he with
        ⟨r, hr, hrkey, hforbidden, rfl⟩ | ⟨text, hground⟩
      · exact h.migration r hr (hrkey ▸ hforbidden) hrkey
          (r.verdict_projected.symm.trans hsupported)
      · obtain ⟨e', he', hverdict⟩ := find_groundSurface_migration contract policy text
        rw [hground] at he'
        cases he'
        exact hverdict.mp hsupported
    · rw [hmem, hkey] at he
      by_cases hvendor : r.key = .vendorVisible
      · -- only an opaque policy lets the backing report the vendor as unproven
        have hwithheld := h.vendor r hr hvendor hverdict
        have he' : e = transparencyEntry policy := by
          cases backing with
          | none => exact absurd hr List.not_mem_nil
          | some b =>
            rw [find_buildProjection_some, if_pos hvendor.symm] at he
            exact (Option.some.inj he).symm
        rw [he', transparencyEntry]
        simp [hwithheld]
      · rw [find_of_reported hr hvendor] at he
        split at he
        · exact nomatch he
        · rw [← Option.some.inj he, CapabilityEntry.verdict_projected]
          rcases hverdict with hverdict | hverdict
          · simp [hverdict]
          · simp [hverdict]

end Bounds

/-- A backing that reports a memory budget of its own overwrites the one of the contract. -/
theorem not_boundedBy : ¬ ∀ (contract : ResourceContract) (backing : Option BackingRecord)
    (physical : Option PhysicalDeviceRecord) (policy : VirtualizationPolicy) (identity : ℕ)
    (generation : Generation),
    (buildProjection contract backing physical policy identity generation).BoundedBy contract policy
      (reportedBy backing) := by
  intro h
  let backing : BackingRecord := {
    id := 1, generation := 1, capacityBytes := 4096, computeUnits := 4
    capabilities := ({} : CapabilitySurface).set
      { key := .memoryBudgetBytes, verdict := .constrained, value := 4096
        provenance := txt "agent" } }
  have hlimits := (h { memoryCeilingBytes := 1024 } (some backing) none {} 1 1).limits
  revert hlimits
  decide

end AcceleratorVirtualization
