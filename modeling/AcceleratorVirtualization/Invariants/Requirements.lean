import AcceleratorVirtualization.Invariants.Runs
import AcceleratorVirtualization.Lib.Firsts

/-!
# What a backing has to meet

The requirements of a contract and of the policy are merged by sorting and by dropping what repeats
a dimension, so that of each dimension the requirement that the sort leaves in front is kept,
whatever the others ask for. Which one that is, is up to the sort: under every sort it is the
strictest just if those of a dimension are equally strict, and where the order in the list is kept,
just if the strictest is listed first. The memory ceilings on a backing are added up as 64-bit
words.
-/

namespace AcceleratorVirtualization

open Enumeration (value)
open Refusal KeyedList

/-! ### Isolation -/

/-- The requirement a list makes of a dimension first. -/
def firstRequirement (l : List IsolationRequirement) (d : IsolationDimension) :
    Option IsolationRequirement :=
  l.find? fun r => r.dimension = d

/-- For every requirement that is asked, the first one of its dimension that is kept is at least as
strict. -/
def covers (kept asked : List IsolationRequirement) : Bool :=
  asked.all fun r =>
    (firstRequirement kept r.dimension).any fun k => value r.minimum ≤ value k.minimum

/-- The requirements of each dimension are listed with the strictest first. -/
def strictestFirst (l : List IsolationRequirement) : Bool := covers l l

/-- The requirements of each dimension are equally strict. -/
def unanimous (l : List IsolationRequirement) : Bool :=
  l.all fun r => l.all fun k => r.dimension ≠ k.dimension || value r.minimum ≤ value k.minimum

/-- The profile meets every requirement of the list. -/
def IsolationProfile.Meets (isolation : IsolationProfile) (l : List IsolationRequirement) : Prop :=
  ∀ r ∈ l, isolationStateAtLeast (isolation.stateOf r.dimension) r.minimum = true

theorem firstRequirement_eq (l : List IsolationRequirement) (d : IsolationDimension) :
    firstRequirement l d = l.find? fun r => value r.dimension = value d := by
  unfold firstRequirement
  congr 1
  funext r
  simp

theorem mem_of_firstRequirement {l : List IsolationRequirement} {d : IsolationDimension}
    {r : IsolationRequirement} (h : firstRequirement l d = some r) : r ∈ l ∧ r.dimension = d :=
  ⟨List.mem_of_find?_eq_some h, by simpa using List.find?_some h⟩

theorem exists_firstRequirement {l : List IsolationRequirement} {r : IsolationRequirement}
    (h : r ∈ l) : ∃ k, firstRequirement l r.dimension = some k :=
  Option.isSome_iff_exists.mp (List.find?_isSome.mpr ⟨r, h, by simp⟩)

/-- What is kept of a dimension is what the sort leaves in front. -/
theorem firstRequirement_normalize (sorting : Sorting) (l : List IsolationRequirement)
    (d : IsolationDimension) :
    firstRequirement (normalizeRequirements sorting l) d =
      firstRequirement (sorting.sort l) d := by
  rw [firstRequirement_eq, firstRequirement_eq]
  exact find?_firsts (value d) (sorting.sort l)

/-- A sort by insertion leaves in front what is listed first. -/
theorem firstRequirement_insertion (l : List IsolationRequirement) (d : IsolationDimension) :
    firstRequirement (normalizeRequirements .insertion l) d = firstRequirement l d := by
  rw [firstRequirement_normalize, firstRequirement_eq, firstRequirement_eq]
  exact find?_insertionSort (value d) l

theorem firstRequirement_append (l l' : List IsolationRequirement) (d : IsolationDimension) :
    firstRequirement (l ++ l') d = (firstRequirement l d).or (firstRequirement l' d) :=
  List.find?_append

theorem mem_normalizeRequirements {sorting : Sorting} {l : List IsolationRequirement}
    {r : IsolationRequirement} :
    r ∈ normalizeRequirements sorting l ↔
      firstRequirement (normalizeRequirements sorting l) r.dimension = some r := by
  rw [firstRequirement_normalize, firstRequirement_eq]
  exact mem_firsts (sorting.sorted l)

theorem mem_of_mem_normalize {sorting : Sorting} {l : List IsolationRequirement}
    {r : IsolationRequirement} (h : r ∈ normalizeRequirements sorting l) : r ∈ l :=
  (sorting.perm l).subset (mem_of_mem_firsts h)

/-- Of every dimension that is asked for something is kept. -/
theorem exists_kept (sorting : Sorting) {l : List IsolationRequirement} {r : IsolationRequirement}
    (h : r ∈ l) : ∃ k ∈ l, k.dimension = r.dimension ∧
      firstRequirement (normalizeRequirements sorting l) r.dimension = some k := by
  obtain ⟨k, hk⟩ := exists_firstRequirement ((sorting.perm l).symm.subset h)
  rw [← firstRequirement_normalize] at hk
  obtain ⟨hmem, hd⟩ := mem_of_firstRequirement hk
  exact ⟨k, mem_of_mem_normalize hmem, hd, hk⟩

/-- The same of two lists that are merged when each of them has been. -/
theorem exists_merged (s₁ s₂ s : Sorting) {l l' : List IsolationRequirement}
    {r : IsolationRequirement} (h : r ∈ l ++ l') :
    ∃ k ∈ normalizeRequirements s₁ l ++ normalizeRequirements s₂ l', k.dimension = r.dimension ∧
      firstRequirement (normalizeRequirements s
        (normalizeRequirements s₁ l ++ normalizeRequirements s₂ l')) r.dimension = some k := by
  obtain ⟨k, hk, hd⟩ : ∃ k ∈ normalizeRequirements s₁ l ++ normalizeRequirements s₂ l',
      k.dimension = r.dimension := by
    rcases List.mem_append.mp h with h | h
    · obtain ⟨k, -, hd, hk⟩ := exists_kept s₁ h
      exact ⟨k, List.mem_append_left _ (mem_of_firstRequirement hk).1, hd⟩
    · obtain ⟨k, -, hd, hk⟩ := exists_kept s₂ h
      exact ⟨k, List.mem_append_right _ (mem_of_firstRequirement hk).1, hd⟩
  rw [← hd]
  exact exists_kept s hk

/-- Where the order of the lists is kept, what is kept is at least as strict as all that is asked
if and only if of each dimension the strictest requirement is listed first. -/
theorem covers_insertion (l l' : List IsolationRequirement) :
    covers (normalizeRequirements .insertion
      (normalizeRequirements .insertion l ++ normalizeRequirements .insertion l')) (l ++ l') =
      strictestFirst (l ++ l') := by
  unfold strictestFirst covers
  simp only [firstRequirement_insertion, firstRequirement_append]

/-- In the order of the dimensions, and of one dimension with the weakest first. -/
def WeakerFirst (a b : IsolationRequirement) : Prop :=
  value a.dimension < value b.dimension ∨
    value a.dimension = value b.dimension ∧ value a.minimum ≤ value b.minimum

instance : DecidableRel WeakerFirst := fun _ _ => inferInstanceAs (Decidable (_ ∨ _))

instance : IsTrans IsolationRequirement WeakerFirst :=
  ⟨fun _ _ _ h h' => by unfold WeakerFirst at *; omega⟩

instance : Std.Total WeakerFirst := ⟨fun _ _ => by unfold WeakerFirst; omega⟩

namespace Sorting

/-- A sort that leaves the weakest requirement of each dimension in front. -/
def weakest : Sorting where
  sort l := l.insertionSort WeakerFirst
  perm l := List.perm_insertionSort _ l
  sorted l := (List.pairwise_insertionSort WeakerFirst l).imp fun h => by
    unfold WeakerFirst at h
    omega

/-- What it keeps of a dimension is not stricter than anything asked of it. -/
theorem weakest_le {l : List IsolationRequirement} {k r : IsolationRequirement}
    (hk : firstRequirement (normalizeRequirements weakest l) r.dimension = some k) (hr : r ∈ l) :
    value k.minimum ≤ value r.minimum := by
  rw [firstRequirement_normalize] at hk
  obtain ⟨hd, before, after, hl, hbefore⟩ := List.find?_eq_some_iff_append.mp hk
  have hsorted : (weakest.sort l).Pairwise WeakerFirst := List.pairwise_insertionSort _ l
  rw [hl, List.pairwise_append] at hsorted
  have hmem : r ∈ before ++ k :: after := hl ▸ (weakest.perm l).symm.subset hr
  rcases List.mem_append.mp hmem with h | h
  · exact absurd (hbefore r h) (by simp)
  · rcases List.mem_cons.mp h with rfl | h
    · exact Nat.le_refl _
    · have hle := (List.pairwise_cons.mp hsorted.2.1).1 r h
      have hdim : k.dimension = r.dimension := of_decide_eq_true hd
      rw [WeakerFirst, hdim] at hle
      omega

end Sorting

/-- What is kept is at least as strict as all that is asked under every sort, if and only if the
requirements of each dimension are equally strict. -/
theorem covers_iff_unanimous (l l' : List IsolationRequirement) :
    (∀ s₁ s₂ s : Sorting, covers (normalizeRequirements s
      (normalizeRequirements s₁ l ++ normalizeRequirements s₂ l')) (l ++ l') = true) ↔
    unanimous (l ++ l') = true := by
  constructor
  · intro h
    -- the weakest of a dimension is kept, and the strictest is not stricter
    refine List.all_eq_true.mpr fun r hr => List.all_eq_true.mpr fun k hk => ?_
    by_cases hd : r.dimension = k.dimension
    · obtain ⟨f, hf, hle⟩ := (Option.any_eq_true _ _).mp
        (List.all_eq_true.mp (h .weakest .weakest .weakest) r hr)
      rw [hd] at hf
      have hweak : value f.minimum ≤ value k.minimum := by
        rcases List.mem_append.mp hk with hk | hk <;>
          obtain ⟨w, -, hw, hkept⟩ := exists_kept .weakest hk <;>
          refine Nat.le_trans (Sorting.weakest_le (r := w) (hw ▸ hf) ?_)
            (Sorting.weakest_le hkept hk)
        · exact List.mem_append_left _ (mem_of_firstRequirement hkept).1
        · exact List.mem_append_right _ (mem_of_firstRequirement hkept).1
      have := of_decide_eq_true hle
      simp only [Bool.or_eq_true, decide_eq_true_eq]
      omega
    · simp [hd]
  · intro h s₁ s₂ s
    refine List.all_eq_true.mpr fun r hr => ?_
    obtain ⟨k, hmem, hd, hk⟩ := exists_merged s₁ s₂ s hr
    have hasked : k ∈ l ++ l' := by
      rcases List.mem_append.mp hmem with hmem | hmem
      · exact List.mem_append_left _ (mem_of_mem_normalize hmem)
      · exact List.mem_append_right _ (mem_of_mem_normalize hmem)
    rw [hk, Option.any_some]
    have hle := List.all_eq_true.mp (List.all_eq_true.mp h r hr) k hasked
    simpa [hd] using hle

/-- A requirement passes the check if the profile is at least at its minimum, and is not unknown
where something else is asked for. -/
theorem checkIsolation_eq_ok {isolation : IsolationProfile} {r : IsolationRequirement} :
    checkIsolation isolation r = .ok () ↔
      ¬ (isolation.stateOf r.dimension = .unknown ∧ r.minimum ≠ .unknown) ∧
        isolationStateAtLeast (isolation.stateOf r.dimension) r.minimum = true := by
  simp only [checkIsolation, guard_bind_eq_ok, guard_eq_ok, pure_eq_ok, Bool.and_eq_true,
    decide_eq_true_eq, Bool.not_eq_true', Bool.not_eq_false, and_true]

section Validation

variable {backing : BackingRecord} {physical : Option PhysicalDeviceRecord}
variable {record : VirtualAcceleratorRecord} {policy : VirtualizationPolicy}
variable {state : VirtualizationState} {sorting : Sorting}

/-- A backing that is accepted passes the check of every merged requirement. -/
theorem validateBackingFor_isolation
    (h : validateBackingFor sorting backing physical record policy state = .ok ()) :
    ∀ r ∈ normalizeRequirements sorting
        (record.contract.requiredIsolation ++ policy.requiredIsolation),
      checkIsolation backing.isolation r = .ok () := by
  unfold validateBackingFor at h
  simp only [guard_bind_eq_ok] at h
  obtain ⟨-, -, -, -, -, -, -, -, -, -, h⟩ := h
  cases physical with
  | none =>
    obtain ⟨-, h⟩ := guard_bind_eq_ok.mp h
    obtain ⟨_, h, _⟩ := bind_eq_ok.mp h
    exact forM_eq_ok.mp h
  | some device =>
    obtain ⟨-, h⟩ := guard_bind_eq_ok.mp h
    obtain ⟨-, h⟩ := guard_bind_eq_ok.mp h
    obtain ⟨_, h, _⟩ := bind_eq_ok.mp h
    exact forM_eq_ok.mp h

/-- A requirement that is not weaker implies the others. -/
theorem isolationStateAtLeast_mono {have_ a b : IsolationState} (h : value a ≤ value b)
    (hb : isolationStateAtLeast have_ b = true) : isolationStateAtLeast have_ a = true := by
  simp only [isolationStateAtLeast, decide_eq_true_eq] at hb ⊢
  omega

/-- A backing is accepted only if it meets everything that was asked, provided that what is kept of
it in the end is at least as strict. -/
theorem meets_of_validated {asked : List IsolationRequirement}
    (hcovers : covers (normalizeRequirements sorting
      (record.contract.requiredIsolation ++ policy.requiredIsolation)) asked = true)
    (h : validateBackingFor sorting backing physical record policy state = .ok ()) :
    backing.isolation.Meets asked := by
  intro r hr
  obtain ⟨k, hk, hle⟩ := (Option.any_eq_true _ _).mp (List.all_eq_true.mp hcovers r hr)
  obtain ⟨hmem, hdim⟩ := mem_of_firstRequirement hk
  obtain ⟨-, hmeets⟩ := checkIsolation_eq_ok.mp (validateBackingFor_isolation h k hmem)
  rw [← hdim]
  exact isolationStateAtLeast_mono (of_decide_eq_true hle) hmeets

end Validation

/-- A profile that meets merged requirements, and no more. -/
def IsolationProfile.barely (sorting : Sorting) (l : List IsolationRequirement) :
    IsolationProfile where
  claims := (normalizeRequirements sorting l).map fun r =>
    { dimension := r.dimension, state := r.minimum }
  sorted := List.pairwise_map.mpr (show (normalizeRequirements sorting l).Pairwise fun a b =>
    value a.dimension < value b.dimension from sorted_firsts (sorting.sorted l))

theorem IsolationProfile.stateOf_barely {sorting : Sorting} {l : List IsolationRequirement}
    {k : IsolationRequirement} {d : IsolationDimension}
    (h : firstRequirement (normalizeRequirements sorting l) d = some k) :
    (barely sorting l).stateOf d = k.minimum := by
  unfold firstRequirement at h
  unfold stateOf find barely
  rw [List.find?_map, show ((fun c : IsolationClaim => decide (c.dimension = d)) ∘
    fun r : IsolationRequirement => { dimension := r.dimension, state := r.minimum }) =
      fun r => decide (r.dimension = d) from rfl, h]
  rfl

/-- For given lists of requirements and given sorts, every backing that is accepted meets all of
them if and only if what is kept of each dimension in the end is the strictest that is asked. -/
theorem meets_iff_covers (s₁ s₂ s : Sorting) (l l' : List IsolationRequirement) :
    (∀ (backing : BackingRecord) (physical : Option PhysicalDeviceRecord)
      (record : VirtualAcceleratorRecord) (policy : VirtualizationPolicy)
      (state : VirtualizationState),
      record.contract.requiredIsolation = normalizeRequirements s₁ l →
      policy.requiredIsolation = normalizeRequirements s₂ l' →
      validateBackingFor s backing physical record policy state = .ok () →
      backing.isolation.Meets (l ++ l')) ↔
    covers (normalizeRequirements s
      (normalizeRequirements s₁ l ++ normalizeRequirements s₂ l')) (l ++ l') = true := by
  refine ⟨fun h => ?_, fun h _ _ _ _ _ hc hp hok => meets_of_validated (hc ▸ hp ▸ h) hok⟩
  -- a backing that meets what is kept of the requirements, and no more
  let merged := normalizeRequirements s₁ l ++ normalizeRequirements s₂ l'
  let backing : BackingRecord :=
    { klass := .dedicatedPhysical, available := true, evidenceFresh := true
      isolation := .barely s merged }
  let record : VirtualAcceleratorRecord :=
    { contract := { requiredIsolation := normalizeRequirements s₁ l } }
  let policy : VirtualizationPolicy :=
    { allowedBackingClasses := [.dedicatedPhysical]
      requiredIsolation := normalizeRequirements s₂ l' }
  have hforM : (normalizeRequirements s merged).forM (checkIsolation backing.isolation) =
      .ok () := by
    refine forM_eq_ok.mpr fun r hr => checkIsolation_eq_ok.mpr ?_
    have hstate : backing.isolation.stateOf r.dimension = r.minimum :=
      IsolationProfile.stateOf_barely (mem_normalizeRequirements.mp hr)
    rw [hstate]
    exact ⟨fun hc => hc.2 hc.1, by simp [isolationStateAtLeast]⟩
  have hok : validateBackingFor s backing none record policy {} = .ok () := by
    change ((normalizeRequirements s merged).forM (checkIsolation backing.isolation) >>= fun _ =>
      pure ()) = .ok ()
    rw [hforM]
    rfl
  have hmeets := h backing none record policy {} rfl rfl hok
  refine List.all_eq_true.mpr fun r hr => ?_
  obtain ⟨k, -, -, hk⟩ := exists_merged s₁ s₂ s hr
  have hstate : backing.isolation.stateOf r.dimension = k.minimum :=
    IsolationProfile.stateOf_barely hk
  have hr' := hmeets r hr
  rw [hstate] at hr'
  rw [hk]
  exact hr'

/-! ### Capacity -/

/-- The policy with oversubscription allowed: all checks are left but the one of the capacity. -/
def VirtualizationPolicy.lenient (policy : VirtualizationPolicy) : VirtualizationPolicy :=
  { policy with oversubscriptionAllowed := true }

/-- The other holders leave a virtual accelerator the room on a backing that its ceiling needs. -/
def checkCapacity (backing : BackingRecord) (record : VirtualAcceleratorRecord)
    (policy : VirtualizationPolicy) (state : VirtualizationState) : Check := do
  let ceiling := record.contract.memoryCeilingBytes
  if 0 < ceiling && !record.contract.oversubscriptionAllowed &&
      !policy.oversubscriptionAllowed then
    if ceiling > backing.capacityBytes ||
        (committedCeilings state backing.id record + ceiling) % 2 ^ 64 > backing.capacityBytes then
      throw ⟨.oversubscriptionDenied,
        txt "committed virtual memory ceilings would exceed the physical capacity of backing " ++
        strBacking backing.id ++
        txt " and oversubscription is not enabled by policy or contract"⟩

/-- The memory ceilings of the other authoritative holders of a backing. -/
def otherCeilings (state : VirtualizationState) (backing : BackingId)
    (record : VirtualAcceleratorRecord) : List ℕ :=
  state.assignments.toList.filterMap fun entry =>
    if entry.2.backing = backing ∧ entry.2.authoritative = true ∧ entry.2.virtualId ≠ record.id then
      state.virtuals[entry.2.virtualId]?.map (·.contract.memoryCeilingBytes)
    else none

/-- What the ceilings on a backing come to with this virtual accelerator. -/
def totalCeilings (state : VirtualizationState) (backing : BackingId)
    (record : VirtualAcceleratorRecord) : ℕ :=
  record.contract.memoryCeilingBytes + (otherCeilings state backing record).sum

section Capacity

variable {backing : BackingRecord} {physical : Option PhysicalDeviceRecord}
variable {record : VirtualAcceleratorRecord} {policy : VirtualizationPolicy}
variable {state : VirtualizationState} {sorting : Sorting}

/-- The check of the capacity is the last one. -/
theorem validateBackingFor_eq :
    validateBackingFor sorting backing physical record policy state =
      (validateBackingFor sorting backing physical record policy.lenient state >>= fun _ =>
        checkCapacity backing record policy state) := by
  unfold validateBackingFor
  dsimp only
  iterate 10 refine guard_bind_split ?_
  have hlast : ∀ (c d : Bool) (e : Status) (isolation : Check),
      (isolation >>= fun _ => checkCapacity backing record policy state) =
        ((isolation >>= fun _ =>
          if (c && !policy.lenient.oversubscriptionAllowed) = true then
            if d = true then throw e else pure () else pure ()) >>= fun _ =>
              checkCapacity backing record policy state) := by
    intro c d e isolation
    cases isolation with
    | error e => rfl
    | ok u => simp [VirtualizationPolicy.lenient, bind, Except.bind, pure, Except.pure]
  cases physical with
  | none => exact guard_bind_split (hlast _ _ _ _)
  | some device => exact guard_bind_split (guard_bind_split (hlast _ _ _ _))

/-- No other check refuses for the capacity. -/
theorem only_validateBackingFor_lenient :
    Only (·.code ≠ .oversubscriptionDenied)
      (validateBackingFor sorting backing physical record policy.lenient state) := by
  unfold validateBackingFor
  dsimp only
  iterate 10 refine .guard (by nofun) ?_
  have hisolation : ∀ l : List IsolationRequirement,
      Only (·.code ≠ .oversubscriptionDenied) (l.forM (checkIsolation backing.isolation)) := by
    intro l
    induction l with
    | nil => exact only_pure
    | cons r l ih =>
      exact Only.bind (.guard (by nofun) (.guard_last (by nofun) only_pure)) fun _ => ih
  have hlast : ∀ (l : List IsolationRequirement) (c d : Bool) (e : Status),
      Only (·.code ≠ .oversubscriptionDenied)
        (l.forM (checkIsolation backing.isolation) >>= fun _ =>
          if (c && !policy.lenient.oversubscriptionAllowed) = true then
            if d = true then throw e else pure () else pure ()) := by
    intro l c d e
    refine (hisolation l).bind fun _ => ?_
    simp only [VirtualizationPolicy.lenient, Bool.not_true, Bool.and_false]
    exact only_pure
  cases physical with
  | none => exact .guard (by nofun) (hlast _ _ _ _)
  | some device => exact .guard (by nofun) (.guard (by nofun) (hlast _ _ _ _))

/-- Adding up word by word gives the sum as a word. -/
theorem foldl_add_mod {α : Type} (f : α → Option ℕ) (m : ℕ) (l : List α) (n : ℕ) :
    l.foldl (fun sum a => ((f a).map fun c => (sum + c) % m).getD sum) (n % m) =
      (n + (l.filterMap f).sum) % m := by
  induction l generalizing n with
  | nil => simp
  | cons a l ih =>
    rw [List.foldl_cons, List.filterMap_cons]
    cases f a with
    | none => exact ih n
    | some c =>
      rw [Option.map_some, Option.getD_some, Nat.mod_add_mod, ih, List.sum_cons, Nat.add_assoc]

/-- What is added up is the sum of the ceilings, as a 64-bit word. -/
theorem committedCeilings_eq :
    committedCeilings state backing.id record =
      (otherCeilings state backing.id record).sum % 2 ^ 64 := by
  unfold committedCeilings otherCeilings
  rw [Std.ExtTreeMap.foldl_eq_foldl_toList,
    ← Nat.zero_add (List.sum _), ← foldl_add_mod _ _ _ 0]
  congr 1
  funext committed entry
  by_cases hb : entry.2.backing = backing.id <;> by_cases ha : entry.2.authoritative = true <;>
    by_cases hv : entry.2.virtualId = record.id <;> simp [hb, ha, hv]
  cases state.virtuals[entry.2.virtualId]? <;> rfl

/-- Whether the capacity refuses, where it counts. -/
theorem checkCapacity_eq_ok (h0 : 0 < record.contract.memoryCeilingBytes)
    (hr : record.contract.oversubscriptionAllowed = false)
    (hp : policy.oversubscriptionAllowed = false) :
    checkCapacity backing record policy state = .ok () ↔
      record.contract.memoryCeilingBytes ≤ backing.capacityBytes ∧
        totalCeilings state backing.id record % 2 ^ 64 ≤ backing.capacityBytes := by
  have hmod : (committedCeilings state backing.id record +
      record.contract.memoryCeilingBytes) % 2 ^ 64 =
        totalCeilings state backing.id record % 2 ^ 64 := by
    rw [committedCeilings_eq, totalCeilings]
    omega
  simp only [checkCapacity, h0, hr, hp, decide_true, Bool.not_false, Bool.and_self, if_true,
    guard_eq_ok, pure_eq_ok, and_true, Bool.or_eq_true, decide_eq_true_eq, not_or, not_lt,
    gt_iff_lt, hmod]

theorem checkCapacity_error {status : Status}
    (h : checkCapacity backing record policy state = .error status) :
    status.code = .oversubscriptionDenied := by
  simp only [checkCapacity] at h
  split at h
  · split at h
    · cases h
      rfl
    · cases h
  · cases h

/-- The validation refuses for the capacity if and only if all other checks pass and this one does
not. -/
theorem oversubscriptionDenied_iff :
    (∃ status, validateBackingFor sorting backing physical record policy state = .error status ∧
      status.code = .oversubscriptionDenied) ↔
    validateBackingFor sorting backing physical record policy.lenient state = .ok () ∧
      checkCapacity backing record policy state ≠ .ok () := by
  rw [validateBackingFor_eq]
  have honly : Only (·.code ≠ .oversubscriptionDenied)
      (validateBackingFor sorting backing physical record policy.lenient state) :=
    only_validateBackingFor_lenient
  cases hl : validateBackingFor sorting backing physical record policy.lenient state with
  | error e =>
    have hne : e.code ≠ .oversubscriptionDenied := honly e hl
    simp [bind, Except.bind, hne]
  | ok u =>
    simp only [bind, Except.bind, true_and]
    cases hcap : checkCapacity backing record policy state with
    | error e => simp [checkCapacity_error hcap]
    | ok u => simp

end Capacity

/-- For a virtual accelerator with a memory ceiling, where neither the policy nor the contract
allows oversubscription: the ceilings are added up without wrapping around, and a backing is refused
for its capacity if and only if the sum exceeds it, just if the sum is a 64-bit word, and within the
capacity or refused for nothing else before. -/
theorem capacity_exact_iff (sorting : Sorting) (backing : BackingRecord)
    (physical : Option PhysicalDeviceRecord) (record : VirtualAcceleratorRecord)
    (policy : VirtualizationPolicy)
    (state : VirtualizationState) (h0 : 0 < record.contract.memoryCeilingBytes)
    (hr : record.contract.oversubscriptionAllowed = false)
    (hp : policy.oversubscriptionAllowed = false) :
    ((committedCeilings state backing.id record + record.contract.memoryCeilingBytes) % 2 ^ 64 =
        totalCeilings state backing.id record ∧
      ((¬ ∃ status,
          validateBackingFor sorting backing physical record policy state = .error status ∧
            status.code = .oversubscriptionDenied) ↔
        totalCeilings state backing.id record ≤ backing.capacityBytes)) ↔
    totalCeilings state backing.id record < 2 ^ 64 ∧
      (totalCeilings state backing.id record ≤ backing.capacityBytes ∨
        validateBackingFor sorting backing physical record policy.lenient state = .ok ()) := by
  have hle : record.contract.memoryCeilingBytes ≤ totalCeilings state backing.id record :=
    Nat.le_add_right _ _
  have hsum : (committedCeilings state backing.id record +
      record.contract.memoryCeilingBytes) % 2 ^ 64 =
        totalCeilings state backing.id record % 2 ^ 64 := by
    rw [committedCeilings_eq, totalCeilings]
    omega
  rw [oversubscriptionDenied_iff, Ne, checkCapacity_eq_ok h0 hr hp, hsum]
  -- a total that does not wrap is the one that is compared
  by_cases hword : totalCeilings state backing.id record < 2 ^ 64
  · rw [Nat.mod_eq_of_lt hword]
    by_cases hfits : totalCeilings state backing.id record ≤ backing.capacityBytes
    · have hceiling := hle.trans hfits
      simp [-Nat.reducePow, hword, hfits, hceiling]
    · simp [-Nat.reducePow, hword, hfits]
  · have hne : totalCeilings state backing.id record % 2 ^ 64 ≠
        totalCeilings state backing.id record := by omega
    simp [-Nat.reducePow, hword, hne]

namespace Sample

/-- A backing that can be shared, with a known capacity. -/
def shared : BackingDescriptor :=
  { dedicated "a" with exclusive := false, capacityBytes := 2 ^ 40 }

/-- Two virtual accelerators with these contracts, and the first is on a shared backing. -/
def sharing (first second : ResourceContract) : List Event :=
  [.start clock, call (.registerAgent (txt "agent") [] 0 1),
    call (.registerPhysical anyone 1 4 { device with backings := [shared] }),
    call (.createTenant anyone (txt "tenant") []),
    call (.setPolicy anyone { VirtualizationPolicy.defaultPolicy with
      maxMemoryCeilingBytes := 2 ^ 64 - 1 }),
    call (.createVirtual anyone (txt "v") 10 1 first),
    call (.createVirtual anyone (txt "w") 10 1 second),
    call (.assignBacking { owner 16 1 with tenant := some 10 } 7 [])]

/-- The first has half of the backing, and the second asks for all of it. -/
def overfull : List Event :=
  sharing { memoryCeilingBytes := 2 ^ 39 } { memoryCeilingBytes := 2 ^ 40 }

/-- The first may oversubscribe and has the largest ceiling there is; the second may not. -/
def overcommitted : List Event :=
  sharing { memoryCeilingBytes := 2 ^ 64 - 1, oversubscriptionAllowed := true }
    { memoryCeilingBytes := 2 }

end Sample

/-- The second virtual accelerator passes all other checks, and is refused for the capacity. -/
theorem capacity_exact_overfull : ∃ im b v,
    (Impl.initial {} true).run Sample.overfull = some im ∧
    im.state.backings[7]? = some b ∧ im.state.virtuals[21]? = some v ∧
    otherCeilings im.state b.id v = [2 ^ 39] ∧ b.capacityBytes < totalCeilings im.state b.id v ∧
    ∃ status, validateBackingFor im.options.sorting b im.state.physical[b.physical]? v
      im.state.policy im.state = .error status ∧ status.code = .oversubscriptionDenied := by
  have hrun : (((Impl.initial {} true).run Sample.overfull).any fun im =>
      im.state.backings[7]?.any fun b => im.state.virtuals[21]?.any fun v =>
        decide ((0 < v.contract.memoryCeilingBytes ∧ v.contract.oversubscriptionAllowed = false ∧
          im.state.policy.oversubscriptionAllowed = false) ∧
          otherCeilings im.state b.id v = [2 ^ 39] ∧ totalCeilings im.state b.id v < 2 ^ 64 ∧
          b.capacityBytes < totalCeilings im.state b.id v ∧
          validateBackingFor im.options.sorting b im.state.physical[b.physical]? v
            im.state.policy.lenient im.state = .ok ())) = true := by
    decide +kernel
  obtain ⟨im, him, h⟩ := (Option.any_eq_true _ _).mp hrun
  obtain ⟨b, hb, h⟩ := (Option.any_eq_true _ _).mp h
  obtain ⟨v, hv, h⟩ := (Option.any_eq_true _ _).mp h
  obtain ⟨⟨h0, hr, hp⟩, hother, hword, hexceeds, hpasses⟩ := of_decide_eq_true h
  have hexact := (capacity_exact_iff im.options.sorting b im.state.physical[b.physical]? v
    im.state.policy im.state h0 hr hp).mpr ⟨hword, .inr hpasses⟩
  refine ⟨im, b, v, him, hb, hv, hother, hexceeds, not_not.mp fun hnot => ?_⟩
  exact absurd (hexact.2.mp hnot) (Nat.not_le_of_lt hexceeds)

/-- The second virtual accelerator finds the sum wrapped around, and the backing accepts it. -/
theorem capacity_overcommitted : ∃ im b v,
    (Impl.initial {} true).run Sample.overcommitted = some im ∧
    im.state.backings[7]? = some b ∧ im.state.virtuals[21]? = some v ∧
    0 < v.contract.memoryCeilingBytes ∧ v.contract.oversubscriptionAllowed = false ∧
    im.state.policy.oversubscriptionAllowed = false ∧
    validateBackingFor im.options.sorting b im.state.physical[b.physical]? v im.state.policy
      im.state = .ok () ∧
    b.capacityBytes < totalCeilings im.state b.id v := by
  have hrun : (((Impl.initial {} true).run Sample.overcommitted).any fun im =>
      im.state.backings[7]?.any fun b => im.state.virtuals[21]?.any fun v =>
        decide (0 < v.contract.memoryCeilingBytes ∧ v.contract.oversubscriptionAllowed = false ∧
          im.state.policy.oversubscriptionAllowed = false ∧
          validateBackingFor im.options.sorting b im.state.physical[b.physical]? v
            im.state.policy im.state = .ok () ∧
          b.capacityBytes < totalCeilings im.state b.id v)) = true := by
    decide +kernel
  obtain ⟨im, him, h⟩ := (Option.any_eq_true _ _).mp hrun
  obtain ⟨b, hb, h⟩ := (Option.any_eq_true _ _).mp h
  obtain ⟨v, hv, h⟩ := (Option.any_eq_true _ _).mp h
  exact ⟨im, b, v, him, hb, hv, of_decide_eq_true h⟩

end AcceleratorVirtualization
