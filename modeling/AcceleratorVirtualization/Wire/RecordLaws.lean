import AcceleratorVirtualization.Wire.RecordCodec

/-!
# The parts of records are read back

A value *fits* if its numbers fit their words, its texts and lists the limits of a decoder. What is
laid out for a value that fits is read back as the value.
-/

namespace AcceleratorVirtualization

open Enumeration (value ofValue)
open Reader Decoder

/-! ### Enumerations on the wire -/

/-- The last of all enumerators in order, of which there are no more than a byte can tell apart. -/
theorem lastEnumerator_ofList {α : Type} [DecidableEq α] {members : List α}
    (complete : ∀ a, a ∈ members) {last : α} (hnodup : members.Nodup)
    (hlast : members.getLast? = some last) (hbyte : members.length ≤ 256) :
    @LastEnumerator α (.ofList members complete) last := by
  rw [List.getLast?_eq_getElem?] at hlast
  have hvalue : members.idxOf last = members.length - 1 := idxOf_of_getElem? hnodup _ _ hlast
  have hlt : ∀ a, members.idxOf a < members.length := fun a =>
    List.idxOf_lt_length_iff.mpr (complete a)
  refine @LastEnumerator.mk α (.ofList members complete) last ?_ (fun a => ?_)
    (idxOf_of_getElem? hnodup)
  · exact lt_of_lt_of_le (hlt last) hbyte
  · have ha := hlt a
    change members.idxOf a ≤ members.idxOf last
    omega

instance : LastEnumerator Provenance .unsupported :=
  lastEnumerator_ofList (fun a => by cases a <;> decide) (by decide) rfl (by decide)
instance : LastEnumerator MultiplexingMode .synthetic :=
  lastEnumerator_ofList (fun a => by cases a <;> decide) (by decide) rfl (by decide)
instance : LastEnumerator BackingClass .syntheticMigratable :=
  lastEnumerator_ofList (fun a => by cases a <;> decide) (by decide) rfl (by decide)
instance : LastEnumerator IsolationClass .synthetic :=
  lastEnumerator_ofList (fun a => by cases a <;> decide) (by decide) rfl (by decide)
instance : LastEnumerator MigrationClass .liveStateTransfer :=
  lastEnumerator_ofList (fun a => by cases a <;> decide) (by decide) rfl (by decide)
instance : LastEnumerator IsolationDimension .tenantState :=
  lastEnumerator_ofList (fun a => by cases a <;> decide) (by decide) rfl (by decide)
instance : LastEnumerator IsolationState .isolated :=
  lastEnumerator_ofList (fun a => by cases a <;> decide) (by decide) rfl (by decide)
instance : LastEnumerator CapabilityKey .vendorVisible :=
  lastEnumerator_ofList (fun a => by cases a <;> decide) (by decide) rfl (by decide)
instance : LastEnumerator CapabilityVerdict .constrained :=
  lastEnumerator_ofList (fun a => by cases a <;> decide) (by decide) rfl (by decide)
instance : LastEnumerator BackingTransparency .full :=
  lastEnumerator_ofList (fun a => by cases a <;> decide) (by decide) rfl (by decide)
instance : LastEnumerator TenantSharingPolicy .shared :=
  lastEnumerator_ofList (fun a => by cases a <;> decide) (by decide) rfl (by decide)
instance : LastEnumerator RecoveryBehavior .optimistic :=
  lastEnumerator_ofList (fun a => by cases a <;> decide) (by decide) rfl (by decide)
instance : LastEnumerator VirtualLifecycleState .retired :=
  lastEnumerator_ofList (fun a => by cases a <;> decide) (by decide) rfl (by decide)
instance : LastEnumerator LeaseState .superseded :=
  lastEnumerator_ofList (fun a => by cases a <;> decide) (by decide) rfl (by decide)
instance : LastEnumerator AssignmentState .failed :=
  lastEnumerator_ofList (fun a => by cases a <;> decide) (by decide) rfl (by decide)
instance : LastEnumerator MigrationState .failed :=
  lastEnumerator_ofList (fun a => by cases a <;> decide) (by decide) rfl (by decide)
instance : LastEnumerator EvidenceKind .recoveryRevalidation :=
  lastEnumerator_ofList (fun a => by cases a <;> decide) (by decide) rfl (by decide)
instance : LastEnumerator AuditKind .persistence :=
  lastEnumerator_ofList (fun a => by cases a <;> decide) (by decide) rfl (by decide)

section Enumerators

variable {α : Type} [Enumeration α] {last : α} [LastEnumerator α last] {c : Nesting}
  {refusal : Status}

/-- A code inside its domain is accepted without reading on. -/
theorem reads_within (a : α) : Reads c (decodeWithin (value a) last refusal) [] a := by
  have hle := LastEnumerator.le a
  refine .guard (by omega) ?_
  rw [Enumeration.ofValue_value]
  exact reads_pure

/-- What passes the check is the value of an enumerator. -/
theorem decodeWithin_run_ok {raw : ℕ} {a : α} {i j : Decoder} :
    (decodeWithin raw last refusal).run i = .ok (a, j) ↔ raw = value a ∧ j = i := by
  constructor
  · intro h
    simp only [decodeWithin, guard_run_ok] at h
    obtain ⟨-, h⟩ := h
    split at h
    · rename_i b hb
      obtain ⟨rfl, rfl⟩ := Prod.mk.inj (pure_run_ok.mp h)
      exact ⟨(LastEnumerator.value_of_ofValue raw a hb).symm, rfl⟩
    · cases h
  · rintro ⟨rfl, rfl⟩
    have hread := @reads_within α _ last _ j.context refusal a j.rest
    exact hread

end Enumerators

/-- A capability key is read back. -/
theorem reads_key {c : Nesting} {refusal : ℕ → Status} (key : CapabilityKey) :
    Reads c (decodeKey refusal) (encodeKey key) key := by
  have hword : Word 16 (value key) :=
    lt_of_le_of_lt (LastEnumerator.le key) (by decide)
  exact (reads_u16 hword).last (reads_within key)

/-- A capability key is accepted only as it is written. -/
theorem canonical_key {refusal : ℕ → Status} :
    Canonical (decodeKey refusal) encodeKey fun _ _ => True := by
  intro i key j h
  simp only [decodeKey, bind_run_ok, decodeWithin_run_ok] at h
  obtain ⟨n, i1, hn, rfl, rfl⟩ := h
  exact ⟨trivial, (canonical_u16 _ _ _ hn).2⟩

/-! ### Contracts -/

variable {c : Nesting}

/-- A requirement is read back. -/
theorem reads_requirement (r : IsolationRequirement) :
    Reads c decodeRequirement (encodeRequirement r) r :=
  (reads_enum r.dimension).cons <| (reads_enum r.minimum).cons reads_pure

/-- An enumerator is written as something. -/
theorem encodeEnum_ne_nil {α : Type} [Enumeration α] (a : α) : encodeEnum a ≠ [] :=
  List.ne_nil_of_length_pos (by simp [encodeEnum, Encoder.u8])

/-- A list of enumerators of at most so many. -/
theorem reads_enums {α : Type} [Enumeration α] {last : α} [LastEnumerator α last] {items : List α}
    {maxItems : ℕ} (h : Listed c maxItems items.length) :
    Reads c (decodeList maxItems (decodeEnum last)) (Encoder.list items encodeEnum) items :=
  reads_list h (fun a _ => reads_enum a) fun a _ => encodeEnum_ne_nil a

/-- A list of requirements is read back. -/
theorem reads_requirements {items : List IsolationRequirement} {maxItems : ℕ}
    (h : Listed c maxItems items.length) :
    Reads c (decodeList maxItems decodeRequirement) (Encoder.list items encodeRequirement) items :=
  reads_list h (fun r _ => reads_requirement r) fun r _ =>
    List.append_ne_nil_of_left_ne_nil (encodeEnum_ne_nil r.dimension) _

/-- A list of keys is read back. -/
theorem reads_keys {items : List CapabilityKey} {maxItems : ℕ} {refusal : ℕ → Status}
    (h : Listed c maxItems items.length) :
    Reads c (decodeList maxItems (decodeKey refusal)) (Encoder.list items encodeKey) items :=
  reads_list h (fun key _ => reads_key key) fun key _ =>
    List.ne_nil_of_length_pos (by simp [encodeKey, Encoder.u16])

/-- The widths and limits under which a contract is read back as it was written. -/
structure ResourceContract.Fits (c : Nesting) (v : ResourceContract) : Prop where
  words : [v.id, v.generation, v.memoryCeilingBytes,
    v.bandwidthAllowanceBytesPerSecond].Forall (Word 64)
  halves : [v.computeShareMilli, v.maxStreams, v.maxConcurrency, v.minimumBackingRank].Forall
    (Word 32)
  lists : [v.allowedBackingClasses.length, v.allowedMultiplexingModes.length,
    v.requiredIsolation.length, v.allowedMigrationClasses.length].Forall (Listed c 64)

/-- A contract that fits is read back. -/
theorem reads_contract {v : ResourceContract} (h : v.Fits c) :
    Reads c decodeContract (encodeContract v) v := by
  obtain ⟨hid, hgeneration, hmemory, hbandwidth⟩ := h.words
  obtain ⟨hshare, hstreams, hconcurrency, hrank⟩ := h.halves
  obtain ⟨hclasses, hmodes, hisolation, hmigrations⟩ := h.lists
  exact (reads_u64 hid).cons <| (reads_u64 hgeneration).cons <| (reads_u64 hmemory).cons <|
    (reads_u32 hshare).cons <| (reads_u32 hstreams).cons <| (reads_u32 hconcurrency).cons <|
    (reads_u64 hbandwidth).cons <| (reads_boolean _).cons <| (reads_u32 hrank).cons <|
    (reads_enums hclasses).cons <| (reads_enums hmodes).cons <|
    (reads_requirements hisolation).cons <| (reads_boolean _).cons <|
    (reads_enums hmigrations).cons <| (reads_boolean _).cons <| (reads_boolean _).cons reads_pure

/-! ### Surfaces, profiles and projections -/

/-- The widths and limits of one capability. -/
structure CapabilityEntry.Fits (limits : DecodeLimits) (entry : CapabilityEntry) : Prop where
  value : Word 64 entry.value
  text : Short limits entry.text
  provenance : Short limits entry.provenance

/-- A capability that fits is read back. -/
theorem reads_capabilityEntry {entry : CapabilityEntry} (h : entry.Fits c.limits) :
    Reads c decodeCapabilityEntry (encodeCapabilityEntry entry) entry :=
  (reads_key entry.key).cons <| (reads_enum entry.verdict).cons <| (reads_u64 h.value).cons <|
    (reads_str h.text).cons <| (reads_str h.provenance).cons reads_pure

/-- At most 256 capabilities, each within its limits. -/
structure CapabilitySurface.Fits (c : Nesting) (surface : CapabilitySurface) : Prop where
  listed : Listed c 256 surface.entries.length
  entries : ∀ entry ∈ surface.entries, entry.Fits c.limits

/-- Setting the entries of a surface one after the other gives the surface back. -/
theorem CapabilitySurface.foldl_set (surface : CapabilitySurface) :
    surface.entries.foldl set {} = surface := by
  have hentries : (surface.entries.foldl set {}).entries = surface.entries :=
    (List.foldl_hom entries fun _ _ => rfl).symm.trans
      (KeyedList.foldl_upsert_eq (by simpa using surface.sorted))
  generalize surface.entries.foldl set {} = surface' at hentries
  cases surface'
  cases surface
  cases hentries
  rfl

/-- A surface that fits is read back. -/
theorem reads_capabilitySurface {surface : CapabilitySurface} (h : surface.Fits c) :
    Reads c decodeCapabilitySurface (encodeCapabilitySurface surface) surface := by
  have hlist : Reads c (decodeList 256 decodeCapabilityEntry)
      (Encoder.list surface.entries encodeCapabilityEntry) surface.entries :=
    reads_list h.listed (fun entry he => reads_capabilityEntry (h.entries entry he)) fun entry _ =>
      List.ne_nil_of_length_pos (by simp [encodeCapabilityEntry, encodeKey, Encoder.u16])
  refine hlist.last ?_
  rw [surface.foldl_set]
  exact reads_pure

/-- The widths and limits of one claim. -/
structure IsolationClaim.Fits (limits : DecodeLimits) (claim : IsolationClaim) : Prop where
  words : [claim.evidence, claim.evidenceGen].Forall (Word 64)
  texts : [claim.mechanism, claim.rationale].Forall (Short limits)

/-- A claim that fits is read back. -/
theorem reads_isolationClaim {claim : IsolationClaim} (h : claim.Fits c.limits) :
    Reads c decodeIsolationClaim (encodeIsolationClaim claim) claim := by
  obtain ⟨hevidence, hgeneration⟩ := h.words
  obtain ⟨hmechanism, hrationale⟩ := h.texts
  exact (reads_enum _).cons <| (reads_enum _).cons <| (reads_u64 hevidence).cons <|
    (reads_u64 hgeneration).cons <| (reads_str hmechanism).cons <|
    (reads_str hrationale).cons reads_pure

/-- As many claims as the profile may list, each within its limits. -/
structure IsolationProfile.Fits (c : Nesting) (profile : IsolationProfile) : Prop where
  listed : Listed c (isolationDimensionCount * 2) profile.claims.length
  claims : ∀ claim ∈ profile.claims, claim.Fits c.limits

/-- Setting the claims of a profile one by one gives the profile. -/
theorem IsolationProfile.foldl_set (profile : IsolationProfile) :
    profile.claims.foldl set {} = profile := by
  have hclaims : (profile.claims.foldl set {}).claims = profile.claims :=
    (List.foldl_hom claims fun _ _ => rfl).symm.trans
      (KeyedList.foldl_upsert_eq (by simpa using profile.sorted))
  generalize profile.claims.foldl set {} = profile' at hclaims
  cases profile'
  cases profile
  cases hclaims
  rfl

/-- A profile that fits is read back. -/
theorem reads_isolationProfile {profile : IsolationProfile} (h : profile.Fits c) :
    Reads c decodeIsolationProfile (encodeIsolationProfile profile) profile := by
  have hlist : Reads c (decodeList (isolationDimensionCount * 2) decodeIsolationClaim)
      (Encoder.list profile.claims encodeIsolationClaim) profile.claims :=
    reads_list h.listed (fun claim hc => reads_isolationClaim (h.claims claim hc)) fun claim _ =>
      List.append_ne_nil_of_left_ne_nil (encodeEnum_ne_nil claim.dimension) _
  refine hlist.last ?_
  rw [profile.foldl_set]
  exact reads_pure

/-- The widths and limits of a projection. -/
structure CapabilityProjection.Fits (c : Nesting) (v : CapabilityProjection) : Prop where
  words : [v.id, v.generation, v.backingGeneration, v.physicalGeneration, v.policyGeneration,
    v.contractGeneration, v.fingerprint].Forall (Word 64)
  surface : v.surface.Fits c
  hidden : Listed c 256 v.hidden.length
  unknown : Listed c 256 v.unknown.length
  mechanism : Short c.limits v.mechanism

/-- A projection that fits is read back. -/
theorem reads_projection {v : CapabilityProjection} (h : v.Fits c) :
    Reads c decodeProjection (encodeProjection v) v := by
  obtain ⟨hid, hgeneration, hbacking, hphysical, hpolicy, hcontract, hfingerprint⟩ := h.words
  exact (reads_u64 hid).cons <| (reads_u64 hgeneration).cons <|
    (reads_capabilitySurface h.surface).cons <| (reads_keys h.hidden).cons <|
    (reads_keys h.unknown).cons <| (reads_u64 hbacking).cons <| (reads_u64 hphysical).cons <|
    (reads_u64 hpolicy).cons <| (reads_u64 hcontract).cons <| (reads_u64 hfingerprint).cons <|
    (reads_str h.mechanism).cons reads_pure

/-! ### The policy and migration plans -/

/-- The widths and limits of a policy. -/
structure VirtualizationPolicy.Fits (c : Nesting) (v : VirtualizationPolicy) : Prop where
  words : [v.id, v.generation, v.maxLeaseDurationMicros, v.maxMemoryCeilingBytes,
    v.evidenceMaxAgeMicros].Forall (Word 64)
  halves : [v.maxAttachmentsPerVirtual, v.maxComputeShareMilli, v.maxVirtualAccelerators,
    v.maxTenants, v.maxLeases, v.maxAssignments, v.maxMigrations, v.maxEvidenceRecords].Forall
    (Word 32)
  lists : [v.allowedBackingClasses.length, v.requiredIsolation.length,
    v.allowedMigrationClasses.length].Forall (Listed c 64)
  forbidden : Listed c 256 v.forbiddenCapabilities.length

/-- A policy that fits is read back. -/
theorem reads_policy {v : VirtualizationPolicy} (h : v.Fits c) :
    Reads c decodePolicy (encodePolicy v) v := by
  obtain ⟨hid, hgeneration, hduration, hceiling, hage⟩ := h.words
  obtain ⟨hattachments, hshare, hvirtuals, htenants, hleases, hassignments, hmigrations,
    hevidence⟩ := h.halves
  obtain ⟨hclasses, hisolation, hallowed⟩ := h.lists
  exact (reads_u64 hid).cons <| (reads_u64 hgeneration).cons <| (reads_enums hclasses).cons <|
    (reads_enum _).cons <| (reads_requirements hisolation).cons <| (reads_boolean _).cons <|
    (reads_enum _).cons <| (reads_boolean _).cons <| (reads_enums hallowed).cons <|
    (reads_u32 hattachments).cons <| (reads_u64 hduration).cons <| (reads_keys h.forbidden).cons <|
    (reads_u64 hceiling).cons <| (reads_u32 hshare).cons <| (reads_boolean _).cons <|
    (reads_enum _).cons <| (reads_u64 hage).cons <| (reads_u32 hvirtuals).cons <|
    (reads_u32 htenants).cons <| (reads_u32 hleases).cons <| (reads_u32 hassignments).cons <|
    (reads_u32 hmigrations).cons <| (reads_u32 hevidence).cons reads_pure

/-- The widths and limits of a migration plan. -/
structure MigrationPlan.Fits (limits : DecodeLimits) (plan : MigrationPlan) : Prop where
  subject : [plan.id, plan.generation, plan.virtualId, plan.virtualGeneration].Forall (Word 64)
  places : [plan.sourceBacking, plan.sourceBackingGeneration, plan.destinationBacking,
    plan.destinationBackingGeneration, plan.sourcePhysical, plan.sourcePhysicalGeneration,
    plan.destinationPhysical, plan.destinationPhysicalGeneration].Forall (Word 64)
  bounds : [plan.tenant, plan.tenantGeneration, plan.contractGeneration,
    plan.projectionGeneration, plan.policyGeneration, plan.epoch].Forall (Word 64)
  rationale : Short limits plan.rationale

/-- A plan that fits is read back. -/
theorem reads_migrationPlan {plan : MigrationPlan} (h : plan.Fits c.limits) :
    Reads c decodeMigrationPlan (encodeMigrationPlan plan) plan := by
  obtain ⟨hid, hgeneration, hvirtual, hvirtualGeneration⟩ := h.subject
  obtain ⟨hsource, hsourceGeneration, hdestination, hdestinationGeneration, hfrom,
    hfromGeneration, hto, htoGeneration⟩ := h.places
  obtain ⟨htenant, htenantGeneration, hcontract, hprojection, hpolicy, hepoch⟩ := h.bounds
  exact (reads_u64 hid).cons <| (reads_u64 hgeneration).cons <| (reads_u64 hvirtual).cons <|
    (reads_u64 hvirtualGeneration).cons <| (reads_u64 hsource).cons <|
    (reads_u64 hsourceGeneration).cons <| (reads_u64 hdestination).cons <|
    (reads_u64 hdestinationGeneration).cons <| (reads_u64 hfrom).cons <|
    (reads_u64 hfromGeneration).cons <| (reads_u64 hto).cons <| (reads_u64 htoGeneration).cons <|
    (reads_u64 htenant).cons <| (reads_u64 htenantGeneration).cons <| (reads_u64 hcontract).cons <|
    (reads_u64 hprojection).cons <| (reads_u64 hpolicy).cons <| (reads_u64 hepoch).cons <|
    (reads_enum _).cons <| (reads_boolean _).cons <| (reads_boolean _).cons <|
    (reads_str h.rationale).cons reads_pure

/-! ### What is taken off -/

/-- A requirement is accepted only as it is written. -/
theorem canonical_requirement : Canonical decodeRequirement encodeRequirement fun _ _ => True :=
  .of_undoes fun _ => canonical_enum.step fun _ _ => canonical_enum.step fun _ _ =>
    undoes_pure rfl trivial

/-- A list of enumerators is accepted only as it is written. -/
theorem canonical_enums {α : Type} [Enumeration α] {last : α} [LastEnumerator α last]
    {maxItems : ℕ} :
    Canonical (decodeList maxItems (decodeEnum last)) (fun items => Encoder.list items encodeEnum)
      fun c items => Listed c maxItems items.length :=
  (canonical_list canonical_enum).mono fun _ _ h => h.1

/-- A list of requirements is accepted only as it is written. -/
theorem canonical_requirements {maxItems : ℕ} :
    Canonical (decodeList maxItems decodeRequirement)
      (fun items => Encoder.list items encodeRequirement)
      fun c items => Listed c maxItems items.length :=
  (canonical_list canonical_requirement).mono fun _ _ h => h.1

/-- A list of keys is accepted only as it is written. -/
theorem canonical_keys {maxItems : ℕ} {refusal : ℕ → Status} :
    Canonical (decodeList maxItems (decodeKey refusal)) (fun items => Encoder.list items encodeKey)
      fun c items => Listed c maxItems items.length :=
  (canonical_list canonical_key).mono fun _ _ h => h.1

/-- A contract is accepted only as it is written. -/
theorem canonical_contract :
    Canonical decodeContract encodeContract ResourceContract.Fits :=
  .of_undoes fun _ =>
    canonical_u64.step fun _ hid => canonical_u64.step fun _ hgeneration =>
    canonical_u64.step fun _ hmemory => canonical_u32.step fun _ hshare =>
    canonical_u32.step fun _ hstreams => canonical_u32.step fun _ hconcurrency =>
    canonical_u64.step fun _ hbandwidth => canonical_boolean.step fun _ _ =>
    canonical_u32.step fun _ hrank => canonical_enums.step fun _ hclasses =>
    canonical_enums.step fun _ hmodes => canonical_requirements.step fun _ hisolation =>
    canonical_boolean.step fun _ _ => canonical_enums.step fun _ hmigrations =>
    canonical_boolean.step fun _ _ => canonical_boolean.step fun _ _ =>
    undoes_pure (by simp only [encodeContract, List.nil_append, List.cons_append])
      { words := (⟨hid, hgeneration, hmemory, hbandwidth⟩ : _ ∧ _ ∧ _ ∧ _)
        halves := (⟨hshare, hstreams, hconcurrency, hrank⟩ : _ ∧ _ ∧ _ ∧ _)
        lists := (⟨hclasses, hmodes, hisolation, hmigrations⟩ : _ ∧ _ ∧ _ ∧ _) }

/-- A policy is accepted only as it is written. -/
theorem canonical_policy : Canonical decodePolicy encodePolicy VirtualizationPolicy.Fits :=
  .of_undoes fun _ =>
    canonical_u64.step fun _ hid => canonical_u64.step fun _ hgeneration =>
    canonical_enums.step fun _ hclasses => canonical_enum.step fun _ _ =>
    canonical_requirements.step fun _ hisolation => canonical_boolean.step fun _ _ =>
    canonical_enum.step fun _ _ => canonical_boolean.step fun _ _ =>
    canonical_enums.step fun _ hallowed => canonical_u32.step fun _ hattachments =>
    canonical_u64.step fun _ hduration => canonical_keys.step fun _ hforbidden =>
    canonical_u64.step fun _ hceiling => canonical_u32.step fun _ hshare =>
    canonical_boolean.step fun _ _ => canonical_enum.step fun _ _ =>
    canonical_u64.step fun _ hage => canonical_u32.step fun _ hvirtuals =>
    canonical_u32.step fun _ htenants => canonical_u32.step fun _ hleases =>
    canonical_u32.step fun _ hassignments => canonical_u32.step fun _ hmigrations =>
    canonical_u32.step fun _ hevidence =>
    undoes_pure (by simp only [encodePolicy, List.nil_append, List.cons_append])
      { words := (⟨hid, hgeneration, hduration, hceiling, hage⟩ : _ ∧ _ ∧ _ ∧ _ ∧ _)
        halves := (⟨hattachments, hshare, hvirtuals, htenants, hleases, hassignments, hmigrations,
          hevidence⟩ : _ ∧ _ ∧ _ ∧ _ ∧ _ ∧ _ ∧ _ ∧ _)
        lists := (⟨hclasses, hisolation, hallowed⟩ : _ ∧ _ ∧ _)
        forbidden := hforbidden }

/-- A plan is accepted only as it is written. -/
theorem canonical_migrationPlan : Canonical decodeMigrationPlan encodeMigrationPlan
    fun c plan => plan.Fits c.limits :=
  .of_undoes fun _ =>
    canonical_u64.step fun _ hid => canonical_u64.step fun _ hgeneration =>
    canonical_u64.step fun _ hvirtual => canonical_u64.step fun _ hvirtualGeneration =>
    canonical_u64.step fun _ hsource => canonical_u64.step fun _ hsourceGeneration =>
    canonical_u64.step fun _ hdestination => canonical_u64.step fun _ hdestinationGeneration =>
    canonical_u64.step fun _ hfrom => canonical_u64.step fun _ hfromGeneration =>
    canonical_u64.step fun _ hto => canonical_u64.step fun _ htoGeneration =>
    canonical_u64.step fun _ htenant => canonical_u64.step fun _ htenantGeneration =>
    canonical_u64.step fun _ hcontract => canonical_u64.step fun _ hprojection =>
    canonical_u64.step fun _ hpolicy => canonical_u64.step fun _ hepoch =>
    canonical_enum.step fun _ _ => canonical_boolean.step fun _ _ =>
    canonical_boolean.step fun _ _ => canonical_str.step fun _ hrationale =>
    undoes_pure (by simp only [encodeMigrationPlan, List.nil_append, List.cons_append])
      { subject := (⟨hid, hgeneration, hvirtual, hvirtualGeneration⟩ : _ ∧ _ ∧ _ ∧ _)
        places := (⟨hsource, hsourceGeneration, hdestination, hdestinationGeneration, hfrom,
          hfromGeneration, hto, htoGeneration⟩ : _ ∧ _ ∧ _ ∧ _ ∧ _ ∧ _ ∧ _ ∧ _)
        bounds := (⟨htenant, htenantGeneration, hcontract, hprojection, hpolicy, hepoch⟩ :
          _ ∧ _ ∧ _ ∧ _ ∧ _ ∧ _)
        rationale := hrationale }

/-! ### Blobs -/

/-- What is read to its end is decoded as a whole. -/
theorem decodeWhole_of_reads {α : Type} {decode : Decode α} {bytes : Bytes} {v : α}
    (h : Reads c decode bytes v) : (decodeWhole decode).run ⟨bytes, c⟩ = .ok (v, ⟨[], c⟩) := by
  have hrun := h []
  rw [List.append_nil] at hrun
  rw [decodeWhole, bind_run_of_ok hrun]
  rfl

/-- A whole stream is a value if it is what is written for a value that fits. -/
theorem valueOf_eq_ok {α : Type} {decode : Decode α} {encode : α → Bytes}
    {kind : Nesting → α → Prop} (hread : ∀ v, kind {} v → Reads {} decode (encode v) v)
    (hcanonical : Canonical decode encode kind) {bytes : Bytes} {v : α} :
    valueOf bytes decode = .ok v ↔ kind {} v ∧ bytes = encode v := by
  rw [valueOf, run'_ok]
  constructor
  · rintro ⟨j, hrun⟩
    simp only [decodeWhole, bind_run_ok, pure_run_ok] at hrun
    obtain ⟨v', i1, hv, _, i2, hend, hr⟩ := hrun
    obtain ⟨rfl, rfl⟩ := Prod.mk.inj hr
    obtain ⟨rfl, hrest⟩ := requireEnd_run_ok.mp hend
    exact hcanonical.eq_write hv hrest
  · rintro ⟨hv, rfl⟩
    exact ⟨_, decodeWhole_of_reads (hread v hv)⟩

/-- Encoding and decoding undo each other: what is accepted is what is written for the answer, so
that no two streams are accepted as one value, and every value that fits is read back. -/
structure Lossless {α : Type} (encode : α → Bytes) (decode : Bytes → Except Status α)
    (fits : α → Prop) : Prop where
  encode_decode : ∀ bytes v, decode bytes = .ok v → encode v = bytes
  injective : ∀ bytes bytes' v, decode bytes = .ok v → decode bytes' = .ok v → bytes = bytes'
  fits_decode : ∀ bytes v, decode bytes = .ok v → fits v
  decode_encode : ∀ v, fits v → decode (encode v) = .ok v

/-- Both directions of a codec, from the one equivalence. -/
theorem Lossless.of_iff {α : Type} {encode : α → Bytes} {decode : Bytes → Except Status α}
    {fits : α → Prop} (h : ∀ bytes v, decode bytes = .ok v ↔ fits v ∧ bytes = encode v) :
    Lossless encode decode fits where
  encode_decode bytes v hv := ((h bytes v).mp hv).2.symm
  injective bytes bytes' v hv hv' := ((h bytes v).mp hv).2.trans ((h bytes' v).mp hv').2.symm
  fits_decode bytes v hv := ((h bytes v).mp hv).1
  decode_encode v hv := (h _ v).mpr ⟨hv, rfl⟩

/-- The blobs of contracts, policies and plans are canonical. -/
theorem lossless_blobs :
    Lossless encodeContractBlob decodeContractBlob (ResourceContract.Fits {}) ∧
    Lossless encodePolicyBlob decodePolicyBlob (VirtualizationPolicy.Fits {}) ∧
    Lossless encodePlanBlob decodePlanBlob (MigrationPlan.Fits {}) :=
  ⟨.of_iff fun _ _ => valueOf_eq_ok (fun _ => reads_contract) canonical_contract,
    .of_iff fun _ _ => valueOf_eq_ok (fun _ => reads_policy) canonical_policy,
    .of_iff fun _ _ => valueOf_eq_ok (fun _ => reads_migrationPlan) canonical_migrationPlan⟩

end AcceleratorVirtualization
