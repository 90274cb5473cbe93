import AcceleratorVirtualization.Model
import AcceleratorVirtualization.Wire.Codec

/-!
# Codecs of the parts of records

Contracts, surfaces, profiles, projections, the policy and migration plans are laid out field by
field, in the order of their declaration. The same codecs serve the snapshot, the journal and the
blobs of the control plane.
-/

namespace AcceleratorVirtualization

open Enumeration (value ofValue)

/-- `static_cast` of a number that was checked against the last enumerator. -/
def decodeWithin {α : Type} [Enumeration α] (raw : ℕ) (maxValue : α) (refusal : Status) :
    Decode α := do
  if raw > value maxValue then throw refusal
  match ofValue raw with
  | some item => return item
  | none => throw refusal

/-! ### Contracts -/

/-- One isolation requirement. -/
def encodeRequirement (item : IsolationRequirement) : Bytes :=
  [encodeEnum item.dimension, encodeEnum item.minimum].flatten

/-- One isolation requirement, with both codes inside their domains. -/
def decodeRequirement : Decode IsolationRequirement := do
  let dimension ← decodeEnum IsolationDimension.tenantState
  let minimum ← decodeEnum IsolationState.isolated
  return { dimension, minimum }

/-- `encode_contract`. -/
def encodeContract (v : ResourceContract) : Bytes :=
  [Encoder.u64 v.id,
    Encoder.u64 v.generation,
    Encoder.u64 v.memoryCeilingBytes,
    Encoder.u32 v.computeShareMilli,
    Encoder.u32 v.maxStreams,
    Encoder.u32 v.maxConcurrency,
    Encoder.u64 v.bandwidthAllowanceBytesPerSecond,
    Encoder.boolean v.exclusivityRequired,
    Encoder.u32 v.minimumBackingRank,
    Encoder.list v.allowedBackingClasses encodeEnum,
    Encoder.list v.allowedMultiplexingModes encodeEnum,
    Encoder.list v.requiredIsolation encodeRequirement,
    Encoder.boolean v.migrationAllowed,
    Encoder.list v.allowedMigrationClasses encodeEnum,
    Encoder.boolean v.oversubscriptionAllowed,
    Encoder.boolean v.burstAllowed].flatten

/-- `decode_contract`. -/
def decodeContract : Decode ResourceContract := do
  let id ← Decoder.u64
  let generation ← Decoder.u64
  let memoryCeilingBytes ← Decoder.u64
  let computeShareMilli ← Decoder.u32
  let maxStreams ← Decoder.u32
  let maxConcurrency ← Decoder.u32
  let bandwidthAllowanceBytesPerSecond ← Decoder.u64
  let exclusivityRequired ← Decoder.boolean
  let minimumBackingRank ← Decoder.u32
  let allowedBackingClasses ← decodeList 64 (decodeEnum BackingClass.syntheticMigratable)
  let allowedMultiplexingModes ← decodeList 64 (decodeEnum MultiplexingMode.synthetic)
  let requiredIsolation ← decodeList 64 decodeRequirement
  let migrationAllowed ← Decoder.boolean
  let allowedMigrationClasses ← decodeList 64 (decodeEnum MigrationClass.liveStateTransfer)
  let oversubscriptionAllowed ← Decoder.boolean
  let burstAllowed ← Decoder.boolean
  return { id, generation, memoryCeilingBytes, computeShareMilli, maxStreams, maxConcurrency,
           bandwidthAllowanceBytesPerSecond, exclusivityRequired, minimumBackingRank,
           allowedBackingClasses, allowedMultiplexingModes, requiredIsolation, migrationAllowed,
           allowedMigrationClasses, oversubscriptionAllowed, burstAllowed }

/-! ### Surfaces, profiles and projections -/

/-- The code of a capability key, two bytes wide. -/
def encodeKey (key : CapabilityKey) : Bytes := Encoder.u16 (value key)

/-- A capability key, with the refusal for a code outside its domain. -/
def decodeKey (refusal : ℕ → Status) : Decode CapabilityKey := do
  let raw ← Decoder.u16
  decodeWithin raw CapabilityKey.vendorVisible (refusal raw)

/-- One entry of a capability surface. -/
def encodeCapabilityEntry (entry : CapabilityEntry) : Bytes :=
  [encodeKey entry.key,
    encodeEnum entry.verdict,
    Encoder.u64 entry.value,
    Encoder.str entry.text,
    Encoder.str entry.provenance].flatten

/-- One entry of a capability surface. -/
def decodeCapabilityEntry : Decode CapabilityEntry := do
  let key ← decodeKey fun raw =>
    ⟨.malformedFrame, txt "capability key " ++ toDecimal raw ++ txt " is outside its domain"⟩
  let verdict ← decodeEnum CapabilityVerdict.constrained
  let value ← Decoder.u64
  let text ← Decoder.str
  let provenance ← Decoder.str
  return { key, verdict, value, text, provenance }

/-- `encode_capability_surface`. -/
def encodeCapabilitySurface (surface : CapabilitySurface) : Bytes :=
  Encoder.list surface.entries encodeCapabilityEntry

/-- The surface is set up again entry by entry. -/
def decodeCapabilitySurface : Decode CapabilitySurface := do
  let entries ← decodeList 256 decodeCapabilityEntry
  return entries.foldl CapabilitySurface.set {}

/-- One claim of an isolation profile. -/
def encodeIsolationClaim (claim : IsolationClaim) : Bytes :=
  [encodeEnum claim.dimension,
    encodeEnum claim.state,
    Encoder.u64 claim.evidence,
    Encoder.u64 claim.evidenceGen,
    Encoder.str claim.mechanism,
    Encoder.str claim.rationale].flatten

/-- One claim of an isolation profile. -/
def decodeIsolationClaim : Decode IsolationClaim := do
  let dimension ← decodeEnum IsolationDimension.tenantState
  let state ← decodeEnum IsolationState.isolated
  let evidence ← Decoder.u64
  let evidenceGen ← Decoder.u64
  let mechanism ← Decoder.str
  let rationale ← Decoder.str
  return { dimension, state, evidence, evidenceGen, mechanism, rationale }

/-- `kIsolationDimensionCount`. -/
def isolationDimensionCount : ℕ := 11

/-- `encode_isolation_profile`. -/
def encodeIsolationProfile (profile : IsolationProfile) : Bytes :=
  Encoder.list profile.claims encodeIsolationClaim

/-- `decode_isolation_profile`: a later claim about the same dimension replaces the earlier one. -/
def decodeIsolationProfile : Decode IsolationProfile := do
  let claims ← decodeList (isolationDimensionCount * 2) decodeIsolationClaim
  return claims.foldl IsolationProfile.set {}

/-- `encode_projection`. -/
def encodeProjection (v : CapabilityProjection) : Bytes :=
  [Encoder.u64 v.id,
    Encoder.u64 v.generation,
    encodeCapabilitySurface v.surface,
    Encoder.list v.hidden encodeKey,
    Encoder.list v.unknown encodeKey,
    Encoder.u64 v.backingGeneration,
    Encoder.u64 v.physicalGeneration,
    Encoder.u64 v.policyGeneration,
    Encoder.u64 v.contractGeneration,
    Encoder.u64 v.fingerprint,
    Encoder.str v.mechanism].flatten

/-- `decode_projection`. -/
def decodeProjection : Decode CapabilityProjection := do
  let id ← Decoder.u64
  let generation ← Decoder.u64
  let surface ← decodeCapabilitySurface
  let hidden ← decodeList 256 (decodeKey fun _ =>
    .of .malformedFrame "hidden capability key is outside its domain")
  let unknown ← decodeList 256 (decodeKey fun _ =>
    .of .malformedFrame "unknown capability key is outside its domain")
  let backingGeneration ← Decoder.u64
  let physicalGeneration ← Decoder.u64
  let policyGeneration ← Decoder.u64
  let contractGeneration ← Decoder.u64
  let fingerprint ← Decoder.u64
  let mechanism ← Decoder.str
  return { id, generation, surface, hidden, unknown, backingGeneration, physicalGeneration,
           policyGeneration, contractGeneration, fingerprint, mechanism }

/-! ### The policy -/

/-- `encode_policy`. -/
def encodePolicy (v : VirtualizationPolicy) : Bytes :=
  [Encoder.u64 v.id,
    Encoder.u64 v.generation,
    Encoder.list v.allowedBackingClasses encodeEnum,
    encodeEnum v.tenantSharing,
    Encoder.list v.requiredIsolation encodeRequirement,
    Encoder.boolean v.oversubscriptionAllowed,
    encodeEnum v.transparency,
    Encoder.boolean v.migrationAllowed,
    Encoder.list v.allowedMigrationClasses encodeEnum,
    Encoder.u32 v.maxAttachmentsPerVirtual,
    Encoder.u64 v.maxLeaseDurationMicros,
    Encoder.list v.forbiddenCapabilities encodeKey,
    Encoder.u64 v.maxMemoryCeilingBytes,
    Encoder.u32 v.maxComputeShareMilli,
    Encoder.boolean v.syntheticBackingAllowed,
    encodeEnum v.recovery,
    Encoder.u64 v.evidenceMaxAgeMicros,
    Encoder.u32 v.maxVirtualAccelerators,
    Encoder.u32 v.maxTenants,
    Encoder.u32 v.maxLeases,
    Encoder.u32 v.maxAssignments,
    Encoder.u32 v.maxMigrations,
    Encoder.u32 v.maxEvidenceRecords].flatten

/-- `decode_policy`. -/
def decodePolicy : Decode VirtualizationPolicy := do
  let id ← Decoder.u64
  let generation ← Decoder.u64
  let allowedBackingClasses ← decodeList 64 (decodeEnum BackingClass.syntheticMigratable)
  let tenantSharing ← decodeEnum TenantSharingPolicy.shared
  let requiredIsolation ← decodeList 64 decodeRequirement
  let oversubscriptionAllowed ← Decoder.boolean
  let transparency ← decodeEnum BackingTransparency.full
  let migrationAllowed ← Decoder.boolean
  let allowedMigrationClasses ← decodeList 64 (decodeEnum MigrationClass.liveStateTransfer)
  let maxAttachmentsPerVirtual ← Decoder.u32
  let maxLeaseDurationMicros ← Decoder.u64
  let forbiddenCapabilities ← decodeList 256 (decodeKey fun _ =>
    .of .malformedFrame "forbidden capability key is outside its domain")
  let maxMemoryCeilingBytes ← Decoder.u64
  let maxComputeShareMilli ← Decoder.u32
  let syntheticBackingAllowed ← Decoder.boolean
  let recovery ← decodeEnum RecoveryBehavior.optimistic
  let evidenceMaxAgeMicros ← Decoder.u64
  let maxVirtualAccelerators ← Decoder.u32
  let maxTenants ← Decoder.u32
  let maxLeases ← Decoder.u32
  let maxAssignments ← Decoder.u32
  let maxMigrations ← Decoder.u32
  let maxEvidenceRecords ← Decoder.u32
  return { id, generation, allowedBackingClasses, tenantSharing, requiredIsolation,
           oversubscriptionAllowed, transparency, migrationAllowed, allowedMigrationClasses,
           maxAttachmentsPerVirtual, maxLeaseDurationMicros, forbiddenCapabilities,
           maxMemoryCeilingBytes, maxComputeShareMilli, syntheticBackingAllowed, recovery,
           evidenceMaxAgeMicros, maxVirtualAccelerators, maxTenants, maxLeases, maxAssignments,
           maxMigrations, maxEvidenceRecords }

/-! ### Migration plans -/

/-- `encode_migration_plan`. -/
def encodeMigrationPlan (plan : MigrationPlan) : Bytes :=
  [Encoder.u64 plan.id,
    Encoder.u64 plan.generation,
    Encoder.u64 plan.virtualId,
    Encoder.u64 plan.virtualGeneration,
    Encoder.u64 plan.sourceBacking,
    Encoder.u64 plan.sourceBackingGeneration,
    Encoder.u64 plan.destinationBacking,
    Encoder.u64 plan.destinationBackingGeneration,
    Encoder.u64 plan.sourcePhysical,
    Encoder.u64 plan.sourcePhysicalGeneration,
    Encoder.u64 plan.destinationPhysical,
    Encoder.u64 plan.destinationPhysicalGeneration,
    Encoder.u64 plan.tenant,
    Encoder.u64 plan.tenantGeneration,
    Encoder.u64 plan.contractGeneration,
    Encoder.u64 plan.projectionGeneration,
    Encoder.u64 plan.policyGeneration,
    Encoder.u64 plan.epoch,
    encodeEnum plan.klass,
    Encoder.boolean plan.stateTransferRequired,
    Encoder.boolean plan.liveStateMovement,
    Encoder.str plan.rationale].flatten

/-- `decode_migration_plan`. -/
def decodeMigrationPlan : Decode MigrationPlan := do
  let id ← Decoder.u64
  let generation ← Decoder.u64
  let virtualId ← Decoder.u64
  let virtualGeneration ← Decoder.u64
  let sourceBacking ← Decoder.u64
  let sourceBackingGeneration ← Decoder.u64
  let destinationBacking ← Decoder.u64
  let destinationBackingGeneration ← Decoder.u64
  let sourcePhysical ← Decoder.u64
  let sourcePhysicalGeneration ← Decoder.u64
  let destinationPhysical ← Decoder.u64
  let destinationPhysicalGeneration ← Decoder.u64
  let tenant ← Decoder.u64
  let tenantGeneration ← Decoder.u64
  let contractGeneration ← Decoder.u64
  let projectionGeneration ← Decoder.u64
  let policyGeneration ← Decoder.u64
  let epoch ← Decoder.u64
  let klass ← decodeEnum MigrationClass.liveStateTransfer
  let stateTransferRequired ← Decoder.boolean
  let liveStateMovement ← Decoder.boolean
  let rationale ← Decoder.str
  return { id, generation, virtualId, virtualGeneration, sourceBacking, sourceBackingGeneration,
           destinationBacking, destinationBackingGeneration, sourcePhysical,
           sourcePhysicalGeneration, destinationPhysical, destinationPhysicalGeneration, tenant,
           tenantGeneration, contractGeneration, projectionGeneration, policyGeneration, epoch,
           klass, stateTransferRequired, liveStateMovement, rationale }

/-! ### Blobs -/

/-- Nothing may follow the value. -/
def decodeWhole {α : Type} (decode : Decode α) : Decode α := do
  let value ← decode
  Decoder.requireEnd
  return value

/-- A blob decoded by itself, with nothing behind it. -/
def valueOf {α : Type} (bytes : Bytes) (decode : Decode α) : Except Status α :=
  (decodeWhole decode).run' (Decoder.of bytes)

/-- `encode_contract_blob`. -/
def encodeContractBlob (v : ResourceContract) : Bytes := encodeContract v
/-- `decode_contract_blob`. -/
def decodeContractBlob (bytes : Bytes) : Except Status ResourceContract :=
  valueOf bytes decodeContract

/-- `encode_policy_blob`. -/
def encodePolicyBlob (v : VirtualizationPolicy) : Bytes := encodePolicy v
/-- `decode_policy_blob`. -/
def decodePolicyBlob (bytes : Bytes) : Except Status VirtualizationPolicy :=
  valueOf bytes decodePolicy

/-- `encode_plan_blob`. -/
def encodePlanBlob (v : MigrationPlan) : Bytes := encodeMigrationPlan v
/-- `decode_plan_blob`. -/
def decodePlanBlob (bytes : Bytes) : Except Status MigrationPlan :=
  valueOf bytes decodeMigrationPlan

end AcceleratorVirtualization
