import AcceleratorVirtualization.Runtime.Views
import AcceleratorVirtualization.Wire.StateLaws

/-!
# Codecs of what is inspected

Views, explanations and the counters go to a caller as blobs of their own. Their fields are laid out
like those of the records in the store; a byte that is no enumerator is refused with a text that
says of what.
-/

namespace AcceleratorVirtualization

open Enumeration (value)
open Reader Decoder

/-- A byte up to the value of the last enumerator. -/
def decodeByte {α : Type} [Enumeration α] (maxValue : α) (refusal : String) : Decode α := do
  let raw ← Decoder.u8
  decodeWithin raw maxValue (.of .protocolViolation refusal)

/-! ### Views -/

/-- `encode_view`. -/
def encodeView (view : VirtualView) : Bytes :=
  [Encoder.u64 view.id,
    Encoder.u64 view.generation,
    Encoder.str view.name,
    encodeEnum view.state,
    Encoder.u64 view.stateGeneration,
    Encoder.str view.stateReason,
    Encoder.u64 view.owner,
    Encoder.u64 view.ownerGeneration,
    Encoder.boolean view.ownerIsCaller,
    encodeContract view.contract,
    encodeProjection view.projection,
    encodeEnum view.multiplexing,
    encodeEnum view.isolationClass,
    encodeEnum view.transparency,
    Encoder.boolean view.backingDisclosed,
    encodeEnum view.backingClass,
    encodeEnum view.backingProvenance,
    Encoder.str view.backingMechanism,
    Encoder.u64 view.backing,
    Encoder.u64 view.backingGeneration,
    Encoder.u64 view.physical,
    Encoder.u64 view.physicalGeneration,
    Encoder.str view.physicalStableKey,
    Encoder.str view.physicalModel,
    Encoder.u32 view.activeAttachments,
    Encoder.boolean view.attachedToCaller,
    Encoder.u64 view.callerLease,
    Encoder.u64 view.callerLeaseGeneration,
    encodeEnum view.migrationClass,
    Encoder.boolean view.migrationSupported,
    Encoder.boolean view.hasActiveMigration,
    Encoder.u64 view.allocatedBytes,
    Encoder.i64 view.createdAt,
    Encoder.i64 view.updatedAt].flatten

/-- The fields of a view in the order of `encode_view`. -/
def decodeViewFields : Decode VirtualView := do
  let id ← Decoder.u64
  let generation ← Decoder.u64
  let name ← Decoder.str
  let state ← decodeByte VirtualLifecycleState.retired "lifecycle state is outside its domain"
  let stateGeneration ← Decoder.u64
  let stateReason ← Decoder.str
  let owner ← Decoder.u64
  let ownerGeneration ← Decoder.u64
  let ownerIsCaller ← Decoder.boolean
  let contract ← decodeContract
  let projection ← decodeProjection
  let multiplexing ← decodeByte MultiplexingMode.synthetic "multiplexing mode is outside its domain"
  let isolationClass ← decodeByte IsolationClass.synthetic "isolation class is outside its domain"
  let transparency ← decodeByte BackingTransparency.full "transparency is outside its domain"
  let backingDisclosed ← Decoder.boolean
  let backingClass ← decodeByte BackingClass.syntheticMigratable
    "backing class is outside its domain"
  let backingProvenance ← decodeByte Provenance.unsupported "provenance is outside its domain"
  let backingMechanism ← Decoder.str
  let backing ← Decoder.u64
  let backingGeneration ← Decoder.u64
  let physical ← Decoder.u64
  let physicalGeneration ← Decoder.u64
  let physicalStableKey ← Decoder.str
  let physicalModel ← Decoder.str
  let activeAttachments ← Decoder.u32
  let attachedToCaller ← Decoder.boolean
  let callerLease ← Decoder.u64
  let callerLeaseGeneration ← Decoder.u64
  let migrationClass ← decodeByte MigrationClass.liveStateTransfer
    "migration class is outside its domain"
  let migrationSupported ← Decoder.boolean
  let hasActiveMigration ← Decoder.boolean
  let allocatedBytes ← Decoder.u64
  let createdAt ← Decoder.i64
  let updatedAt ← Decoder.i64
  return { id, generation, name, state, stateGeneration, stateReason, owner, ownerGeneration,
           ownerIsCaller, contract, projection, multiplexing, isolationClass, transparency,
           backingDisclosed, backingClass, backingProvenance, backingMechanism, backing,
           backingGeneration, physical, physicalGeneration, physicalStableKey, physicalModel,
           activeAttachments, attachedToCaller, callerLease, callerLeaseGeneration, migrationClass,
           migrationSupported, hasActiveMigration, allocatedBytes, createdAt, updatedAt }

/-- `decode_view`. -/
def decodeView (bytes : Bytes) : Except Status VirtualView := valueOf bytes decodeViewFields

/-! ### Explanations -/

/-- What a caller is told about the isolation of a virtual accelerator: the claims of its backing,
sorted out by their states, and the requirements that they do not meet. -/
structure IsolationExplanation where
  id : VirtualAcceleratorId := 0
  generation : Generation := 0
  isolationClass : IsolationClass := .unknown
  provenance : Provenance := .unknown
  mechanism : Text := []
  multiplexing : MultiplexingMode := .none
  claims : List IsolationClaim := []
  isolated : List IsolationClaim := []
  partially : List IsolationClaim := []
  shared : List IsolationClaim := []
  unknown : List IsolationClaim := []
  unsupported : List IsolationClaim := []
  unmetRequirements : List IsolationRequirement := []
  satisfiesPolicy : Bool := false
  deriving DecidableEq

/-- The claims of an isolation explanation, counted. -/
def encodeClaims (claims : List IsolationClaim) : Bytes := Encoder.list claims encodeIsolationClaim

/-- One claim, with the refusals of the inspection codec. -/
def decodeClaim : Decode IsolationClaim := do
  let dimension ← decodeByte IsolationDimension.tenantState
    "isolation dimension is outside its domain"
  let state ← decodeByte IsolationState.isolated "isolation state is outside its domain"
  let evidence ← Decoder.u64
  let evidenceGen ← Decoder.u64
  let mechanism ← Decoder.str
  let rationale ← Decoder.str
  return { dimension, state, evidence, evidenceGen, mechanism, rationale }

/-- At most 64 claims. -/
def decodeClaims : Decode (List IsolationClaim) := decodeList 64 decodeClaim

/-- One unmet requirement of an isolation explanation. -/
def decodeUnmet : Decode IsolationRequirement := do
  let dimension ← decodeByte IsolationDimension.tenantState
    "isolation dimension is outside its domain"
  let minimum ← decodeByte IsolationState.isolated "isolation state is outside its domain"
  return { dimension, minimum }

/-- `encode_isolation_explanation`. -/
def encodeIsolationExplanation (v : IsolationExplanation) : Bytes :=
  [Encoder.u64 v.id,
    Encoder.u64 v.generation,
    encodeEnum v.isolationClass,
    encodeEnum v.provenance,
    Encoder.str v.mechanism,
    encodeEnum v.multiplexing,
    Encoder.boolean v.satisfiesPolicy,
    encodeClaims v.claims,
    encodeClaims v.isolated,
    encodeClaims v.partially,
    encodeClaims v.shared,
    encodeClaims v.unknown,
    encodeClaims v.unsupported,
    Encoder.list v.unmetRequirements encodeRequirement].flatten

/-- The fields of an isolation explanation in the order they are written. -/
def decodeIsolationFields : Decode IsolationExplanation := do
  let id ← Decoder.u64
  let generation ← Decoder.u64
  let isolationClass ← decodeByte IsolationClass.synthetic "isolation class is outside its domain"
  let provenance ← decodeByte Provenance.unsupported "provenance is outside its domain"
  let mechanism ← Decoder.str
  let multiplexing ← decodeByte MultiplexingMode.synthetic "multiplexing mode is outside its domain"
  let satisfiesPolicy ← Decoder.boolean
  let claims ← decodeClaims
  let isolated ← decodeClaims
  let partially ← decodeClaims
  let shared ← decodeClaims
  let unknown ← decodeClaims
  let unsupported ← decodeClaims
  let unmetRequirements ← decodeList 64 decodeUnmet
  return { id, generation, isolationClass, provenance, mechanism, multiplexing, claims, isolated,
           partially, shared, unknown, unsupported, unmetRequirements, satisfiesPolicy }

/-- `decode_isolation_explanation`. -/
def decodeIsolationExplanation (bytes : Bytes) : Except Status IsolationExplanation :=
  valueOf bytes decodeIsolationFields

/-- What a caller is told about migrating a virtual accelerator. -/
structure MigrationExplanation where
  id : VirtualAcceleratorId := 0
  supported : Bool := false
  klass : MigrationClass := .unknown
  reason : Text := []
  stateTransferRequired : Bool := false
  liveStateMovement : Bool := false
  hasActiveMigration : Bool := false
  state : MigrationState := .planned
  deriving DecidableEq

/-- `encode_migration_explanation`. -/
def encodeMigrationExplanation (v : MigrationExplanation) : Bytes :=
  [Encoder.u64 v.id,
    Encoder.boolean v.supported,
    encodeEnum v.klass,
    Encoder.str v.reason,
    Encoder.boolean v.stateTransferRequired,
    Encoder.boolean v.liveStateMovement,
    Encoder.boolean v.hasActiveMigration,
    encodeEnum v.state].flatten

/-- The fields of a migration explanation in the order they are written. -/
def decodeMigrationFields : Decode MigrationExplanation := do
  let id ← Decoder.u64
  let supported ← Decoder.boolean
  let klass ← decodeByte MigrationClass.liveStateTransfer "migration class is outside its domain"
  let reason ← Decoder.str
  let stateTransferRequired ← Decoder.boolean
  let liveStateMovement ← Decoder.boolean
  let hasActiveMigration ← Decoder.boolean
  let state ← decodeByte MigrationState.failed "migration state is outside its domain"
  return { id, supported, klass, reason, stateTransferRequired, liveStateMovement,
           hasActiveMigration, state }

/-- `decode_migration_explanation`. -/
def decodeMigrationExplanation (bytes : Bytes) : Except Status MigrationExplanation :=
  valueOf bytes decodeMigrationFields

/-! ### Counters -/

/-- `encode_accounting`. -/
def encodeAccounting (counters : AccountingCounters) : Bytes := encodeCounters counters

/-- `decode_accounting`. -/
def decodeAccounting (bytes : Bytes) : Except Status AccountingCounters :=
  valueOf bytes decodeCounters

/-! ### What is encoded is decoded -/

variable {c : Nesting}

/-- An enumerator of one byte is read back. -/
theorem reads_byte {α : Type} [Enumeration α] {last : α} [LastEnumerator α last]
    {refusal : String} (a : α) : Reads c (decodeByte last refusal) (encodeEnum a) a := by
  have hword : Word 8 (value a) := lt_of_le_of_lt (LastEnumerator.le a) LastEnumerator.byte
  exact (reads_u8 hword).last (reads_within a)

/-- What is read off the front of a stream is the value of the stream. -/
theorem valueOf_of_reads {α : Type} {decode : Decode α} {bytes : Bytes} {v : α}
    (h : Reads {} decode bytes v) : valueOf bytes decode = .ok v := by
  have hwhole := decodeWhole_of_reads h
  exact congrArg (Except.map Prod.fst) hwhole

/-- A view whose fields fit what its codec writes and accepts. -/
structure VirtualView.Fits (c : Nesting) (v : VirtualView) : Prop where
  subject : [v.id, v.generation, v.stateGeneration, v.owner, v.ownerGeneration].Forall (Word 64)
  places : [v.backing, v.backingGeneration, v.physical, v.physicalGeneration].Forall (Word 64)
  usage : [v.callerLease, v.callerLeaseGeneration, v.allocatedBytes].Forall (Word 64)
  activeAttachments : Word 32 v.activeAttachments
  texts : [v.name, v.stateReason, v.backingMechanism, v.physicalStableKey, v.physicalModel].Forall
    (Short c.limits)
  contract : v.contract.Fits c
  projection : v.projection.Fits c
  times : [v.createdAt, v.updatedAt].Forall Signed64

/-- A view that fits is read back. -/
theorem reads_view {v : VirtualView} (h : v.Fits c) :
    Reads c decodeViewFields (encodeView v) v := by
  obtain ⟨hid, hgeneration, hstateGeneration, howner, hownerGeneration⟩ := h.subject
  obtain ⟨hbacking, hbackingGeneration, hphysical, hphysicalGeneration⟩ := h.places
  obtain ⟨hlease, hleaseGeneration, hallocated⟩ := h.usage
  obtain ⟨hname, hreason, hmechanism, hkey, hmodel⟩ := h.texts
  obtain ⟨hcreated, hupdated⟩ := h.times
  exact (reads_u64 hid).cons <| (reads_u64 hgeneration).cons <| (reads_str hname).cons <|
    (reads_byte _).cons <| (reads_u64 hstateGeneration).cons <| (reads_str hreason).cons <|
    (reads_u64 howner).cons <| (reads_u64 hownerGeneration).cons <| (reads_boolean _).cons <|
    (reads_contract h.contract).cons <| (reads_projection h.projection).cons <|
    (reads_byte _).cons <| (reads_byte _).cons <| (reads_byte _).cons <| (reads_boolean _).cons <|
    (reads_byte _).cons <| (reads_byte _).cons <| (reads_str hmechanism).cons <|
    (reads_u64 hbacking).cons <| (reads_u64 hbackingGeneration).cons <|
    (reads_u64 hphysical).cons <| (reads_u64 hphysicalGeneration).cons <| (reads_str hkey).cons <|
    (reads_str hmodel).cons <| (reads_u32 h.activeAttachments).cons <| (reads_boolean _).cons <|
    (reads_u64 hlease).cons <| (reads_u64 hleaseGeneration).cons <| (reads_byte _).cons <|
    (reads_boolean _).cons <| (reads_boolean _).cons <| (reads_u64 hallocated).cons <|
    (reads_i64 hcreated).cons <| (reads_i64 hupdated).cons reads_pure

/-- A claim that fits is read back. -/
theorem reads_claim {claim : IsolationClaim} (h : claim.Fits c.limits) :
    Reads c decodeClaim (encodeIsolationClaim claim) claim := by
  obtain ⟨hevidence, hgeneration⟩ := h.words
  obtain ⟨hmechanism, hrationale⟩ := h.texts
  exact (reads_byte _).cons <| (reads_byte _).cons <| (reads_u64 hevidence).cons <|
    (reads_u64 hgeneration).cons <| (reads_str hmechanism).cons <|
    (reads_str hrationale).cons reads_pure

/-- At most 64 claims, each of which fits. -/
structure ClaimsFit (c : Nesting) (claims : List IsolationClaim) : Prop where
  listed : Listed c 64 claims.length
  claims : ∀ claim ∈ claims, claim.Fits c.limits

/-- Claims that fit are read back. -/
theorem reads_claims {claims : List IsolationClaim} (h : ClaimsFit c claims) :
    Reads c decodeClaims (encodeClaims claims) claims :=
  reads_list h.listed (fun claim hc => reads_claim (h.claims claim hc)) fun claim _ =>
    List.append_ne_nil_of_left_ne_nil (encodeEnum_ne_nil claim.dimension) _

/-- An unmet requirement is read back. -/
theorem reads_unmet (r : IsolationRequirement) :
    Reads c decodeUnmet (encodeRequirement r) r :=
  (reads_byte r.dimension).cons <| (reads_byte r.minimum).cons reads_pure

/-- An isolation explanation whose fields fit what its codec writes and accepts. -/
structure IsolationExplanation.Fits (c : Nesting) (v : IsolationExplanation) : Prop where
  words : [v.id, v.generation].Forall (Word 64)
  mechanism : Short c.limits v.mechanism
  claims : [v.claims, v.isolated, v.partially, v.shared, v.unknown, v.unsupported].Forall
    (ClaimsFit c)
  unmet : Listed c 64 v.unmetRequirements.length

/-- An isolation explanation that fits is read back. -/
theorem reads_isolationExplanation {v : IsolationExplanation} (h : v.Fits c) :
    Reads c decodeIsolationFields (encodeIsolationExplanation v) v := by
  obtain ⟨hid, hgeneration⟩ := h.words
  obtain ⟨hclaims, hisolated, hpartially, hshared, hunknown, hunsupported⟩ := h.claims
  have hunmet : Reads c (decodeList 64 decodeUnmet)
      (Encoder.list v.unmetRequirements encodeRequirement) v.unmetRequirements :=
    reads_list h.unmet (fun r _ => reads_unmet r) fun r _ =>
      List.append_ne_nil_of_left_ne_nil (encodeEnum_ne_nil r.dimension) _
  exact (reads_u64 hid).cons <| (reads_u64 hgeneration).cons <| (reads_byte _).cons <|
    (reads_byte _).cons <| (reads_str h.mechanism).cons <| (reads_byte _).cons <|
    (reads_boolean _).cons <| (reads_claims hclaims).cons <| (reads_claims hisolated).cons <|
    (reads_claims hpartially).cons <| (reads_claims hshared).cons <| (reads_claims hunknown).cons <|
    (reads_claims hunsupported).cons <| hunmet.cons reads_pure

/-- A migration explanation whose fields fit what its codec writes and accepts. -/
structure MigrationExplanation.Fits (limits : DecodeLimits) (v : MigrationExplanation) : Prop where
  id : Word 64 v.id
  reason : Short limits v.reason

/-- A migration explanation that fits is read back. -/
theorem reads_migrationExplanation {v : MigrationExplanation} (h : v.Fits c.limits) :
    Reads c decodeMigrationFields (encodeMigrationExplanation v) v :=
  (reads_u64 h.id).cons <| (reads_boolean _).cons <| (reads_byte _).cons <|
    (reads_str h.reason).cons <| (reads_boolean _).cons <| (reads_boolean _).cons <|
    (reads_boolean _).cons <| (reads_byte _).cons reads_pure

end AcceleratorVirtualization
