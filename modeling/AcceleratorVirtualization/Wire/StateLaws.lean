import AcceleratorVirtualization.Wire.RecordLaws
import AcceleratorVirtualization.Wire.StateCodec

/-!
# The durable state is read back

Every record that fits a decoder is read back, and a snapshot of a state whose records fit and are
kept under their own identities is read back as the state.
-/

namespace AcceleratorVirtualization

open Enumeration (value)
open Reader Decoder

variable {c : Nesting}

/-- A stored enumerator is read back. -/
theorem reads_stored {α : Type} [Enumeration α] {last : α} [LastEnumerator α last]
    {refusal : String} (a : α) : Reads c (decodeStored last refusal) (encodeEnum a) a := by
  have hword : Word 8 (value a) := lt_of_le_of_lt (LastEnumerator.le a) LastEnumerator.byte
  exact (reads_u8 hword).last (reads_within a)

/-- Identities that are stored: sorted words, no more than a decoder takes. -/
structure StoredIds (c : Nesting) (ids : List ℕ) : Prop where
  listed : Listed c (2 ^ 22) ids.length
  words : ∀ id ∈ ids, Word 64 id
  sorted : ids.Pairwise (· ≤ ·)

/-- A list of identities is read back. -/
theorem reads_ids {ids : List ℕ} (h : StoredIds c ids) :
    Reads c decodeIds (Encoder.list ids Encoder.u64) ids := by
  have hlist : Reads c (decodeList (2 ^ 22) Decoder.u64) (Encoder.list ids Encoder.u64) ids :=
    reads_list h.listed (fun id hid => reads_u64 (h.words id hid)) fun id _ =>
      List.ne_nil_of_length_pos (by simp [Encoder.u64])
  refine hlist.last ?_
  rw [List.Pairwise.insertionSort_eq h.sorted]
  exact reads_pure

/-! ### The header -/

theorem AccountingCounters.ofList_toList (a : AccountingCounters) : ofList a.toList = a := rfl

/-- The part of a state that the header holds. -/
def VirtualizationState.header (s : VirtualizationState) : VirtualizationState where
  schema := s.schema
  nextSequence := s.nextSequence
  epoch := s.epoch
  policyGeneration := s.policyGeneration
  policy := s.policy
  accounting := s.accounting

/-- The widths and limits of the header fields of a state. -/
structure VirtualizationState.HeaderFits (c : Nesting) (s : VirtualizationState) : Prop where
  schema : Word 32 s.schema
  words : [s.nextSequence, s.epoch, s.policyGeneration].Forall (Word 64)
  policy : s.policy.Fits c
  counters : ∀ n ∈ s.accounting.toList, Word 64 n

/-- Counters that fit are read back. -/
theorem reads_counters {a : AccountingCounters} (h : ∀ n ∈ a.toList, Word 64 n) :
    Reads c decodeCounters (encodeCounters a) a := by
  have hlength : a.toList.length = 39 := rfl
  have hcounters := reads_times fun n hn => @reads_u64 c n (h n hn)
  rw [hlength] at hcounters
  refine hcounters.last ?_
  rw [AccountingCounters.ofList_toList]
  exact reads_pure

/-- A header that fits is read back. -/
theorem reads_header {s : VirtualizationState} (h : s.HeaderFits c) :
    Reads c decodeHeader (encodeHeader s) s.header := by
  obtain ⟨hsequence, hepoch, hgeneration⟩ := h.words
  exact (reads_u32 h.schema).cons <| (reads_u64 hsequence).cons <| (reads_u64 hepoch).cons <|
    (reads_u64 hgeneration).cons <| (reads_policy h.policy).cons <|
    (reads_counters h.counters).cons reads_pure

/-! ### Records -/

/-- The widths and limits of a tenant. -/
structure TenantRecord.Fits (c : Nesting) (r : TenantRecord) : Prop where
  words : [r.id, r.generation].Forall (Word 64)
  texts : [r.name, r.externalSubject, r.fenceReason].Forall (Short c.limits)
  times : [r.createdAt, r.updatedAt].Forall Signed64
  activeAttachments : Word 32 r.activeAttachments
  owned : StoredIds c r.owned

/-- A tenant that fits is read back. -/
theorem reads_tenant {r : TenantRecord} (h : r.Fits c) :
    Reads c decodeTenant (encodeTenant r) r := by
  obtain ⟨hid, hgeneration⟩ := h.words
  obtain ⟨hname, hsubject, hreason⟩ := h.texts
  obtain ⟨hcreated, hupdated⟩ := h.times
  exact (reads_u64 hid).cons <| (reads_u64 hgeneration).cons <| (reads_str hname).cons <|
    (reads_str hsubject).cons <| (reads_i64 hcreated).cons <| (reads_i64 hupdated).cons <|
    (reads_boolean _).cons <| (reads_str hreason).cons <| (reads_u32 h.activeAttachments).cons <|
    (reads_ids h.owned).cons reads_pure

/-- The widths and limits of a device. -/
structure PhysicalDeviceRecord.Fits (c : Nesting) (r : PhysicalDeviceRecord) : Prop where
  words : [r.id, r.generation, r.agent, r.boot, r.memoryTotalBytes, r.evidence,
    r.evidenceGeneration].Forall (Word 64)
  halves : [r.computeUnits, r.computeCapabilityMajor, r.computeCapabilityMinor].Forall (Word 32)
  texts : [r.stableKey, r.vendor, r.model, r.driverVersion, r.architecture, r.mechanism].Forall
    (Short c.limits)
  times : [r.registeredAt, r.evidenceAt].Forall Signed64
  backings : StoredIds c r.backings

/-- A device that fits is read back. -/
theorem reads_physical {r : PhysicalDeviceRecord} (h : r.Fits c) :
    Reads c decodePhysical (encodePhysical r) r := by
  obtain ⟨hid, hgeneration, hagent, hboot, hmemory, hevidence, hevidenceGeneration⟩ := h.words
  obtain ⟨hunits, hmajor, hminor⟩ := h.halves
  obtain ⟨hkey, hvendor, hmodel, hdriver, harchitecture, hmechanism⟩ := h.texts
  obtain ⟨hregistered, hevidenceAt⟩ := h.times
  exact (reads_u64 hid).cons <| (reads_u64 hgeneration).cons <| (reads_u64 hagent).cons <|
    (reads_u64 hboot).cons <| (reads_str hkey).cons <| (reads_str hvendor).cons <|
    (reads_str hmodel).cons <| (reads_str hdriver).cons <| (reads_str harchitecture).cons <|
    (reads_stored _).cons <| (reads_u64 hmemory).cons <| (reads_u32 hunits).cons <|
    (reads_u32 hmajor).cons <| (reads_u32 hminor).cons <| (reads_str hmechanism).cons <|
    (reads_boolean _).cons <| (reads_boolean _).cons <| (reads_boolean _).cons <|
    (reads_i64 hregistered).cons <| (reads_i64 hevidenceAt).cons <| (reads_u64 hevidence).cons <|
    (reads_u64 hevidenceGeneration).cons <| (reads_boolean _).cons <|
    (reads_ids h.backings).cons reads_pure

/-- The widths and limits of a backing. -/
structure BackingRecord.Fits (c : Nesting) (r : BackingRecord) : Prop where
  words : [r.id, r.generation, r.physical, r.physicalGeneration, r.capacityBytes, r.evidence,
    r.evidenceGeneration, r.assignedTo, r.activeAssignment, r.assignedGeneration].Forall (Word 64)
  halves : [r.computeUnits, r.capabilityRank].Forall (Word 32)
  texts : [r.label, r.mechanism, r.externalPartitionRef].Forall (Short c.limits)
  isolation : r.isolation.Fits c
  capabilities : r.capabilities.Fits c
  evidenceAt : Signed64 r.evidenceAt

/-- A backing that fits is read back. -/
theorem reads_backing {r : BackingRecord} (h : r.Fits c) :
    Reads c decodeBacking (encodeBacking r) r := by
  obtain ⟨hid, hgeneration, hphysical, hphysicalGeneration, hcapacity, hevidence,
    hevidenceGeneration, hassignedTo, hassignment, hassigned⟩ := h.words
  obtain ⟨hunits, hrank⟩ := h.halves
  obtain ⟨hlabel, hmechanism, hreference⟩ := h.texts
  exact (reads_u64 hid).cons <| (reads_u64 hgeneration).cons <| (reads_u64 hphysical).cons <|
    (reads_u64 hphysicalGeneration).cons <| (reads_stored _).cons <| (reads_stored _).cons <|
    (reads_str hlabel).cons <| (reads_str hmechanism).cons <| (reads_stored _).cons <|
    (reads_stored _).cons <| (reads_isolationProfile h.isolation).cons <|
    (reads_capabilitySurface h.capabilities).cons <| (reads_u64 hcapacity).cons <|
    (reads_u32 hunits).cons <| (reads_u32 hrank).cons <| (reads_u64 hevidence).cons <|
    (reads_u64 hevidenceGeneration).cons <| (reads_i64 h.evidenceAt).cons <|
    (reads_boolean _).cons <| (reads_boolean _).cons <| (reads_boolean _).cons <|
    (reads_boolean _).cons <| (reads_str hreference).cons <| (reads_u64 hassignedTo).cons <|
    (reads_u64 hassignment).cons <| (reads_u64 hassigned).cons reads_pure

/-- The widths and limits of one entry of a history. -/
structure BackingHistoryEntry.Fits (limits : DecodeLimits) (entry : BackingHistoryEntry) :
    Prop where
  words : [entry.assignment, entry.backing, entry.backingGeneration, entry.physical,
    entry.physicalGeneration].Forall (Word 64)
  times : [entry.from_, entry.to_].Forall Signed64
  reason : Short limits entry.reason

/-- An entry of a history that fits is read back. -/
theorem reads_backingHistory {entry : BackingHistoryEntry} (h : entry.Fits c.limits) :
    Reads c decodeBackingHistory (encodeBackingHistory entry) entry := by
  obtain ⟨hassignment, hbacking, hbackingGeneration, hphysical, hphysicalGeneration⟩ := h.words
  obtain ⟨hfrom, hto⟩ := h.times
  exact (reads_u64 hassignment).cons <| (reads_u64 hbacking).cons <|
    (reads_u64 hbackingGeneration).cons <| (reads_u64 hphysical).cons <|
    (reads_u64 hphysicalGeneration).cons <| (reads_stored _).cons <| (reads_stored _).cons <|
    (reads_i64 hfrom).cons <| (reads_i64 hto).cons <| (reads_boolean _).cons <|
    (reads_str h.reason).cons reads_pure

/-- The widths and limits of a virtual accelerator. -/
structure VirtualAcceleratorRecord.Fits (c : Nesting) (r : VirtualAcceleratorRecord) : Prop where
  identity : [r.id, r.generation, r.owner, r.ownerGeneration, r.stateGeneration].Forall (Word 64)
  binding : [r.assignment, r.backing, r.backingGeneration, r.physical, r.physicalGeneration,
    r.policyGeneration, r.epoch, r.migration, r.migrationGeneration].Forall (Word 64)
  usage : [r.allocatedBytes, r.peakAllocatedBytes, r.allocationOperations,
    r.kernelOperations].Forall (Word 64)
  texts : [r.name, r.stateReason, r.retirementReason].Forall (Short c.limits)
  times : [r.createdAt, r.updatedAt, r.retiredAt].Forall Signed64
  activeAttachments : Word 32 r.activeAttachments
  contract : r.contract.Fits c
  projection : r.projection.Fits c
  isolation : r.isolation.Fits c
  leases : StoredIds c r.leases
  history : Listed c (2 ^ 22) r.backingHistory.length
  entries : ∀ entry ∈ r.backingHistory, entry.Fits c.limits

/-- A virtual accelerator that fits is read back. -/
theorem reads_virtual {r : VirtualAcceleratorRecord} (h : r.Fits c) :
    Reads c decodeVirtual (encodeVirtual r) r := by
  obtain ⟨hid, hgeneration, howner, hownerGeneration, hstateGeneration⟩ := h.identity
  obtain ⟨hassignment, hbacking, hbackingGeneration, hphysical, hphysicalGeneration, hpolicy,
    hepoch, hmigration, hmigrationGeneration⟩ := h.binding
  obtain ⟨hallocated, hpeak, hallocations, hkernels⟩ := h.usage
  obtain ⟨hname, hreason, hretirement⟩ := h.texts
  obtain ⟨hcreated, hupdated, hretired⟩ := h.times
  have hhistory : Reads c (decodeList (2 ^ 22) decodeBackingHistory)
      (Encoder.list r.backingHistory encodeBackingHistory) r.backingHistory :=
    reads_list h.history (fun entry he => reads_backingHistory (h.entries entry he)) fun entry _ =>
      List.ne_nil_of_length_pos (by simp [encodeBackingHistory, Encoder.u64])
  exact (reads_u64 hid).cons <| (reads_u64 hgeneration).cons <| (reads_str hname).cons <|
    (reads_u64 howner).cons <| (reads_u64 hownerGeneration).cons <| (reads_stored _).cons <|
    (reads_u64 hstateGeneration).cons <| (reads_str hreason).cons <|
    (reads_contract h.contract).cons <| (reads_projection h.projection).cons <|
    (reads_u64 hassignment).cons <| (reads_u64 hbacking).cons <|
    (reads_u64 hbackingGeneration).cons <| (reads_u64 hphysical).cons <|
    (reads_u64 hphysicalGeneration).cons <| (reads_stored _).cons <| (reads_stored _).cons <|
    (reads_stored _).cons <| (reads_isolationProfile h.isolation).cons <|
    (reads_u64 hpolicy).cons <| (reads_u64 hepoch).cons <| (reads_u64 hmigration).cons <|
    (reads_u64 hmigrationGeneration).cons <| (reads_i64 hcreated).cons <|
    (reads_i64 hupdated).cons <| (reads_i64 hretired).cons <| (reads_str hretirement).cons <|
    (reads_u64 hallocated).cons <| (reads_u64 hpeak).cons <| (reads_u64 hallocations).cons <|
    (reads_u64 hkernels).cons <| (reads_u32 h.activeAttachments).cons <|
    (reads_ids h.leases).cons <| hhistory.cons reads_pure

/-- The widths and limits of a lease. -/
structure LeaseRecord.Fits (limits : DecodeLimits) (r : LeaseRecord) : Prop where
  words : [r.id, r.generation, r.virtualId, r.virtualGeneration, r.tenant, r.tenantGeneration,
    r.backingGeneration, r.physicalGeneration, r.policyGeneration, r.epoch,
    r.grantRequest].Forall (Word 64)
  times : [r.grantedAt, r.renewedAt, r.expiresAt, r.revokedAt].Forall Signed64
  renewals : Word 32 r.renewals
  reason : Short limits r.reason

/-- A lease that fits is read back. -/
theorem reads_lease {r : LeaseRecord} (h : r.Fits c.limits) :
    Reads c decodeLease (encodeLease r) r := by
  obtain ⟨hid, hgeneration, hvirtual, hvirtualGeneration, htenant, htenantGeneration, hbacking,
    hphysical, hpolicy, hepoch, hrequest⟩ := h.words
  obtain ⟨hgranted, hrenewed, hexpires, hrevoked⟩ := h.times
  exact (reads_u64 hid).cons <| (reads_u64 hgeneration).cons <| (reads_u64 hvirtual).cons <|
    (reads_u64 hvirtualGeneration).cons <| (reads_u64 htenant).cons <|
    (reads_u64 htenantGeneration).cons <| (reads_u64 hbacking).cons <| (reads_u64 hphysical).cons <|
    (reads_u64 hpolicy).cons <| (reads_u64 hepoch).cons <| (reads_u64 hrequest).cons <|
    (reads_stored _).cons <| (reads_i64 hgranted).cons <| (reads_i64 hrenewed).cons <|
    (reads_i64 hexpires).cons <| (reads_i64 hrevoked).cons <| (reads_u32 h.renewals).cons <|
    (reads_str h.reason).cons reads_pure

/-- The widths and limits of an assignment. -/
structure BackingAssignment.Fits (limits : DecodeLimits) (r : BackingAssignment) : Prop where
  words : [r.id, r.virtualId, r.virtualGeneration, r.backing, r.backingGeneration, r.physical,
    r.physicalGeneration, r.tenant, r.tenantGeneration, r.policyGeneration,
    r.contractGeneration, r.projectionGeneration, r.epoch].Forall (Word 64)
  times : [r.proposedAt, r.committedAt, r.revokedAt].Forall Signed64
  reason : Short limits r.reason

/-- An assignment that fits is read back. -/
theorem reads_assignment {r : BackingAssignment} (h : r.Fits c.limits) :
    Reads c decodeAssignment (encodeAssignment r) r := by
  obtain ⟨hid, hvirtual, hvirtualGeneration, hbacking, hbackingGeneration, hphysical,
    hphysicalGeneration, htenant, htenantGeneration, hpolicy, hcontract, hprojection,
    hepoch⟩ := h.words
  obtain ⟨hproposed, hcommitted, hrevoked⟩ := h.times
  exact (reads_u64 hid).cons <| (reads_u64 hvirtual).cons <| (reads_u64 hvirtualGeneration).cons <|
    (reads_u64 hbacking).cons <| (reads_u64 hbackingGeneration).cons <|
    (reads_u64 hphysical).cons <| (reads_u64 hphysicalGeneration).cons <|
    (reads_u64 htenant).cons <| (reads_u64 htenantGeneration).cons <| (reads_u64 hpolicy).cons <|
    (reads_u64 hcontract).cons <| (reads_u64 hprojection).cons <| (reads_u64 hepoch).cons <|
    (reads_stored _).cons <| (reads_boolean _).cons <| (reads_i64 hproposed).cons <|
    (reads_i64 hcommitted).cons <| (reads_i64 hrevoked).cons <| (reads_str h.reason).cons reads_pure

/-- The widths and limits of a migration. -/
structure MigrationRecord.Fits (limits : DecodeLimits) (r : MigrationRecord) : Prop where
  plan : r.plan.Fits limits
  words : [r.sourceAssignment, r.destinationAssignment,
    r.destinationProjectionGeneration].Forall (Word 64)
  times : [r.plannedAt, r.preparedAt, r.committedAt, r.completedAt].Forall Signed64
  note : Short limits r.note

/-- A migration that fits is read back. -/
theorem reads_migration {r : MigrationRecord} (h : r.Fits c.limits) :
    Reads c decodeMigration (encodeMigration r) r := by
  obtain ⟨hsource, hdestination, hprojection⟩ := h.words
  obtain ⟨hplanned, hprepared, hcommitted, hcompleted⟩ := h.times
  exact (reads_migrationPlan h.plan).cons <| (reads_stored _).cons <| (reads_boolean _).cons <|
    (reads_boolean _).cons <| (reads_boolean _).cons <| (reads_u64 hsource).cons <|
    (reads_u64 hdestination).cons <| (reads_u64 hprojection).cons <| (reads_i64 hplanned).cons <|
    (reads_i64 hprepared).cons <| (reads_i64 hcommitted).cons <| (reads_i64 hcompleted).cons <|
    (reads_str h.note).cons reads_pure

/-- The widths and limits of a piece of evidence. -/
structure EvidenceRecord.Fits (limits : DecodeLimits) (r : EvidenceRecord) : Prop where
  words : [r.id, r.generation, r.agent, r.boot, r.physical, r.physicalGeneration, r.backing,
    r.backingGeneration, r.payloadFingerprint].Forall (Word 64)
  producedAt : Signed64 r.producedAt
  texts : [r.mechanism, r.detail].Forall (Short limits)

/-- A piece of evidence that fits is read back. -/
theorem reads_evidence {r : EvidenceRecord} (h : r.Fits c.limits) :
    Reads c decodeEvidence (encodeEvidence r) r := by
  obtain ⟨hid, hgeneration, hagent, hboot, hphysical, hphysicalGeneration, hbacking,
    hbackingGeneration, hfingerprint⟩ := h.words
  obtain ⟨hmechanism, hdetail⟩ := h.texts
  exact (reads_u64 hid).cons <| (reads_u64 hgeneration).cons <| (reads_stored _).cons <|
    (reads_stored _).cons <| (reads_u64 hagent).cons <| (reads_u64 hboot).cons <|
    (reads_u64 hphysical).cons <| (reads_u64 hphysicalGeneration).cons <|
    (reads_u64 hbacking).cons <| (reads_u64 hbackingGeneration).cons <|
    (reads_i64 h.producedAt).cons <| (reads_u64 hfingerprint).cons <| (reads_str hmechanism).cons <|
    (reads_str hdetail).cons reads_pure

/-! ### The tails -/

/-- The widths and limits of an audit entry. -/
structure AuditEntry.Fits (limits : DecodeLimits) (entry : AuditEntry) : Prop where
  words : [entry.id, entry.epoch, entry.virtualId, entry.virtualGeneration, entry.tenant,
    entry.tenantGeneration, entry.backing, entry.backingGeneration, entry.migration,
    entry.migrationGeneration].Forall (Word 64)
  at_ : Signed64 entry.at_
  outcome : Word 32 entry.outcome.value
  texts : [entry.operation, entry.detail].Forall (Short limits)

/-- An audit entry that fits is read back. -/
theorem reads_audit {entry : AuditEntry} (h : entry.Fits c.limits) :
    Reads c decodeAudit (encodeAudit entry) entry := by
  obtain ⟨hid, hepoch, hvirtual, hvirtualGeneration, htenant, htenantGeneration, hbacking,
    hbackingGeneration, hmigration, hmigrationGeneration⟩ := h.words
  obtain ⟨hoperation, hdetail⟩ := h.texts
  refine (reads_u64 hid).cons <| (reads_i64 h.at_).cons <| (reads_stored _).cons <|
    (reads_str hoperation).cons <| (reads_u32 h.outcome).cons <| (reads_str hdetail).cons <|
    (reads_u64 hepoch).cons <| (reads_u64 hvirtual).cons <| (reads_u64 hvirtualGeneration).cons <|
    (reads_u64 htenant).cons <| (reads_u64 htenantGeneration).cons <| (reads_u64 hbacking).cons <|
    (reads_u64 hbackingGeneration).cons <| (reads_u64 hmigration).cons <|
    (reads_u64 hmigrationGeneration).cons ?_
  rw [StatusCode.ofValue_value]
  exact reads_pure

/-- The widths and limits of a decision. -/
structure Decision.Fits (limits : DecodeLimits) (decision : Decision) : Prop where
  subject : [decision.id, decision.epoch, decision.virtualId, decision.virtualGeneration,
    decision.tenant, decision.tenantGeneration, decision.backing, decision.backingGeneration,
    decision.physical, decision.physicalGeneration].Forall (Word 64)
  bounds : [decision.lease, decision.leaseGeneration, decision.policyGeneration,
    decision.migration, decision.migrationGeneration, decision.request].Forall (Word 64)
  at_ : Signed64 decision.at_
  outcome : Word 32 decision.outcome.value
  texts : [decision.operation, decision.reason].Forall (Short limits)

/-- A decision that fits is read back. -/
theorem reads_decision {decision : Decision} (h : decision.Fits c.limits) :
    Reads c decodeDecision (encodeDecision decision) decision := by
  obtain ⟨hid, hepoch, hvirtual, hvirtualGeneration, htenant, htenantGeneration, hbacking,
    hbackingGeneration, hphysical, hphysicalGeneration⟩ := h.subject
  obtain ⟨hlease, hleaseGeneration, hpolicy, hmigration, hmigrationGeneration,
    hrequest⟩ := h.bounds
  obtain ⟨hoperation, hreason⟩ := h.texts
  refine (reads_u64 hid).cons <| (reads_i64 h.at_).cons <| (reads_str hoperation).cons <|
    (reads_u32 h.outcome).cons <| (reads_str hreason).cons <| (reads_u64 hepoch).cons <|
    (reads_u64 hvirtual).cons <| (reads_u64 hvirtualGeneration).cons <| (reads_u64 htenant).cons <|
    (reads_u64 htenantGeneration).cons <| (reads_u64 hbacking).cons <|
    (reads_u64 hbackingGeneration).cons <| (reads_u64 hphysical).cons <|
    (reads_u64 hphysicalGeneration).cons <| (reads_u64 hlease).cons <|
    (reads_u64 hleaseGeneration).cons <| (reads_u64 hpolicy).cons <| (reads_u64 hmigration).cons <|
    (reads_u64 hmigrationGeneration).cons <| (reads_u64 hrequest).cons ?_
  rw [StatusCode.ofValue_value]
  exact reads_pure

/-- The widths and limits of the outcome of a request. -/
structure RequestOutcomeRecord.Fits (limits : DecodeLimits) (r : RequestOutcomeRecord) :
    Prop where
  words : [r.request, r.session].Forall (Word 64)
  operation : Short limits r.operation
  outcome : Word 32 r.outcome.value
  at_ : Signed64 r.at_

/-- A request outcome that fits is read back. -/
theorem reads_requestOutcome {r : RequestOutcomeRecord} (h : r.Fits c.limits) :
    Reads c decodeRequestOutcome (encodeRequestOutcome r) r := by
  obtain ⟨hrequest, hsession⟩ := h.words
  refine (reads_u64 hrequest).cons <| (reads_u64 hsession).cons <| (reads_str h.operation).cons <|
    (reads_u32 h.outcome).cons <| (reads_i64 h.at_).cons ?_
  rw [StatusCode.ofValue_value]
  exact reads_pure

/-! ### Snapshots -/

/-- A record of a kind fits. -/
def RecordKind.Fits (c : Nesting) : (k : RecordKind) → k.Record → Prop
  | .tenant => TenantRecord.Fits c
  | .physical => PhysicalDeviceRecord.Fits c
  | .backing => BackingRecord.Fits c
  | .virtual => VirtualAcceleratorRecord.Fits c
  | .lease => LeaseRecord.Fits c.limits
  | .assignment => BackingAssignment.Fits c.limits
  | .migration => MigrationRecord.Fits c.limits
  | .evidence => EvidenceRecord.Fits c.limits

/-- A record of any kind that fits is read back. -/
theorem reads_record {k : RecordKind} {r : k.Record} (h : k.Fits c r) :
    Reads c (decodeRecord k) (encodeRecord k r) r := by
  cases k with
  | tenant => exact reads_tenant h
  | physical => exact reads_physical h
  | backing => exact reads_backing h
  | virtual => exact reads_virtual h
  | lease => exact reads_lease h
  | assignment => exact reads_assignment h
  | migration => exact reads_migration h
  | evidence => exact reads_evidence h

/-- A record is written as something. -/
theorem encodeRecord_ne_nil (k : RecordKind) (r : k.Record) : encodeRecord k r ≠ [] := by
  have hword : ∀ (n : ℕ) (words : List Bytes), (Encoder.u64 n :: words).flatten ≠ [] := by
    intro n words
    exact List.append_ne_nil_of_left_ne_nil
      (List.ne_nil_of_length_pos (by simp [Encoder.u64])) _
  cases k with
  | migration => exact List.append_ne_nil_of_left_ne_nil (hword _ _) _
  | _ => exact hword _ _

/-- Emplacing the entries of a map one after the other, under identities they have themselves. -/
theorem getElem?_foldl_emplace {α : Type} {idOf : α → ℕ} {entries : List (ℕ × α)}
    (h : ∀ entry ∈ entries, idOf entry.2 = entry.1) (m : IdMap α) (id : ℕ) :
    ((entries.map Prod.snd).foldl (fun m r => m.insertIfNew (idOf r) r) m)[id]? =
      m[id]?.or ((entries.find? fun entry => entry.1 = id).map Prod.snd) := by
  induction entries generalizing m with
  | nil => simp
  | cons entry entries ih =>
    rw [List.forall_mem_cons] at h
    rw [List.map_cons, List.foldl_cons, ih h.2, Std.ExtTreeMap.getElem?_insertIfNew, h.1,
      List.find?_cons]
    by_cases hid : entry.1 = id
    · subst hid
      by_cases hmem : entry.1 ∈ m <;> simp [hmem]
    · simp [hid]

/-- What is found in the list of a table is what the table holds. -/
theorem find?_toList {α : Type} (m : IdMap α) (id : ℕ) :
    (m.toList.find? fun entry => entry.1 = id).map Prod.snd = m[id]? := by
  refine Option.ext fun r => ?_
  rw [Option.map_eq_some_iff]
  constructor
  · rintro ⟨entry, hfind, rfl⟩
    have hkey : entry.1 = id := by simpa using List.find?_some hfind
    rw [← hkey]
    exact Std.ExtTreeMap.mem_toList_iff_getElem?_eq_some.mp (List.mem_of_find?_eq_some hfind)
  · intro hr
    have hmem : (id, r) ∈ m.toList := Std.ExtTreeMap.mem_toList_iff_getElem?_eq_some.mpr hr
    have hsome : (m.toList.find? fun entry => entry.1 = id).isSome :=
      List.find?_isSome.mpr ⟨(id, r), hmem, decide_eq_true rfl⟩
    obtain ⟨entry, hfind⟩ := Option.isSome_iff_exists.mp hsome
    refine ⟨entry, hfind, ?_⟩
    have hkey : entry.1 = id := by simpa using List.find?_some hfind
    have hentry := Std.ExtTreeMap.mem_toList_iff_getElem?_eq_some.mp
      (List.mem_of_find?_eq_some hfind)
    rw [hkey, hr] at hentry
    exact (Option.some.inj hentry).symm

/-- A state whose maps, tails and records fit a decoder and whose records are kept under their own
identities. -/
structure VirtualizationState.Fits (c : Nesting) (s : VirtualizationState) : Prop where
  header : s.HeaderFits c
  sizes : ∀ k, Listed c (2 ^ 22) (s.entities k).size
  keyed : ∀ k, ∀ entry ∈ (s.entities k).toList, k.idOf entry.2 = entry.1
  records : ∀ k, ∀ entry ∈ (s.entities k).toList, k.Fits c.deeper entry.2
  tails : [s.audit.length, s.decisions.length, s.requests.length].Forall (Listed c (2 ^ 22))
  audit : ∀ entry ∈ s.audit, entry.Fits c.limits
  decisions : ∀ decision ∈ s.decisions, decision.Fits c.limits
  requests : ∀ r ∈ s.requests, r.Fits c.limits

/-- A table is read back. -/
theorem reads_entities {s : VirtualizationState} (h : s.Fits c) (k : RecordKind) :
    Reads c (decodeEntities k) (encodeEntities s k) (s.entities k) := by
  have hsize := h.sizes k
  rw [← Std.ExtTreeMap.length_toList, ← List.length_map Prod.snd] at hsize
  have hlist : Reads c (decodeList (2 ^ 22) (decodeRecord k)) (encodeEntities s k)
      ((s.entities k).toList.map Prod.snd) := by
    refine reads_list hsize (fun r hr => ?_) fun r _ => encodeRecord_ne_nil k r
    obtain ⟨entry, hentry, rfl⟩ := List.mem_map.mp hr
    exact reads_record (h.records k entry hentry)
  have hback : ((s.entities k).toList.map Prod.snd).foldl
      (fun m r => m.insertIfNew (k.idOf r) r) ∅ = s.entities k := by
    refine Std.ExtTreeMap.ext_getElem? fun id => ?_
    rw [getElem?_foldl_emplace (h.keyed k), find?_toList]
    simp
  refine hlist.last ?_
  rw [hback]
  exact reads_pure

/-- A state that fits is read back. -/
theorem reads_state {s : VirtualizationState} (h : s.Fits c) :
    Reads c decodeState (encodeSnapshot s) s := by
  obtain ⟨hauditCount, hdecisionCount, hrequestCount⟩ := h.tails
  have haudit : Reads c (decodeList (2 ^ 22) decodeAudit) (Encoder.list s.audit encodeAudit)
      s.audit :=
    reads_list hauditCount (fun entry he => reads_audit (h.audit entry he)) fun entry _ =>
      List.ne_nil_of_length_pos (by simp [encodeAudit, Encoder.u64])
  have hdecisions : Reads c (decodeList (2 ^ 22) decodeDecision)
      (Encoder.list s.decisions encodeDecision) s.decisions :=
    reads_list hdecisionCount (fun d hd => reads_decision (h.decisions d hd)) fun d _ =>
      List.ne_nil_of_length_pos (by simp [encodeDecision, Encoder.u64])
  have hrequests : Reads c (decodeList (2 ^ 22) decodeRequestOutcome)
      (Encoder.list s.requests encodeRequestOutcome) s.requests :=
    reads_list hrequestCount (fun r hr => reads_requestOutcome (h.requests r hr)) fun r _ =>
      List.ne_nil_of_length_pos (by simp [encodeRequestOutcome, Encoder.u64])
  exact (reads_header h.header).cons <| (reads_entities h .tenant).cons <|
    (reads_entities h .physical).cons <| (reads_entities h .backing).cons <|
    (reads_entities h .virtual).cons <| (reads_entities h .lease).cons <|
    (reads_entities h .assignment).cons <| (reads_entities h .migration).cons <|
    (reads_entities h .evidence).cons <| haudit.cons <| hdecisions.cons <|
    hrequests.cons reads_pure

/-- The nesting a journal record is decoded in, and the one of a snapshot. -/
def journalNesting : Nesting := {}
/-- The nesting in which a snapshot is decoded: nothing has been entered yet. -/
def snapshotNesting : Nesting := { limits := snapshotLimits }

/-- A snapshot is read back field for field, and so is every record of the journal. -/
theorem decode_encode_state :
    (∀ s : VirtualizationState, s.Fits snapshotNesting →
      decodeSnapshot (encodeSnapshot s) = .ok s) ∧
    (∀ s : VirtualizationState, s.HeaderFits journalNesting →
      decodeHeader.run (Decoder.of (encodeHeader s)) = .ok (s.header, Decoder.of [])) ∧
    (∀ (k : RecordKind) (r : k.Record), k.Fits journalNesting r →
      (decodeRecord k).run (Decoder.of (encodeRecord k r)) = .ok (r, Decoder.of [])) ∧
    (∀ entry : AuditEntry, entry.Fits journalNesting.limits →
      decodeAudit.run (Decoder.of (encodeAudit entry)) = .ok (entry, Decoder.of [])) ∧
    (∀ decision : Decision, decision.Fits journalNesting.limits →
      decodeDecision.run (Decoder.of (encodeDecision decision)) =
        .ok (decision, Decoder.of [])) ∧
    ∀ r : RequestOutcomeRecord, r.Fits journalNesting.limits →
      decodeRequestOutcome.run (Decoder.of (encodeRequestOutcome r)) = .ok (r, Decoder.of []) := by
  -- a record is read with nothing left over
  have hwhole : ∀ {α : Type} {decode : Decode α} {bytes : Bytes} {a : α},
      Reads journalNesting decode bytes a →
        decode.run (Decoder.of bytes) = .ok (a, Decoder.of []) := by
    intro α decode bytes a h
    have hrun := h []
    rwa [List.append_nil] at hrun
  exact ⟨fun s h => run'_ok.mpr ⟨_, decodeWhole_of_reads (reads_state h)⟩,
    fun s h => hwhole (reads_header h), fun k r h => hwhole (reads_record h),
    fun entry h => hwhole (reads_audit h), fun decision h => hwhole (reads_decision h),
    fun r h => hwhole (reads_requestOutcome h)⟩

namespace Sample

/-- A tenant that owns virtual accelerator 2. -/
def storedTenant : TenantRecord := { id := 1, generation := 1, name := txt "alpha", owned := [2] }

/-- A virtual accelerator of that tenant, with a negative time among its fields. -/
def storedVirtual : VirtualAcceleratorRecord :=
  { id := 2, generation := 3, owner := 1, ownerGeneration := 1, retiredAt := -1 }

/-- A tenant that owns a virtual accelerator, and one entry in every tail. -/
def stored : VirtualizationState where
  epoch := 1
  tenants := (∅ : IdMap TenantRecord).insert 1 storedTenant
  virtuals := (∅ : IdMap VirtualAcceleratorRecord).insert 2 storedVirtual
  audit := [{ id := 1, operation := txt "create_tenant" }]
  decisions := [{ id := 1, outcome := .notFound }]
  requests := [{ request := 5, session := 1 }]

theorem header_fits : stored.HeaderFits snapshotNesting where
  schema := by decide
  words := by decide
  policy := { words := by decide, halves := by decide, lists := by decide, forbidden := by decide }
  counters := by decide

theorem storedTenant_fits : storedTenant.Fits snapshotNesting.deeper where
  words := by decide
  texts := by decide
  times := by decide
  activeAttachments := by decide
  owned := { listed := by decide, words := by decide, sorted := by decide }

theorem storedVirtual_fits : storedVirtual.Fits snapshotNesting.deeper where
  identity := by decide
  binding := by decide
  usage := by decide
  texts := by decide
  times := by decide
  activeAttachments := by decide
  contract := { words := by decide, halves := by decide, lists := by decide }
  projection :=
    { words := by decide, surface := { listed := by decide, entries := nofun }
      hidden := by decide, unknown := by decide, mechanism := by decide }
  isolation := { listed := by decide, claims := nofun }
  leases := { listed := by decide, words := by decide, sorted := by decide }
  history := by decide
  entries := nofun

theorem stored_fits : stored.Fits snapshotNesting where
  header := header_fits
  sizes := by
    intro k
    cases k <;> decide
  keyed := by
    intro k
    cases k <;> decide
  records := by
    intro k entry hentry
    cases k with
    | tenant =>
      obtain rfl := List.mem_singleton.mp hentry
      exact storedTenant_fits
    | virtual =>
      obtain rfl := List.mem_singleton.mp hentry
      exact storedVirtual_fits
    | _ => cases hentry
  tails := by decide
  audit := by
    intro entry hentry
    obtain rfl := List.mem_singleton.mp hentry
    exact { words := by decide, at_ := by decide, outcome := by decide, texts := by decide }
  decisions := by
    intro decision hdecision
    obtain rfl := List.mem_singleton.mp hdecision
    exact { subject := by decide, bounds := by decide, at_ := by decide, outcome := by decide,
            texts := by decide }
  requests := by
    intro r hr
    obtain rfl := List.mem_singleton.mp hr
    exact { words := by decide, operation := by decide, outcome := by decide, at_ := by decide }

end Sample

/-- The stored state and a piece of evidence are read back. -/
theorem decode_encode_stored :
    decodeSnapshot (encodeSnapshot Sample.stored) = .ok Sample.stored ∧
    (decodeRecord .evidence).run
    (Decoder.of (encodeRecord .evidence { id := 4, producedAt := -7 })) =
      .ok ({ id := 4, producedAt := -7 }, Decoder.of []) := by
  have h := decode_encode_state
  refine ⟨h.1 _ Sample.stored_fits, h.2.2.1 .evidence { id := 4, producedAt := -7 } ?_⟩
  exact { words := by decide, producedAt := by decide, texts := by decide }

end AcceleratorVirtualization
