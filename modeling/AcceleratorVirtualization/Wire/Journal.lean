import AcceleratorVirtualization.Runtime.Impl
import AcceleratorVirtualization.Wire.Frame
import AcceleratorVirtualization.Wire.StateCodec

/-!
# The files of the durable store

The snapshot file is a header and the encoded state. The journal is a header and a sequence of
records, each of which replaces one entity or extends one window; a recovery replays them over the
snapshot. Both carry a checksum of every payload.
-/

namespace AcceleratorVirtualization

open Enumeration (value ofValue)

/-- "AVS1". -/
def snapshotMagic : UInt32 := 0x31535641
/-- "AVJ1". -/
def journalMagic : UInt32 := 0x314A5641

/-- Magic, schema, length and checksum of a snapshot file. -/
def snapshotHeaderSize : ℕ := 16
/-- Magic and schema of a journal file. -/
def journalHeaderSize : ℕ := 8
/-- Length and checksum of a journal record. -/
def journalRecordHeaderSize : ℕ := 8
/-- The kind byte and the identity. -/
def journalRecordPrefixSize : ℕ := 9
/-- Bounds a single journal record, independently of the bound of a network frame. -/
def maxJournalRecord : ℕ := 16 * 1024 * 1024

/-! ### Changes -/

/-- What a journal record is about. -/
inductive EntityKind
  | header | entity (k : RecordKind) | audit | decision | request
  deriving DecidableEq

/-- Every kind, in the order of its code. -/
def EntityKind.all : List EntityKind :=
  .header :: (RecordKind.all.map .entity ++ [.audit, .decision, .request])

instance : Enumeration EntityKind :=
  .ofList EntityKind.all fun
    | .entity k => by cases k <;> decide
    | .header | .audit | .decision | .request => by decide

/-- One encoded change, ready to be framed into the journal. -/
structure EncodedChange where
  kind : EntityKind
  id : ℕ
  body : Bytes

/-- The changed records, as they are in the state now. -/
def encodeChanges (state : VirtualizationState) (changes : ChangeSet) : List EncodedChange :=
  (if changes.header then [⟨.header, 0, encodeHeader state⟩] else []) ++
  RecordKind.all.flatMap (fun k => (changes.ids k).toList.filterMap fun id =>
    (state.find k id).map fun record => ⟨.entity k, id, encodeRecord k record⟩) ++
  changes.audit.map (fun entry => ⟨.audit, entry.id, encodeAudit entry⟩) ++
  changes.decisions.map (fun decision => ⟨.decision, decision.id, encodeDecision decision⟩) ++
  changes.requests.map fun record => ⟨.request, record.request, encodeRequestOutcome record⟩

/-- What a journal record does to the state that is recovered. -/
def applyRecord (state : VirtualizationState) : EntityKind → Decode VirtualizationState
  | .header => do
    let source ← decodeHeader
    return { state with
      schema := source.schema
      nextSequence := source.nextSequence
      epoch := source.epoch
      policy := source.policy
      policyGeneration := source.policyGeneration
      accounting := source.accounting }
  | .entity k => do
    let record ← decodeRecord k
    return state.put k (k.idOf record) record
  | .audit => do
    let entry ← decodeAudit
    return { state with audit := Impl.pushWindow auditCapacity state.audit [entry] }
  | .decision => do
    let decision ← decodeDecision
    return { state with decisions := Impl.pushWindow decisionCapacity state.decisions [decision] }
  | .request => do
    let record ← decodeRequestOutcome
    return { state with requests := Impl.pushWindow requestWindowCapacity state.requests [record] }

/-! ### Writing -/

/-- `journal_header_bytes`. -/
def journalHeaderBytes : Bytes := putU32 journalMagic ++ putU32 (.ofNat schemaVersion)

/-- The kind, the identity and the body behind their length and checksum. -/
def frameJournalRecord (change : EncodedChange) : Bytes :=
  let payload := .ofNat (value change.kind) :: (putU64 (.ofNat change.id) ++ change.body)
  putU32 (.ofNat payload.length) ++ (putU32 (Crc32c.compute payload) ++ payload)

/-- `encode_snapshot_file`: the payload behind its length and its checksum. -/
def encodeSnapshotFile (state : VirtualizationState) : Bytes :=
  let payload := encodeSnapshot state
  putU32 snapshotMagic ++ (putU32 (.ofNat schemaVersion) ++ (putU32 (.ofNat payload.length) ++
    (putU32 (Crc32c.compute payload) ++ payload)))

/-! ### Reading -/

/-- `decode_snapshot_file`. -/
def decodeSnapshotFile (bytes : Bytes) : Except Status VirtualizationState := do
  if bytes.length < snapshotHeaderSize then
    throw (.of .truncatedState "snapshot file is shorter than its header")
  if getU32 bytes 0 ≠ snapshotMagic then
    throw (.of .corruptState "snapshot file magic does not match")
  let schema := getU32 bytes 4
  if schema ≠ .ofNat schemaVersion then
    throw ⟨.corruptState, txt "snapshot schema " ++ toDecimal schema.toNat ++
      txt " is not the supported schema " ++ toDecimal schemaVersion⟩
  let length := getU32 bytes 8
  let crc := getU32 bytes 12
  if bytes.length - snapshotHeaderSize ≠ length.toNat then
    throw ⟨.truncatedState, txt "snapshot declares " ++ toDecimal length.toNat ++
      txt " payload byte(s) but " ++ toDecimal (bytes.length - snapshotHeaderSize) ++
      txt " are present"⟩
  let payload := bytes.drop snapshotHeaderSize
  if Crc32c.compute payload ≠ crc then
    throw (.of .integrityFailure "snapshot payload failed its integrity check")
  decodeSnapshot payload

/-- What to do about an incomplete record at the end of the journal. -/
inductive TornTail
  | reject | discard
  deriving DecidableEq

/-- The state replayed so far, and that a tail was discarded; or a refusal. -/
def handleTorn (tornTail : TornTail) (state : VirtualizationState) (detail : String) :
    Except Status (VirtualizationState × Bool) :=
  match tornTail with
  | .reject => .error ⟨.truncatedState, txt detail ++
      txt "; refusing to reinterpret an incomplete durable record"⟩
  | .discard => .ok (state, true)

/-- One turn of the loop over the records, at an offset: the state with the record applied and how
many bytes it takes, or why it is incomplete. -/
def nextRecord (offset : ℕ) (view : Bytes) (state : VirtualizationState) :
    Except Status (Except String (VirtualizationState × ℕ)) := do
  if view.length < journalRecordHeaderSize then
    return .error "journal ends inside a record header"
  let length := (getU32 view 0).toNat
  let crc := getU32 view 4
  if length < journalRecordPrefixSize ∨ length > maxJournalRecord then
    throw ⟨.corruptState, txt "journal record declares an invalid length of " ++
      toDecimal length ++ txt " byte(s)"⟩
  if view.length - journalRecordHeaderSize < length then
    return .error "journal ends inside a record payload"
  let payload := (view.drop journalRecordHeaderSize).take length
  if Crc32c.compute payload ≠ crc then
    throw ⟨.integrityFailure, txt "journal record at offset " ++ toDecimal offset ++
      txt " failed its integrity check"⟩
  match ofValue (payload.headD 0).toNat with
  | none => throw (.of .corruptState "journal record carries an out-of-domain entity kind")
  | some kind =>
    let state ← (applyRecord state kind).run'
      (Decoder.of (payload.drop journalRecordPrefixSize))
    return .ok (state, journalRecordHeaderSize + length)

/-- The loop over the records from an offset on. Every record takes at least its header, so there
are not more of them than bytes. -/
def replayRecords (tornTail : TornTail) :
    ℕ → ℕ → Bytes → VirtualizationState → Except Status (VirtualizationState × Bool)
  | 0, _, _, state => .ok (state, false)
  | fuel + 1, offset, view, state =>
    if view.isEmpty then .ok (state, false)
    else match nextRecord offset view state with
      | .error status => .error status
      | .ok (.error detail) => handleTorn tornTail state detail
      | .ok (.ok (state, size)) =>
        replayRecords tornTail fuel (offset + size) (view.drop size) state

/-- The state with the records of the journal applied, and whether an incomplete one was
discarded. -/
def replayJournal (tornTail : TornTail) (state : VirtualizationState) (bytes : Bytes) :
    Except Status (VirtualizationState × Bool) := do
  if bytes.length < journalHeaderSize then
    throw (.of .truncatedState "journal file is shorter than its header")
  if getU32 bytes 0 ≠ journalMagic then
    throw (.of .corruptState "journal file magic does not match")
  let schema := getU32 bytes 4
  if schema ≠ .ofNat schemaVersion then
    throw ⟨.corruptState, txt "journal schema " ++ toDecimal schema.toNat ++
      txt " is not the supported schema " ++ toDecimal schemaVersion⟩
  replayRecords tornTail bytes.length journalHeaderSize (bytes.drop journalHeaderSize) state

end AcceleratorVirtualization
