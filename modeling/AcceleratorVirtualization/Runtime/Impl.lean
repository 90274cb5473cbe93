import AcceleratorVirtualization.Model

/-!
# One operation of the runtime

Every public operation follows the same frame. `beginOp` clears the change set and the undo
log; the operation touches each record before it changes it; `finalize` records one decision
and one audit entry, extends the bounded windows and hands the change set to the durable
store. A write that fails is rolled back from the undo log. The store is a parameter: what the
runtime asks of it is the class `DurableStore`.
-/

namespace AcceleratorVirtualization

/-! ### Change sets and undo logs -/

/-- Records that changed since the last durable apply. -/
structure ChangeSet where
  header : Bool := false
  ids : RecordKind → IdSet := fun _ => ∅
  audit : List AuditEntry := []
  decisions : List Decision := []
  requests : List RequestOutcomeRecord := []

/-- A change set that asks for no write. -/
def ChangeSet.empty (c : ChangeSet) : Bool :=
  !c.header && RecordKind.all.all (fun k => (c.ids k).isEmpty) && c.audit.isEmpty &&
    c.decisions.isEmpty && c.requests.isEmpty

/-- Undo information for one operation: the scalars at its begin, and for every touched
identity the record it had then (`none` where there was none). -/
structure UndoLog where
  header : Bool := false
  nextSequence : ℕ := 0
  epoch : Generation := 0
  policy : VirtualizationPolicy := {}
  policyGeneration : Generation := 0
  accounting : AccountingCounters := {}
  saved : (k : RecordKind) → IdMap (Option k.Record) := fun _ => ∅
  auditSize : ℕ := 0
  decisionSize : ℕ := 0
  requestSize : ℕ := 0

/-! ### The store -/

/-- What the runtime asks of a durable store. Every call may change the store. -/
class DurableStore (σ : Type) where
  open_ : σ → σ × Check
  applyChanges : σ → VirtualizationState → ChangeSet → σ × Check
  compact : σ → VirtualizationState → σ × Check
  load : σ → σ × Except Status VirtualizationState
  flush : σ → σ × Check
  close : σ → σ × Check
  /-- Whether there is durable state to load. -/
  present : σ → Bool

/-! ### The runtime -/

/-- Live agent session state. Never persisted. -/
structure AgentSession where
  id : AgentId := 0
  boot : AgentBootId := 0
  name : Text := []
  endpoint : Text := []
  connected : Bool := false
  connectedAt : UnixMicros := 0
  lastSeen : UnixMicros := 0
  connectionId : ℕ := 0
  devices : List PhysicalDeviceId := []
  deriving DecidableEq

/-- The authority a caller presents for one operation; each operation validates what it needs. -/
structure Authority where
  epoch : Option Generation := none
  tenant : Option TenantId := none
  tenantGeneration : Option Generation := none
  virtualId : Option VirtualAcceleratorId := none
  virtualGeneration : Option Generation := none
  backing : Option BackingId := none
  backingGeneration : Option Generation := none
  physical : Option PhysicalDeviceId := none
  physicalGeneration : Option Generation := none
  lease : Option LeaseId := none
  leaseGeneration : Option Generation := none
  policyGeneration : Option Generation := none
  migration : Option MigrationId := none
  migrationGeneration : Option Generation := none
  request : Option RequestId := none
  session : Option ℕ := none
  deriving DecidableEq

/-- The options that decide how an operation runs, and what the program was built with: the sort
of the standard library it runs on. -/
structure RuntimeOptions where
  persist : Bool := true
  enforceMemoryBudget : Bool := true
  sorting : Sorting := .insertion

/-- The readings of the clock during one call, by the place that reads it. -/
structure Clock where
  now : UnixMicros
  transition : VirtualAcceleratorId → UnixMicros := fun _ => now
  record : UnixMicros := now
  request : UnixMicros := now

/-- A runtime with its store. -/
structure Impl (σ : Type) where
  options : RuntimeOptions := {}
  store : Option σ := none
  state : VirtualizationState := {}
  changes : ChangeSet := {}
  undo : UndoLog := {}
  agents : IdMap AgentSession := ∅
  running : Bool := false
  storeFailed : Bool := false
  storeFailure : Status := {}

/-- Why an operation did not succeed: a refusal, or a durable write that failed. -/
inductive Failure
  | refused (status : Status)
  | persistence (status : Status)
  deriving DecidableEq

/-- The status the caller sees. -/
def Failure.status : Failure → Status
  | .refused s => s
  | .persistence s => s

/-- Everything an operation needs to produce one decision naming its generations. -/
structure OpContext where
  operation : Text := []
  request : RequestId := 0
  session : ℕ := 0
  epoch : Generation := 0
  virtualId : VirtualAcceleratorId := 0
  virtualGeneration : Generation := 0
  tenant : TenantId := 0
  tenantGeneration : Generation := 0
  backing : BackingId := 0
  backingGeneration : Generation := 0
  physical : PhysicalDeviceId := 0
  physicalGeneration : Generation := 0
  lease : LeaseId := 0
  leaseGeneration : Generation := 0
  policyGeneration : Generation := 0
  migration : MigrationId := 0
  migrationGeneration : Generation := 0

namespace OpContext

/-- The context an operation starts with: its name and what the caller presents. -/
def ofAuthority (operation : String) (auth : Authority) : OpContext :=
  { operation := txt operation
    request := auth.request.getD 0
    session := auth.session.getD 0
    epoch := auth.epoch.getD 0 }

/-- Record the virtual accelerator, its owner and its backing. -/
def adoptVirtual (c : OpContext) (r : VirtualAcceleratorRecord) : OpContext :=
  { c with
    virtualId := r.id, virtualGeneration := r.generation
    tenant := r.owner, tenantGeneration := r.ownerGeneration
    backing := r.backing, backingGeneration := r.backingGeneration
    physical := r.physical, physicalGeneration := r.physicalGeneration
    migration := r.migration, migrationGeneration := r.migrationGeneration
    policyGeneration := r.policyGeneration }

/-- Record the tenant. -/
def adoptTenant (c : OpContext) (r : TenantRecord) : OpContext :=
  { c with tenant := r.id, tenantGeneration := r.generation }

/-- Record the lease and what it is bound to. -/
def adoptLease (c : OpContext) (r : LeaseRecord) : OpContext :=
  { c with
    lease := r.id, leaseGeneration := r.generation
    virtualId := r.virtualId, virtualGeneration := r.virtualGeneration
    tenant := r.tenant, tenantGeneration := r.tenantGeneration
    backingGeneration := r.backingGeneration, physicalGeneration := r.physicalGeneration
    policyGeneration := r.policyGeneration }

end OpContext

namespace Impl

variable {σ : Type}

/-! ### Identities and change tracking -/

/-- Ask for the header to be written. -/
def touchHeader (im : Impl σ) : Impl σ := { im with changes.header := true }

/-- The identity the next record gets. -/
def nextId (im : Impl σ) : ℕ := im.state.nextSequence

/-- Use up the next identity. -/
def takeId (im : Impl σ) : Impl σ :=
  { im with state.nextSequence := im.state.nextSequence + 1 }.touchHeader

/-- Remember the record under an identity, once per operation, and list it as changed. -/
def touch (im : Impl σ) (k : RecordKind) (id : ℕ) : Impl σ :=
  let saved :=
    if id ∈ im.undo.saved k then im.undo.saved k
    else (im.undo.saved k).insert id (im.state.find k id)
  { im with
    undo.saved := Function.update im.undo.saved k saved
    changes.ids := Function.update im.changes.ids k ((im.changes.ids k).insert id) }

/-- Save a tenant before it is changed. -/
def touchTenant (im : Impl σ) (id : TenantId) : Impl σ := im.touch .tenant id
/-- Save a device before it is changed. -/
def touchPhysical (im : Impl σ) (id : PhysicalDeviceId) : Impl σ := im.touch .physical id
/-- Save a backing before it is changed. -/
def touchBacking (im : Impl σ) (id : BackingId) : Impl σ := im.touch .backing id
/-- Save a virtual accelerator before it is changed. -/
def touchVirtual (im : Impl σ) (id : VirtualAcceleratorId) : Impl σ := im.touch .virtual id
/-- Save a lease before it is changed. -/
def touchLease (im : Impl σ) (id : LeaseId) : Impl σ := im.touch .lease id
/-- Save an assignment before it is changed. -/
def touchAssignment (im : Impl σ) (id : BackingAssignmentId) : Impl σ := im.touch .assignment id
/-- Save a migration before it is changed. -/
def touchMigration (im : Impl σ) (id : MigrationId) : Impl σ := im.touch .migration id
/-- Save evidence before it is changed. -/
def touchEvidence (im : Impl σ) (id : EvidenceId) : Impl σ := im.touch .evidence id

/-- `state.<map>[id] = record`. -/
def put (im : Impl σ) (k : RecordKind) (id : ℕ) (r : k.Record) : Impl σ :=
  { im with state := im.state.put k id r }

/-- `state.<map>.emplace(id, record)`: a record that is already there stays. -/
def emplace (im : Impl σ) (k : RecordKind) (id : ℕ) (r : k.Record) : Impl σ :=
  { im with state := im.state.setEntities k ((im.state.entities k).insertIfNew id r) }

/-- Assign to the fields of the record under an identity, if there is one. -/
def modify (im : Impl σ) (k : RecordKind) (id : ℕ) (f : k.Record → k.Record) : Impl σ :=
  { im with state := im.state.modify k id f }

/-- Assign to the accounting counters. -/
def account (im : Impl σ) (f : AccountingCounters → AccountingCounters) : Impl σ :=
  { im with state.accounting := f im.state.accounting }

/-! ### Begin, commit and roll back -/

/-- Start an operation: nothing has changed, and the scalars are saved. -/
def beginOp (im : Impl σ) : Impl σ :=
  { im with
    changes := {}
    undo := {
      header := true
      nextSequence := im.state.nextSequence
      epoch := im.state.epoch
      policy := im.state.policy
      policyGeneration := im.state.policyGeneration
      accounting := im.state.accounting
      auditSize := im.state.audit.length
      decisionSize := im.state.decisions.length
      requestSize := im.state.requests.length } }

/-- Insert the record under an identity, or erase it where there is none. -/
def setRecord {α : Type} (map : IdMap α) (id : ℕ) : Option α → IdMap α
  | some record => map.insert id record
  | none => map.erase id

/-- Put back the saved record (or its absence) of every touched identity. -/
def restoreMap {α : Type} (map : IdMap α) (saved : IdMap (Option α)) : IdMap α :=
  saved.foldl setRecord map

/-- Put back the scalars and the touched records, and cut the windows to the lengths they had. -/
def rollback (im : Impl σ) : Impl σ :=
  let undo := im.undo
  let state := if undo.header then
    { im.state with
      nextSequence := undo.nextSequence
      epoch := undo.epoch
      policy := undo.policy
      policyGeneration := undo.policyGeneration
      accounting := undo.accounting } else im.state
  let state := RecordKind.all.foldl (fun state k =>
    state.setEntities k (restoreMap (state.entities k) (undo.saved k))) state
  { im with
    state := { state with
      audit := state.audit.take undo.auditSize
      decisions := state.decisions.take undo.decisionSize
      requests := state.requests.take undo.requestSize }
    undo := {}
    changes := {} }

/-- Append, then drop the oldest entries beyond the capacity. -/
def pushWindow {α : Type} (capacity : ℕ) (window new : List α) : List α :=
  let extended := window ++ new
  if extended.length ≤ capacity then extended else extended.drop (extended.length - capacity)

/-- The windows with the entries of the change set appended. -/
def pushWindows (s : VirtualizationState) (c : ChangeSet) : VirtualizationState :=
  { s with
    audit := pushWindow auditCapacity s.audit c.audit
    decisions := pushWindow decisionCapacity s.decisions c.decisions
    requests := pushWindow requestWindowCapacity s.requests c.requests }

/-- Hand a non-empty change set to the store, if there is one and persistence is on. -/
def persistChanges [DurableStore σ] (im : Impl σ) : Option σ × Check :=
  match im.store with
  | some store =>
    if im.options.persist && !im.changes.empty then
      let (store, status) := DurableStore.applyChanges store im.state im.changes
      (some store, status)
    else (some store, .ok ())
  | none => (none, .ok ())

/-- Mutate, persist, then report. A write that failed is rolled back. -/
def commit [DurableStore σ] (im : Impl σ) : Impl σ × Check :=
  let im := { im with state := pushWindows im.state im.changes }
  match im.persistChanges with
  | (store, .ok ()) => ({ im with store, changes := {}, undo := {} }, .ok ())
  | (store, .error status) =>
    ({ im with store, storeFailed := true, storeFailure := status }.rollback,
      .error ⟨status.code, txt "durable persistence failed: " ++ status.toText⟩)

/-! ### Decisions and refusals -/

/-- Record one decision and one audit entry for the outcome of an operation. -/
def record (im : Impl σ) (clock : Clock) (context : OpContext) (outcome : StatusCode)
    (reason : Text) (kind : AuditKind) : Impl σ :=
  let decision : Decision := {
    id := im.nextId, at_ := clock.record, operation := context.operation, outcome, reason
    epoch := context.epoch
    virtualId := context.virtualId, virtualGeneration := context.virtualGeneration
    tenant := context.tenant, tenantGeneration := context.tenantGeneration
    backing := context.backing, backingGeneration := context.backingGeneration
    physical := context.physical, physicalGeneration := context.physicalGeneration
    lease := context.lease, leaseGeneration := context.leaseGeneration
    policyGeneration := context.policyGeneration
    migration := context.migration, migrationGeneration := context.migrationGeneration
    request := context.request }
  let im := im.takeId
  let entry : AuditEntry := {
    id := im.nextId, at_ := clock.record, kind, operation := context.operation, outcome
    detail := reason, epoch := context.epoch
    virtualId := context.virtualId, virtualGeneration := context.virtualGeneration
    tenant := context.tenant, tenantGeneration := context.tenantGeneration
    backing := context.backing, backingGeneration := context.backingGeneration
    migration := context.migration, migrationGeneration := context.migrationGeneration }
  let im := im.takeId
  { im with
    changes.decisions := im.changes.decisions ++ [decision]
    changes.audit := im.changes.audit ++ [entry] }.touchHeader

/-- The counter a refusal is booked under besides the authority counters. -/
def countRefusal (code : StatusCode) (a : AccountingCounters) : AccountingCounters :=
  match code with
  | .contractViolation | .contractInvalid =>
    { a with contractViolationRefusals := a.contractViolationRefusals + 1 }
  | .isolationUnsatisfied | .isolationUnknownMandatory =>
    { a with isolationRefusals := a.isolationRefusals + 1 }
  | .capabilityProjectionMismatch | .capabilityUnknown =>
    { a with capabilityRefusals := a.capabilityRefusals + 1 }
  | .oversubscriptionDenied => { a with oversubscriptionDenials := a.oversubscriptionDenials + 1 }
  | .invalidTransition => { a with lifecycleRefusals := a.lifecycleRefusals + 1 }
  | .duplicateRequest => { a with duplicateRequestRefusals := a.duplicateRequestRefusals + 1 }
  | .protocolViolation | .malformedFrame | .frameTooLarge =>
    { a with protocolViolations := a.protocolViolations + 1 }
  | _ => a

/-- Book a refusal under the kind of its status code. -/
def accountRefusal (im : Impl σ) (code : StatusCode) : Impl σ :=
  (im.account fun a =>
    countRefusal code
      (if code.isStale then { a with staleAuthorityRefusals := a.staleAuthorityRefusals + 1 }
      else if code.isAuthority then { a with authorityRefusals := a.authorityRefusals + 1 }
      else a)).touchHeader

/-- Record the decision and the request, then persist; the answer is that of the store. -/
def finalize [DurableStore σ] (im : Impl σ) (clock : Clock) (context : OpContext)
    (status : Status) (kind : AuditKind) : Impl σ × Check :=
  let im := if status.ok then im else im.accountRefusal status.code
  let im := im.record clock context status.code status.detail kind
  let im := if valid context.request then
      { im with changes.requests := im.changes.requests ++
          [⟨context.request, context.session, context.operation, status.code, clock.request⟩] }
    else im
  im.commit

/-- After a failed durable write every further mutation is refused. -/
def guardStore (im : Impl σ) : Check := do
  if im.storeFailed then
    throw ⟨.ioFailure,
      txt "durable store is unavailable; the coordinator refuses further mutations: " ++
        im.storeFailure.toText⟩

/-! ### The frame of an operation -/

/-- A refusal with what is recorded about it. -/
structure Refusal where
  context : OpContext
  status : Status
  kind : AuditKind

/-- A check whose refusal is recorded under a context. -/
def orRefuse {α : Type} (context : OpContext) (kind : AuditKind) (check : Except Status α) :
    Except Refusal α :=
  check.mapError fun status => ⟨context, status, kind⟩

/-- An accepted operation with what is recorded about it and what the caller gets. -/
structure Accepted (α : Type) where
  context : OpContext
  kind : AuditKind := .mutation
  result : α

/-- What an operation does between `beginOp` and `finalize`. -/
abbrev Body (σ α : Type) := Impl σ → Impl σ × Except Refusal (Accepted α)

/-- Begin, run the body, record and persist the outcome. -/
def operation [DurableStore σ] {α : Type} (im : Impl σ) (clock : Clock) (body : Body σ α) :
    Impl σ × Except Failure α :=
  match body im.beginOp with
  | (im, .error refusal) =>
    let (im, persisted) := im.finalize clock refusal.context refusal.status refusal.kind
    (im, .error (match persisted with
      | .error status => .persistence status
      | .ok () => .refused refusal.status))
  | (im, .ok accepted) =>
    let (im, persisted) := im.finalize clock accepted.context {} accepted.kind
    (im, match persisted with
      | .error status => .error (.persistence status)
      | .ok () => .ok accepted.result)

/-- A body that first checks, without changing anything, and then acts. -/
def checked {π α : Type} (check : Impl σ → Except Refusal π) (act : π → Body σ α) : Body σ α :=
  fun im =>
    match check im with
    | .error refusal => (im, .error refusal)
    | .ok plan => act plan im

end Impl

end AcceleratorVirtualization
