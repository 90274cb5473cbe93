import AcceleratorVirtualization.Text

/-!
# The failure taxonomy

`StatusCode` is the stable machine-readable taxonomy; its numeric values are part of the
durable audit log. A code read back from storage may be a number that names no failure: it
is kept as `unrecognized`, which by its type cannot stand for a number that does.
-/

namespace AcceleratorVirtualization

/-- The numeric values that name a failure (or success). -/
def recognizedCodes : List ℕ :=
  [0, 10, 11, 12, 13, 14, 15, 16, 100, 101, 102, 103, 104, 105, 106, 107, 108, 109, 200, 201,
   202, 203, 204, 205, 206, 207, 208, 300, 301, 302, 303, 304, 400, 401, 402, 403, 404, 500, 501,
   502, 503, 504, 505, 506, 600, 601, 700, 701, 702, 703, 704, 705, 706, 707, 708, 709, 800, 801,
   802, 803, 804, 900, 901, 902, 903, 904]

/-- What an operation can answer. -/
inductive StatusCode
  | ok | invalidArgument | notFound | alreadyExists | duplicateIdentity | limitExceeded
  | resourceExhausted | conflict | staleEpoch | staleVirtualGeneration | staleTenant
  | staleBacking | stalePhysicalDevice | staleLease | stalePolicy | staleMigration
  | staleAgentBoot | staleAssignment | notAuthorized | tenantFenced | virtualFenced
  | virtualRetired | notAttached | alreadyAttached | leaseExpired | leaseRevoked
  | attachLimitReached | invalidTransition | recoveryRequired | draining | migrationInProgress
  | noActiveMigration | backingUnavailable | backingBusy | backingClassNotAllowed
  | backingTransparencyViolation | oversubscriptionDenied | capabilityProjectionMismatch
  | capabilityUnknown | contractViolation | contractInvalid | isolationUnsatisfied
  | isolationUnknownMandatory | policyViolation | migrationUnsupported | migrationClassNotAllowed
  | protocolViolation | versionMismatch | malformedFrame | frameTooLarge | unsupportedMessage
  | connectionLost | timeout | duplicateRequest | shutdown | notReady | integrityFailure
  | corruptState | truncatedState | ioFailure | serializationFailure | unsupported | unknown
  | internal | notImplemented | outcomeUnknown
  | unrecognized (raw : {n : ℕ // n ∉ recognizedCodes})
  deriving DecidableEq

namespace StatusCode

/-- The enumerators, in the order of their values. -/
def recognized : List StatusCode :=
  [.ok, .invalidArgument, .notFound, .alreadyExists, .duplicateIdentity, .limitExceeded,
   .resourceExhausted, .conflict, .staleEpoch, .staleVirtualGeneration, .staleTenant,
   .staleBacking, .stalePhysicalDevice, .staleLease, .stalePolicy, .staleMigration,
   .staleAgentBoot, .staleAssignment, .notAuthorized, .tenantFenced, .virtualFenced,
   .virtualRetired, .notAttached, .alreadyAttached, .leaseExpired, .leaseRevoked,
   .attachLimitReached, .invalidTransition, .recoveryRequired, .draining, .migrationInProgress,
   .noActiveMigration, .backingUnavailable, .backingBusy, .backingClassNotAllowed,
   .backingTransparencyViolation, .oversubscriptionDenied, .capabilityProjectionMismatch,
   .capabilityUnknown, .contractViolation, .contractInvalid, .isolationUnsatisfied,
   .isolationUnknownMandatory, .policyViolation, .migrationUnsupported,
   .migrationClassNotAllowed, .protocolViolation, .versionMismatch, .malformedFrame,
   .frameTooLarge, .unsupportedMessage, .connectionLost, .timeout, .duplicateRequest, .shutdown,
   .notReady, .integrityFailure, .corruptState, .truncatedState, .ioFailure,
   .serializationFailure, .unsupported, .unknown, .internal, .notImplemented, .outcomeUnknown]

/-- The number of a status code on the wire. -/
def value : StatusCode → ℕ
  | .ok => 0
  | .invalidArgument => 10
  | .notFound => 11
  | .alreadyExists => 12
  | .duplicateIdentity => 13
  | .limitExceeded => 14
  | .resourceExhausted => 15
  | .conflict => 16
  | .staleEpoch => 100
  | .staleVirtualGeneration => 101
  | .staleTenant => 102
  | .staleBacking => 103
  | .stalePhysicalDevice => 104
  | .staleLease => 105
  | .stalePolicy => 106
  | .staleMigration => 107
  | .staleAgentBoot => 108
  | .staleAssignment => 109
  | .notAuthorized => 200
  | .tenantFenced => 201
  | .virtualFenced => 202
  | .virtualRetired => 203
  | .notAttached => 204
  | .alreadyAttached => 205
  | .leaseExpired => 206
  | .leaseRevoked => 207
  | .attachLimitReached => 208
  | .invalidTransition => 300
  | .recoveryRequired => 301
  | .draining => 302
  | .migrationInProgress => 303
  | .noActiveMigration => 304
  | .backingUnavailable => 400
  | .backingBusy => 401
  | .backingClassNotAllowed => 402
  | .backingTransparencyViolation => 403
  | .oversubscriptionDenied => 404
  | .capabilityProjectionMismatch => 500
  | .capabilityUnknown => 501
  | .contractViolation => 502
  | .contractInvalid => 503
  | .isolationUnsatisfied => 504
  | .isolationUnknownMandatory => 505
  | .policyViolation => 506
  | .migrationUnsupported => 600
  | .migrationClassNotAllowed => 601
  | .protocolViolation => 700
  | .versionMismatch => 701
  | .malformedFrame => 702
  | .frameTooLarge => 703
  | .unsupportedMessage => 704
  | .connectionLost => 705
  | .timeout => 706
  | .duplicateRequest => 707
  | .shutdown => 708
  | .notReady => 709
  | .integrityFailure => 800
  | .corruptState => 801
  | .truncatedState => 802
  | .ioFailure => 803
  | .serializationFailure => 804
  | .unsupported => 900
  | .unknown => 901
  | .internal => 902
  | .notImplemented => 903
  | .outcomeUnknown => 904
  | .unrecognized raw => raw

/-- The recognised codes, listed as in the source. -/
theorem map_value_recognized : recognized.map value = recognizedCodes := by decide

/-- `static_cast<StatusCode>` of a stored number. -/
def ofValue (n : ℕ) : StatusCode :=
  if h : n ∈ recognizedCodes then (recognized.find? fun c => c.value == n).getD .ok
  else .unrecognized ⟨n, h⟩

/-- A code is known again by its value. -/
@[simp]
theorem ofValue_value (c : StatusCode) : ofValue c.value = c := by
  cases c with
  | unrecognized raw => simp [value, ofValue, raw.property]
  | _ => decide

/-- The stable lower-case name. -/
def name : StatusCode → Text
  | .ok => txt "ok"
  | .invalidArgument => txt "invalid_argument"
  | .notFound => txt "not_found"
  | .alreadyExists => txt "already_exists"
  | .duplicateIdentity => txt "duplicate_identity"
  | .limitExceeded => txt "limit_exceeded"
  | .resourceExhausted => txt "resource_exhausted"
  | .conflict => txt "conflict"
  | .staleEpoch => txt "stale_epoch"
  | .staleVirtualGeneration => txt "stale_virtual_generation"
  | .staleTenant => txt "stale_tenant"
  | .staleBacking => txt "stale_backing"
  | .stalePhysicalDevice => txt "stale_physical_device"
  | .staleLease => txt "stale_lease"
  | .stalePolicy => txt "stale_policy"
  | .staleMigration => txt "stale_migration"
  | .staleAgentBoot => txt "stale_agent_boot"
  | .staleAssignment => txt "stale_assignment"
  | .notAuthorized => txt "not_authorized"
  | .tenantFenced => txt "tenant_fenced"
  | .virtualFenced => txt "virtual_fenced"
  | .virtualRetired => txt "virtual_retired"
  | .notAttached => txt "not_attached"
  | .alreadyAttached => txt "already_attached"
  | .leaseExpired => txt "lease_expired"
  | .leaseRevoked => txt "lease_revoked"
  | .attachLimitReached => txt "attach_limit_reached"
  | .invalidTransition => txt "invalid_transition"
  | .recoveryRequired => txt "recovery_required"
  | .draining => txt "draining"
  | .migrationInProgress => txt "migration_in_progress"
  | .noActiveMigration => txt "no_active_migration"
  | .backingUnavailable => txt "backing_unavailable"
  | .backingBusy => txt "backing_busy"
  | .backingClassNotAllowed => txt "backing_class_not_allowed"
  | .backingTransparencyViolation => txt "backing_transparency_violation"
  | .oversubscriptionDenied => txt "oversubscription_denied"
  | .capabilityProjectionMismatch => txt "capability_projection_mismatch"
  | .capabilityUnknown => txt "capability_unknown"
  | .contractViolation => txt "contract_violation"
  | .contractInvalid => txt "contract_invalid"
  | .isolationUnsatisfied => txt "isolation_unsatisfied"
  | .isolationUnknownMandatory => txt "isolation_unknown_mandatory"
  | .policyViolation => txt "policy_violation"
  | .migrationUnsupported => txt "migration_unsupported"
  | .migrationClassNotAllowed => txt "migration_class_not_allowed"
  | .protocolViolation => txt "protocol_violation"
  | .versionMismatch => txt "version_mismatch"
  | .malformedFrame => txt "malformed_frame"
  | .frameTooLarge => txt "frame_too_large"
  | .unsupportedMessage => txt "unsupported_message"
  | .connectionLost => txt "connection_lost"
  | .timeout => txt "timeout"
  | .duplicateRequest => txt "duplicate_request"
  | .shutdown => txt "shutdown"
  | .notReady => txt "not_ready"
  | .integrityFailure => txt "integrity_failure"
  | .corruptState => txt "corrupt_state"
  | .truncatedState => txt "truncated_state"
  | .ioFailure => txt "io_failure"
  | .serializationFailure => txt "serialization_failure"
  | .unsupported => txt "unsupported"
  | .unknown => txt "unknown"
  | .internal => txt "internal"
  | .notImplemented => txt "not_implemented"
  | .outcomeUnknown => txt "outcome_unknown"
  | .unrecognized _ => txt "unrecognized"

/-- The caller presented authority that a newer generation has superseded. -/
def isStale (c : StatusCode) : Bool := 100 ≤ c.value && c.value < 200

/-- The caller lacks required authority. -/
def isAuthority (c : StatusCode) : Bool := 200 ≤ c.value && c.value < 300

end StatusCode

/-- A status: a code and the reason that goes with it. -/
structure Status where
  code : StatusCode := .ok
  detail : Text := []
  deriving DecidableEq

namespace Status

/-- A status with a literal detail. -/
def of (code : StatusCode) (detail : String) : Status := ⟨code, txt detail⟩

/-- A status that is no failure. -/
def ok (s : Status) : Bool := s.code = .ok

/-- The name of the code, and the detail if there is any. -/
def toText (s : Status) : Text :=
  s.code.name ++ if s.detail.isEmpty then [] else txt ": " ++ s.detail

end Status

end AcceleratorVirtualization
