import AcceleratorVirtualization.Contract

/-!
# The life cycles of virtual accelerators and migrations

Both tables are finite relations given by the states a state may be left for. `retired` is
terminal; `fenced` may only be recovered or retired; authority moves on the one edge from
`commitReady` to `committed`.
-/

namespace AcceleratorVirtualization

/-! ### Virtual accelerators -/

namespace VirtualLifecycleState

/-- The legal successors of a state. -/
def allowed : VirtualLifecycleState → List VirtualLifecycleState
  | .created => [.provisioned, .fenced, .recoveryRequired, .retired]
  | .provisioned => [.attached, .suspended, .migrating, .fenced, .recoveryRequired, .retired]
  | .attached =>
    [.active, .draining, .suspended, .provisioned, .migrating, .fenced, .recoveryRequired, .retired]
  | .active =>
    [.draining, .suspended, .provisioned, .migrating, .fenced, .recoveryRequired, .retired]
  | .draining =>
    [.provisioned, .suspended, .active, .migrating, .fenced, .recoveryRequired, .retired]
  | .suspended => [.provisioned, .attached, .migrating, .fenced, .recoveryRequired, .retired]
  | .migrating => [.attached, .active, .provisioned, .recoveryRequired, .fenced, .retired]
  | .recoveryRequired => [.provisioned, .suspended, .fenced, .retired]
  | .fenced => [.recoveryRequired, .retired]
  | .retired => []

end VirtualLifecycleState

/-- An edge of the life cycle. -/
def isLegalTransition (source target : VirtualLifecycleState) : Bool :=
  source ≠ target && source.allowed.contains target

/-- Refuse what is no edge of the life cycle, with the names of the states. -/
def checkTransition (source target : VirtualLifecycleState) : Check := do
  if source = target then
    throw ⟨.invalidTransition, txt "virtual accelerator is already in state " ++
      lifecycleName source⟩
  if !isLegalTransition source target then
    throw ⟨.invalidTransition, txt "illegal lifecycle transition " ++ lifecycleName source ++
      txt " -> " ++ lifecycleName target⟩

/-- A transition is accepted exactly when the table has the edge. -/
theorem checkTransition_eq_ok {source target : VirtualLifecycleState} :
    checkTransition source target = .ok () ↔ isLegalTransition source target = true := by
  cases source <;> cases target <;> decide

/-- States in which at least one live lease may exist. -/
def lifecycleAllowsLeases : VirtualLifecycleState → Bool
  | .attached | .active | .draining => true
  | _ => false

/-- States in which a backing assignment must exist. -/
def lifecycleRequiresBacking : VirtualLifecycleState → Bool
  | .attached | .active | .draining => true
  | _ => false

/-! ### Leases -/

/-- A lease that gives access. -/
def leaseStateIsLive (s : LeaseState) : Bool := s = .granted || s = .active

/-! ### Migrations -/

namespace MigrationState

/-- The legal successors of a state. -/
def allowed : MigrationState → List MigrationState
  | .planned => [.prepared, .aborted, .failed]
  | .prepared => [.sourceDraining, .aborted, .recoveryRequired, .failed]
  | .sourceDraining => [.destinationPrepared, .aborted, .recoveryRequired, .failed]
  | .destinationPrepared =>
    [.stateTransferPending, .commitReady, .aborted, .recoveryRequired, .failed]
  | .stateTransferPending => [.stateTransferred, .aborted, .recoveryRequired, .failed]
  | .stateTransferred => [.commitReady, .recoveryRequired, .failed]
  | .commitReady => [.committed, .aborted, .recoveryRequired, .failed]
  | .committed => [.sourceRevoked, .recoveryRequired]
  | .sourceRevoked => [.completed, .recoveryRequired]
  | .completed | .aborted | .recoveryRequired | .failed => []

end MigrationState

/-- An edge of the migration states. -/
def isLegalMigrationTransition (source target : MigrationState) : Bool :=
  source ≠ target && source.allowed.contains target

/-- Refuse what is no edge of the migration states, with the names of the states. -/
def checkMigrationTransition (source target : MigrationState) : Check := do
  if source = target then
    throw ⟨.invalidTransition, txt "migration is already in state " ++ migrationStateName source⟩
  if !isLegalMigrationTransition source target then
    throw ⟨.invalidTransition, txt "illegal migration transition " ++ migrationStateName source ++
      txt " -> " ++ migrationStateName target⟩

/-- The check accepts the edges of the table. -/
theorem checkMigrationTransition_eq_ok {source target : MigrationState} :
    checkMigrationTransition source target = .ok () ↔
      isLegalMigrationTransition source target = true := by
  cases source <;> cases target <;> decide

/-- A migration that is over. -/
def migrationStateIsTerminal : MigrationState → Bool
  | .completed | .aborted | .failed => true
  | _ => false

/-- Once the destination backing owns authority and the source must not. -/
def migrationStateAfterCutover : MigrationState → Bool
  | .committed | .sourceRevoked | .completed => true
  | _ => false

end AcceleratorVirtualization
