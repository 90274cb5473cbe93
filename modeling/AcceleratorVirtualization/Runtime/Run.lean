import AcceleratorVirtualization.Runtime.Start

/-!
# Runs of the runtime

The public operations that change something, as data, so that a run can be any sequence of
them; and the events of a run: an operation with what the store answers to its write, a start
and a shutdown, a compaction, and a new process over what the store holds.

`Disk` is what a durable store is for, without a file format: it holds a state; a change set
that is applied replaces the listed records and extends the windows; a compaction replaces
everything; what is loaded has to pass `validateState`.
-/

namespace AcceleratorVirtualization

/-- The public operations that change something, with their arguments. -/
inductive Op
  | registerAgent (name endpoint : Text) (connectionId : ℕ) (requested : AgentId)
  | agentHeartbeat (id : AgentId) (boot : AgentBootId)
  | agentDisconnected (id : AgentId) (boot : AgentBootId)
  | registerPhysical (auth : Authority) (agent : AgentId) (boot : AgentBootId)
      (d : PhysicalDeviceDescriptor)
  | refreshPhysical (auth : Authority) (id : PhysicalDeviceId) (generation : Generation)
      (d : PhysicalDeviceDescriptor)
  | physicalLost (id : PhysicalDeviceId) (generation : Generation) (reason : Text)
  | setPolicy (auth : Authority) (policy : VirtualizationPolicy)
  | createTenant (auth : Authority) (name externalSubject : Text)
  | fenceTenant (auth : Authority) (id : TenantId) (generation : Generation) (reason : Text)
  | transferOwnership (auth : Authority) (newOwner : TenantId) (newGeneration : Generation)
  | createVirtual (auth : Authority) (name : Text) (owner : TenantId)
      (ownerGeneration : Generation) (contract : ResourceContract)
  | updateContract (auth : Authority) (contract : ResourceContract)
  | activate (auth : Authority)
  | drain (auth : Authority) (reason : Text)
  | resolveRecovery (auth : Authority) (reason : Text)
  | suspend (auth : Authority) (reason : Text)
  | resume (auth : Authority) (reason : Text)
  | fenceVirtual (auth : Authority) (reason : Text)
  | retireVirtual (auth : Authority) (reason : Text)
  | assignBacking (auth : Authority) (backing : BackingId) (reason : Text)
  | replaceBacking (auth : Authority) (destination : BackingId) (reason : Text)
  | attach (auth : Authority)
  | renewLease (auth : Authority)
  | detach (auth : Authority)
  | revokeLease (auth : Authority) (reason : Text)
  | planMigration (auth : Authority) (destination : BackingId) (klass : MigrationClass)
  | prepareMigration (auth : Authority)
  | commitMigration (auth : Authority)
  | completeMigration (auth : Authority)
  | abortMigration (auth : Authority) (reason : Text)
  | classifyRecoveredMigrations
  | reserveAllocation (auth : Authority) (bytes : ℕ)
  | releaseAllocation (auth : Authority) (bytes : ℕ)
  | accountKernel (auth : Authority) (count : ℕ)

namespace Impl

variable {σ : Type} [DurableStore σ]

/-- Forget what an operation returns besides its status. -/
def forget {α : Type} (r : Impl σ × Except Failure α) : Impl σ × Except Failure Unit :=
  (r.1, r.2.map fun _ => ())

/-- Carry out an operation. -/
def exec (im : Impl σ) (clock : Clock) : Op → Impl σ × Except Failure Unit
  | .registerAgent name endpoint connectionId requested =>
    forget (im.registerAgent clock name endpoint connectionId requested)
  | .agentHeartbeat id boot => im.agentHeartbeat clock id boot
  | .agentDisconnected id boot => im.agentDisconnected id boot
  | .registerPhysical auth agent boot d => forget (im.registerPhysical clock auth agent boot d)
  | .refreshPhysical auth id generation d =>
    forget (im.refreshPhysical clock auth id generation d)
  | .physicalLost id generation reason => im.physicalLost clock id generation reason
  | .setPolicy auth policy => forget (im.setPolicy clock auth policy)
  | .createTenant auth name externalSubject =>
    forget (im.createTenant clock auth name externalSubject)
  | .fenceTenant auth id generation reason => im.fenceTenant clock auth id generation reason
  | .transferOwnership auth newOwner newGeneration =>
    forget (im.transferOwnership clock auth newOwner newGeneration)
  | .createVirtual auth name owner ownerGeneration contract =>
    forget (im.createVirtual clock auth name owner ownerGeneration contract)
  | .updateContract auth contract => forget (im.updateContract clock auth contract)
  | .activate auth => forget (im.activate clock auth)
  | .drain auth reason => forget (im.drain clock auth reason)
  | .resolveRecovery auth reason => forget (im.resolveRecovery clock auth reason)
  | .suspend auth reason => forget (im.suspend clock auth reason)
  | .resume auth reason => forget (im.resume clock auth reason)
  | .fenceVirtual auth reason => forget (im.fenceVirtual clock auth reason)
  | .retireVirtual auth reason => forget (im.retireVirtual clock auth reason)
  | .assignBacking auth backing reason => forget (im.assignBacking clock auth backing reason)
  | .replaceBacking auth destination reason =>
    forget (im.replaceBacking clock auth destination reason)
  | .attach auth => forget (im.attach clock auth)
  | .renewLease auth => forget (im.renewLease clock auth)
  | .detach auth => im.detach clock auth
  | .revokeLease auth reason => im.revokeLease clock auth reason
  | .planMigration auth destination klass =>
    forget (im.planMigration clock auth destination klass)
  | .prepareMigration auth => forget (im.prepareMigration clock auth)
  | .commitMigration auth => forget (im.commitMigration clock auth)
  | .completeMigration auth => forget (im.completeMigration clock auth)
  | .abortMigration auth reason => forget (im.abortMigration clock auth reason)
  | .classifyRecoveredMigrations => im.classifyRecoveredMigrations clock
  | .reserveAllocation auth bytes => forget (im.reserveAllocation clock auth bytes)
  | .releaseAllocation auth bytes => im.releaseAllocation clock auth bytes
  | .accountKernel auth count => im.accountKernel clock auth count

end Impl

/-! ### The durable image -/

/-- What a durable store holds, whether it is open, and what it answers to the next change
set. -/
structure Disk where
  image : Option VirtualizationState := none
  opened : Bool := false
  answer : Check := .ok ()

namespace Disk

/-- The records a change set lists, as they are in the new state. -/
def mergeRecords (old new : VirtualizationState) (c : ChangeSet) (k : RecordKind) :
    IdMap k.Record :=
  (c.ids k).foldl (fun map id => Impl.setRecord map id (new.find k id)) (old.entities k)

/-- The scalars, where the change set has the header. -/
def mergeHeader (old new : VirtualizationState) (c : ChangeSet) : VirtualizationState :=
  if c.header then
    { old with
      schema := new.schema
      nextSequence := new.nextSequence
      epoch := new.epoch
      policy := new.policy
      policyGeneration := new.policyGeneration
      accounting := new.accounting }
  else old

/-- The image after a change set. -/
def merge (old new : VirtualizationState) (c : ChangeSet) : VirtualizationState :=
  Impl.pushWindows
    { mergeHeader old new c with
      tenants := mergeRecords old new c .tenant
      physical := mergeRecords old new c .physical
      backings := mergeRecords old new c .backing
      virtuals := mergeRecords old new c .virtual
      leases := mergeRecords old new c .lease
      assignments := mergeRecords old new c .assignment
      migrations := mergeRecords old new c .migration
      evidence := mergeRecords old new c .evidence } c

/-- A store that is not open takes nothing. -/
def notOpen : Status := .of .notReady "durable store is not open"

instance : DurableStore Disk where
  open_ d := ({ d with opened := true }, .ok ())
  applyChanges d s c :=
    if d.opened then
      match d.answer with
      | .ok () => ({ d with image := some (merge (d.image.getD {}) s c) }, .ok ())
      | .error status => (d, .error status)
    else (d, .error notOpen)
  compact d s := if d.opened then ({ d with image := some s }, .ok ()) else (d, .error notOpen)
  load d :=
    match d.image with
    | none => (d, .ok {})
    | some image => (d, image.validateState.map fun _ => image)
  flush d := (d, .ok ())
  close d := ({ d with opened := false }, .ok ())
  present d := d.image.isSome

end Disk

/-! ### Runs -/

/-- What can happen to a runtime over a disk. -/
inductive Event
  /-- An operation, with what the store answers to its change set. -/
  | op (op : Op) (clock : Clock) (answer : Check)
  | start (clock : Clock)
  | shutdown (clock : Clock)
  | compact
  /-- A new process over what the store holds. -/
  | boot (options : RuntimeOptions)

namespace Impl

/-- Let the store give an answer to the change sets of the next call. -/
def answering (im : Impl Disk) (answer : Check) : Impl Disk :=
  { im with store := im.store.map fun d => { d with answer } }

/-- One event of a run. Operations may be refused and their writes may fail; starts and
shutdowns are clean. -/
def step (im : Impl Disk) : Event → Option (Impl Disk)
  | .op op clock answer => some ((im.answering answer).exec clock op).1
  | .start clock =>
    match (im.answering (.ok ())).start clock with
    | (im, .ok ()) => some im
    | (_, .error _) => none
  | .shutdown clock =>
    match (im.answering (.ok ())).shutdown clock with
    | (im, .ok ()) => some im
    | (_, .error _) => none
  | .compact => some im.compact.1
  | .boot options =>
    some { options, store := im.store.map fun d => { d with opened := false } }

/-- The runtime after a run of events. -/
def run (im : Impl Disk) (events : List Event) : Option (Impl Disk) := events.foldlM step im

/-- A process over an empty store, or without a store. -/
def initial (options : RuntimeOptions) (stored : Bool) : Impl Disk :=
  { options, store := if stored then some {} else none }

end Impl

end AcceleratorVirtualization
