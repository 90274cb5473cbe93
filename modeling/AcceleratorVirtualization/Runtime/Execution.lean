import AcceleratorVirtualization.Runtime.Migrations

/-!
# Execution accounting

Memory is reserved against the ceiling of the contract before a backend is asked; releases
are reconciliations that need no current virtual generation; kernels are only counted.
-/

namespace AcceleratorVirtualization

namespace Impl

variable {σ : Type} [DurableStore σ]

/-! ### Reserving memory -/

/-- The lease that authorises work on a virtual accelerator. -/
def checkExecutionLease (im : Impl σ) (auth : Authority) (owned : Owned) :
    Except Status LeaseRecord :=
  match auth.lease, auth.leaseGeneration with
  | some id, some generation =>
    match im.state.leases[id]? with
    | none => .error (.of .notFound "lease is not known")
    | some lease => do
      if lease.generation ≠ generation then
        throw ⟨.staleLease, txt "presented lease generation " ++ toDecimal generation ++
          txt " is not the current generation " ++ toDecimal lease.generation⟩
      if lease.virtualId ≠ owned.record.id || lease.tenant ≠ owned.tenant.id ||
          !leaseStateIsLive lease.state then
        throw (.of .notAttached "the presented lease does not authorise this virtual accelerator")
      if lease.virtualGeneration ≠ owned.record.generation then
        throw (.of .staleLease "the lease was bound to a superseded virtual generation")
      if lease.backingGeneration ≠ owned.record.backingGeneration then
        throw (.of .staleLease "the lease was bound to a superseded backing generation")
      if lease.policyGeneration ≠ im.state.policyGeneration then
        throw (.of .stalePolicy "the lease was granted under a superseded policy generation")
      if lease.epoch ≠ im.state.epoch then
        throw (.of .staleEpoch "the lease was granted under a superseded coordinator epoch")
      return lease
  | _, _ => .error (.of .notAttached "allocation requires a live attachment lease")

/-- What a reservation of memory checks: the lease, all that it is bound to, and the ceiling. -/
def reserveAllocationCheck (auth : Authority) (bytes : ℕ) (im : Impl σ) :
    Except Status (Owned × LeaseRecord) := do
  im.checkAuthority auth
  let owned ← im.state.resolveOwned auth
  let lease ← im.checkExecutionLease auth owned
  let value := owned.record
  let ceiling := value.contract.memoryCeilingBytes
  if im.options.enforceMemoryBudget && ceiling > 0 then
    if bytes > ceiling || value.allocatedBytes > ceiling - bytes then
      throw ⟨.contractViolation, txt "allocation of " ++ toDecimal bytes ++
        txt " byte(s) would exceed the virtual memory ceiling of " ++ toDecimal ceiling ++
        txt " byte(s) for " ++ strVirtual value.id ++ txt " (currently " ++
        toDecimal value.allocatedBytes ++ txt " byte(s) allocated)"⟩
  if value.state ≠ .active && value.state ≠ .attached then
    throw ⟨.invalidTransition, txt "virtual accelerator " ++ strVirtual value.id ++ txt " is " ++
      lifecycleName value.state ++ txt " and cannot execute"⟩
  return (owned, lease)

/-- Byte sums are 64-bit words. -/
def reserveAllocationAct (auth : Authority) (bytes : ℕ) (plan : Owned × LeaseRecord) : Body σ ℕ :=
  fun im =>
    let (owned, lease) := plan
    let im := (im.touchVirtual owned.record.id).modify .virtual owned.virtualId fun v =>
      let allocated := (v.allocatedBytes + bytes) % 2 ^ 64
      { v with
        allocatedBytes := allocated
        peakAllocatedBytes := max v.peakAllocatedBytes allocated
        allocationOperations := v.allocationOperations + 1 }
    let im := (im.account fun a =>
      let current := (a.bytesAllocatedCurrent + bytes) % 2 ^ 64
      { a with
        allocationOperations := a.allocationOperations + 1
        bytesAllocatedCurrent := current
        bytesAllocatedPeak := max a.bytesAllocatedPeak current }).touchHeader
    (im, .ok {
      context := (OpContext.ofAuthority "reserve_allocation" auth).adoptLease lease
      result := (im.state.virtuals[owned.virtualId]?.getD {}).allocatedBytes })

/-- The body of a reservation. -/
def reserveAllocationBody (auth : Authority) (bytes : ℕ) : Body σ ℕ :=
  checked
    (fun im => orRefuse (.ofAuthority "reserve_allocation" auth) .authorityRefusal
      (reserveAllocationCheck auth bytes im))
    (reserveAllocationAct auth bytes)

/-- Reserve memory under a lease. -/
def reserveAllocation (im : Impl σ) (clock : Clock) (auth : Authority) (bytes : ℕ) :
    Impl σ × Except Failure ℕ :=
  im.operation clock (reserveAllocationBody auth bytes)

/-! ### Releasing memory -/

/-- What a release of memory checks. -/
def releaseAllocationCheck (auth : Authority) (bytes : ℕ) (im : Impl σ) :
    Except Status (VirtualAcceleratorId × VirtualAcceleratorRecord) := do
  im.guardStore
  im.state.checkEpoch auth
  let (_, tenant) ← im.state.resolveTenant auth
  match auth.virtualId with
  | none => throw (.of .invalidArgument "authority must carry a virtual accelerator identity")
  | some id =>
    match im.state.virtuals[id]? with
    | none => throw ⟨.notFound, txt "virtual accelerator " ++ strVirtual id ++
        txt " is not known"⟩
    | some record =>
      requireOwner record tenant
      if record.allocatedBytes < bytes then
        throw ⟨.contractViolation, txt "release of " ++ toDecimal bytes ++
          txt " byte(s) exceeds the currently allocated " ++ toDecimal record.allocatedBytes ++
          txt " byte(s)"⟩
      return (id, record)

/-- Give memory back. -/
def releaseAllocationAct (auth : Authority) (bytes : ℕ)
    (target : VirtualAcceleratorId × VirtualAcceleratorRecord) : Body σ Unit :=
  fun im =>
    let im := (im.touchVirtual target.2.id).modify .virtual target.1 fun v =>
      { v with allocatedBytes := v.allocatedBytes - bytes }
    let im := (im.account fun a =>
      { a with bytesAllocatedCurrent := a.bytesAllocatedCurrent - bytes }).touchHeader
    (im, .ok {
      context := (OpContext.ofAuthority "release_allocation" auth).adoptVirtual target.2
      result := () })

/-- The body of a release. -/
def releaseAllocationBody (auth : Authority) (bytes : ℕ) : Body σ Unit :=
  checked
    (fun im => orRefuse (.ofAuthority "release_allocation" auth) .authorityRefusal
      (releaseAllocationCheck auth bytes im))
    (releaseAllocationAct auth bytes)

/-- Release memory. -/
def releaseAllocation (im : Impl σ) (clock : Clock) (auth : Authority) (bytes : ℕ) :
    Impl σ × Except Failure Unit :=
  im.operation clock (releaseAllocationBody auth bytes)

/-! ### Counting kernels -/

/-- What counting kernels checks: less of the lease than a reservation does. -/
def accountKernelCheck (auth : Authority) (im : Impl σ) : Except Status (Owned × LeaseRecord) := do
  im.guardStore
  im.state.checkEpoch auth
  let owned ← im.state.resolveOwned auth
  match auth.lease with
  | none => throw (.of .notAttached "execution accounting requires a live attachment lease")
  | some id =>
    match im.state.leases[id]? with
    | none => throw (.of .notAttached "the presented lease is not live")
    | some lease =>
      if !leaseStateIsLive lease.state then
        throw (.of .notAttached "the presented lease is not live")
      if auth.leaseGeneration.any (· ≠ lease.generation) then
        throw (.of .staleLease "the presented lease generation is not current")
      return (owned, lease)

/-- Count kernels. -/
def accountKernelAct (auth : Authority) (count : ℕ) (plan : Owned × LeaseRecord) : Body σ Unit :=
  fun im =>
    let (owned, lease) := plan
    let im := (im.touchVirtual owned.record.id).modify .virtual owned.virtualId fun v =>
      { v with kernelOperations := v.kernelOperations + count }
    let im := (im.account fun a =>
      { a with kernelOperations := a.kernelOperations + count }).touchHeader
    (im, .ok {
      context := (OpContext.ofAuthority "account_kernel" auth).adoptLease lease
      result := () })

/-- The body of counting. -/
def accountKernelBody (auth : Authority) (count : ℕ) : Body σ Unit :=
  checked
    (fun im => orRefuse (.ofAuthority "account_kernel" auth) .authorityRefusal
      (accountKernelCheck auth im))
    (accountKernelAct auth count)

/-- Count kernels under a lease. -/
def accountKernel (im : Impl σ) (clock : Clock) (auth : Authority) (count : ℕ) :
    Impl σ × Except Failure Unit :=
  im.operation clock (accountKernelBody auth count)

end Impl

end AcceleratorVirtualization
