import AcceleratorVirtualization.Runtime.Helpers

/-!
# Agents and physical devices

An agent registers a session; with a live session it registers the physical devices it sees
and the backings they offer. Registering a device again refreshes the evidence; a different
device in the same slot revokes every binding of the previous one. A lost device revokes the
bindings on its backings and fences the leases of their holders.
-/

namespace AcceleratorVirtualization

/-- How many devices a coordinator knows at most. -/
def maxPhysicalDevices : ℕ := 4096

/-- What an agent reports about one backing of a device. -/
structure BackingDescriptor where
  label : Text := []
  klass : BackingClass := .unknown
  multiplexing : MultiplexingMode := .none
  isolationClass : IsolationClass := .unknown
  capacityBytes : ℕ := 0
  computeUnits : ℕ := 0
  mechanism : Text := []
  isolation : List IsolationClaim := []
  capabilities : CapabilitySurface := {}
  exclusive : Bool := true
  externallyLifecycleManaged : Bool := false
  externalPartitionRef : Text := []

/-- What an agent reports about a device. -/
structure PhysicalDeviceDescriptor where
  stableKey : Text := []
  vendor : Text := []
  model : Text := []
  driverVersion : Text := []
  architecture : Text := []
  provenance : Provenance := .unknown
  memoryTotalBytes : ℕ := 0
  computeUnits : ℕ := 0
  computeCapabilityMajor : ℕ := 0
  computeCapabilityMinor : ℕ := 0
  mechanism : Text := []
  hardwarePartitionCapable : Bool := false
  virtualFunctionCapable : Bool := false
  migCapable : Bool := false
  backings : List BackingDescriptor := []

/-- A stable identity is never an enumeration ordinal. -/
def validateStableKey (key : Text) : Check := do
  if key.isEmpty then
    throw (.of .invalidArgument "physical device stable key must not be empty")
  if key.length > 256 then
    throw (.of .invalidArgument "physical device stable key is longer than 256 bytes")
  if key.all fun c => 48 ≤ c && c ≤ 57 then
    throw ⟨.invalidArgument, txt "physical device stable key '" ++ key ++
      txt "' is a bare ordinal; stable identity must not be an enumeration index"⟩

/-- Whether a known device is the one described. -/
def samePhysicalIdentity (record : PhysicalDeviceRecord) (d : PhysicalDeviceDescriptor) : Bool :=
  record.vendor = d.vendor && record.model = d.model &&
    record.memoryTotalBytes = d.memoryTotalBytes && record.architecture = d.architecture

/-- A described backing declares its class, agrees with the provenance of the device and
carries isolation claims. -/
def validateBackingDescriptor (provenance : Provenance) (backing : BackingDescriptor) : Check := do
  if backing.klass = .unknown then
    throw (.of .invalidArgument "backing descriptor must declare its class")
  let expected := classNativeProvenance backing.klass
  let consistent := expected = provenance ||
    (provenance = .unsupported && expected = .real) ||
    (provenance = .synthetic && expected = .synthetic)
  if !consistent then
    throw ⟨.integrityFailure, txt "backing class " ++ backingClassName backing.klass ++
      txt " is " ++ provenanceName expected ++ txt " but the device declares " ++
      provenanceName provenance ++ txt "; SYNTHETIC mechanisms are never relabelled REAL"⟩
  if backing.isolation.isEmpty then
    throw (.of .invalidArgument
      "backing descriptor must carry an isolation claim for every dimension")

/-- The device record with everything the descriptor states. -/
def PhysicalDeviceRecord.describe (r : PhysicalDeviceRecord) (agent : AgentId) (boot : AgentBootId)
    (d : PhysicalDeviceDescriptor) (evidence : EvidenceId) (now : UnixMicros) :
    PhysicalDeviceRecord :=
  { r with
    agent, boot
    vendor := d.vendor
    model := d.model
    driverVersion := d.driverVersion
    architecture := d.architecture
    provenance := d.provenance
    memoryTotalBytes := d.memoryTotalBytes
    computeUnits := d.computeUnits
    computeCapabilityMajor := d.computeCapabilityMajor
    computeCapabilityMinor := d.computeCapabilityMinor
    mechanism := d.mechanism
    hardwarePartitionCapable := d.hardwarePartitionCapable
    virtualFunctionCapable := d.virtualFunctionCapable
    migCapable := d.migCapable
    registeredAt := if r.registeredAt = 0 then now else r.registeredAt
    evidenceAt := now
    present := true
    evidence
    evidenceGeneration := 1 }

/-- The backing record with everything the descriptor states. -/
def BackingRecord.describe (r : BackingRecord) (device : PhysicalDeviceRecord)
    (source : BackingDescriptor) (now : UnixMicros) : BackingRecord :=
  { r with
    physicalGeneration := device.generation
    klass := source.klass
    provenance := device.provenance
    mechanism := source.mechanism
    multiplexing :=
      if source.multiplexing = .none then defaultMultiplexingFor source.klass
      else source.multiplexing
    isolationClass := source.isolationClass
    isolation := source.isolation.foldl (fun profile claim => profile.set claim) {}
    capabilities := source.capabilities
    capacityBytes := source.capacityBytes
    computeUnits := source.computeUnits
    capabilityRank := backingClassRank source.klass
    evidence := device.evidence
    evidenceGeneration := device.evidenceGeneration
    evidenceAt := now
    evidenceFresh := true
    available := true
    exclusive := source.exclusive
    externallyLifecycleManaged := source.externallyLifecycleManaged
    externalPartitionRef := source.externalPartitionRef }

namespace Impl

variable {σ : Type} [DurableStore σ]

/-! ### Agents -/

/-- Enter a session, whose boot identity is the next one. -/
def openSession (im : Impl σ) (session : AgentSession) : Impl σ :=
  let im := im.takeId
  { im with agents := im.agents.insert session.id session }.account
    fun a => { a with agentBoots := a.agentBoots + 1 }

/-- Open a session. The boot identity is fresh on every connection. The identities and the
counter are taken before the operation begins. -/
def registerAgent (im : Impl σ) (clock : Clock) (name endpoint : Text) (connectionId : ℕ)
    (requested : AgentId) : Impl σ × Except Failure AgentSession :=
  if name.isEmpty then
    (im, .error (.refused (.of .invalidArgument "agent name must not be empty")))
  else if name.length > 128 then
    (im, .error (.refused (.of .invalidArgument "agent name is longer than 128 bytes")))
  else
    let id := if valid requested then requested else im.nextId
    let im := if valid requested then im else im.takeId
    if im.agents[id]?.any (·.connected) then
      (im, .error (.refused ⟨.alreadyExists,
        txt "agent " ++ strAgent id ++ txt " already has a live session"⟩))
    else
      let session : AgentSession := {
        id, boot := im.nextId, name, endpoint, connected := true
        connectedAt := clock.now, lastSeen := clock.now, connectionId }
      match (im.openSession session).beginOp.touchHeader.commit with
      | (im, .error persisted) => (im, .error (.persistence persisted))
      | (im, .ok ()) => (im, .ok session)

/-- Note that an agent is alive, in the boot it registered with. -/
def agentHeartbeat (im : Impl σ) (clock : Clock) (id : AgentId) (boot : AgentBootId) :
    Impl σ × Except Failure Unit :=
  match im.agents[id]? with
  | none => (im, .error (.refused ⟨.notFound,
      txt "agent " ++ strAgent id ++ txt " is not known"⟩))
  | some session =>
    if session.boot ≠ boot then
      (im, .error (.refused ⟨.staleAgentBoot, txt "presented agent boot " ++
        renderStrongId "boot" boot ++ txt " is not the current boot " ++
        renderStrongId "boot" session.boot ++ txt " for agent " ++ strAgent id⟩))
    else if !session.connected then
      (im, .error (.refused ⟨.notAttached,
        txt "agent " ++ strAgent id ++ txt " has no live session"⟩))
    else
      ({ im with agents := im.agents.insert id { session with lastSeen := clock.now } }, .ok ())

/-- Note that an agent is not connected any more. -/
def agentDisconnected (im : Impl σ) (id : AgentId) (boot : AgentBootId) :
    Impl σ × Except Failure Unit :=
  match im.agents[id]? with
  | none => (im, .error (.refused ⟨.notFound,
      txt "agent " ++ strAgent id ++ txt " is not known"⟩))
  | some session =>
    if session.boot ≠ boot then
      (im, .error (.refused ⟨.staleAgentBoot,
        txt "presented agent boot does not match the live session for agent " ++ strAgent id⟩))
    else ({ im with agents := im.agents.insert id { session with connected := false } }, .ok ())

/-! ### Registering a device -/

/-- What a registration of a device checks. -/
def registerPhysicalCheck (auth : Authority) (agent : AgentId) (boot : AgentBootId)
    (d : PhysicalDeviceDescriptor) (im : Impl σ) : Check := do
  im.guardStore
  im.state.checkEpoch auth
  im.state.checkRequest auth
  validateStableKey d.stableKey
  match im.agents[agent]? with
  | none => throw ⟨.notFound, txt "agent " ++ strAgent agent ++ txt " is not registered"⟩
  | some session =>
    if session.boot ≠ boot then
      throw ⟨.staleAgentBoot, txt "presented agent boot " ++ renderStrongId "boot" boot ++
        txt " is not the live boot " ++ renderStrongId "boot" session.boot ++
        txt " for agent " ++ strAgent agent⟩
    if !session.connected then
      throw ⟨.connectionLost, txt "agent " ++ strAgent agent ++ txt " has no live session"⟩
  if d.provenance = .unknown then
    throw (.of .invalidArgument "physical device descriptor must declare its provenance")
  d.backings.forM (validateBackingDescriptor d.provenance)
  if im.state.physical.size ≥ maxPhysicalDevices then
    throw (.of .limitExceeded "physical device registry is full")

/-- The known device with the described stable key. -/
def findDevice (im : Impl σ) (key : Text) : Option (PhysicalDeviceId × PhysicalDeviceRecord) :=
  im.state.physical.toList.find? fun entry => entry.2.stableKey = key

/-- The backing of a device with a label. -/
def findBacking (im : Impl σ) (device : PhysicalDeviceId) (label : Text) :
    Option (BackingId × BackingRecord) :=
  im.state.backings.toList.find? fun entry => entry.2.physical = device && entry.2.label = label

/-- The slot of the described device: a new one, or the known one, whose generation advances
when a different device occupies it. -/
def locateDevice (im : Impl σ) (d : PhysicalDeviceDescriptor) : Impl σ × PhysicalDeviceId × Bool :=
  match im.findDevice d.stableKey with
  | none =>
    let id := im.nextId
    let im := (im.takeId.touchPhysical id).emplace .physical id
      { id, generation := 1, stableKey := d.stableKey }
    (im, id, false)
  | some (key, target) =>
    let changed := !samePhysicalIdentity target d
    let im := im.touchPhysical target.id
    let im := if changed then
        im.modify .physical key fun r => { r with generation := r.generation + 1 }
      else im
    (im, key, changed)

/-- Record the evidence a registration produces. -/
def recordEvidence (im : Impl σ) (device : PhysicalDeviceRecord) (changed : Bool)
    (d : PhysicalDeviceDescriptor) (now : UnixMicros) : Impl σ :=
  let evidence : EvidenceRecord := {
    id := device.evidence
    generation := device.evidenceGeneration
    kind := if changed then .deviceDiscovery else .capabilityQuery
    provenance := d.provenance
    agent := device.agent
    boot := device.boot
    physical := device.id
    physicalGeneration := device.generation
    producedAt := now
    mechanism := d.mechanism
    detail := d.vendor ++ txt " " ++ d.model
    payloadFingerprint := Fnv1a64.update Fnv1a64.init
      (d.vendor ++ txt "|" ++ d.model ++ txt "|" ++ toDecimal d.memoryTotalBytes) }
  ((im.touchEvidence evidence.id).put .evidence evidence.id evidence).account fun a =>
    { a with evidenceRecords := a.evidenceRecords + 1 }

/-- Materialise one described backing. A backing that exists is refreshed, never duplicated. -/
def materializeBacking (key : PhysicalDeviceId) (device : PhysicalDeviceRecord) (now : UnixMicros)
    (im : Impl σ) (source : BackingDescriptor) : Impl σ :=
  match im.findBacking device.id source.label with
  | none =>
    let id := im.nextId
    let im := (im.takeId.touchBacking id).emplace .backing id
      { id, generation := 1, physical := device.id, label := source.label }
    let im := im.modify .physical key fun r =>
      { r with backings := (r.backings ++ [id]).insertionSort (· ≤ ·) }
    im.modify .backing id fun b => b.describe device source now
  | some (id, backing) =>
    let im := im.touchBacking backing.id
    im.modify .backing id fun b =>
      { b with generation := b.generation + 1 }.describe device source now

/-- Same device, fresh evidence: the backing becomes usable again. -/
def refreshBacking (device : PhysicalDeviceRecord) (now : UnixMicros) (im : Impl σ)
    (id : BackingId) : Impl σ :=
  match im.state.backings[id]? with
  | none => im
  | some _ => (im.touchBacking id).modify .backing id fun b =>
      { b with
        available := true
        evidenceFresh := true
        evidenceAt := now
        evidence := device.evidence
        evidenceGeneration := device.evidenceGeneration }

/-- Take authority away from an assignment that has it. -/
def revokeAssignment (im : Impl σ) (id : BackingAssignmentId) (reason : Text) (now : UnixMicros) :
    Impl σ :=
  match im.state.assignments[id]? with
  | none => im
  | some assignment =>
    if assignment.authoritative then
      ((im.touchAssignment id).modify .assignment id fun a =>
        { a with authoritative := false, state := .revoked, revokedAt := now, reason }).account
        fun a => { a with backingRevocations := a.backingRevocations + 1 }
    else im

/-- A different device occupies the slot: the holder of a binding must re-establish it. -/
def invalidateHolder (im : Impl σ) (now : UnixMicros) (id : VirtualAcceleratorId) : Impl σ :=
  match im.state.virtuals[id]? with
  | none => im
  | some holder =>
    if holder.state ≠ .retired then
      (im.touchVirtual id).modify .virtual id fun v =>
        { v with
          state := .recoveryRequired
          stateGeneration := v.stateGeneration + 1
          stateReason :=
            txt "the physical device generation changed; the binding must be re-established"
          generation := v.generation + 1
          updatedAt := now }
    else im

/-- The binding on a backing is revoked and its holder sent to recovery. -/
def invalidateBinding (im : Impl σ) (now : UnixMicros) (id : BackingAssignmentId) : Impl σ :=
  match im.state.assignments[id]? with
  | none => im
  | some assignment =>
    if assignment.authoritative then
      (im.revokeAssignment id (txt "the physical device generation changed under this backing")
        now).invalidateHolder now assignment.virtualId
    else im

/-- Every backing of the previous device loses its binding. -/
def invalidateBacking (now : UnixMicros) (im : Impl σ) (id : BackingId) : Impl σ :=
  match im.state.backings[id]? with
  | none => im
  | some backing =>
    ((im.invalidateBinding now backing.activeAssignment).touchBacking id).modify .backing id
      fun b => { b with assignedTo := 0, activeAssignment := 0 }

/-- The device as it is described, with the evidence of this registration. -/
def describeDevice (im : Impl σ) (agent : AgentId) (boot : AgentBootId)
    (d : PhysicalDeviceDescriptor) (now : UnixMicros) : Impl σ × PhysicalDeviceId × Bool :=
  let located := im.locateDevice d
  let key := located.2.1
  let changed := located.2.2
  let im := located.1
  let evidence := im.nextId
  let im := im.takeId.modify .physical key fun r => r.describe agent boot d evidence now
  (im.recordEvidence (im.state.physical[key]?.getD {}) changed d now, key, changed)

/-- Every described backing is materialised. A different device invalidates what was bound to
the previous one; the same device makes its backings usable again. -/
def settleBackings (im : Impl σ) (key : PhysicalDeviceId) (changed : Bool)
    (d : PhysicalDeviceDescriptor) (now : UnixMicros) : Impl σ :=
  let device := im.state.physical[key]?.getD {}
  let im := d.backings.foldl (materializeBacking key device now) im
  let backings := (im.state.physical[key]?.getD {}).backings
  if changed then backings.foldl (invalidateBacking now) im
  else backings.foldl (refreshBacking device now) im

/-- Describe the device, materialise its backings and settle those that are not described any
more. -/
def registerPhysicalAct (auth : Authority) (agent : AgentId) (boot : AgentBootId)
    (d : PhysicalDeviceDescriptor) (clock : Clock) (_ : Unit) : Body σ PhysicalDeviceRecord :=
  fun im =>
    let described := im.describeDevice agent boot d clock.now
    let key := described.2.1
    let device := described.1.state.physical[key]?.getD {}
    let im := described.1.settleBackings key described.2.2 d clock.now
    let im := (im.account fun a =>
      { a with physicalRegistered := a.physicalRegistered + 1 }).touchHeader
    (im, .ok {
      context := { OpContext.ofAuthority "register_physical" auth with
        physical := device.id, physicalGeneration := device.generation }
      result := im.state.physical[key]?.getD {} })

/-- The body of a registration. -/
def registerPhysicalBody (auth : Authority) (agent : AgentId) (boot : AgentBootId)
    (d : PhysicalDeviceDescriptor) (clock : Clock) : Body σ PhysicalDeviceRecord :=
  checked
    (fun im => orRefuse (.ofAuthority "register_physical" auth) .authorityRefusal
      (registerPhysicalCheck auth agent boot d im))
    (registerPhysicalAct auth agent boot d clock)

/-- Register a device, or describe a known one again. -/
def registerPhysical (im : Impl σ) (clock : Clock) (auth : Authority) (agent : AgentId)
    (boot : AgentBootId) (d : PhysicalDeviceDescriptor) :
    Impl σ × Except Failure PhysicalDeviceRecord :=
  im.operation clock (registerPhysicalBody auth agent boot d clock)

/-- Register again under the agent the device is known through. A refusal before that is not
recorded. -/
def refreshPhysical (im : Impl σ) (clock : Clock) (auth : Authority) (id : PhysicalDeviceId)
    (generation : Generation) (d : PhysicalDeviceDescriptor) :
    Impl σ × Except Failure PhysicalDeviceRecord :=
  match im.state.physical[id]? with
  | none => (im, .error (.refused ⟨.notFound,
      txt "physical device " ++ strPhysical id ++ txt " is not known"⟩))
  | some device =>
    if device.generation ≠ generation then
      (im, .error (.refused ⟨.stalePhysicalDevice, txt "presented physical generation " ++
        toDecimal generation ++ txt " is not the current generation " ++
        toDecimal device.generation ++ txt " for " ++ strPhysical id⟩))
    else im.registerPhysical clock auth device.agent device.boot d

/-! ### Losing a device -/

/-- What the loss of a device checks. -/
def physicalLostCheck (id : PhysicalDeviceId) (generation : Generation) (im : Impl σ) :
    Except Status PhysicalDeviceRecord := do
  im.guardStore
  match im.state.physical[id]? with
  | none => throw ⟨.notFound, txt "physical device " ++ strPhysical id ++ txt " is not known"⟩
  | some device =>
    if device.generation ≠ generation then
      throw ⟨.stalePhysicalDevice, txt "presented physical generation " ++ toDecimal generation ++
        txt " is not the current generation " ++ toDecimal device.generation⟩
    return device

/-- The holder of a lost backing needs recovery, if it is in a state that requires a backing. -/
def interruptHolder (im : Impl σ) (id : VirtualAcceleratorId) (record : VirtualAcceleratorRecord)
    (reason : Text) (now : UnixMicros) : Impl σ :=
  let im := im.touchVirtual id
  if lifecycleRequiresBacking record.state then
    im.modify .virtual id fun v =>
      { v with
        state := .recoveryRequired
        stateGeneration := v.stateGeneration + 1
        stateReason := reason
        generation := v.generation + 1
        updatedAt := now }
  else im

/-- Drop the authority on one backing of a lost device. -/
def loseBacking (reason : Text) (now : UnixMicros) (im : Impl σ) (id : BackingId) : Impl σ :=
  match im.state.backings[id]? with
  | none => im
  | some backing =>
    let im := (im.touchBacking id).modify .backing id fun b =>
      { b with available := false, evidenceFresh := false }
    if !valid backing.assignedTo then im
    else
      let holder := backing.assignedTo
      match im.state.virtuals[holder]? with
      | none => im
      | some record =>
        let im :=
          im.interruptHolder holder record (txt "backing device disappeared: " ++ reason) now
        let im := im.fenceLeases holder (txt "backing device disappeared: " ++ reason) now
        let im := if valid record.assignment then
            im.revokeAssignment record.assignment (txt "physical device disappeared") now
          else im
        im.modify .backing id fun b => { b with assignedTo := 0, activeAssignment := 0 }

/-- Recount the live attachments of a tenant from the virtual accelerators it owns. -/
def recountTenant (now : UnixMicros) (im : Impl σ) (id : TenantId) : Impl σ :=
  match im.state.tenants[id]? with
  | none => im
  | some tenant =>
    let live := (tenant.owned.map fun owned =>
      (im.state.virtuals[owned]?.map (·.activeAttachments)).getD 0).sum
    if live ≠ tenant.activeAttachments then
      (im.touchTenant tenant.id).modify .tenant id fun tenant =>
        { tenant with activeAttachments := live, updatedAt := now }
    else im

/-- Lose the device with its backings, and interrupt who holds them. -/
def physicalLostAct (id : PhysicalDeviceId) (generation : Generation) (reason : Text)
    (clock : Clock) (device : PhysicalDeviceRecord) : Body σ Unit :=
  fun im =>
    let now := clock.now
    let context : OpContext := {
      operation := txt "physical_lost", epoch := im.state.epoch
      physical := id, physicalGeneration := generation }
    let im := (im.touchPhysical id).modify .physical id fun r => { r with present := false }
    let im := device.backings.foldl (loseBacking reason now) im
    let im := im.state.tenants.keys.foldl (recountTenant now) im
    let im := im.account fun a => { a with physicalLost := a.physicalLost + 1 }
    (im.recomputeDerivedAccounting.touchHeader, .ok { context, result := () })

/-- The body of a loss. -/
def physicalLostBody (id : PhysicalDeviceId) (generation : Generation) (reason : Text)
    (clock : Clock) : Body σ Unit :=
  checked
    (fun im => orRefuse { operation := txt "physical_lost", epoch := im.state.epoch }
      .authorityRefusal (physicalLostCheck id generation im))
    (physicalLostAct id generation reason clock)

/-- Report that a device has disappeared. -/
def physicalLost (im : Impl σ) (clock : Clock) (id : PhysicalDeviceId) (generation : Generation)
    (reason : Text) : Impl σ × Except Failure Unit :=
  im.operation clock (physicalLostBody id generation reason clock)

end Impl

end AcceleratorVirtualization
