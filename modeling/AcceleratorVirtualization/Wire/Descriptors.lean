import AcceleratorVirtualization.Runtime.Devices
import AcceleratorVirtualization.Wire.FieldReading
import AcceleratorVirtualization.Wire.RecordCodec

/-!
# Descriptors of devices

An agent reports a device as a field map, with a nested field map for each of its backings. Fields
that are required refuse a map without them; all others keep their default. The list of backings is
taken as the accessor yields it.
-/

namespace AcceleratorVirtualization

open Enumeration (value ofValue)

/-! ### Keys -/

namespace FieldKey

/-- `kFieldIsolationBlob`. -/
def isolationBlob : UInt16 := 53
/-- `kFieldBlobs`. -/
def blobs : UInt16 := 72
/-- `kFieldDriverVersion`. -/
def driverVersion : UInt16 := 95
/-- `kFieldDeviceMemoryTotal`. -/
def deviceMemoryTotal : UInt16 := 96
/-- `kFieldStableKey`. -/
def stableKey : UInt16 := 100
/-- `kFieldBackingClass`. -/
def backingClass : UInt16 := 115
/-- `kFieldMultiplexing`. -/
def multiplexing : UInt16 := 116
/-- `kFieldIsolationClass`. -/
def isolationClass : UInt16 := 117
/-- `kFieldProvenance`. -/
def provenance : UInt16 := 118
/-- `kFieldMechanism`. -/
def mechanism : UInt16 := 119
/-- `kFieldLabel`. -/
def label : UInt16 := 120
/-- `kFieldExternallyManaged`. -/
def externallyManaged : UInt16 := 122
/-- `kFieldVendor`. -/
def vendor : UInt16 := 130
/-- `kFieldModel`. -/
def model : UInt16 := 131
/-- `kFieldArchitecture`. -/
def architecture : UInt16 := 132
/-- `kFieldCapacityBytes`. -/
def capacityBytes : UInt16 := 133
/-- `kFieldComputeUnits`. -/
def computeUnits : UInt16 := 134
/-- `kFieldCcMajor`. -/
def ccMajor : UInt16 := 135
/-- `kFieldCcMinor`. -/
def ccMinor : UInt16 := 136
/-- `kFieldHardwarePartitionCapable`. -/
def hardwarePartitionCapable : UInt16 := 137
/-- `kFieldVirtualFunctionCapable`. -/
def virtualFunctionCapable : UInt16 := 138
/-- `kFieldMigCapable`. -/
def migCapable : UInt16 := 139
/-- `kFieldExclusive`. -/
def exclusive : UInt16 := 140
/-- `kFieldExternalPartitionRef`. -/
def externalPartitionRef : UInt16 := 141
/-- `kFieldCapabilitiesBlob`. -/
def capabilitiesBlob : UInt16 := 142
/-- `kFieldBackings`. -/
def backings : UInt16 := 143

end FieldKey

/-! ### Reading a message -/

/-- A message is refused or has a value; it has neither if a read leaves a payload. -/
abbrev Fetch := ExceptT Status Option

/-- The answer of an accessor. -/
def Access.fetch {α : Type} : Access α → Fetch (Option α)
  | .outside => ExceptT.mk none
  | .done _ answer => pure answer

namespace FieldReader

/-- A field that has to be there. -/
def require {α : Type} (r : FieldReader) (key : UInt16) (kind : String) (access : Access α) :
    Fetch α := do
  if !r.has key then
    throw ⟨.protocolViolation, txt "required field " ++ toDecimal key.toNat ++ txt " is missing"⟩
  match ← access.fetch with
  | none =>
    throw ⟨.protocolViolation, txt "field " ++ toDecimal key.toNat ++ txt " is not " ++ txt kind⟩
  | some answer => return answer

/-- `require_u64`. -/
def requireU64 (r : FieldReader) (key : UInt16) : Fetch UInt64 := r.require key "a u64" (r.u64 key)
/-- `require_str`. -/
def requireStr (r : FieldReader) (key : UInt16) : Fetch Text := r.require key "a string" (r.str key)

end FieldReader

/-- `static_cast` of a number that was checked against the last enumerator. -/
def fetchWithin {α : Type} [Enumeration α] (raw : UInt64) (maxValue : α) (refusal : Status) :
    Fetch α := do
  if raw.toNat > value maxValue then throw refusal
  match ofValue raw.toNat with
  | some item => return item
  | none => throw refusal

/-- A blob holds one value and nothing after it. -/
def decodeAll {α : Type} (decode : Decode α) (trailing : Status) : Decode α := do
  let value ← decode
  let d ← get
  if Decoder.remaining d ≠ 0 then throw trailing
  return value

/-- A blob decoded as a whole, with the refusal for bytes that trail it. -/
def fetchBlob {α : Type} (blob : Bytes) (decode : Decode α) (trailing : String) : Fetch α :=
  ExceptT.mk (some ((decodeAll decode (.of .protocolViolation trailing)).run' (Decoder.of blob)))

/-! ### Backings -/

/-- `encode_isolation_blob`. -/
def encodeIsolationBlob (profile : IsolationProfile) : Bytes := encodeIsolationProfile profile

/-- `encode_capabilities_blob`. -/
def encodeCapabilitiesBlob (surface : CapabilitySurface) : Bytes := encodeCapabilitySurface surface

/-- `encode_backing_descriptor`: every field is written, also where it holds its default. -/
def encodeBackingDescriptor (backing : BackingDescriptor) : Bytes :=
  let writer : FieldWriter := {}
  let writer := writer.str FieldKey.label backing.label
  let writer := writer.u64 FieldKey.backingClass (.ofNat (value backing.klass))
  let writer := writer.u64 FieldKey.multiplexing (.ofNat (value backing.multiplexing))
  let writer := writer.u64 FieldKey.isolationClass (.ofNat (value backing.isolationClass))
  let writer := writer.u64 FieldKey.capacityBytes (.ofNat backing.capacityBytes)
  let writer := writer.u64 FieldKey.computeUnits (.ofNat backing.computeUnits)
  let writer := writer.str FieldKey.mechanism backing.mechanism
  let writer := writer.boolean FieldKey.exclusive backing.exclusive
  let writer := writer.boolean FieldKey.externallyManaged backing.externallyLifecycleManaged
  let writer := writer.str FieldKey.externalPartitionRef backing.externalPartitionRef
  let profile := backing.isolation.foldl IsolationProfile.set {}
  let writer := writer.bytes FieldKey.isolationBlob (encodeIsolationBlob profile)
  let writer := writer.bytes FieldKey.capabilitiesBlob (encodeCapabilitiesBlob backing.capabilities)
  writer.take

/-- `decode_backing_descriptor`: the label and the class are required, what else is missing keeps
its default. -/
def decodeBackingDescriptor (r : FieldReader) : Fetch BackingDescriptor := do
  let label ← r.requireStr FieldKey.label
  let klass ← r.requireU64 FieldKey.backingClass
  let klass ← fetchWithin klass BackingClass.syntheticMigratable
    (.of .protocolViolation "backing class is outside its domain")
  let multiplexing ← r.requireU64 FieldKey.multiplexing
  let multiplexing ← fetchWithin multiplexing MultiplexingMode.synthetic
    (.of .protocolViolation "multiplexing mode is outside its domain")
  let isolationClass ← r.requireU64 FieldKey.isolationClass
  let isolationClass ← fetchWithin isolationClass IsolationClass.synthetic
    (.of .protocolViolation "isolation class is outside its domain")
  let capacityBytes ← (r.u64 FieldKey.capacityBytes).fetch
  let computeUnits ← (r.u64 FieldKey.computeUnits).fetch
  let mechanism ← (r.str FieldKey.mechanism).fetch
  let exclusive ← (r.boolean FieldKey.exclusive).fetch
  let externallyLifecycleManaged ← (r.boolean FieldKey.externallyManaged).fetch
  let externalPartitionRef ← (r.str FieldKey.externalPartitionRef).fetch
  match ← (r.bytes FieldKey.isolationBlob).fetch with
  | none => throw (.of .protocolViolation "a backing descriptor must carry isolation claims")
  | some isolationBlob =>
    let profile ← fetchBlob isolationBlob decodeIsolationProfile
      "the isolation blob carries trailing bytes"
    let capabilitiesBlob ← (r.bytes FieldKey.capabilitiesBlob).fetch
    let capabilities ← capabilitiesBlob.elim (pure {}) fun capabilitiesBlob =>
      fetchBlob capabilitiesBlob decodeCapabilitySurface
        "the capability blob carries trailing bytes"
    return {
      label, klass, multiplexing, isolationClass
      capacityBytes := capacityBytes.elim 0 UInt64.toNat
      computeUnits := computeUnits.elim 0 fun units => units.toNat % 2 ^ 32
      mechanism := mechanism.getD []
      exclusive := exclusive.getD true
      externallyLifecycleManaged := externallyLifecycleManaged.getD false
      externalPartitionRef := externalPartitionRef.getD []
      isolation := profile.claims
      capabilities }

/-! ### Devices -/

/-- `encode_physical_descriptor`. -/
def encodePhysicalDescriptor (descriptor : PhysicalDeviceDescriptor) : Bytes :=
  let writer : FieldWriter := {}
  let writer := writer.str FieldKey.stableKey descriptor.stableKey
  let writer := writer.str FieldKey.vendor descriptor.vendor
  let writer := writer.str FieldKey.model descriptor.model
  let writer := writer.str FieldKey.driverVersion descriptor.driverVersion
  let writer := writer.str FieldKey.architecture descriptor.architecture
  let writer := writer.u64 FieldKey.provenance (.ofNat (value descriptor.provenance))
  let writer := writer.u64 FieldKey.deviceMemoryTotal (.ofNat descriptor.memoryTotalBytes)
  let writer := writer.u64 FieldKey.computeUnits (.ofNat descriptor.computeUnits)
  let writer := writer.u64 FieldKey.ccMajor (.ofNat descriptor.computeCapabilityMajor)
  let writer := writer.u64 FieldKey.ccMinor (.ofNat descriptor.computeCapabilityMinor)
  let writer := writer.str FieldKey.mechanism descriptor.mechanism
  let writer := writer.boolean FieldKey.hardwarePartitionCapable descriptor.hardwarePartitionCapable
  let writer := writer.boolean FieldKey.virtualFunctionCapable descriptor.virtualFunctionCapable
  let writer := writer.boolean FieldKey.migCapable descriptor.migCapable
  let writer :=
    writer.nestedList FieldKey.backings (descriptor.backings.map encodeBackingDescriptor)
  writer.take

/-- The loop over the nested field maps. -/
def decodeBackings (nested : List (Except Status FieldReader)) : Fetch (List BackingDescriptor) :=
  nested.mapM fun entry => do
    let reader ← ExceptT.mk (some entry)
    decodeBackingDescriptor reader

/-- `decode_physical_descriptor`: only the stable key is required. -/
def decodePhysicalDescriptor (r : FieldReader) : Fetch PhysicalDeviceDescriptor := do
  let stableKey ← r.requireStr FieldKey.stableKey
  let vendor ← (r.str FieldKey.vendor).fetch
  let model ← (r.str FieldKey.model).fetch
  let driverVersion ← (r.str FieldKey.driverVersion).fetch
  let architecture ← (r.str FieldKey.architecture).fetch
  let provenance ← r.requireU64 FieldKey.provenance
  let provenance ← fetchWithin provenance Provenance.unsupported
    (.of .protocolViolation "provenance is outside its domain")
  let memoryTotalBytes ← (r.u64 FieldKey.deviceMemoryTotal).fetch
  let computeUnits ← (r.u64 FieldKey.computeUnits).fetch
  let ccMajor ← (r.u64 FieldKey.ccMajor).fetch
  let ccMinor ← (r.u64 FieldKey.ccMinor).fetch
  let mechanism ← (r.str FieldKey.mechanism).fetch
  let hardwarePartitionCapable ← (r.boolean FieldKey.hardwarePartitionCapable).fetch
  let virtualFunctionCapable ← (r.boolean FieldKey.virtualFunctionCapable).fetch
  let migCapable ← (r.boolean FieldKey.migCapable).fetch
  let nested := r.nestedList FieldKey.backings
  if nested.length > 64 then
    throw (.of .limitExceeded "a physical device may carry at most 64 backing descriptors")
  let backings ← decodeBackings nested
  return {
    stableKey, provenance, backings
    vendor := vendor.getD []
    model := model.getD []
    driverVersion := driverVersion.getD []
    architecture := architecture.getD []
    memoryTotalBytes := memoryTotalBytes.elim 0 UInt64.toNat
    computeUnits := computeUnits.elim 0 fun units => units.toNat % 2 ^ 32
    computeCapabilityMajor := ccMajor.elim 0 fun major => major.toNat % 2 ^ 32
    computeCapabilityMinor := ccMinor.elim 0 fun minor => minor.toNat % 2 ^ 32
    mechanism := mechanism.getD []
    hardwarePartitionCapable := hardwarePartitionCapable.getD false
    virtualFunctionCapable := virtualFunctionCapable.getD false
    migCapable := migCapable.getD false }

end AcceleratorVirtualization
