import AcceleratorVirtualization.Wire.Inspection
import AcceleratorVirtualization.Wire.NestedLists

/-!
# Descriptors are read back

A descriptor goes through three codecs: a field map for the device, one more for each of its
backings, and blobs for the claims and the capabilities of a backing. Every field is written under
the key and with the type it is asked for, so that none is lost to its default.
-/

namespace AcceleratorVirtualization

open Enumeration (value ofValue)
open Reader Decoder Fetch

/-! ### Lengths -/

/-- A bound on a text on the wire. -/
theorem length_str_le {limits : DecodeLimits} {text : Text} (h : Short limits text) :
    (Encoder.str text).length ≤ 4 + limits.maxString := by
  have hword : ¬ text.length > 0xFFFFFFFF := Nat.not_lt.mpr (Nat.le_of_lt_succ h.2)
  have hlong := h.1
  rw [Encoder.str, if_neg hword, List.length_append, Encoder.u32, LittleEndian.length_toBytes]
  omega

/-- A bound on a list on the wire. -/
theorem length_list_le {α : Type} {items : List α} {encodeItem : α → Bytes} {n : ℕ}
    (h : ∀ a ∈ items, (encodeItem a).length ≤ n) :
    (Encoder.list items encodeItem).length ≤ 4 + items.length * n := by
  have hitems : (items.flatMap encodeItem).length ≤ items.length * n := by
    induction items with
    | nil => exact Nat.zero_le _
    | cons a items ih =>
      rw [List.forall_mem_cons] at h
      have htail := ih h.2
      have hhead := h.1
      rw [List.flatMap_cons, List.length_append, List.length_cons, Nat.add_mul]
      omega
  rw [Encoder.list, List.length_append, Encoder.u32, LittleEndian.length_toBytes]
  omega

/-- There are no more members than enumerators that they are sorted by. -/
theorem length_le_of_sorted {α β : Type} [Enumeration β] {last : β} [LastEnumerator β last]
    {key : α → β} {items : List α} (h : KeyedList.Sorted (fun a => value (key a)) items) :
    items.length ≤ value last + 1 := by
  have hnodup : (items.map fun a => value (key a)).Nodup :=
    List.pairwise_map.mpr (h.imp fun hab => Nat.ne_of_lt hab)
  have hsubset : (items.map fun a => value (key a)) ⊆ List.range (value last + 1) := by
    intro n hn
    obtain ⟨a, -, rfl⟩ := List.mem_map.mp hn
    exact List.mem_range.mpr (Nat.lt_succ_of_le (LastEnumerator.le _))
  simpa using (List.subperm_of_subset hnodup hsubset).length_le

/-- A bound on a claim on the wire. -/
theorem length_isolationClaim_le {claim : IsolationClaim} (h : claim.Fits {}) :
    (encodeIsolationClaim claim).length ≤ 2 ^ 18 := by
  obtain ⟨hmechanism, hrationale⟩ := h.texts
  have hm := length_str_le hmechanism
  have hr := length_str_le hrationale
  simp only [encodeIsolationClaim, List.flatten_cons, List.flatten_nil, List.length_append,
    encodeEnum, Encoder.u8, Encoder.u64, LittleEndian.length_toBytes, List.length_nil] at *
  omega

/-- A bound on a capability on the wire. -/
theorem length_capabilityEntry_le {entry : CapabilityEntry} (h : entry.Fits {}) :
    (encodeCapabilityEntry entry).length ≤ 2 ^ 18 := by
  have ht := length_str_le h.text
  have hp := length_str_le h.provenance
  simp only [encodeCapabilityEntry, encodeKey, List.flatten_cons, List.flatten_nil,
    List.length_append, encodeEnum, Encoder.u8, Encoder.u16, Encoder.u64,
    LittleEndian.length_toBytes, List.length_nil] at *
  omega

/-! ### Field maps of a bounded length -/

/-- No payload of a map is longer than the map. -/
theorem FieldWriter.length_payload_le {w : FieldWriter} {e : FieldWriterEntry} (he : e ∈ w.entries)
    (hword : Word 32 e.payload.length) : e.payload.length ≤ w.take.length := by
  have hentry : e.payload.length ≤ (FieldWriter.encodeEntry e).length := by
    rw [FieldWriter.encodeEntry, Encoder.raw, if_neg (Nat.not_lt.mpr (Nat.le_of_lt_succ hword))]
    simp only [List.length_append]
    omega
  have hsub : (FieldWriter.encodeEntry e).Sublist (w.sorted.flatMap FieldWriter.encodeEntry) :=
    List.sublist_flatten_of_mem (List.mem_map_of_mem (w.mem_sorted.mpr he))
  have hlong := hsub.length_le
  rw [FieldWriter.take, Encoder.list, List.length_append]
  omega

/-- A field map that fits a field of another one is taken. -/
theorem FieldReader.exists_create_of_length {writes : List (UInt16 × FieldValue)}
    (hkeys : (writes.map Prod.fst).dedup.length ≤ 1024)
    (hwords : ∀ v ∈ writes.map Prod.snd, Word 32 v.payload.length)
    (hlength : (FieldWriter.of writes).take.length ≤ 1024 * 1024) :
    ∃ r, FieldReader.create (FieldWriter.of writes).take = .ok r ∧
      r.Holds (lastWritten writes) := by
  refine FieldReader.exists_create hkeys fun key v hv => ?_
  have hfind : (FieldWriter.of writes).entries.find? (fun e => e.key = key) =
      some (FieldValue.entry key v) := by
    rw [FieldWriter.find?_of, hv, Option.map_some]
  exact (FieldWriter.length_payload_le (List.mem_of_find?_eq_some hfind)
    (hwords v (mem_of_lastWritten hv))).trans hlength

/-! ### Single fields -/

/-- A word survives the machine type. -/
theorem toNat_ofNat_word64 {n : ℕ} (h : Word 64 n) : (UInt64.ofNat n).toNat = n := by
  rw [UInt64.toNat_ofNat']
  exact Nat.mod_eq_of_lt h

/-- A 32-bit number that was written as a longer one. -/
theorem toNat_ofNat_mod {n : ℕ} (h : Word 32 n) : (UInt64.ofNat n).toNat % 2 ^ 32 = n := by
  rw [toNat_ofNat_word64 (lt_trans h (by decide)), Nat.mod_eq_of_lt h]

/-- A code inside its domain is fetched. -/
theorem fetchWithin_value {α : Type} [Enumeration α] {last : α} [LastEnumerator α last] {a : α}
    {refusal : Status} : fetchWithin (.ofNat (value a)) last refusal = pure a := by
  have hle : value a < 2 ^ 8 := lt_of_le_of_lt (LastEnumerator.le a) LastEnumerator.byte
  rw [within_eq_pure, toNat_ofNat_word64 (lt_trans hle (by decide)), Enumeration.ofValue_value]

/-- A blob that is read to its end is fetched. -/
theorem fetchBlob_of_reads {α : Type} {blob : Bytes} {decode : Decode α} {trailing : String} {a : α}
    (h : Reads {} decode blob a) : fetchBlob blob decode trailing = pure a := by
  have hrun : decode.run (Decoder.of blob) = .ok (a, ⟨[], {}⟩) := by
    have hread := h []
    rwa [List.append_nil] at hread
  rw [fetchBlob, mk_eq_pure, run'_ok]
  refine ⟨⟨[], {}⟩, ?_⟩
  rw [decodeAll, bind_run_of_ok hrun]
  rfl

/-! ### Backings -/

/-- A text a field takes. -/
def FieldText (text : Text) : Prop := (FieldValue.str text).payload.length ≤ 1024 * 1024

instance : DecidablePred FieldText := fun text =>
  inferInstanceAs (Decidable ((FieldValue.str text).payload.length ≤ 1024 * 1024))

/-- A text that fits a field has a length of one word. -/
theorem FieldText.word {text : Text} (h : FieldText text) :
    Word 32 (FieldValue.str text).payload.length := lt_of_le_of_lt h (by decide)

/-- The numbers of a backing fit their words and its texts a field; its claims are sorted by their
dimensions, without a repetition, and fit, as its capabilities do. -/
structure BackingDescriptor.Fits (b : BackingDescriptor) : Prop where
  texts : [b.label, b.mechanism, b.externalPartitionRef].Forall FieldText
  capacityBytes : Word 64 b.capacityBytes
  computeUnits : Word 32 b.computeUnits
  sorted : KeyedList.Sorted (fun c => value c.dimension) b.isolation
  isolation : ∀ claim ∈ b.isolation, claim.Fits {}
  capabilities : ∀ entry ∈ b.capabilities.entries, entry.Fits {}

namespace BackingDescriptor

variable {b : BackingDescriptor}

/-- The claims, as they are once they are set. -/
def profile (b : BackingDescriptor) : IsolationProfile := b.isolation.foldl IsolationProfile.set {}

/-- The profile of a descriptor has the claims of the descriptor. -/
theorem claims_profile (h : b.Fits) : b.profile.claims = b.isolation :=
  congrArg IsolationProfile.claims (IsolationProfile.foldl_set ⟨b.isolation, h.sorted⟩)

/-- The isolation blob is read back. -/
theorem reads_profile (h : b.Fits) :
    Reads {} decodeIsolationProfile (encodeIsolationBlob b.profile) b.profile := by
  have hlength : b.isolation.length ≤ 11 := length_le_of_sorted h.sorted
  refine reads_isolationProfile ⟨?_, ?_⟩
  · rw [claims_profile h]
    exact ⟨hlength.trans (by decide), hlength.trans (by decide),
      lt_of_le_of_lt hlength (by decide), by decide⟩
  · rw [claims_profile h]
    exact h.isolation

/-- A surface has at most 256 entries, one for each key. -/
theorem length_entries_le (surface : CapabilitySurface) : surface.entries.length ≤ 256 :=
  (length_le_of_sorted surface.sorted).trans (by decide)

/-- The capabilities blob is read back. -/
theorem reads_capabilities (h : b.Fits) :
    Reads {} decodeCapabilitySurface (encodeCapabilitiesBlob b.capabilities) b.capabilities := by
  have hlength := length_entries_le b.capabilities
  exact reads_capabilitySurface ⟨⟨hlength, hlength.trans (by decide),
    lt_of_le_of_lt hlength (by decide), by decide⟩, h.capabilities⟩

/-- What is written for a backing, field by field. -/
def writes (b : BackingDescriptor) : List (UInt16 × FieldValue) :=
  [(FieldKey.label, .str b.label),
    (FieldKey.backingClass, .u64 (.ofNat (value b.klass))),
    (FieldKey.multiplexing, .u64 (.ofNat (value b.multiplexing))),
    (FieldKey.isolationClass, .u64 (.ofNat (value b.isolationClass))),
    (FieldKey.capacityBytes, .u64 (.ofNat b.capacityBytes)),
    (FieldKey.computeUnits, .u64 (.ofNat b.computeUnits)),
    (FieldKey.mechanism, .str b.mechanism),
    (FieldKey.exclusive, .boolean b.exclusive),
    (FieldKey.externallyManaged, .boolean b.externallyLifecycleManaged),
    (FieldKey.externalPartitionRef, .str b.externalPartitionRef),
    (FieldKey.isolationBlob, .bytes (encodeIsolationBlob b.profile)),
    (FieldKey.capabilitiesBlob, .bytes (encodeCapabilitiesBlob b.capabilities))]

theorem encode_eq (b : BackingDescriptor) :
    encodeBackingDescriptor b = (FieldWriter.of b.writes).take := rfl

/-- A blob of a descriptor has a length of one word. -/
theorem word_blob {blob : Bytes} (h : blob.length ≤ 2 ^ 28) :
    Word 32 (FieldValue.bytes blob).payload.length := by
  rw [FieldValue.payload, length_putSized]
  exact lt_of_le_of_lt (Nat.add_le_add_left h 4) (by decide)

/-- Every field of a descriptor has a length of one word. -/
theorem words_writes (h : b.Fits) : ∀ v ∈ b.writes.map Prod.snd, Word 32 v.payload.length := by
  obtain ⟨hlabel, hmechanism, href⟩ := h.texts
  have hclaims : b.isolation.length ≤ 11 := length_le_of_sorted h.sorted
  have hentries := length_entries_le b.capabilities
  have hisolation : (encodeIsolationBlob b.profile).length ≤ 2 ^ 28 := by
    have hlong : (Encoder.list b.isolation encodeIsolationClaim).length ≤
        4 + b.isolation.length * 2 ^ 18 :=
      length_list_le fun claim hc => length_isolationClaim_le (h.isolation claim hc)
    rw [encodeIsolationBlob, encodeIsolationProfile, claims_profile h]
    omega
  have hcapabilities : (encodeCapabilitiesBlob b.capabilities).length ≤ 2 ^ 28 := by
    have hlong : (Encoder.list b.capabilities.entries encodeCapabilityEntry).length ≤
        4 + b.capabilities.entries.length * 2 ^ 18 :=
      length_list_le fun entry he => length_capabilityEntry_le (h.capabilities entry he)
    rw [encodeCapabilitiesBlob, encodeCapabilitySurface]
    omega
  have hu64 : ∀ n : UInt64, Word 32 (FieldValue.u64 n).payload.length := fun n =>
    lt_of_eq_of_lt (length_putU64 n) (by decide)
  have hboolean : ∀ c : Bool, Word 32 (FieldValue.boolean c).payload.length := by decide
  simp only [writes, List.map_cons, List.map_nil, List.forall_mem_cons]
  exact ⟨hlabel.word, hu64 _, hu64 _, hu64 _, hu64 _, hu64 _, hmechanism.word, hboolean _,
    hboolean _, href.word, word_blob hisolation, word_blob hcapabilities, nofun⟩

/-- A backing whose encoding fits a field is read back. -/
theorem decode_encode (h : b.Fits) (hlength : (encodeBackingDescriptor b).length ≤ 1024 * 1024) :
    ∃ r, FieldReader.create (encodeBackingDescriptor b) = .ok r ∧
      decodeBackingDescriptor r = pure b := by
  rw [encode_eq] at *
  have hkeys : (b.writes.map Prod.fst).dedup.length ≤ 1024 :=
    (List.dedup_sublist _).length_le.trans (show 12 ≤ 1024 by decide)
  obtain ⟨r, hcreate, hr⟩ := FieldReader.exists_create_of_length hkeys (words_writes h) hlength
  refine ⟨r, hcreate, ?_⟩
  have hlabel : r.requireStr FieldKey.label = pure b.label :=
    FieldReader.requireStr_eq_pure.mpr (hr.str _)
  have hklass : r.requireU64 FieldKey.backingClass = pure (.ofNat (value b.klass)) :=
    FieldReader.requireU64_eq_pure.mpr (hr.u64 _)
  have hmultiplexing : r.requireU64 FieldKey.multiplexing = pure (.ofNat (value b.multiplexing)) :=
    FieldReader.requireU64_eq_pure.mpr (hr.u64 _)
  have hclass : r.requireU64 FieldKey.isolationClass = pure (.ofNat (value b.isolationClass)) :=
    FieldReader.requireU64_eq_pure.mpr (hr.u64 _)
  have hcapacity : (r.u64 FieldKey.capacityBytes).fetch = pure (some (.ofNat b.capacityBytes)) :=
    access_eq_pure.mpr (hr.u64 _)
  have hunits : (r.u64 FieldKey.computeUnits).fetch = pure (some (.ofNat b.computeUnits)) :=
    access_eq_pure.mpr (hr.u64 _)
  have hmechanism : (r.str FieldKey.mechanism).fetch = pure (some b.mechanism) :=
    access_eq_pure.mpr (hr.str _)
  have hexclusive : (r.boolean FieldKey.exclusive).fetch = pure (some b.exclusive) :=
    access_eq_pure.mpr (hr.boolean _)
  have hmanaged : (r.boolean FieldKey.externallyManaged).fetch =
      pure (some b.externallyLifecycleManaged) := access_eq_pure.mpr (hr.boolean _)
  have href : (r.str FieldKey.externalPartitionRef).fetch = pure (some b.externalPartitionRef) :=
    access_eq_pure.mpr (hr.str _)
  have hisolation : (r.bytes FieldKey.isolationBlob).fetch =
      pure (some (encodeIsolationBlob b.profile)) := access_eq_pure.mpr (hr.bytes _)
  have hcapabilities : (r.bytes FieldKey.capabilitiesBlob).fetch =
      pure (some (encodeCapabilitiesBlob b.capabilities)) := access_eq_pure.mpr (hr.bytes _)
  simp only [decodeBackingDescriptor, hlabel, hklass, hmultiplexing, hclass, hcapacity, hunits,
    hmechanism, hexclusive, hmanaged, href, hisolation, hcapabilities, pure_bind, fetchWithin_value,
    Option.elim, Option.getD_some, fetchBlob_of_reads (reads_profile h),
    fetchBlob_of_reads (reads_capabilities h), claims_profile h,
    toNat_ofNat_word64 h.capacityBytes, toNat_ofNat_mod h.computeUnits]

end BackingDescriptor

/-- What is read of the encodings of some backings. -/
theorem decodeBackings_encode {bs : List BackingDescriptor} (h : ∀ b ∈ bs, b.Fits)
    (hlength : ∀ b ∈ bs, (encodeBackingDescriptor b).length ≤ 1024 * 1024) :
    decodeBackings ((bs.map encodeBackingDescriptor).map fun item => FieldReader.create item) =
      pure bs := by
  induction bs with
  | nil => rfl
  | cons b bs ih =>
    rw [List.forall_mem_cons] at h hlength
    obtain ⟨r, hcreate, hr⟩ := b.decode_encode h.1 hlength.1
    have htail := ih h.2 hlength.2
    have hread : ExceptT.mk (some (FieldReader.create (encodeBackingDescriptor b))) = pure r :=
      mk_eq_pure.mpr hcreate
    simp only [decodeBackings] at htail
    simp only [decodeBackings, List.map_cons, List.mapM_cons, hread, hr, htail, pure_bind]

/-! ### Devices -/

/-- The numbers of a device fit their words and its texts a field; there are at most 64 backings,
which fit on their own and together in one field. -/
structure PhysicalDeviceDescriptor.Fits (d : PhysicalDeviceDescriptor) : Prop where
  texts : [d.stableKey, d.vendor, d.model, d.driverVersion, d.architecture, d.mechanism].Forall
    FieldText
  memoryTotalBytes : Word 64 d.memoryTotalBytes
  units : [d.computeUnits, d.computeCapabilityMajor, d.computeCapabilityMinor].Forall (Word 32)
  atMost : d.backings.length ≤ 64
  backings : ∀ b ∈ d.backings, b.Fits
  field : (FieldValue.nestedList (d.backings.map encodeBackingDescriptor)).payload.length ≤
    1024 * 1024

namespace PhysicalDeviceDescriptor

variable {d : PhysicalDeviceDescriptor}

/-- What is written for a device, field by field. -/
def writes (d : PhysicalDeviceDescriptor) : List (UInt16 × FieldValue) :=
  [(FieldKey.stableKey, .str d.stableKey),
    (FieldKey.vendor, .str d.vendor),
    (FieldKey.model, .str d.model),
    (FieldKey.driverVersion, .str d.driverVersion),
    (FieldKey.architecture, .str d.architecture),
    (FieldKey.provenance, .u64 (.ofNat (value d.provenance))),
    (FieldKey.deviceMemoryTotal, .u64 (.ofNat d.memoryTotalBytes)),
    (FieldKey.computeUnits, .u64 (.ofNat d.computeUnits)),
    (FieldKey.ccMajor, .u64 (.ofNat d.computeCapabilityMajor)),
    (FieldKey.ccMinor, .u64 (.ofNat d.computeCapabilityMinor)),
    (FieldKey.mechanism, .str d.mechanism),
    (FieldKey.hardwarePartitionCapable, .boolean d.hardwarePartitionCapable),
    (FieldKey.virtualFunctionCapable, .boolean d.virtualFunctionCapable),
    (FieldKey.migCapable, .boolean d.migCapable),
    (FieldKey.backings, .nestedList (d.backings.map encodeBackingDescriptor))]

theorem encode_eq (d : PhysicalDeviceDescriptor) :
    encodePhysicalDescriptor d = (FieldWriter.of d.writes).take := rfl

/-- Every field of a descriptor fits the limit of a field. -/
theorem length_writes_le (h : d.Fits) :
    ∀ v ∈ d.writes.map Prod.snd, v.payload.length ≤ 1024 * 1024 := by
  obtain ⟨hkey, hvendor, hmodel, hdriver, harchitecture, hmechanism⟩ := h.texts
  have hu64 : ∀ n : UInt64, (FieldValue.u64 n).payload.length ≤ 1024 * 1024 := fun n =>
    (length_putU64 n).trans_le (by decide)
  have hboolean : ∀ c : Bool, (FieldValue.boolean c).payload.length ≤ 1024 * 1024 := by decide
  simp only [writes, List.map_cons, List.map_nil, List.forall_mem_cons]
  exact ⟨hkey, hvendor, hmodel, hdriver, harchitecture, hu64 _, hu64 _, hu64 _, hu64 _, hu64 _,
    hmechanism, hboolean _, hboolean _, hboolean _, h.field, nofun⟩

/-- Every backing fits a field if their list does. -/
theorem length_backing_le (h : d.Fits) :
    ∀ b ∈ d.backings, (encodeBackingDescriptor b).length ≤ 1024 * 1024 := by
  intro b hb
  have hitem := length_le_flatMap_putSized (List.mem_map_of_mem (f := encodeBackingDescriptor) hb)
  have hfield := h.field
  rw [FieldValue.payload, List.length_append, length_putU32] at hfield
  omega

/-- A device that fits is read back. -/
theorem decode_encode (h : d.Fits) : ∃ r, FieldReader.create (encodePhysicalDescriptor d) = .ok r ∧
    decodePhysicalDescriptor r = pure d := by
  have hkeys : (d.writes.map Prod.fst).dedup.length ≤ 1024 :=
    (List.dedup_sublist _).length_le.trans (show 15 ≤ 1024 by decide)
  obtain ⟨r, hcreate, hr⟩ := FieldReader.exists_create hkeys fun key v hv =>
    length_writes_le h v (mem_of_lastWritten hv)
  refine ⟨r, hcreate, ?_⟩
  obtain ⟨hunits, hmajor, hminor⟩ := h.units
  -- each key is read back as it was written last
  have hstr : ∀ key text, lastWritten d.writes key = some (.str text) →
      (r.str key).fetch = pure (some text) := by
    intro key text hwritten
    have hanswer := hr.str key
    rw [hwritten] at hanswer
    exact access_eq_pure.mpr hanswer
  have hu64 : ∀ key n, lastWritten d.writes key = some (.u64 n) →
      (r.u64 key).fetch = pure (some n) := by
    intro key n hwritten
    have hanswer := hr.u64 key
    rw [hwritten] at hanswer
    exact access_eq_pure.mpr hanswer
  have hboolean : ∀ key c, lastWritten d.writes key = some (.boolean c) →
      (r.boolean key).fetch = pure (some c) := by
    intro key c hwritten
    have hanswer := hr.boolean key
    rw [hwritten] at hanswer
    exact access_eq_pure.mpr hanswer
  have hkey : r.requireStr FieldKey.stableKey = pure d.stableKey :=
    FieldReader.requireStr_eq_pure.mpr (hr.str _)
  have hprovenance : r.requireU64 FieldKey.provenance = pure (.ofNat (value d.provenance)) :=
    FieldReader.requireU64_eq_pure.mpr (hr.u64 _)
  have hnested : r.nestedList FieldKey.backings =
      (d.backings.map encodeBackingDescriptor).map fun item => FieldReader.create item :=
    hr.nestedList _
  have hmost : ¬ (r.nestedList FieldKey.backings).length > 64 := by
    rw [hnested, List.length_map, List.length_map]
    exact Nat.not_lt.mpr h.atMost
  have hbackings : decodeBackings (r.nestedList FieldKey.backings) = pure d.backings := by
    rw [hnested]
    exact decodeBackings_encode h.backings (length_backing_le h)
  simp only [decodePhysicalDescriptor, hkey, hstr FieldKey.vendor _ rfl, hstr FieldKey.model _ rfl,
    hstr FieldKey.driverVersion _ rfl, hstr FieldKey.architecture _ rfl, hprovenance,
    fetchWithin_value, hu64 FieldKey.deviceMemoryTotal _ rfl, hu64 FieldKey.computeUnits _ rfl,
    hu64 FieldKey.ccMajor _ rfl, hu64 FieldKey.ccMinor _ rfl, hstr FieldKey.mechanism _ rfl,
    hboolean FieldKey.hardwarePartitionCapable _ rfl,
    hboolean FieldKey.virtualFunctionCapable _ rfl, hboolean FieldKey.migCapable _ rfl,
    if_neg hmost, hbackings, pure_bind, Option.elim, Option.getD_some,
    toNat_ofNat_word64 h.memoryTotalBytes, toNat_ofNat_mod hunits, toNat_ofNat_mod hmajor,
    toNat_ofNat_mod hminor]

end PhysicalDeviceDescriptor

/-- The codecs of descriptors and of what is inspected undo their encoders. -/
theorem codecs_undo :
    (∀ d : PhysicalDeviceDescriptor, d.Fits →
      ∃ r, FieldReader.create (encodePhysicalDescriptor d) = .ok r ∧
        decodePhysicalDescriptor r = pure d) ∧
    (∀ v : VirtualView, v.Fits {} → decodeView (encodeView v) = .ok v) ∧
    (∀ v : IsolationExplanation, v.Fits {} →
      decodeIsolationExplanation (encodeIsolationExplanation v) = .ok v) ∧
    (∀ v : MigrationExplanation, v.Fits {} →
      decodeMigrationExplanation (encodeMigrationExplanation v) = .ok v) ∧
    ∀ a : AccountingCounters, (∀ n ∈ a.toList, Word 64 n) →
      decodeAccounting (encodeAccounting a) = .ok a :=
  ⟨fun _ h => PhysicalDeviceDescriptor.decode_encode h, fun _ h => valueOf_of_reads (reads_view h),
    fun _ h => valueOf_of_reads (reads_isolationExplanation h),
    fun _ h => valueOf_of_reads (reads_migrationExplanation h),
    fun _ h => valueOf_of_reads (reads_counters h)⟩

namespace Sample

/-- What isolates the memory of a slice. -/
def claim : IsolationClaim :=
  { dimension := .memory, state := .isolated, mechanism := txt "slice" }

/-- How many multiprocessors a slice has. -/
def entry : CapabilityEntry := { key := .smCount, verdict := .supported, value := 7 }

/-- A device with two slices, one of which says what it isolates and what it can do. -/
def partitioned : PhysicalDeviceDescriptor :=
  { sliced with backings := [{ slice "a" with
      isolation := [claim], capabilities := ({} : CapabilitySurface).set entry }, slice "b"] }

/-- What is shown of a virtual accelerator on the first slice. -/
def seen : VirtualView :=
  { id := 7, generation := 3, name := txt "v", createdAt := -5
    projection := { surface := ({} : CapabilitySurface).set entry, hidden := [.vendorVisible] } }

/-- Its memory is isolated, its faults are not. -/
def isolated : IsolationExplanation :=
  { id := 7, claims := [claim], isolated := [claim], unmetRequirements := [⟨.fault, .isolated⟩] }

/-- It can be moved. -/
def movable : MigrationExplanation := { id := 7, supported := true, reason := txt "allowed" }

theorem fits_claim {limits : DecodeLimits} (h : 5 ≤ limits.maxString) : claim.Fits limits :=
  ⟨by decide, ⟨h, by decide⟩, Nat.zero_le _, by decide⟩

theorem fits_entry {limits : DecodeLimits} : entry.Fits limits :=
  ⟨by decide, ⟨Nat.zero_le _, by decide⟩, Nat.zero_le _, by decide⟩

end Sample

/-- A device with its backings, a virtual accelerator, its isolation, whether it can migrate, and
what was counted. -/
theorem codecs_undo_partitioned :
    (∃ r, FieldReader.create (encodePhysicalDescriptor Sample.partitioned) = .ok r ∧
      decodePhysicalDescriptor r = pure Sample.partitioned) ∧
    decodeView (encodeView Sample.seen) = .ok Sample.seen ∧
    decodeIsolationExplanation (encodeIsolationExplanation Sample.isolated) =
      .ok Sample.isolated ∧
    decodeMigrationExplanation (encodeMigrationExplanation Sample.movable) = .ok Sample.movable ∧
    decodeAccounting (encodeAccounting { leasesIssued := 2 }) = .ok { leasesIssued := 2 } := by
  refine ⟨codecs_undo.1 Sample.partitioned ?_, codecs_undo.2.1 Sample.seen ?_,
    codecs_undo.2.2.1 Sample.isolated ?_, codecs_undo.2.2.2.1 Sample.movable ?_,
    codecs_undo.2.2.2.2 _ (by decide +kernel)⟩
  · refine ⟨by decide +kernel, by decide, by decide, by decide, fun b hb => ?_, by decide +kernel⟩
    rcases List.mem_pair.mp hb with rfl | rfl
    · refine ⟨by decide +kernel, by decide, by decide, List.pairwise_singleton _ _, ?_, ?_⟩
      · exact List.forall_mem_singleton.mpr (Sample.fits_claim (by decide))
      · exact List.forall_mem_singleton.mpr Sample.fits_entry
    · exact ⟨by decide +kernel, by decide, by decide, .nil, nofun, nofun⟩
  · exact {
      subject := by decide
      places := by decide
      usage := by decide
      activeAttachments := by decide
      texts := by decide
      contract := ⟨by decide, by decide, by decide⟩
      projection := ⟨by decide, ⟨by decide, List.forall_mem_singleton.mpr Sample.fits_entry⟩,
        by decide, by decide, by decide⟩
      times := by decide }
  · have hclaims : ∀ claim ∈ [Sample.claim], claim.Fits {} :=
      List.forall_mem_singleton.mpr (Sample.fits_claim (by decide))
    exact ⟨by decide, by decide, ⟨⟨by decide, hclaims⟩, ⟨by decide, hclaims⟩, ⟨by decide, nofun⟩,
      ⟨by decide, nofun⟩, ⟨by decide, nofun⟩, by decide, nofun⟩, by decide⟩
  · exact ⟨by decide, by decide⟩

end AcceleratorVirtualization
