import AcceleratorVirtualization.Wire.Descriptors
import AcceleratorVirtualization.Wire.RecordLaws

/-!
# Lists of field maps

The accessor of a list of field maps has no way to refuse a payload: it yields the items up to the
first that is not all there. Who takes the list as it comes takes a part of it for the whole, unless
the message is refused for what it has besides or for one of the items that are there.
-/

namespace AcceleratorVirtualization

open Enumeration (value ofValue)

/-! ### When a message has a value -/

namespace Fetch

variable {α β : Type} {a : α} {b : β} {status : Status}

/-- A fetch of two parts succeeds when both do. -/
theorem bind_eq_pure {x : Fetch α} {f : α → Fetch β} :
    x >>= f = pure b ↔ ∃ a, x = pure a ∧ f a = pure b := by
  constructor
  · intro h
    rcases x with _ | _ | a
    · cases h
    · cases h
    · exact ⟨a, rfl, h⟩
  · rintro ⟨a, rfl, h⟩
    exact h

/-- A refusal is no success. -/
theorem throw_ne_pure : (throw status : Fetch α) ≠ pure a := nofun

theorem pure_eq_pure {a' : α} : (pure a : Fetch α) = pure a' ↔ a = a' := by
  constructor
  · intro h
    cases h
    rfl
  · exact congrArg _

/-- A guard in front of what is still to be read. -/
theorem guard_bind_eq_pure {c : Prop} [Decidable c] {f : β → Fetch α} {x : Fetch α} :
    (if c then (throw status >>= f) else x) = pure a ↔ ¬ c ∧ x = pure a := by
  by_cases hc : c
  · simp only [hc, if_true, not_true, false_and, iff_false]
    exact nofun
  · simp only [hc, if_false, not_false_eq_true, true_and]

/-- An outcome that is given succeeds when it is a success. -/
theorem mk_eq_pure {outcome : Except Status α} :
    (ExceptT.mk (some outcome) : Fetch α) = pure a ↔ outcome = .ok a := by
  constructor
  · intro h
    cases h
    rfl
  · rintro rfl
    rfl

/-- A fetch of a field succeeds when the access answers. -/
theorem access_eq_pure {access : Access α} {answer : Option α} :
    access.fetch = pure answer ↔ access.Answers answer := by
  cases access with
  | outside =>
    refine iff_of_false nofun ?_
    rintro ⟨_, ⟨⟩⟩
  | done room answer' =>
    refine pure_eq_pure.trans ⟨?_, ?_⟩
    · rintro rfl
      exact ⟨room, rfl⟩
    · rintro ⟨_, ⟨⟩⟩
      rfl

/-- A code is fetched when it is inside its domain. -/
theorem within_eq_pure [Enumeration α] {last : α} [LastEnumerator α last] {raw : UInt64} :
    fetchWithin raw last status = pure a ↔ ofValue raw.toNat = some a := by
  unfold fetchWithin
  rw [guard_bind_eq_pure]
  constructor
  · rintro ⟨-, h⟩
    split at h
    · rename_i item hitem
      obtain rfl := pure_eq_pure.mp h
      exact hitem
    · exact absurd h throw_ne_pure
  · intro h
    rw [h]
    refine ⟨?_, rfl⟩
    rw [← LastEnumerator.value_of_ofValue _ _ h]
    exact Nat.not_lt.mpr (LastEnumerator.le a)

/-- The message has a value of some kind. -/
def holds (p : α → Bool) (x : Fetch α) : Bool :=
  match x.run with
  | some (.ok a) => p a
  | _ => false

/-- A fetch that succeeds with what is wanted. -/
theorem holds_eq_true {p : α → Bool} {x : Fetch α} :
    x.holds p = true ↔ ∃ a, x = pure a ∧ p a = true := by
  constructor
  · intro h
    rcases x with _ | _ | a
    · cases h
    · cases h
    · exact ⟨a, rfl, h⟩
  · rintro ⟨a, rfl, h⟩
    exact h

end Fetch

open Fetch

namespace FieldReader

variable {α : Type} {r : FieldReader} {key : UInt16} {a : α}

/-- A required field is fetched when the access answers with a value. -/
theorem require_eq_pure {kind : String} {access : Access α}
    (hmissing : r.has key = false → access = .done 0 none) :
    r.require key kind access = pure a ↔ access.Answers (some a) := by
  have hanswer : (∃ answer, access.fetch = pure answer ∧ answer = some a) ↔
      access.Answers (some a) := by
    constructor
    · rintro ⟨_, h, rfl⟩
      exact access_eq_pure.mp h
    · exact fun h => ⟨_, access_eq_pure.mpr h, rfl⟩
  unfold require
  rw [guard_bind_eq_pure, bind_eq_pure, ← hanswer]
  constructor
  · rintro ⟨-, answer, h, hrest⟩
    cases answer with
    | none => exact absurd hrest throw_ne_pure
    | some answer => exact ⟨_, h, congrArg some (pure_eq_pure.mp hrest)⟩
  · rintro ⟨_, h, rfl⟩
    refine ⟨fun hno => ?_, _, h, rfl⟩
    rw [hmissing (by simpa using hno)] at h
    cases h

/-- The access of a field that is not there answers nothing. -/
theorem access_of_missing {type : FieldType} {look : Bytes → Access α} (h : r.has key = false) :
    r.access key type look = .done 0 none := by
  have hnone : r.fields[key]? = none := by
    refine Std.ExtTreeMap.getElem?_eq_none fun hmem => ?_
    rw [has, Std.ExtTreeMap.contains_iff_mem.mpr hmem] at h
    cases h
  rw [access, hnone]

/-- A required word is fetched when the reader answers one. -/
theorem requireU64_eq_pure {n : UInt64} :
    r.requireU64 key = pure n ↔ (r.u64 key).Answers (some n) := require_eq_pure access_of_missing

/-- A required text is fetched when the reader answers one. -/
theorem requireStr_eq_pure {text : Text} :
    r.requireStr key = pure text ↔ (r.str key).Answers (some text) :=
  require_eq_pure access_of_missing

/-- A number is never looked for past the end of a payload. -/
theorem exists_u64 (r : FieldReader) (key : UInt16) : ∃ answer, (r.u64 key).Answers answer := by
  unfold u64 access
  split
  · exact ⟨_, _, rfl⟩
  · split <;> exact ⟨_, _, rfl⟩

/-! ### All or nothing -/

/-- The count of a list of field maps, the lengths of its items and the length of the field agree:
all the items are there and nothing follows them. -/
def Entry.Agrees (e : Entry) : Prop :=
  (parcels e.payload e.count 4).length = e.count ∧
    4 + ((parcels e.payload e.count 4).flatMap putSized).length = e.payload.length

/-- If there is a list of field maps under a key, its three numbers agree. -/
def Agrees (r : FieldReader) (key : UInt16) : Prop :=
  ∀ e, r.fields[key]? = some e → e.type = .listNested → e.Agrees

/-- If there is a list of field maps under a key, the accessor yields as many as it declares, and
they are all of its payload. -/
def Complete (r : FieldReader) (key : UInt16) : Prop :=
  ∀ e, r.fields[key]? = some e → e.type = .listNested → ∃ items : List Bytes,
    items.length = e.count ∧ e.payload = (FieldValue.nestedList items).payload ∧
      r.nestedList key = items.map fun item => create item

/-- The nested list is made of the parcels of the payload. -/
theorem nestedList_eq {e : Entry} (he : r.fields[key]? = some e) (ht : e.type = .listNested) :
    r.nestedList key = (parcels e.payload e.count 4).map fun item => create item := by
  rw [nestedList, he]
  simp only [ht, ne_eq, not_true, if_false, createItems_eq, List.nil_append]
  rfl

/-- The list is complete when the three numbers agree. -/
theorem complete_iff {data : Bytes} {limits : DecodeLimits} (h : create data limits = .ok r) :
    r.Complete key ↔ r.Agrees key := by
  refine forall_congr' fun e => forall_congr' fun he => forall_congr' fun ht => ?_
  constructor
  · rintro ⟨items, hcount, hpayload, -⟩
    have hword := word_of_create h he
    rw [hpayload] at hword
    obtain ⟨-, hitems⟩ := parcels_layout hword
    rw [Entry.Agrees, ← hcount, hpayload, FieldValue.payload, hitems]
    exact ⟨rfl, by rw [List.length_append, length_putU32]⟩
  · rintro ⟨hall, hend⟩
    exact ⟨_, hall, eq_of_parcels rfl hall hend, nestedList_eq he ht⟩

end FieldReader

/-! ### Descriptors -/

open FieldReader

/-- What a descriptor needs besides the list of its backings being complete: a stable key, a
provenance, no text or truth value that is looked for past the end of its payload, and of the items
that are there, at most 64, every one is a backing. -/
structure FieldReader.Describable (r : FieldReader) : Prop where
  stableKey : ∃ text, (r.str FieldKey.stableKey).Answers (some text)
  provenance : ∃ (n : UInt64) (p : Provenance), (r.u64 FieldKey.provenance).Answers (some n) ∧
    ofValue n.toNat = some p
  texts : ∀ key ∈ [FieldKey.vendor, FieldKey.model, FieldKey.driverVersion, FieldKey.architecture,
    FieldKey.mechanism], ∃ answer, (r.str key).Answers answer
  booleans : ∀ key ∈ [FieldKey.hardwarePartitionCapable, FieldKey.virtualFunctionCapable,
    FieldKey.migCapable], ∃ answer, (r.boolean key).Answers answer
  atMost : (r.nestedList FieldKey.backings).length ≤ 64
  items : ∀ entry ∈ r.nestedList FieldKey.backings, ∃ reader backing, entry = .ok reader ∧
    decodeBackingDescriptor reader = pure backing

/-- A loop that takes every item goes through if every item is taken. -/
theorem Fetch.mapM_succeeds {α β : Type} {f : α → Fetch β} {l : List α} :
    (∃ bs, l.mapM f = pure bs) ↔ ∀ a ∈ l, ∃ b, f a = pure b := by
  induction l with
  | nil => simp
  | cons a l ih =>
    simp only [List.mapM_cons, bind_eq_pure, List.forall_mem_cons, ← ih, pure_eq_pure]
    constructor
    · rintro ⟨-, b, hb, bs, hbs, -⟩
      exact ⟨⟨b, hb⟩, bs, hbs⟩
    · rintro ⟨⟨b, hb⟩, bs, hbs⟩
      exact ⟨b :: bs, b, hb, bs, hbs, rfl⟩

/-- A descriptor is decoded when its fields are in order. -/
theorem decodePhysicalDescriptor_succeeds {r : FieldReader} :
    (∃ d, decodePhysicalDescriptor r = pure d) ↔ r.Describable := by
  have hitems : (∃ bs, decodeBackings (r.nestedList FieldKey.backings) = pure bs) ↔
      ∀ entry ∈ r.nestedList FieldKey.backings, ∃ reader backing, entry = .ok reader ∧
        decodeBackingDescriptor reader = pure backing := by
    refine mapM_succeeds.trans (forall₂_congr fun entry _ => ?_)
    rw [exists_comm]
    simp only [bind_eq_pure, mk_eq_pure]
  simp only [decodePhysicalDescriptor, bind_eq_pure, guard_bind_eq_pure, requireStr_eq_pure,
    requireU64_eq_pure, within_eq_pure, access_eq_pure, pure_eq_pure, not_lt]
  constructor
  · rintro ⟨-, key, hkey, _, hvendor, _, hmodel, _, hdriver, _, harchitecture, n, hn, p, hp, -, -,
      -,
      -, -, -, -, -, _, hmechanism, _, hpartition, _, hfunction, _, hmig, hmost, bs, hbs, -⟩
    refine ⟨⟨key, hkey⟩, ⟨n, p, hn, hp⟩, ?_, ?_, hmost, hitems.mp ⟨bs, hbs⟩⟩
    · simp only [List.forall_mem_cons]
      exact ⟨⟨_, hvendor⟩, ⟨_, hmodel⟩, ⟨_, hdriver⟩, ⟨_, harchitecture⟩, ⟨_, hmechanism⟩, nofun⟩
    · simp only [List.forall_mem_cons]
      exact ⟨⟨_, hpartition⟩, ⟨_, hfunction⟩, ⟨_, hmig⟩, nofun⟩
  · rintro ⟨⟨key, hkey⟩, ⟨n, p, hn, hp⟩, htexts, hbooleans, hmost, hall⟩
    simp only [List.forall_mem_cons] at htexts hbooleans
    obtain ⟨⟨_, hvendor⟩, ⟨_, hmodel⟩, ⟨_, hdriver⟩, ⟨_, harchitecture⟩, ⟨_, hmechanism⟩, -⟩ :=
      htexts
    obtain ⟨⟨_, hpartition⟩, ⟨_, hfunction⟩, ⟨_, hmig⟩, -⟩ := hbooleans
    obtain ⟨_, hmemory⟩ := exists_u64 r FieldKey.deviceMemoryTotal
    obtain ⟨_, hunits⟩ := exists_u64 r FieldKey.computeUnits
    obtain ⟨_, hmajor⟩ := exists_u64 r FieldKey.ccMajor
    obtain ⟨_, hminor⟩ := exists_u64 r FieldKey.ccMinor
    obtain ⟨bs, hbs⟩ := hitems.mpr hall
    exact ⟨_, key, hkey, _, hvendor, _, hmodel, _, hdriver, _, harchitecture, n, hn, p, hp,
      _, hmemory, _, hunits, _, hmajor, _, hminor, _, hmechanism, _, hpartition, _, hfunction,
      _, hmig, hmost, bs, hbs, rfl⟩

/-! ### Listings -/

/-- What the commands that list records do with an answer: every item has a blob of a record under
its key, or is skipped or refused without one. -/
structure Listing (α : Type) where
  key : UInt16
  absent : Option Status
  decode : Bytes → Except Status α

namespace Listing

variable {α : Type} (l : Listing α)

/-- The loop over the nested field maps. -/
def collect : List (Except Status FieldReader) → Fetch (List α)
  | [] => return []
  | entry :: entries => do
    let reader ← ExceptT.mk (some entry)
    match ← (reader.bytes l.key).fetch with
    | none =>
      match l.absent with
      | none => collect entries
      | some status => throw status
    | some blob =>
      let record ← ExceptT.mk (some (l.decode blob))
      let records ← collect entries
      return record :: records

/-- The records of an answer. -/
def list (r : FieldReader) : Fetch (List α) := l.collect (r.nestedList FieldKey.blobs)

/-- An item that a listing goes past. -/
def Takes (entry : Except Status FieldReader) : Prop :=
  ∃ reader, entry = .ok reader ∧ ((reader.bytes l.key).Answers none ∧ l.absent = none ∨
    ∃ blob record, (reader.bytes l.key).Answers (some blob) ∧ l.decode blob = .ok record)

/-- A list is collected when each of its entries is taken. -/
theorem collect_succeeds {entries : List (Except Status FieldReader)} :
    (∃ records, l.collect entries = pure records) ↔ ∀ entry ∈ entries, l.Takes entry := by
  induction entries with
  | nil => exact iff_of_true ⟨[], rfl⟩ nofun
  | cons entry entries ih =>
    simp only [collect, bind_eq_pure, mk_eq_pure, access_eq_pure, List.forall_mem_cons, ← ih]
    constructor
    · rintro ⟨records, reader, hreader, answer, hanswer, h⟩
      cases answer with
      | none =>
        cases habsent : l.absent with
        | none =>
          exact ⟨⟨reader, hreader, .inl ⟨hanswer, habsent⟩⟩, records, by simpa [habsent] using h⟩
        | some status => simp only [habsent] at h; exact absurd h throw_ne_pure
      | some blob =>
        simp only [bind_eq_pure, mk_eq_pure] at h
        obtain ⟨record, hrecord, rest, hrest, -⟩ := h
        exact ⟨⟨reader, hreader, .inr ⟨blob, record, hanswer, hrecord⟩⟩, rest, hrest⟩
    · rintro ⟨⟨reader, hreader, ⟨hanswer, habsent⟩ | ⟨blob, record, hanswer, hrecord⟩⟩, rest, hrest⟩
      · refine ⟨rest, reader, hreader, none, hanswer, ?_⟩
        simpa only [habsent] using hrest
      · refine ⟨record :: rest, reader, hreader, some blob, hanswer, ?_⟩
        simp only [bind_eq_pure, mk_eq_pure]
        exact ⟨record, hrecord, rest, hrest, rfl⟩

end Listing

/-! ### What is taken is whole -/

/-- A descriptor is taken only with all the backings that it declares. -/
def FieldReader.DescribesWhole (r : FieldReader) : Prop :=
  ∀ d, decodePhysicalDescriptor r = pure d → r.Complete FieldKey.backings

/-- An answer is listed only with all the records that it declares. -/
def FieldReader.ListsWhole {α : Type} (r : FieldReader) (l : Listing α) : Prop :=
  ∀ records, l.list r = pure records → r.Complete FieldKey.blobs

/-- What is taken of a field map is whole exactly if the three numbers of the list agree, or the
message is refused for something else. -/
theorem nestedLists_iff {data : Bytes} {limits : DecodeLimits} {r : FieldReader}
    (h : FieldReader.create data limits = .ok r) :
    (r.DescribesWhole ↔ r.Agrees FieldKey.backings ∨ ¬ r.Describable) ∧
    ∀ (α : Type) (l : Listing α), (r.ListsWhole l ↔
      r.Agrees FieldKey.blobs ∨ ∃ entry ∈ r.nestedList FieldKey.blobs, ¬ l.Takes entry) := by
  -- the property is about what succeeds, so a refusal satisfies it
  have hrefused : ∀ {β : Type} (x : Fetch β) (key : UInt16) (p : Prop), ((∃ b, x = pure b) ↔ p) →
      ((∀ b, x = pure b → r.Complete key) ↔ r.Agrees key ∨ ¬ p) := by
    intro β x key p hp
    rw [← hp, complete_iff h]
    constructor
    · intro hx
      by_cases hsome : ∃ b, x = pure b
      · obtain ⟨b, hb⟩ := hsome
        exact .inl (hx b hb)
      · exact .inr hsome
    · rintro (hagrees | hno) b hb
      · exact hagrees
      · exact absurd ⟨b, hb⟩ hno
  refine ⟨hrefused _ _ _ decodePhysicalDescriptor_succeeds, fun α l => ?_⟩
  have hall := hrefused (l.list r) FieldKey.blobs _ l.collect_succeeds
  simp only [not_forall, exists_prop] at hall
  exact hall

namespace Sample

/-- A backing of a device. -/
def slice (label : String) : BackingDescriptor :=
  { label := txt label, klass := .dedicatedPhysical, multiplexing := .dedicated }

/-- A device with two backings. -/
def sliced : PhysicalDeviceDescriptor :=
  { stableKey := txt "gpu", provenance := .real, backings := [slice "a", slice "b"] }

/-- The same device, whose list of two backings ends after the first. -/
def torn : Bytes :=
  let writer := ({} : FieldWriter).str FieldKey.stableKey sliced.stableKey
  let writer := writer.u64 FieldKey.provenance 1
  let payload := putU32 2 ++ putSized (encodeBackingDescriptor (slice "a"))
  (FieldWriter.mk (storeField writer.entries FieldKey.backings .listNested payload)).take

/-- What is read of bytes. -/
def reader (data : Bytes) : FieldReader :=
  match FieldReader.create data with
  | .ok r => r
  | .error _ => {}

end Sample

/-- A device with two backings, described and decoded whole. -/
theorem describesWhole_sliced : ∃ r d,
    FieldReader.create (encodePhysicalDescriptor Sample.sliced) = .ok r ∧
    decodePhysicalDescriptor r = pure d ∧ d.backings.length = 2 ∧ r.DescribesWhole := by
  have hcreate : FieldReader.create (encodePhysicalDescriptor Sample.sliced) =
      .ok (Sample.reader (encodePhysicalDescriptor Sample.sliced)) := by
    decide +kernel
  have hagrees : (Sample.reader (encodePhysicalDescriptor Sample.sliced)).fields[
      FieldKey.backings]?.all (fun e =>
        decide ((parcels e.payload e.count 4).length = e.count) &&
          decide (4 + ((parcels e.payload e.count 4).flatMap putSized).length = e.payload.length)) =
      true := by
    decide +kernel
  have hdecode : (decodePhysicalDescriptor (Sample.reader
      (encodePhysicalDescriptor Sample.sliced))).holds (fun d => d.backings.length = 2) = true := by
    decide +kernel
  obtain ⟨d, hd, htwo⟩ := holds_eq_true.mp hdecode
  refine ⟨_, d, hcreate, hd, of_decide_eq_true htwo,
    (nestedLists_iff hcreate).1.mpr (.inl fun e he _ => ?_)⟩
  rw [he, Option.all_some, Bool.and_eq_true, decide_eq_true_eq, decide_eq_true_eq] at hagrees
  exact hagrees

/-- The list says two backings, and the descriptor is taken with one. -/
theorem not_describesWhole_torn : ∃ r e d, FieldReader.create Sample.torn = .ok r ∧
    r.fields[FieldKey.backings]? = some e ∧ e.count = 2 ∧
    decodePhysicalDescriptor r = pure d ∧ d.backings.length = 1 ∧ ¬ r.DescribesWhole := by
  have hcreate : FieldReader.create Sample.torn = .ok (Sample.reader Sample.torn) := by
    decide +kernel
  have hentry : (Sample.reader Sample.torn).fields[FieldKey.backings]?.any (fun e =>
      decide (e.type = .listNested) && decide (e.count = 2)) = true := by
    decide +kernel
  have hdecode : (decodePhysicalDescriptor (Sample.reader Sample.torn)).holds
      (fun d => d.backings.length = 1) = true := by
    decide +kernel
  obtain ⟨e, he, htwo⟩ := (Option.any_eq_true _ _).mp hentry
  simp only [Bool.and_eq_true, decide_eq_true_eq] at htwo
  obtain ⟨d, hd, hone⟩ := holds_eq_true.mp hdecode
  refine ⟨_, e, d, hcreate, he, htwo.2, hd, of_decide_eq_true hone, fun hwhole => ?_⟩
  obtain ⟨items, hcount, -, hlist⟩ := hwhole d hd e he htwo.1
  have hyields : ((Sample.reader Sample.torn).nestedList FieldKey.backings).length = 1 := by
    decide +kernel
  rw [hlist, List.length_map, hcount, htwo.2] at hyields
  cases hyields

end AcceleratorVirtualization
