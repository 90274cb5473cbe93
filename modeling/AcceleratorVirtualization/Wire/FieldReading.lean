import AcceleratorVirtualization.Wire.FieldLaws

/-!
# What an accessor answers

The accessors of a reader of what was written answer what was last written, each only the values of
its own type. For a map that came from elsewhere an accessor answers *faithfully* if it stays inside
of the payload, makes no more room than the payload can fill, and answers a value only if the
payload is what a writer produces for it. The lists of words always are answered faithfully; for
every other type the payloads that are not are the short, the over-long and the wrapped ones.
-/

namespace AcceleratorVirtualization

open Decoder (Word Small Listed)

/-! ### What was written -/

namespace FieldValue

/-- The word that a value of that type holds. -/
def asU64 : FieldValue → Option UInt64
  | u64 value => some value
  | _ => none

/-- The signed word that a value of that type holds. -/
def asI64 : FieldValue → Option Int64
  | i64 value => some value
  | _ => none

/-- The truth value that a value of that type holds. -/
def asBoolean : FieldValue → Option Bool
  | boolean value => some value
  | _ => none

/-- The text that a value of that type holds. -/
def asStr : FieldValue → Option Text
  | str value => some value
  | _ => none

/-- The bytes that a value of that type holds. -/
def asBytes : FieldValue → Option Bytes
  | bytes value => some value
  | _ => none

/-- The words that a value of that type holds. -/
def asListU64 : FieldValue → Option (List UInt64)
  | listU64 values => some values
  | _ => none

/-- The texts that a value of that type holds. -/
def asListStr : FieldValue → Option (List Text)
  | listStr values => some values
  | _ => none

/-- The items that a value of that type holds. -/
def asNestedList : FieldValue → Option (List Bytes)
  | nestedList items => some items
  | _ => none

end FieldValue

/-- The accessor stays inside of the payload and answers this. -/
def Access.Answers {α : Type} (a : Access α) (answer : Option α) : Prop :=
  ∃ room, a = .done room answer

/-- The reader has the keys that were written, and every accessor answers the value of a key if it
is of its type and nothing otherwise. -/
structure FieldReader.Holds (r : FieldReader) (written : UInt16 → Option FieldValue) : Prop where
  keys : ∀ key, key ∈ r.keys ↔ (written key).isSome
  has : ∀ key, r.has key ↔ (written key).isSome
  u64 : ∀ key, (r.u64 key).Answers ((written key).bind FieldValue.asU64)
  i64 : ∀ key, (r.i64 key).Answers ((written key).bind FieldValue.asI64)
  boolean : ∀ key, (r.boolean key).Answers ((written key).bind FieldValue.asBoolean)
  str : ∀ key, (r.str key).Answers ((written key).bind FieldValue.asStr)
  bytes : ∀ key, (r.bytes key).Answers ((written key).bind FieldValue.asBytes)
  listU64 : ∀ key, (r.listU64 key).Answers ((written key).bind FieldValue.asListU64)
  listStr : ∀ key, (r.listStr key).Answers ((written key).bind FieldValue.asListStr)
  nestedList : ∀ key, r.nestedList key =
    (((written key).bind FieldValue.asNestedList).getD []).map fun item => create item

namespace FieldReader

/-- The entry a value is read as. -/
def entryOf (v : FieldValue) : Entry := ⟨v.type, v.payload⟩

variable {α : Type} {r : FieldReader} {key : UInt16}

/-- An accessor that answers the values of its type answers nothing else. -/
theorem access_answers {written : Option FieldValue} {type : FieldType} {look : Bytes → Access α}
    {as : FieldValue → Option α} (hfields : r.fields[key]? = written.map entryOf)
    (hlook : ∀ v, written = some v →
      v.type ≠ type ∧ as v = none ∨ v.type = type ∧ (look v.payload).Answers (as v)) :
    (r.access key type look).Answers (written.bind as) := by
  cases written with
  | none =>
    refine ⟨0, ?_⟩
    simp only [access, hfields, Option.map_none, Option.bind_none]
  | some v =>
    simp only [access, hfields, Option.map_some, Option.bind_some, entryOf]
    rcases hlook v rfl with ⟨hne, hnone⟩ | ⟨heq, hanswers⟩
    · rw [if_pos hne, hnone]
      exact ⟨0, rfl⟩
    · rw [if_neg (not_not.mpr heq)]
      exact hanswers

/-- A reader whose entries are the written values holds them. -/
theorem holds_of_fields {written : UInt16 → Option FieldValue}
    (hfields : ∀ key, r.fields[key]? = (written key).map entryOf)
    (hword : ∀ key v, written key = some v → Word 32 v.payload.length) : r.Holds written := by
  have hmem : ∀ key, key ∈ r.fields ↔ (written key).isSome := by
    intro key
    rw [← Std.ExtTreeMap.isSome_getElem?_iff_mem, hfields, Option.isSome_map]
  have hsized : ∀ text : Bytes, Word 32 (putSized text).length →
      (lookSized (putSized text)).Answers (some text) := by
    intro text hlong
    rw [length_putSized] at hlong
    exact ⟨_, lookSized_putSized hlong⟩
  -- a reader answers for a field of its own type and fails for every other
  constructor
  case keys =>
    intro key
    rw [keys, Std.ExtTreeMap.mem_keys, hmem]
  case has =>
    intro key
    rw [has, Std.ExtTreeMap.contains_iff_mem, hmem]
  case u64 =>
    refine fun key => access_answers (hfields key) fun v _ => ?_
    cases v with
    | u64 n => exact .inr ⟨rfl, 0, by rw [lookU64, FieldValue.payload, getU64_putU64]; rfl⟩
    | _ => exact .inl ⟨by rintro ⟨⟩, rfl⟩
  case i64 =>
    refine fun key => access_answers (hfields key) fun v _ => ?_
    cases v with
    | i64 t => exact .inr ⟨rfl, 0, by rw [lookI64, FieldValue.payload, getU64_putU64]; rfl⟩
    | _ => exact .inl ⟨by rintro ⟨⟩, rfl⟩
  case boolean =>
    refine fun key => access_answers (hfields key) fun v _ => ?_
    cases v with
    | boolean b => cases b <;> exact .inr ⟨rfl, 0, rfl⟩
    | _ => exact .inl ⟨by rintro ⟨⟩, rfl⟩
  case str =>
    refine fun key => access_answers (hfields key) fun v hv => ?_
    cases v with
    | str text => exact .inr ⟨rfl, hsized text (hword key _ hv)⟩
    | _ => exact .inl ⟨by rintro ⟨⟩, rfl⟩
  case bytes =>
    refine fun key => access_answers (hfields key) fun v hv => ?_
    cases v with
    | bytes blob => exact .inr ⟨rfl, hsized blob (hword key _ hv)⟩
    | _ => exact .inl ⟨by rintro ⟨⟩, rfl⟩
  case listU64 =>
    refine fun key => access_answers (hfields key) fun v hv => ?_
    cases v with
    | listU64 ns => exact .inr ⟨rfl, _, lookListU64_payload (hword key _ hv)⟩
    | _ => exact .inl ⟨by rintro ⟨⟩, rfl⟩
  case listStr =>
    refine fun key => access_answers (hfields key) fun v hv => ?_
    cases v with
    | listStr texts => exact .inr ⟨rfl, _, lookListStr_payload (hword key _ hv)⟩
    | _ => exact .inl ⟨by rintro ⟨⟩, rfl⟩
  case nestedList =>
    intro key
    rw [nestedList, hfields key]
    cases hv : written key with
    | none => rfl
    | some v =>
      cases v with
      | nestedList items =>
        obtain ⟨hcount, hitems⟩ := parcels_layout (hword key _ hv)
        simp only [Option.map_some, entryOf, FieldValue.type, FieldValue.payload, ne_eq, not_true,
          if_false, hcount, createItems_eq, hitems, List.nil_append]
        rfl
      | _ => rfl

end FieldReader

section Writes

variable {writes : List (UInt16 × FieldValue)}

/-- An entry holds what was last written under its key. -/
theorem FieldWriter.exists_of_mem {e : FieldWriterEntry}
    (he : e ∈ (FieldWriter.of writes).entries) :
    ∃ v, lastWritten writes e.key = some v ∧ FieldValue.entry e.key v = e := by
  have hfind := (find?_eq_some_iff_mem (FieldWriter.nodup_of writes)).mpr he
  rw [FieldWriter.find?_of] at hfind
  exact Option.map_eq_some_iff.mp hfind

/-- A field map whose payloads are within the limits is taken, and what was last written is held. -/
theorem FieldReader.exists_create (hkeys : (writes.map Prod.fst).dedup.length ≤ 1024)
    (hpayloads : ∀ key v, lastWritten writes key = some v → v.payload.length ≤ 1024 * 1024) :
    ∃ r, FieldReader.create (FieldWriter.of writes).take = .ok r ∧
      r.Holds (lastWritten writes) := by
  have hnodup := FieldWriter.nodup_of writes
  have hlength : (FieldWriter.of writes).entries.length ≤ 1024 := by
    refine le_trans ?_ hkeys
    rw [← List.length_map (·.key)]
    refine (List.subperm_of_subset hnodup fun key hkey => ?_).length_le
    obtain ⟨e, he, rfl⟩ := List.mem_map.mp hkey
    obtain ⟨v, hv, -⟩ := FieldWriter.exists_of_mem he
    rw [List.mem_dedup, ← lastWritten_isSome, hv]
    rfl
  have hsmall : ∀ e ∈ (FieldWriter.of writes).entries, Small {} e.payload := by
    intro e he
    obtain ⟨v, hv, heq⟩ := FieldWriter.exists_of_mem he
    rw [← heq]
    exact ⟨hpayloads _ v hv, lt_of_le_of_lt (hpayloads _ v hv) (by decide)⟩
  have hcreate := @FieldReader.create_take_of _ {} hnodup hsmall
    ⟨hlength, hlength.trans (by decide), lt_of_le_of_lt hlength (by decide), by decide⟩
  refine ⟨_, hcreate, FieldReader.holds_of_fields (fun key => ?_) fun key v hv => ?_⟩
  · rw [FieldReader.getElem?_fieldsOf (FieldWriter.nodup_sorted _ hnodup),
      FieldWriter.find?_sorted _ hnodup, FieldWriter.find?_of, Option.map_map]
    exact Option.or_none
  · exact lt_of_le_of_lt (hpayloads key v hv) (by decide)

end Writes

/-- A field map is read back: the keys are the ones that were written, every accessor answers what
was last written, and what is laid out does not depend on the order of the writes. -/
theorem create_take {writes : List (UInt16 × FieldValue)}
    (hkeys : (writes.map Prod.fst).dedup.length ≤ 1024)
    (hpayloads : ∀ key v, lastWritten writes key = some v → v.payload.length ≤ 1024 * 1024) :
    (∃ r, FieldReader.create (FieldWriter.of writes).take = .ok r ∧
      r.Holds (lastWritten writes) ∧ ∀ key, key ∈ r.keys ↔ key ∈ writes.map Prod.fst) ∧
    ∀ writes', (∀ key, lastWritten writes' key = lastWritten writes key) →
      (FieldWriter.of writes').take = (FieldWriter.of writes).take := by
  obtain ⟨r, hcreate, hholds⟩ := FieldReader.exists_create hkeys hpayloads
  refine ⟨⟨r, hcreate, hholds, fun key => ?_⟩, fun writes' h => FieldWriter.take_congr h⟩
  rw [hholds.keys, lastWritten_isSome]

namespace Sample

/-- A key is written twice, with values of two types. -/
def writes : List (UInt16 × FieldValue) :=
  [(5, .u64 1), (2, .str (txt "ab")), (5, .listStr [txt "x", []]),
    (9, .nestedList [(FieldWriter.of [(1, .boolean true)]).take])]

end Sample

theorem create_take_writes :
    (∃ r, FieldReader.create (FieldWriter.of Sample.writes).take = .ok r ∧
      r.Holds (lastWritten Sample.writes) ∧
        ∀ key, key ∈ r.keys ↔ key ∈ Sample.writes.map Prod.fst) ∧
    ∀ writes', (∀ key, lastWritten writes' key = lastWritten Sample.writes key) →
      (FieldWriter.of writes').take = (FieldWriter.of Sample.writes).take := by
  have hsmall : ∀ v ∈ Sample.writes.map Prod.snd, v.payload.length ≤ 1024 * 1024 := by
    decide +kernel
  exact create_take (by decide +kernel) fun key v h => hsmall v (mem_of_lastWritten h)

/-! ### What came from elsewhere -/

/-- The accessor stays inside of the payload, makes no more room than the payload can fill with
items of a least width, and answers a value only if the payload is what is written for it. -/
def Access.Faithful {α : Type} (a : Access α) (payload : Bytes) (width : ℕ) (encode : α → Bytes) :
    Prop :=
  ∃ room answer, a = .done room answer ∧ room * width ≤ payload.length ∧
    ∀ v, answer = some v → payload = encode v

namespace FieldReader

/-- The payload under a key. -/
def payloadOf (r : FieldReader) (key : UInt16) : Bytes :=
  ((r.fields[key]?).map Entry.payload).getD []

/-- Every accessor is faithful to what is under a key. A list of field maps has no way to answer
nothing, so it answers no items instead. -/
structure Faithful (r : FieldReader) (key : UInt16) : Prop where
  u64 : (r.u64 key).Faithful (r.payloadOf key) 8 fun v => (FieldValue.u64 v).payload
  i64 : (r.i64 key).Faithful (r.payloadOf key) 8 fun v => (FieldValue.i64 v).payload
  boolean : (r.boolean key).Faithful (r.payloadOf key) 1 fun v => (FieldValue.boolean v).payload
  str : (r.str key).Faithful (r.payloadOf key) 1 fun v => (FieldValue.str v).payload
  bytes : (r.bytes key).Faithful (r.payloadOf key) 1 fun v => (FieldValue.bytes v).payload
  listU64 : (r.listU64 key).Faithful (r.payloadOf key) 8 fun v => (FieldValue.listU64 v).payload
  listStr : (r.listStr key).Faithful (r.payloadOf key) 4 fun v => (FieldValue.listStr v).payload
  nestedList : r.nestedList key = [] ∨ ∃ items,
    r.payloadOf key = (FieldValue.nestedList items).payload ∧
      r.nestedList key = items.map fun item => create item

/-- The number at the front of a payload. -/
def Entry.count (e : Entry) : ℕ := (getU32 e.payload 0).toNat

/-- A payload of the length its type and its own count ask for. For texts and bytes this is the
32-bit check of the accessor or the exact length; the items of a list of field maps are all there
and nothing follows them, or the first of them is not. -/
def Entry.Whole (e : Entry) : Prop :=
  match e.type with
  | .u64 | .i64 => e.payload.length = 8
  | .bool => e.payload = [0] ∨ e.payload = [1]
  | .str | .bytes =>
    (getU32 e.payload 0 + 4).toNat > e.payload.length ∨ 4 + e.count = e.payload.length
  | .listU64 => True
  | .listStr => e.count * 4 ≤ e.payload.length
  | .listNested => parcels e.payload e.count 4 = [] ∨
    (parcels e.payload e.count 4).length = e.count ∧
      4 + ((parcels e.payload e.count 4).flatMap putSized).length = e.payload.length

variable {α : Type} {r : FieldReader} {key : UInt16} {payload : Bytes}

theorem access_faithful_iff {type : FieldType} {look : Bytes → Access α} {width : ℕ}
    {encode : α → Bytes} :
    (r.access key type look).Faithful (r.payloadOf key) width encode ↔
      ∀ e, r.fields[key]? = some e → e.type = type →
        (look e.payload).Faithful e.payload width encode := by
  have hnothing : ∀ payload : Bytes,
      (Access.done 0 none : Access α).Faithful payload width encode := fun payload =>
    ⟨0, none, rfl, by omega, nofun⟩
  unfold access payloadOf
  cases r.fields[key]? with
  | none => exact iff_of_true (hnothing _) nofun
  | some e =>
    simp only [Option.map_some, Option.getD_some, Option.some.injEq, forall_eq']
    by_cases h : e.type = type
    · simp only [h, ne_eq, not_true, if_false, forall_const]
    · simp only [h, ne_eq, not_false_eq_true, if_true, false_implies, iff_true]
      exact hnothing _

theorem lookU64_faithful_iff :
    (lookU64 payload).Faithful payload 8 (fun v => (FieldValue.u64 v).payload) ↔
      payload.length = 8 := by
  constructor
  · rintro ⟨_, _, ⟨⟩, -, h⟩
    have hwhole : payload = putU64 (getU64 payload 0) := h _ rfl
    rw [hwhole, length_putU64]
  · intro h
    refine ⟨0, _, rfl, by omega, fun v hv => ?_⟩
    have hwhole : payload.drop 0 = putU64 (getU64 payload 0) ++ payload.drop (0 + 8) :=
      drop_eq_putU64 (by omega)
    rw [List.drop_zero, List.drop_of_length_le (by omega), List.append_nil] at hwhole
    rw [← Option.some.inj hv]
    exact hwhole

theorem lookI64_faithful_iff :
    (lookI64 payload).Faithful payload 8 (fun v => (FieldValue.i64 v).payload) ↔
      payload.length = 8 := by
  rw [← lookU64_faithful_iff]
  constructor
  · rintro ⟨_, _, ⟨⟩, hroom, h⟩
    exact ⟨0, _, rfl, hroom, fun v hv => Option.some.inj hv ▸ h _ rfl⟩
  · rintro ⟨_, _, ⟨⟩, hroom, h⟩
    exact ⟨0, _, rfl, hroom, fun v hv => Option.some.inj hv ▸ h _ rfl⟩

theorem lookBoolean_faithful_iff :
    (lookBoolean payload).Faithful payload 1 (fun v => (FieldValue.boolean v).payload) ↔
      payload = [0] ∨ payload = [1] := by
  constructor
  · rintro ⟨room, answer, ha, -, h⟩
    unfold lookBoolean at ha
    split at ha
    · cases ha
    · rename_i byte _
      obtain ⟨-, rfl⟩ := Access.done.inj ha
      have hpayload : payload = [if decide (byte ≠ 0) then 1 else 0] := h _ rfl
      split at hpayload
      · exact .inr hpayload
      · exact .inl hpayload
  · rintro (rfl | rfl) <;> exact ⟨0, _, rfl, by simp, fun v hv => by cases hv; rfl⟩

/-- A text that is answered is the whole payload exactly if its length says so; a length that wraps
around lets the accessor read past the end. -/
theorem lookSized_faithful_iff (hlong : Word 32 payload.length) :
    (lookSized payload).Faithful payload 1 putSized ↔
      (getU32 payload 0 + 4).toNat > payload.length ∨
        4 + (getU32 payload 0).toNat = payload.length := by
  unfold Word at hlong
  set length := getU32 payload 0 with hlength
  by_cases hcheck : (length + 4).toNat > payload.length
  · have hnone : lookSized payload = .done 0 none := if_pos hcheck
    rw [hnone]
    exact iff_of_true ⟨0, none, rfl, by omega, nofun⟩ (.inl hcheck)
  · rw [or_iff_right hcheck]
    by_cases hinside : 4 + length.toNat > payload.length
    · have houtside : lookSized payload = .outside := (if_neg hcheck).trans (if_pos hinside)
      rw [houtside]
      refine iff_of_false ?_ (by omega)
      rintro ⟨_, _, ⟨⟩, -⟩
    · have hanswer : lookSized payload =
          .done length.toNat (some ((payload.drop 4).take length.toNat)) :=
        (if_neg hcheck).trans (if_neg hinside)
      rw [hanswer]
      have htext : ((payload.drop 4).take length.toNat).length = length.toNat := by
        rw [List.length_take, List.length_drop]
        omega
      constructor
      · rintro ⟨_, _, heq, -, h⟩
        obtain ⟨-, rfl⟩ := Access.done.inj heq
        have hwhole := congrArg List.length (h _ rfl)
        rw [length_putSized, htext] at hwhole
        omega
      · intro hexact
        refine ⟨_, _, rfl, by omega, fun v hv => ?_⟩
        have hwhole : payload.drop 0 = putU32 (getU32 payload 0) ++ payload.drop (0 + 4) :=
          drop_eq_putU32 (by omega)
        have hrest : (payload.drop 4).take length.toNat = payload.drop 4 := by
          refine List.take_of_length_le ?_
          rw [List.length_drop]
          omega
        rw [← Option.some.inj hv, putSized, htext, UInt32.ofNat_toNat, hrest]
        exact hwhole

theorem lookListU64_faithful (hlong : Word 32 payload.length) :
    (lookListU64 payload).Faithful payload 8 fun v => (FieldValue.listU64 v).payload := by
  rcases lookListU64_eq hlong with h | ⟨values, h, hpayload⟩
  · exact ⟨0, none, h, by omega, nofun⟩
  · refine ⟨_, _, h, ?_, fun v hv => Option.some.inj hv ▸ hpayload⟩
    rw [hpayload, FieldValue.payload, List.length_append, length_flatMap_putU64]
    omega

theorem lookListStr_faithful_iff :
    (lookListStr payload).Faithful payload 4 (fun v => (FieldValue.listStr v).payload) ↔
      (getU32 payload 0).toNat * 4 ≤ payload.length := by
  rcases lookListStr_eq payload with h | ⟨values, h, hpayload⟩
  · rw [h]
    constructor
    · rintro ⟨_, _, ⟨⟩, hroom, -⟩
      exact hroom
    · exact fun hroom => ⟨_, _, rfl, hroom, nofun⟩
  · rw [h]
    constructor
    · rintro ⟨_, _, ⟨⟩, hroom, -⟩
      exact hroom
    · exact fun hroom => ⟨_, _, rfl, hroom, fun v hv => Option.some.inj hv ▸ hpayload⟩

/-- What a list of field maps holds is its layout if nothing is missing and nothing follows. -/
theorem nestedList_faithful_iff (hlong : Word 32 payload.length) {count : ℕ}
    (hcount : (getU32 payload 0).toNat = count) :
    createItems payload count 4 [] = [] ∨ (∃ items,
        payload = (FieldValue.nestedList items).payload ∧
          createItems payload count 4 [] = items.map fun item => create item) ↔
      parcels payload count 4 = [] ∨ (parcels payload count 4).length = count ∧
        4 + ((parcels payload count 4).flatMap putSized).length = payload.length := by
  rw [createItems_eq, List.nil_append, List.map_eq_nil_iff]
  refine or_congr_right ⟨?_, ?_⟩
  · rintro ⟨items, hpayload, -⟩
    rw [FieldValue.payload] at hpayload
    rw [hpayload] at hlong hcount
    obtain ⟨hitems, hparcels⟩ := parcels_layout hlong
    rw [hitems] at hcount
    rw [hpayload, ← hcount, hparcels]
    refine ⟨rfl, ?_⟩
    rw [List.length_append, length_putU32]
  · rintro ⟨hall, hend⟩
    exact ⟨_, eq_of_parcels hcount hall hend, rfl⟩

/-- What a reader holds has the length of a word. -/
theorem word_of_readFields {n : ℕ} {fields fields' : Std.ExtTreeMap UInt16 Entry} {i j : Decoder}
    (h : (readFields fields n).run i = .ok (fields', j))
    (hold : ∀ (key : UInt16) (e : Entry), fields[key]? = some e → Word 32 e.payload.length) :
    ∀ (key : UInt16) (e : Entry), fields'[key]? = some e → Word 32 e.payload.length := by
  induction n generalizing fields i with
  | zero =>
    obtain ⟨rfl, -⟩ := Prod.mk.inj (Reader.pure_run_ok.mp h)
    exact hold
  | succ n ih =>
    simp only [readFields, Reader.bind_run_ok] at h
    obtain ⟨key, i1, -, type, i2, -, h⟩ := h
    split at h
    · cases h
    · rw [Reader.bind_run_ok] at h
      obtain ⟨payload, i3, hpayload, h⟩ := h
      rw [Reader.guard_run_ok] at h
      obtain ⟨⟨-, hword⟩, -⟩ := Decoder.canonical_rawField _ _ _ hpayload
      refine ih h.2 fun key' e he => ?_
      rw [Std.ExtTreeMap.getElem?_insert] at he
      split at he
      · rw [← Option.some.inj he]
        exact hword
      · exact hold key' e he

theorem word_of_create {data : Bytes} {limits : DecodeLimits} (h : create data limits = .ok r)
    {e : Entry} (he : r.fields[key]? = some e) : Word 32 e.payload.length := by
  obtain ⟨j, hrun⟩ := Reader.run'_ok.mp h
  simp only [parse, Reader.bind_run_ok] at hrun
  obtain ⟨n, i1, -, fields, i2, hfields, _, i3, -, _, i4, -, hr⟩ := hrun
  obtain ⟨rfl, -⟩ := Prod.mk.inj (Reader.pure_run_ok.mp hr)
  refine word_of_readFields hfields (fun key' e' he' => ?_) key e he
  simp at he'

end FieldReader

open FieldReader in
/-- The accessors are faithful to what is under a key of a map that was taken exactly if the payload
there is whole. -/
theorem faithful_iff {data : Bytes} {limits : DecodeLimits} {r : FieldReader}
    (h : FieldReader.create data limits = .ok r) (key : UInt16) :
    r.Faithful key ↔ ∀ e, r.fields[key]? = some e → e.Whole := by
  -- the nested list is read by its own loop and not by `access`
  have hnested : ∀ e, r.fields[key]? = some e → e.type = .listNested →
      ((r.nestedList key = [] ∨ ∃ items, r.payloadOf key = (FieldValue.nestedList items).payload ∧
        r.nestedList key = items.map fun item => create item) ↔
      parcels e.payload e.count 4 = [] ∨
        (parcels e.payload e.count 4).length = e.count ∧
        4 + ((parcels e.payload e.count 4).flatMap putSized).length =
          e.payload.length) := by
    intro e he ht
    have hlist : r.nestedList key = createItems e.payload e.count 4 [] := by
      rw [nestedList, he]
      simp only [ht, ne_eq, not_true, if_false]
      rfl
    have hpayload : r.payloadOf key = e.payload := by
      rw [payloadOf, he]
      rfl
    rw [hlist, hpayload]
    exact nestedList_faithful_iff (word_of_create h he) rfl
  constructor
  · intro hf e he
    have hword := word_of_create h he
    unfold Entry.Whole
    cases ht : e.type with
    | u64 =>
      exact lookU64_faithful_iff.mp (access_faithful_iff.mp hf.u64 e he ht)
    | i64 =>
      exact lookI64_faithful_iff.mp (access_faithful_iff.mp hf.i64 e he ht)
    | bool =>
      exact lookBoolean_faithful_iff.mp
        (access_faithful_iff.mp hf.boolean e he ht)
    | str =>
      exact (lookSized_faithful_iff hword).mp
        (access_faithful_iff.mp hf.str e he ht)
    | bytes =>
      exact (lookSized_faithful_iff hword).mp
        (access_faithful_iff.mp hf.bytes e he ht)
    | listU64 => trivial
    | listStr =>
      exact lookListStr_faithful_iff.mp
        (access_faithful_iff.mp hf.listStr e he ht)
    | listNested => exact (hnested e he ht).mp hf.nestedList
  · intro hw
    have hwhole : ∀ e, r.fields[key]? = some e → ∀ type, e.type = type →
        Entry.Whole { e with type } := by
      rintro e he type rfl
      exact hw e he
    constructor
    case u64 =>
      exact access_faithful_iff.mpr fun e he ht =>
        lookU64_faithful_iff.mpr (hwhole e he _ ht)
    case i64 =>
      exact access_faithful_iff.mpr fun e he ht =>
        lookI64_faithful_iff.mpr (hwhole e he _ ht)
    case boolean =>
      exact access_faithful_iff.mpr fun e he ht =>
        lookBoolean_faithful_iff.mpr (hwhole e he _ ht)
    case str =>
      exact access_faithful_iff.mpr fun e he ht =>
        (lookSized_faithful_iff (word_of_create h he)).mpr
          (hwhole e he _ ht)
    case bytes =>
      exact access_faithful_iff.mpr fun e he ht =>
        (lookSized_faithful_iff (word_of_create h he)).mpr
          (hwhole e he _ ht)
    case listU64 =>
      exact access_faithful_iff.mpr fun e he _ =>
        lookListU64_faithful (word_of_create h he)
    case listStr =>
      exact access_faithful_iff.mpr fun e he ht =>
        lookListStr_faithful_iff.mpr (hwhole e he _ ht)
    case nestedList =>
      -- under another type the list is empty
      by_cases hnone : ∃ e, r.fields[key]? = some e ∧ e.type = .listNested
      · obtain ⟨e, he, ht⟩ := hnone
        exact (hnested e he ht).mpr (hwhole e he _ ht)
      · refine .inl ?_
        unfold nestedList
        cases he : r.fields[key]? with
        | none => rfl
        | some e => exact if_pos fun ht => hnone ⟨e, he, ht⟩

namespace Sample

/-- A word that is shorter than it should be, a truth value without its byte, a text whose length
wraps around, and a text as it should be. -/
def malformed : FieldReader :=
  ⟨(((∅ : Std.ExtTreeMap UInt16 FieldReader.Entry).insert 1 ⟨.u64, [7]⟩).insert 2 ⟨.bool, []⟩
    |>.insert 3 ⟨.str, [0xFF, 0xFF, 0xFF, 0xFF]⟩).insert 4 ⟨.str, [2, 0, 0, 0, 111, 107]⟩⟩

/-- Four fields: a word of one byte, a text without its length, a text whose length runs past the
payload, and bytes that are whole. -/
def malformedBytes : Bytes :=
  [4, 0, 0, 0] ++ ([1, 0, 1, 1, 0, 0, 0, 7] ++ ([2, 0, 3, 0, 0, 0, 0] ++
    ([3, 0, 4, 4, 0, 0, 0, 0xFF, 0xFF, 0xFF, 0xFF] ++
      [4, 0, 4, 6, 0, 0, 0, 2, 0, 0, 0, 111, 107])))

theorem create_malformed : FieldReader.create malformedBytes = .ok malformed := by
  decide +kernel

end Sample

/-- The text is read as it was written, and the short word is not. -/
theorem faithful_malformed : Sample.malformed.Faithful 4 ∧ ¬ Sample.malformed.Faithful 1 := by
  have hwhole : Sample.malformed.fields[(4 : UInt16)]? = some ⟨.str, [2, 0, 0, 0, 111, 107]⟩ := by
    decide +kernel
  have hshort : Sample.malformed.fields[(1 : UInt16)]? = some ⟨.u64, [7]⟩ := by decide +kernel
  constructor
  · refine (faithful_iff Sample.create_malformed 4).mpr fun e he => ?_
    obtain rfl := Option.some.inj (hwhole.symm.trans he)
    exact .inr (by decide +kernel)
  · intro h
    have hlength : [(7 : UInt8)].length = 8 :=
      (faithful_iff Sample.create_malformed 1).mp h _ hshort
    exact absurd hlength (by decide)

/-- The short word is answered as zero, the next two fields are read past their end. -/
theorem not_faithful_malformed : ∃ data r, FieldReader.create data = .ok r ∧
    ¬ r.Faithful 1 ∧ ¬ r.Faithful 2 ∧ ¬ r.Faithful 3 := by
  refine ⟨_, _, Sample.create_malformed, fun h => ?_, fun h => ?_, fun h => ?_⟩
  · obtain ⟨_, _, heq, -, hvalue⟩ := h.u64
    have hzero : Sample.malformed.u64 1 = .done 0 (some 0) := by decide +kernel
    obtain ⟨-, rfl⟩ := Access.done.inj (hzero.symm.trans heq)
    exact absurd (hvalue 0 rfl) (by decide +kernel)
  · obtain ⟨_, _, heq, -⟩ := h.boolean
    have houtside : Sample.malformed.boolean 2 = .outside := by decide +kernel
    cases houtside.symm.trans heq
  · obtain ⟨_, _, heq, -⟩ := h.str
    have houtside : Sample.malformed.str 3 = .outside := by decide +kernel
    cases houtside.symm.trans heq

end AcceleratorVirtualization
