import Mathlib.Data.List.Dedup
import Mathlib.Data.List.Induction
import AcceleratorVirtualization.Wire.FieldMap

/-!
# What a field map keeps

A writer is determined by the last value of every key, whatever the order of the writes, and a
reader of what it lays out answers these values and no others. The other way round, an accessor is
*faithful* to a payload if it stays inside of it, makes no more room than the payload can fill, and
answers a value only if the payload is what a writer produces for it; for every type the payloads
that its accessor is faithful to are characterized.
-/

namespace AcceleratorVirtualization

open Enumeration (value ofValue)
open Decoder (Word Small)

/-! ### Writes -/

/-- The value a sequence of writes leaves under a key. -/
def lastWritten (writes : List (UInt16 × FieldValue)) (key : UInt16) : Option FieldValue :=
  (writes.reverse.find? fun w => w.1 = key).map Prod.snd

/-- What is written last under a key, after one more write. -/
theorem lastWritten_append (writes : List (UInt16 × FieldValue)) (w : UInt16 × FieldValue)
    (key : UInt16) :
    lastWritten (writes ++ [w]) key = if w.1 = key then some w.2 else lastWritten writes key := by
  unfold lastWritten
  rw [List.reverse_append, List.reverse_singleton, List.singleton_append, List.find?_cons]
  by_cases h : w.1 = key <;> simp [h]

/-- A key has a value once it was written. -/
theorem lastWritten_isSome {writes : List (UInt16 × FieldValue)} {key : UInt16} :
    (lastWritten writes key).isSome ↔ key ∈ writes.map Prod.fst := by
  simp [lastWritten, List.find?_isSome]

/-- What is written last was written. -/
theorem mem_of_lastWritten {writes : List (UInt16 × FieldValue)} {key : UInt16} {v : FieldValue}
    (h : lastWritten writes key = some v) : v ∈ writes.map Prod.snd := by
  obtain ⟨w, hw, rfl⟩ := Option.map_eq_some_iff.mp h
  exact List.mem_map_of_mem (List.mem_reverse.mp (List.mem_of_find?_eq_some hw))

/-- The entry a value is stored as. -/
def FieldValue.entry (key : UInt16) (v : FieldValue) : FieldWriterEntry := ⟨key, v.type, v.payload⟩

section StoreField

variable (entries : List FieldWriterEntry) (key : UInt16) (type : FieldType) (payload : Bytes)

/-- What is stored under a key, after one more write. -/
theorem find?_storeField (key' : UInt16) :
    (storeField entries key type payload).find? (fun e => e.key = key') =
      if key = key' then some ⟨key, type, payload⟩
      else entries.find? fun e => e.key = key' := by
  induction entries with
  | nil => by_cases h : key = key' <;> simp [storeField, h]
  | cons e entries ih =>
    unfold storeField
    by_cases he : e.key = key
    · rw [if_neg (not_not.mpr he)]
      subst he
      by_cases h : e.key = key' <;> simp [h]
    · rw [if_pos he, List.find?_cons, List.find?_cons, ih]
      by_cases h : key = key'
      · subst h
        simp [he]
      · simp [h]

/-- The stored keys after one more write. -/
theorem keys_storeField : (storeField entries key type payload).map (·.key) =
    if key ∈ entries.map (·.key) then entries.map (·.key) else entries.map (·.key) ++ [key] := by
  induction entries with
  | nil => rfl
  | cons e entries ih =>
    unfold storeField
    by_cases he : e.key = key
    · simp [he]
    · rw [if_pos he, List.map_cons, ih]
      have hne : key ≠ e.key := Ne.symm he
      simp only [List.map_cons, List.mem_cons, hne, false_or]
      split <;> rfl

/-- A key is stored once. -/
theorem nodup_storeField {entries : List FieldWriterEntry} (h : (entries.map (·.key)).Nodup) :
    ((storeField entries key type payload).map (·.key)).Nodup := by
  rw [keys_storeField]
  split
  · exact h
  · rename_i hkey
    exact h.append (List.nodup_singleton key) (List.disjoint_singleton.mpr hkey)

end StoreField

namespace FieldWriter

/-- A writer after a sequence of writes. -/
def of (writes : List (UInt16 × FieldValue)) : FieldWriter :=
  writes.foldl (fun w p => w.write p.1 p.2) {}

/-- The writer after one more write. -/
theorem of_append (writes : List (UInt16 × FieldValue)) (w : UInt16 × FieldValue) :
    of (writes ++ [w]) = (of writes).write w.1 w.2 := by
  rw [of, List.foldl_append]
  rfl

/-- A writer holds the last value of every key. -/
theorem find?_of (writes : List (UInt16 × FieldValue)) (key : UInt16) :
    (of writes).entries.find? (fun e => e.key = key) =
      (lastWritten writes key).map (FieldValue.entry key) := by
  induction writes using List.reverseRecOn with
  | nil => rfl
  | append_singleton writes w ih =>
    rw [of_append, write, find?_storeField, lastWritten_append, ih]
    by_cases h : w.1 = key
    · subst h
      simp [FieldValue.entry]
    · simp [h]

/-- A writer has each key once. -/
theorem nodup_of (writes : List (UInt16 × FieldValue)) :
    ((of writes).entries.map (·.key)).Nodup := by
  induction writes using List.reverseRecOn with
  | nil => exact List.nodup_nil
  | append_singleton writes w ih =>
    rw [of_append]
    exact nodup_storeField _ _ _ ih

end FieldWriter

/-! ### The layout of a writer -/

/-- In a list without two entries of one key an entry is found under its key. -/
theorem find?_eq_some_iff_mem {entries : List FieldWriterEntry}
    (h : (entries.map (·.key)).Nodup) {e : FieldWriterEntry} :
    entries.find? (fun e' => e'.key = e.key) = some e ↔ e ∈ entries := by
  constructor
  · exact List.mem_of_find?_eq_some
  · intro he
    obtain ⟨e', hfind⟩ : ∃ e', entries.find? (fun e' => e'.key = e.key) = some e' :=
      Option.isSome_iff_exists.mp (List.find?_isSome.mpr ⟨e, he, by simp⟩)
    have hkey : e'.key = e.key := by simpa using List.find?_some hfind
    rw [hfind, List.inj_on_of_nodup_map h (List.mem_of_find?_eq_some hfind) he hkey]

namespace FieldWriter

variable (w : FieldWriter)

/-- Sorting the entries loses none. -/
theorem mem_sorted {e : FieldWriterEntry} : e ∈ w.sorted ↔ e ∈ w.entries :=
  (List.perm_insertionSort _ _).mem_iff

/-- Sorting the entries keeps their number. -/
theorem length_sorted : w.sorted.length = w.entries.length :=
  (List.perm_insertionSort _ _).length_eq

/-- Sorting the entries keeps each key once. -/
theorem nodup_sorted (h : (w.entries.map (·.key)).Nodup) : (w.sorted.map (·.key)).Nodup :=
  (((List.perm_insertionSort _ _).map _).nodup_iff).mpr h

/-- Sorting keeps what is found under a key. -/
theorem find?_sorted (h : (w.entries.map (·.key)).Nodup) (key : UInt16) :
    w.sorted.find? (fun e => e.key = key) = w.entries.find? fun e => e.key = key := by
  have hkey : ∀ {entries : List FieldWriterEntry} {e : FieldWriterEntry},
      entries.find? (fun e => e.key = key) = some e → e.key = key := fun hfind => by
    simpa using List.find?_some hfind
  refine Option.ext fun e => ⟨fun he => ?_, fun he => ?_⟩
  · obtain rfl := hkey he
    exact (find?_eq_some_iff_mem h).mpr (w.mem_sorted.mp (List.mem_of_find?_eq_some he))
  · obtain rfl := hkey he
    exact (find?_eq_some_iff_mem (w.nodup_sorted h)).mpr
      (w.mem_sorted.mpr (List.mem_of_find?_eq_some he))

/-- What is laid out depends only on the last value of every key. -/
theorem sorted_congr {w w' : FieldWriter} (h : (w.entries.map (·.key)).Nodup)
    (h' : (w'.entries.map (·.key)).Nodup)
    (heq : ∀ key, w.entries.find? (fun e => e.key = key) = w'.entries.find? fun e => e.key = key) :
    w.sorted = w'.sorted := by
  have hmem : ∀ e, e ∈ w.sorted ↔ e ∈ w'.sorted := by
    intro e
    rw [mem_sorted, mem_sorted, ← find?_eq_some_iff_mem h, ← find?_eq_some_iff_mem h', heq]
  have hnodup := nodup_sorted w h
  have hperm : w.sorted.Perm w'.sorted :=
    (List.perm_ext_iff_of_nodup hnodup.of_map (nodup_sorted w' h').of_map).mpr hmem
  -- Two entries that are in order both ways have one key, so they are one entry.
  refine hperm.eq_of_pairwise (fun a b ha hb hab hba => ?_) (List.pairwise_insertionSort _ _)
    (List.pairwise_insertionSort _ _)
  exact List.inj_on_of_nodup_map hnodup ha ((hmem b).mpr hb) (UInt16.le_antisymm hab hba)

/-- What is taken depends only on what was written last. -/
theorem take_congr {writes writes' : List (UInt16 × FieldValue)}
    (h : ∀ key, lastWritten writes key = lastWritten writes' key) :
    (of writes).take = (of writes').take := by
  have hsorted : (of writes).sorted = (of writes').sorted := by
    refine sorted_congr (nodup_of writes) (nodup_of writes') fun key => ?_
    rw [find?_of, find?_of, h key]
  rw [take, take, hsorted]

end FieldWriter

/-! ### Reading what was laid out -/

namespace FieldReader

open Reader Decoder

/-- The fields of a list of entries. -/
def fieldsOf (entries : List FieldWriterEntry) (fields : Std.ExtTreeMap UInt16 Entry) :
    Std.ExtTreeMap UInt16 Entry :=
  entries.foldl (fun fields e => fields.insert e.key ⟨e.type, e.payload⟩) fields

theorem getElem?_fieldsOf {entries : List FieldWriterEntry}
    (h : (entries.map (·.key)).Nodup) (fields : Std.ExtTreeMap UInt16 Entry) (key : UInt16) :
    (fieldsOf entries fields)[key]? =
      ((entries.find? fun e => e.key = key).map fun e => ⟨e.type, e.payload⟩).or fields[key]? := by
  induction entries generalizing fields with
  | nil => rfl
  | cons e entries ih =>
    obtain ⟨hnot, htail⟩ := List.nodup_cons.mp h
    rw [fieldsOf, List.foldl_cons]
    refine (ih htail _).trans ?_
    rw [Std.ExtTreeMap.getElem?_insert, List.find?_cons]
    by_cases hkey : e.key = key
    · subst hkey
      have hnone : entries.find? (fun e' => e'.key = e.key) = none := by
        rw [List.find?_eq_none]
        intro e' he' heq
        exact hnot (List.mem_map.mpr ⟨e', he', by simpa using heq⟩)
      simp [hnone]
    · simp [hkey]

theorem reads_readFields {c : Nesting} {entries : List FieldWriterEntry}
    (hsmall : ∀ e ∈ entries, Small c.limits e.payload) (hnodup : (entries.map (·.key)).Nodup)
    {fields : Std.ExtTreeMap UInt16 Entry} (hfresh : ∀ e ∈ entries, e.key ∉ fields) :
    Reads c (readFields fields entries.length) (entries.flatMap FieldWriter.encodeEntry)
      (fieldsOf entries fields) := by
  induction entries generalizing fields with
  | nil => exact reads_pure
  | cons e entries ih =>
    rw [List.forall_mem_cons] at hsmall hfresh
    obtain ⟨hnot, htail⟩ := List.nodup_cons.mp hnodup
    have hkey : Word 16 e.key.toNat := e.key.toNat_lt
    have htype : Word 8 (value e.type) := by cases e.type <;> decide
    have hrest : ∀ e' ∈ entries, e'.key ∉ fields.insert e.key ⟨e.type, e.payload⟩ := by
      intro e' he' hmem
      rw [Std.ExtTreeMap.mem_insert] at hmem
      rcases hmem with heq | hmem
      · rw [Std.LawfulEqOrd.compare_eq_iff_eq] at heq
        exact hnot (List.mem_map.mpr ⟨e', he', heq.symm⟩)
      · exact hfresh.2 e' he' hmem
    rw [List.flatMap_cons, FieldWriter.encodeEntry, List.append_assoc, List.append_assoc]
    refine (reads_u16 hkey).bind ((reads_u8 htype).bind ?_)
    rw [Enumeration.ofValue_value]
    refine (reads_rawField hsmall.1).bind (.guard ?_ ?_)
    · simpa using hfresh.1
    · rw [UInt16.ofNat_toNat]
      exact ih hsmall.2 htail hrest

/-- A writer with entries that a reader takes is read back. -/
theorem create_take_of {w : FieldWriter} {limits : DecodeLimits}
    (hnodup : (w.entries.map (·.key)).Nodup)
    (hsmall : ∀ e ∈ w.entries, Small limits e.payload)
    (hlisted : Listed ⟨0, limits⟩ 1024 w.entries.length) :
    create w.take limits = .ok ⟨fieldsOf w.sorted ∅⟩ := by
  have hne : ∀ e ∈ w.sorted, FieldWriter.encodeEntry e ≠ [] := by
    intro e _ h
    have hlength := congrArg List.length h
    simp [FieldWriter.encodeEntry, Encoder.u16] at hlength
  have hlong := length_le_flatMap hne
  rw [w.length_sorted] at hlong
  have hheader : (listHeader 1024).run (Decoder.of w.take limits) = .ok (w.entries.length,
      ⟨w.sorted.flatMap FieldWriter.encodeEntry, Nesting.deeper ⟨0, limits⟩⟩) := by
    refine listHeader_run_ok.mpr ⟨hlisted, hlong, ?_, rfl⟩
    rw [Decoder.of, FieldWriter.take, Encoder.list, w.length_sorted]
  have hfields : Reads (Nesting.deeper ⟨0, limits⟩) (readFields ∅ w.entries.length)
      (w.sorted.flatMap FieldWriter.encodeEntry) (fieldsOf w.sorted ∅) := by
    rw [← w.length_sorted]
    exact reads_readFields (fun e he => hsmall e (w.mem_sorted.mp he)) (w.nodup_sorted hnodup)
      fun e _ => Std.ExtTreeMap.not_mem_empty
  have hread := hfields []
  rw [List.append_nil] at hread
  refine run'_ok.mpr ⟨Decoder.of [] limits, ?_⟩
  rw [parse, bind_run_of_ok hheader, bind_run_of_ok hread]
  rfl

end FieldReader

/-! ### Items after their lengths -/

theorem length_putSized (item : Bytes) : (putSized item).length = 4 + item.length := by
  rw [putSized, List.length_append, length_putU32]

theorem four_mul_length_le_flatMap_putSized (items : List Bytes) :
    items.length * 4 ≤ (items.flatMap putSized).length := by
  induction items with
  | nil => exact Nat.le_refl 0
  | cons item items ih =>
    simp only [List.flatMap_cons, List.length_append, length_putSized, List.length_cons]
    omega

theorem length_le_flatMap_putSized {items : List Bytes} {item : Bytes} (h : item ∈ items) :
    4 + item.length ≤ (items.flatMap putSized).length := by
  obtain ⟨before, after, rfl⟩ := List.append_of_mem h
  simp only [List.flatMap_append, List.flatMap_cons, List.length_append, length_putSized]
  omega

theorem toNat_ofNat_word {n : ℕ} (h : Word 32 n) : (UInt32.ofNat n).toNat = n := by
  rw [UInt32.toNat_ofNat']
  exact Nat.mod_eq_of_lt h

theorem length_flatMap_putU64 (values : List UInt64) :
    (values.flatMap putU64).length = values.length * 8 := by
  induction values with
  | nil => rfl
  | cons v values ih =>
    simp only [List.flatMap_cons, List.length_append, length_putU64, ih, List.length_cons]
    omega

theorem flatMap_putU64_injective {values values' : List UInt64}
    (h : values.flatMap putU64 = values'.flatMap putU64) : values = values' := by
  induction values generalizing values' with
  | nil =>
    have hlength := congrArg List.length h
    rw [length_flatMap_putU64, length_flatMap_putU64] at hlength
    exact (List.length_eq_zero_iff.mp (by simpa using hlength.symm)).symm
  | cons v values ih =>
    cases values' with
    | nil =>
      have hlength := congrArg List.length h
      rw [length_flatMap_putU64, length_flatMap_putU64] at hlength
      simp at hlength
    | cons v' values' =>
      obtain ⟨hv, htail⟩ := List.append_inj h (by rw [length_putU64, length_putU64])
      rw [putU64_injective hv, ih htail]

namespace FieldReader

/-- An item is taken where it was laid out, and nowhere else. -/
theorem itemAt_eq_some {payload item : Bytes} {offset : ℕ} : itemAt payload offset = some item ↔
    Word 32 item.length ∧ payload.drop offset = putSized item ++ payload.drop
      (offset + (putSized item).length) := by
  unfold itemAt
  dsimp only
  constructor
  · intro h
    split at h
    · cases h
    · split at h
      · cases h
      · rename_i hhead hitem
        obtain rfl := Option.some.inj h
        have hlength : ((payload.drop (offset + 4)).take (getU32 payload offset).toNat).length =
            (getU32 payload offset).toNat := by
          simp only [List.length_take, List.length_drop]
          omega
        refine ⟨?_, ?_⟩
        · rw [hlength]
          exact (getU32 payload offset).toNat_lt
        · rw [length_putSized, hlength, putSized, hlength, UInt32.ofNat_toNat,
            drop_eq_putU32 (by omega), List.append_assoc, ← Nat.add_assoc,
            ← @List.drop_drop _ _ (offset + 4), List.take_append_drop]
  · rintro ⟨hword, h⟩
    rw [length_putSized, putSized, List.append_assoc] at h
    have hlength := congrArg List.length h
    simp only [List.length_append, length_putU32, List.length_drop] at hlength
    have hcount : (getU32 payload offset).toNat = item.length := by
      rw [getU32_of_drop h, toNat_ofNat_word hword]
    have hdrop : payload.drop (offset + 4) = item ++ payload.drop (offset + (4 + item.length)) := by
      rw [← List.drop_drop, h]
      exact List.drop_left' (length_putU32 _)
    rw [if_neg (by omega)]
    simp only [hcount]
    rw [if_neg (by omega), hdrop, List.take_left]

/-- The items a payload holds from an offset on, at most so many, up to the first that is not all
there. -/
def parcels (payload : Bytes) : ℕ → ℕ → List Bytes
  | 0, _ => []
  | count + 1, offset =>
    match itemAt payload offset with
    | none => []
    | some item => item :: parcels payload count (offset + 4 + item.length)

theorem length_parcels_le (payload : Bytes) (count offset : ℕ) :
    (parcels payload count offset).length ≤ count := by
  induction count generalizing offset with
  | zero => exact Nat.le_refl 0
  | succ count ih =>
    unfold parcels
    split
    · exact Nat.zero_le _
    · exact Nat.succ_le_succ (ih _)

theorem drop_eq_parcels (payload : Bytes) (count offset : ℕ) :
    payload.drop offset = (parcels payload count offset).flatMap putSized ++
      payload.drop (offset + ((parcels payload count offset).flatMap putSized).length) := by
  induction count generalizing offset with
  | zero => rfl
  | succ count ih =>
    unfold parcels
    split
    · rfl
    · rename_i item hitem
      obtain ⟨-, hdrop⟩ := itemAt_eq_some.mp hitem
      rw [length_putSized, ← Nat.add_assoc] at hdrop
      rw [List.flatMap_cons, List.append_assoc, List.length_append, length_putSized, hdrop,
        ← Nat.add_assoc, ← Nat.add_assoc]
      exact congrArg (putSized item ++ ·) (ih (offset + 4 + item.length))

/-- What was laid out at an offset is what the payload holds from there on. -/
theorem parcels_of_drop {payload after : Bytes} {items : List Bytes} {offset : ℕ}
    (hwords : ∀ item ∈ items, Word 32 item.length)
    (h : payload.drop offset = items.flatMap putSized ++ after) :
    parcels payload items.length offset = items := by
  induction items generalizing offset with
  | nil => rfl
  | cons item items ih =>
    rw [List.forall_mem_cons] at hwords
    rw [List.flatMap_cons, List.append_assoc] at h
    have hrest : payload.drop (offset + (putSized item).length) =
        items.flatMap putSized ++ after := by
      rw [← List.drop_drop, h, List.drop_left]
    have hitem : itemAt payload offset = some item :=
      itemAt_eq_some.mpr ⟨hwords.1, by rw [hrest, h]⟩
    rw [length_putSized, ← Nat.add_assoc] at hrest
    simp only [List.length_cons, parcels, hitem, ih hwords.2 hrest]

theorem createItems_eq (payload : Bytes) (count offset : ℕ)
    (out : List (Except Status FieldReader)) : createItems payload count offset out =
      out ++ (parcels payload count offset).map fun item => create item := by
  induction count generalizing offset out with
  | zero => simp [createItems, parcels]
  | succ count ih =>
    cases h : itemAt payload offset with
    | none => simp only [createItems, parcels, h, List.map_nil, List.append_nil]
    | some item =>
      simp only [createItems, parcels, h, ih, List.map_cons, List.append_assoc,
        List.singleton_append]

theorem takeItems_eq (payload : Bytes) (count offset : ℕ) (out : List Text) :
    takeItems payload count offset out = if (parcels payload count offset).length = count
      then some (out ++ parcels payload count offset,
        offset + ((parcels payload count offset).flatMap putSized).length)
      else none := by
  induction count generalizing offset out with
  | zero => simp [takeItems, parcels]
  | succ count ih =>
    cases h : itemAt payload offset with
    | none => simp [takeItems, parcels, h]
    | some item => simp [takeItems, parcels, h, ih, length_putSized, Nat.add_assoc]

/-! ### What an accessor makes of a payload -/

theorem lookSized_putSized {item : Bytes} (h : Word 32 (4 + item.length)) :
    lookSized (putSized item) = .done item.length (some item) := by
  unfold Word at h
  have hcount : (getU32 (putSized item) 0).toNat = item.length := by
    rw [putSized, getU32_append, toNat_ofNat_word (by unfold Word; omega)]
  have hsum : (getU32 (putSized item) 0 + 4).toNat = 4 + item.length := by
    rw [UInt32.toNat_add, hcount]
    simp only [UInt32.reduceToNat]
    omega
  have hdrop : (putSized item).drop 4 = item := List.drop_left' (length_putU32 _)
  unfold lookSized
  dsimp only
  rw [hsum, hcount, length_putSized, if_neg (Nat.lt_irrefl _), if_neg (Nat.lt_irrefl _), hdrop,
    List.take_length]

/-- The words a payload holds from an offset on. -/
theorem flatMap_putU64_getU64 {payload : Bytes} {offset count : ℕ}
    (h : offset + count * 8 ≤ payload.length) :
    ((List.range count).map fun i => getU64 payload (offset + i * 8)).flatMap putU64 =
      (payload.drop offset).take (count * 8) := by
  induction count with
  | zero => simp
  | succ count ih =>
    have hlong : offset + count * 8 + 8 ≤ payload.length := by omega
    have hword := drop_eq_putU64 hlong
    rw [List.range_succ, List.map_append, List.flatMap_append, ih (by omega), Nat.succ_mul,
      List.take_add, List.drop_drop, hword]
    simp [List.take_left' (length_putU64 _)]

/-- A list of words is answered exactly if the payload has room for as many as it says. -/
theorem lookListU64_eq {payload : Bytes} (hlong : Word 32 payload.length) :
    lookListU64 payload = .done 0 none ∨ ∃ values : List UInt64,
      lookListU64 payload = .done values.length (some values) ∧
        payload = (FieldValue.listU64 values).payload := by
  unfold Word at hlong
  by_cases h : (getU32 payload 0).toNat * 8 + 4 ≠ payload.length
  · exact .inl (if_pos h)
  · have hlength := not_not.mp h
    set count := (getU32 payload 0).toNat with hcount
    -- The 32-bit offsets do not wrap around in a payload that has a 32-bit length.
    have hoffsets : ∀ i ∈ List.range count, (4 + UInt32.ofNat i * 8).toNat = 4 + i * 8 := by
      intro i hi
      rw [List.mem_range] at hi
      simp only [UInt32.toNat_add, UInt32.toNat_mul, UInt32.toNat_ofNat', UInt32.reduceToNat]
      omega
    set values := (List.range count).map fun i => getU64 payload (4 + i * 8) with hvalues
    have hvalues' : ((List.range count).map fun i => getU64 payload (4 + UInt32.ofNat i * 8).toNat)
        = values :=
      List.map_congr_left fun i hi => congrArg (getU64 payload) (hoffsets i hi)
    have hn : values.length = count := by simp [hvalues]
    refine .inr ⟨values, ?_, ?_⟩
    · unfold lookListU64
      dsimp only
      rw [if_neg h, hvalues', hn]
    · have hflat : values.flatMap putU64 = payload.drop 4 := by
        rw [hvalues, flatMap_putU64_getU64 (by omega), List.take_of_length_le]
        rw [List.length_drop]
        omega
      have hhead : payload.drop 0 = putU32 (getU32 payload 0) ++ payload.drop (0 + 4) :=
        drop_eq_putU32 (by omega)
      rw [FieldValue.payload, hflat, hn, hcount, UInt32.ofNat_toNat]
      exact hhead

/-- Bytes of which nothing is left behind the items are their layout. -/
theorem eq_of_parcels {payload : Bytes} {count : ℕ} (hcount : (getU32 payload 0).toNat = count)
    (hall : (parcels payload count 4).length = count)
    (hend : 4 + ((parcels payload count 4).flatMap putSized).length = payload.length) :
    payload = putU32 (.ofNat (parcels payload count 4).length) ++
      (parcels payload count 4).flatMap putSized := by
  have hhead : payload.drop 0 = putU32 (getU32 payload 0) ++ payload.drop (0 + 4) :=
    drop_eq_putU32 (by omega)
  have hitems := drop_eq_parcels payload count 4
  rw [hend, List.drop_length, List.append_nil] at hitems
  rw [hall, ← hitems, ← hcount, UInt32.ofNat_toNat]
  exact hhead

/-- The layout of items is taken apart into them. -/
theorem parcels_layout {items : List Bytes}
    (h : Word 32 (putU32 (.ofNat items.length) ++ items.flatMap putSized).length) :
    (getU32 (putU32 (.ofNat items.length) ++ items.flatMap putSized) 0).toNat = items.length ∧
      parcels (putU32 (.ofNat items.length) ++ items.flatMap putSized) items.length 4 = items := by
  unfold Word at h
  rw [List.length_append, length_putU32] at h
  have hlong := four_mul_length_le_flatMap_putSized items
  constructor
  · rw [getU32_append, toNat_ofNat_word (by unfold Word; omega)]
  · refine @parcels_of_drop _ [] _ _ (fun item hitem => ?_) ?_
    · have hle := length_le_flatMap_putSized hitem
      unfold Word
      omega
    · rw [List.append_nil]
      exact List.drop_left' (length_putU32 _)

theorem lookListStr_run {payload : Bytes} {count : ℕ} (h : (getU32 payload 0).toNat = count) :
    lookListStr payload = .done count
      (if (parcels payload count 4).length = count ∧
          4 + ((parcels payload count 4).flatMap putSized).length = payload.length
        then some (parcels payload count 4) else none) := by
  unfold lookListStr
  dsimp only
  rw [h, takeItems_eq]
  by_cases hall : (parcels payload count 4).length = count
  · simp only [hall, if_true, List.nil_append, true_and, ne_eq, ite_not]
    split <;> rfl
  · simp only [hall, if_false, false_and]

/-- A list of texts is answered exactly if the payload is its layout; room is made for as many as
the payload says. -/
theorem lookListStr_eq (payload : Bytes) :
    lookListStr payload = .done (getU32 payload 0).toNat none ∨ ∃ values : List Text,
      lookListStr payload = .done (getU32 payload 0).toNat (some values) ∧
        payload = (FieldValue.listStr values).payload := by
  rw [lookListStr_run rfl]
  split
  · rename_i h
    exact .inr ⟨_, rfl, eq_of_parcels rfl h.1 h.2⟩
  · exact .inl rfl

theorem lookListStr_payload {values : List Text}
    (h : Word 32 (FieldValue.listStr values).payload.length) :
    lookListStr (FieldValue.listStr values).payload = .done values.length (some values) := by
  obtain ⟨hcount, hitems⟩ := parcels_layout h
  have hlength : ((FieldValue.listStr values).payload).length =
      4 + (values.flatMap putSized).length := by
    rw [FieldValue.payload, List.length_append, length_putU32]
  rw [FieldValue.payload] at hlength ⊢
  rw [lookListStr_run hcount, hitems, if_pos ⟨rfl, hlength.symm⟩]

theorem lookListU64_payload {values : List UInt64}
    (h : Word 32 (FieldValue.listU64 values).payload.length) :
    lookListU64 (FieldValue.listU64 values).payload = .done values.length (some values) := by
  have hlength : ((FieldValue.listU64 values).payload).length = 4 + values.length * 8 := by
    rw [FieldValue.payload, List.length_append, length_putU32, length_flatMap_putU64]
  have hcount : (getU32 (FieldValue.listU64 values).payload 0).toNat = values.length := by
    unfold Word at h
    rw [FieldValue.payload, getU32_append, toNat_ofNat_word (by unfold Word; omega)]
  rcases lookListU64_eq h with hnone | ⟨values', heq, hpayload⟩
  · exfalso
    unfold lookListU64 at hnone
    dsimp only at hnone
    rw [hcount, hlength, if_neg (by omega)] at hnone
    simp at hnone
  · have hflat := (List.append_inj hpayload (by rw [length_putU32, length_putU32])).2
    rw [heq, flatMap_putU64_injective hflat]

end FieldReader

end AcceleratorVirtualization
