import AcceleratorVirtualization.Lib.Enumeration
import AcceleratorVirtualization.Lib.Reading
import AcceleratorVirtualization.Status

/-!
# The canonical little-endian codec

An encoder is a function from a value to bytes: what the `Encoder` of the source appends. A decoder
is a reader of bytes that keeps how deep it is nested and what it may accept. Every decoder of a
basic value reads what its encoder writes, and takes off nothing else.
-/

namespace AcceleratorVirtualization

/-- `std::vector<Byte>` and `ByteSpan`. -/
abbrev Bytes := List UInt8

/-- `static_cast<std::int64_t>` of a 64-bit word. -/
def ofWord64 (n : ℕ) : ℤ := if n < 2 ^ 63 then n else (n : ℤ) - 2 ^ 64

/-- A signed number that fits is read back from its word. -/
theorem ofWord64_toWord64 {t : ℤ} (h : -2 ^ 63 ≤ t ∧ t < 2 ^ 63) : ofWord64 (toWord64 t) = t := by
  unfold ofWord64 toWord64
  split <;> omega

/-- A word is written back as it was read. -/
theorem toWord64_ofWord64 {n : ℕ} (h : n < 2 ^ 64) : toWord64 (ofWord64 n) = n := by
  unfold ofWord64 toWord64
  split <;> omega

/-- A signed number is written as one word. -/
theorem toWord64_lt (t : ℤ) : toWord64 t < 2 ^ 64 := by
  unfold toWord64
  omega

/-- What is read from a word is a signed number of its width. -/
theorem ofWord64_bounds {n : ℕ} (h : n < 2 ^ 64) :
    -2 ^ 63 ≤ ofWord64 n ∧ ofWord64 n < 2 ^ 63 := by
  unfold ofWord64
  split <;> omega

/-! ### Encoding -/

namespace Encoder

/-- `Encoder::u8`. -/
def u8 (value : ℕ) : Bytes := LittleEndian.toBytes 1 value
/-- `Encoder::u16`, little-endian as every word. -/
def u16 (value : ℕ) : Bytes := LittleEndian.toBytes 2 value
/-- `Encoder::u32`. -/
def u32 (value : ℕ) : Bytes := LittleEndian.toBytes 4 value
/-- `Encoder::u64`. -/
def u64 (value : ℕ) : Bytes := LittleEndian.toBytes 8 value
/-- `Encoder::i64`: the two's complement word. -/
def i64 (value : ℤ) : Bytes := u64 (toWord64 value)
/-- `Encoder::boolean`. -/
def boolean (value : Bool) : Bytes := u8 (if value then 1 else 0)

/-- A string whose length does not fit its prefix is left out. -/
def str (value : Text) : Bytes :=
  if value.length > 0xFFFFFFFF then [] else u32 value.length ++ value

/-- A blob whose length does not fit its prefix is left out. -/
def raw (value : Bytes) : Bytes :=
  if value.length > 0xFFFFFFFF then [] else u32 value.length ++ value

/-- `Encoder::list`: the number of items, then the items. -/
def list {α : Type} (items : List α) (encodeItem : α → Bytes) : Bytes :=
  u32 items.length ++ items.flatMap encodeItem

end Encoder

/-! ### Decoding -/

/-- Bounds every decode path. -/
structure DecodeLimits where
  maxString : ℕ := 64 * 1024
  maxBytes : ℕ := 1024 * 1024
  maxItems : ℕ := 65536
  maxDepth : ℕ := 16
  deriving DecidableEq

/-- How deep a decoder is nested, and what it may accept. -/
structure Nesting where
  depth : ℕ := 0
  limits : DecodeLimits := {}
  deriving DecidableEq

/-- The nesting of the items of a list. -/
def Nesting.deeper (c : Nesting) : Nesting := { c with depth := c.depth + 1 }

/-- The bytes a decoder has not read yet, and its nesting. -/
abbrev Decoder := Input UInt8 Nesting

/-- A method of a decoder. -/
abbrev Decode (α : Type) := Reader Status UInt8 Nesting α

/-- A decoder over bytes. -/
def Decoder.of (data : Bytes) (limits : DecodeLimits := {}) : Decoder := ⟨data, { limits }⟩

namespace Decoder

/-- `Decoder::remaining`. -/
def remaining (d : Decoder) : ℕ := d.rest.length

/-- The bytes of a field, refused when fewer remain. -/
def take (count : ℕ) : Decode Bytes := do
  let d ← get
  if count > remaining d then
    throw ⟨.truncatedState, txt "field extends past the end of the buffer: need " ++
      toDecimal count ++ txt " byte(s), " ++ toDecimal (remaining d) ++ txt " remaining"⟩
  set { d with rest := d.rest.drop count }
  return d.rest.take count

/-- An unsigned word. -/
def word (width : ℕ) : Decode ℕ := do
  let span ← take width
  return LittleEndian.ofBytes span

/-- `Decoder::u8`. -/
def u8 : Decode ℕ := word 1
/-- `Decoder::u16`. -/
def u16 : Decode ℕ := word 2
/-- `Decoder::u32`. -/
def u32 : Decode ℕ := word 4
/-- `Decoder::u64`. -/
def u64 : Decode ℕ := word 8

/-- `Decoder::i64`. -/
def i64 : Decode ℤ := do
  let value ← u64
  return ofWord64 value

/-- `Decoder::boolean`: only zero and one are accepted. -/
def boolean : Decode Bool := do
  let value ← u8
  if value > 1 then
    throw ⟨.malformedFrame, txt "boolean field carried value " ++ toDecimal value⟩
  return value = 1

/-- `Decoder::str`: the length is checked against the limit before the bytes are taken. -/
def str : Decode Text := do
  let length ← u32
  let d ← get
  if length > d.context.limits.maxString then
    throw ⟨.limitExceeded, txt "string field length " ++ toDecimal length ++
      txt " exceeds limit " ++ toDecimal d.context.limits.maxString⟩
  take length

/-- `Decoder::raw_field`. -/
def rawField : Decode Bytes := do
  let length ← u32
  let d ← get
  if length > d.context.limits.maxBytes then
    throw ⟨.limitExceeded, txt "blob field length " ++ toDecimal length ++
      txt " exceeds limit " ++ toDecimal d.context.limits.maxBytes⟩
  take length

/-- `Decoder::depth_enter`. -/
def depthEnter : Decode Unit := do
  let d ← get
  if d.context.depth + 1 > d.context.limits.maxDepth then
    throw ⟨.limitExceeded, txt "container nesting exceeds depth limit " ++
      toDecimal d.context.limits.maxDepth⟩
  set { d with context := { d.context with depth := d.context.depth + 1 } }

/-- `Decoder::depth_leave`. -/
def depthLeave : Decode Unit :=
  modify fun d => { d with context := { d.context with depth := d.context.depth - 1 } }

/-- Reads a container header and validates it against the limits and the bytes that can still be
present: every encoded item occupies at least one byte. -/
def listHeader (maxAllowed : ℕ) : Decode ℕ := do
  depthEnter
  let value ← u32
  let d ← get
  if value > maxAllowed then
    throw ⟨.limitExceeded, txt "container holds " ++ toDecimal value ++ txt " item(s), limit " ++
      toDecimal maxAllowed⟩
  if value > d.context.limits.maxItems then
    throw ⟨.limitExceeded, txt "container holds " ++ toDecimal value ++
      txt " item(s), decode limit " ++ toDecimal d.context.limits.maxItems⟩
  if value > remaining d then
    throw ⟨.malformedFrame, txt "container declares " ++ toDecimal value ++
      txt " item(s) but only " ++ toDecimal (remaining d) ++ txt " byte(s) remain"⟩
  return value

/-- `Decoder::require_end`: no byte may follow the last field. -/
def requireEnd : Decode Unit := do
  let d ← get
  if d.rest ≠ [] then
    throw ⟨.protocolViolation, toDecimal (remaining d) ++
      txt " unexpected trailing byte(s) after the final field"⟩

end Decoder

/-! ### Lists and enumerations -/

open Enumeration in
/-- The stored value of an enumerator is one byte. -/
def encodeEnum {α : Type} [Enumeration α] (item : α) : Bytes := Encoder.u8 (value item)

open Enumeration in
/-- A byte up to the value of the last enumerator. -/
def decodeEnum {α : Type} [Enumeration α] (maxValue : α) : Decode α := do
  let raw ← Decoder.u8
  if raw > value maxValue then
    throw ⟨.malformedFrame, txt "enum value " ++ toDecimal raw ++ txt " is outside its domain"⟩
  match ofValue raw with
  | some item => return item
  | none =>
    throw ⟨.malformedFrame, txt "enum value " ++ toDecimal raw ++ txt " is not a modelled value"⟩

/-- A counted list, one level deeper. -/
def decodeList {α : Type} (maxItems : ℕ) (decodeItem : Decode α) : Decode (List α) := do
  let count ← Decoder.listHeader maxItems
  let out ← decodeItem.times count
  Decoder.depthLeave
  return out

/-! ### What is read -/

namespace Decoder

open Reader

variable {c : Nesting} {α : Type}

/-- What taking bytes answers. -/
theorem take_run {count : ℕ} {i : Decoder} :
    (take count).run i = if count > i.rest.length
      then .error ⟨.truncatedState, txt "field extends past the end of the buffer: need " ++
        toDecimal count ++ txt " byte(s), " ++ toDecimal i.rest.length ++ txt " remaining"⟩
      else .ok (i.rest.take count, ⟨i.rest.drop count, i.context⟩) := by
  unfold take remaining
  by_cases h : count > i.rest.length
  · rw [if_pos h]
    change (if count > i.rest.length then _ else _ : Decode Bytes).run i = _
    rw [if_pos h]
    rfl
  · rw [if_neg h]
    change (if count > i.rest.length then _ else _ : Decode Bytes).run i = _
    rw [if_neg h]
    rfl

/-- Bytes that are there are taken. -/
theorem reads_take (data : Bytes) : Reads c (take data.length) data data := by
  intro rest
  rw [take_run, if_neg (by simp), List.take_left, List.drop_left]

/-- What is taken was in front. -/
theorem take_run_ok {count : ℕ} {i j : Decoder} {data : Bytes} :
    (take count).run i = .ok (data, j) ↔ data.length = count ∧ i = ⟨data ++ j.rest, j.context⟩ := by
  rw [take_run]
  constructor
  · intro h
    split at h
    · cases h
    · rename_i hlong
      obtain ⟨rfl, rfl⟩ := Prod.mk.inj (Except.ok.inj h)
      simp only [List.length_take, List.take_append_drop, and_true]
      omega
  · rintro ⟨rfl, rfl⟩
    simp

/-- A number that fits its width is read back. -/
theorem reads_word {width n : ℕ} (h : n < 256 ^ width) :
    Reads c (word width) (LittleEndian.toBytes width n) n := by
  have hspan := @reads_take c (LittleEndian.toBytes width n)
  rw [LittleEndian.length_toBytes] at hspan
  refine hspan.last ?_
  rw [LittleEndian.ofBytes_toBytes_of_lt h]
  exact reads_pure

/-- A word is accepted only as it is written. -/
theorem canonical_word (width : ℕ) :
    Canonical (word width) (LittleEndian.toBytes width) fun _ n => n < 256 ^ width := by
  intro i n j h
  simp only [word, bind_run_ok, take_run_ok, pure_run_ok] at h
  obtain ⟨data, i1, ⟨hlength, rfl⟩, h⟩ := h
  obtain ⟨rfl, rfl⟩ := Prod.mk.inj h
  rw [← hlength, LittleEndian.toBytes_ofBytes]
  exact ⟨LittleEndian.ofBytes_lt data, rfl⟩

theorem get_bind_run {k : Decoder → Decode α} {i : Decoder} :
    ((get : Decode Decoder) >>= k).run i = (k i).run i := rfl

/-- A number of so many bits. -/
def Word (bits n : ℕ) : Prop := n < 2 ^ bits

instance (bits n : ℕ) : Decidable (Word bits n) := inferInstanceAs (Decidable (n < 2 ^ bits))

/-- A byte is read back. -/
theorem reads_u8 {n : ℕ} (h : Word 8 n) : Reads c u8 (Encoder.u8 n) n :=
  reads_word (lt_of_lt_of_eq h (by norm_num))

theorem reads_u16 {n : ℕ} (h : Word 16 n) : Reads c u16 (Encoder.u16 n) n :=
  reads_word (lt_of_lt_of_eq h (by norm_num))

theorem reads_u32 {n : ℕ} (h : Word 32 n) : Reads c u32 (Encoder.u32 n) n :=
  reads_word (lt_of_lt_of_eq h (by norm_num))

theorem reads_u64 {n : ℕ} (h : Word 64 n) : Reads c u64 (Encoder.u64 n) n :=
  reads_word (lt_of_lt_of_eq h (by norm_num))

/-- A byte is accepted only as it is written. -/
theorem canonical_u8 : Canonical u8 Encoder.u8 fun _ => Word 8 :=
  (canonical_word 1).mono fun _ _ h => lt_of_lt_of_eq h (by norm_num)

theorem canonical_u16 : Canonical u16 Encoder.u16 fun _ => Word 16 :=
  (canonical_word 2).mono fun _ _ h => lt_of_lt_of_eq h (by norm_num)

theorem canonical_u32 : Canonical u32 Encoder.u32 fun _ => Word 32 :=
  (canonical_word 4).mono fun _ _ h => lt_of_lt_of_eq h (by norm_num)

theorem canonical_u64 : Canonical u64 Encoder.u64 fun _ => Word 64 :=
  (canonical_word 8).mono fun _ _ h => lt_of_lt_of_eq h (by norm_num)

/-- A moment or another signed number of 64 bits. -/
def Signed64 (t : ℤ) : Prop := -2 ^ 63 ≤ t ∧ t < 2 ^ 63

instance (t : ℤ) : Decidable (Signed64 t) := inferInstanceAs (Decidable (_ ∧ _))

/-- A signed number that fits is read back. -/
theorem reads_i64 {t : ℤ} (h : Signed64 t) : Reads c i64 (Encoder.i64 t) t := by
  refine (reads_u64 (toWord64_lt t)).last ?_
  rw [ofWord64_toWord64 h]
  exact reads_pure

/-- A truth value is read back. -/
theorem reads_boolean (b : Bool) : Reads c boolean (Encoder.boolean b) b := by
  cases b
  · exact (reads_u8 (Nat.two_pow_pos 8)).last reads_pure
  · exact (reads_u8 (Nat.one_lt_two_pow (by decide))).last reads_pure

/-- A truth value is accepted only as it is written. -/
theorem canonical_boolean : Canonical boolean Encoder.boolean fun _ _ => True := by
  intro i b j h
  simp only [boolean, bind_run_ok] at h
  obtain ⟨n, i1, hn, h⟩ := h
  obtain ⟨-, rfl⟩ := canonical_u8 _ _ _ hn
  rw [guard_run_ok, pure_run_ok] at h
  obtain ⟨hle, h⟩ := h
  obtain ⟨rfl, rfl⟩ := Prod.mk.inj h
  have hcases : n = 0 ∨ n = 1 := by omega
  obtain rfl | rfl := hcases <;> exact ⟨trivial, rfl⟩

/-- A text a decoder takes. -/
def Short (limits : DecodeLimits) (value : Text) : Prop :=
  value.length ≤ limits.maxString ∧ Word 32 value.length

instance (limits : DecodeLimits) (value : Text) : Decidable (Short limits value) :=
  inferInstanceAs (Decidable (_ ∧ _))

/-- A text within the limit is read back. -/
theorem reads_str {value : Text} (h : Short c.limits value) :
    Reads c str (Encoder.str value) value := by
  obtain ⟨hshort, hword⟩ := h
  unfold Word at hword
  intro rest
  rw [Encoder.str, if_neg (by omega), List.append_assoc, str,
    bind_run_of_ok (reads_u32 hword (value ++ rest)), get_bind_run, if_neg (by simpa using hshort)]
  exact reads_take value rest

/-- A blob a decoder takes. -/
def Small (limits : DecodeLimits) (value : Bytes) : Prop :=
  value.length ≤ limits.maxBytes ∧ Word 32 value.length

/-- A blob within the limit is read back. -/
theorem reads_rawField {value : Bytes} (h : Small c.limits value) :
    Reads c rawField (Encoder.raw value) value := by
  obtain ⟨hshort, hword⟩ := h
  unfold Word at hword
  intro rest
  rw [Encoder.raw, if_neg (by omega), List.append_assoc, rawField,
    bind_run_of_ok (reads_u32 hword (value ++ rest)), get_bind_run, if_neg (by simpa using hshort)]
  exact reads_take value rest

/-- A text is accepted only as it is written. -/
theorem canonical_str : Canonical str Encoder.str fun c => Short c.limits := by
  intro i value j h
  simp only [str, bind_run_ok] at h
  obtain ⟨n, i1, hn, h⟩ := h
  obtain ⟨hword, rfl⟩ := canonical_u32 _ _ _ hn
  obtain ⟨d, i2, hd, h⟩ := h
  obtain ⟨rfl, rfl⟩ := Prod.mk.inj (Except.ok.inj hd)
  rw [guard_run_ok, take_run_ok] at h
  obtain ⟨hshort, rfl, rfl⟩ := h
  unfold Word at hword
  refine ⟨⟨by simpa using hshort, hword⟩, ?_⟩
  rw [Encoder.str, if_neg (by omega)]
  simp

/-- A blob is accepted only as it is written. -/
theorem canonical_rawField : Canonical rawField Encoder.raw fun c => Small c.limits := by
  intro i value j h
  simp only [rawField, bind_run_ok] at h
  obtain ⟨n, i1, hn, h⟩ := h
  obtain ⟨hword, rfl⟩ := canonical_u32 _ _ _ hn
  obtain ⟨d, i2, hd, h⟩ := h
  obtain ⟨rfl, rfl⟩ := Prod.mk.inj (Except.ok.inj hd)
  rw [guard_run_ok, take_run_ok] at h
  obtain ⟨hshort, rfl, rfl⟩ := h
  unfold Word at hword
  refine ⟨⟨by simpa using hshort, hword⟩, ?_⟩
  rw [Encoder.raw, if_neg (by omega)]
  simp

/-! ### Lists and enumerators -/

/-- A number of items a decoder takes, up to a limit of the list. -/
structure Listed (c : Nesting) (maxItems count : ℕ) : Prop where
  allowed : count ≤ maxItems
  limited : count ≤ c.limits.maxItems
  word : Word 32 count
  nested : c.depth + 1 ≤ c.limits.maxDepth

instance (c : Nesting) (maxItems count : ℕ) : Decidable (Listed c maxItems count) :=
  decidable_of_iff (count ≤ maxItems ∧ count ≤ c.limits.maxItems ∧ Word 32 count ∧
      c.depth + 1 ≤ c.limits.maxDepth)
    ⟨fun ⟨ha, hl, hw, hn⟩ => ⟨ha, hl, hw, hn⟩, fun ⟨ha, hl, hw, hn⟩ => ⟨ha, hl, hw, hn⟩⟩

/-- A list is entered when it is nested and long enough, and not longer than what remains. -/
theorem listHeader_run_ok {maxItems n : ℕ} {i j : Decoder} :
    (listHeader maxItems).run i = .ok (n, j) ↔ Listed i.context maxItems n ∧ n ≤ j.rest.length ∧
      i.rest = Encoder.u32 n ++ j.rest ∧ j.context = i.context.deeper := by
  constructor
  · intro h
    simp only [listHeader, depthEnter, bind_run_ok] at h
    obtain ⟨_, i1, ⟨d, i2, hd, henter⟩, m, i3, hm, d', i4, hd', h⟩ := h
    obtain ⟨rfl, rfl⟩ := Prod.mk.inj (Except.ok.inj hd)
    obtain ⟨rfl, rfl⟩ := Prod.mk.inj (Except.ok.inj hd')
    rw [guard_run_ok] at henter
    obtain ⟨hdepth, henter⟩ := henter
    obtain ⟨-, rfl⟩ := Prod.mk.inj (Except.ok.inj henter)
    obtain ⟨hword, hi⟩ := canonical_u32 _ _ _ hm
    simp only [guard_run_ok, pure_run_ok] at h
    obtain ⟨hallowed, hlimited, hremaining, h⟩ := h
    obtain ⟨rfl, rfl⟩ := Prod.mk.inj h
    obtain ⟨hrest, hcontext⟩ := Input.mk.inj hi
    unfold remaining at hremaining
    rw [← hcontext] at hlimited
    exact ⟨⟨by omega, by simpa using hlimited, hword, by simpa using hdepth⟩, by omega, hrest,
      hcontext.symm⟩
  · rintro ⟨⟨hallowed, hlimited, hword, hdepth⟩, hremaining, hrest, hcontext⟩
    obtain ⟨rest, c⟩ := i
    obtain ⟨rest', c'⟩ := j
    simp only at hrest hcontext hlimited hdepth hremaining
    subst hrest hcontext
    have hnot : ¬ c.depth + 1 > c.limits.maxDepth := by omega
    simp only [listHeader, depthEnter, bind_run_ok, guard_run_ok, pure_run_ok]
    refine ⟨(), ⟨Encoder.u32 n ++ rest', c.deeper⟩, ⟨_, _, rfl, hnot, rfl⟩, n, ⟨rest', c.deeper⟩,
      reads_u32 hword rest', _, _, rfl, ?_⟩
    exact ⟨by omega, fun h => absurd h (by simpa [Nesting.deeper] using hlimited),
      fun h => absurd h (by simpa [remaining] using hremaining), rfl⟩

/-- Leaving a list always succeeds. -/
theorem depthLeave_run_ok {i j : Decoder} {u : Unit} : depthLeave.run i = .ok (u, j) ↔
    j = ⟨i.rest, { i.context with depth := i.context.depth - 1 }⟩ := by
  constructor
  · intro h
    exact (Prod.mk.inj (Except.ok.inj h)).2.symm
  · rintro rfl
    rfl

/-- The end is accepted where nothing remains. -/
theorem requireEnd_run_ok {i j : Decoder} {u : Unit} :
    requireEnd.run i = .ok (u, j) ↔ j = i ∧ j.rest = [] := by
  by_cases h : i.rest = []
  · have hrun : requireEnd.run i = .ok ((), i) := by
      rw [requireEnd, get_bind_run, if_neg (not_not.mpr h)]
      rfl
    rw [hrun]
    constructor
    · intro heq
      obtain rfl := (Prod.mk.inj (Except.ok.inj heq)).2
      exact ⟨rfl, h⟩
    · rintro ⟨rfl, -⟩
      rfl
  · refine iff_of_false (fun hrun => ?_) (fun hend => h (hend.1 ▸ hend.2))
    rw [requireEnd, get_bind_run, if_pos h] at hrun
    cases hrun

end Decoder

open Reader Decoder

variable {α : Type} {c : Nesting} {maxItems : ℕ} {decodeItem : Decode α} {encodeItem : α → Bytes}

/-- Items that are written as something are no more than the bytes they take. -/
theorem length_le_flatMap {items : List α} (h : ∀ a ∈ items, encodeItem a ≠ []) :
    items.length ≤ (items.flatMap encodeItem).length := by
  induction items with
  | nil => exact le_rfl
  | cons a items ih =>
    rw [List.forall_mem_cons] at h
    have hpos := List.length_pos_of_ne_nil h.1
    have htail := ih h.2
    simp only [List.flatMap_cons, List.length_append, List.length_cons]
    omega

/-- A list is read back if its items are and no item is empty on the wire. -/
theorem reads_list {items : List α} (hlisted : Listed c maxItems items.length)
    (hitems : ∀ a ∈ items, Reads c.deeper decodeItem (encodeItem a) a)
    (hne : ∀ a ∈ items, encodeItem a ≠ []) :
    Reads c (decodeList maxItems decodeItem) (Encoder.list items encodeItem) items := by
  intro rest
  have hheader : (listHeader maxItems).run ⟨Encoder.list items encodeItem ++ rest, c⟩ =
      .ok (items.length, ⟨items.flatMap encodeItem ++ rest, c.deeper⟩) := by
    refine listHeader_run_ok.mpr ⟨hlisted, ?_, List.append_assoc .., rfl⟩
    have hlong := length_le_flatMap hne
    simp only [List.length_append]
    omega
  rw [decodeList, bind_run_of_ok hheader, bind_run_of_ok (reads_times hitems rest)]
  rfl

/-- A list is accepted only as it is written, when its items are. -/
theorem canonical_list {kind : Nesting → α → Prop} (h : Canonical decodeItem encodeItem kind) :
    Canonical (decodeList maxItems decodeItem) (fun items => Encoder.list items encodeItem)
      fun c items => Listed c maxItems items.length ∧ ∀ a ∈ items, kind c.deeper a := by
  intro i items j hr
  simp only [decodeList, bind_run_ok, pure_run_ok, listHeader_run_ok, depthLeave_run_ok] at hr
  obtain ⟨n, i1, ⟨hlisted, -, hrest, hcontext⟩, as, i2, has, -, i3, rfl, hr⟩ := hr
  obtain ⟨rfl, rfl⟩ := Prod.mk.inj hr
  obtain ⟨⟨rfl, hkinds⟩, rfl⟩ := canonical_times h _ _ _ _ has
  have hdeeper : i2.context = i.context.deeper := hcontext
  have hback : { i2.context with depth := i2.context.depth - 1 } = i.context := by
    rw [hdeeper]
    rfl
  obtain ⟨rest, c⟩ := i
  simp only at hrest hback hlisted hdeeper ⊢
  rw [hback]
  refine ⟨⟨hlisted, fun a ha => hdeeper ▸ hkinds a ha⟩, ?_⟩
  rw [hrest, Encoder.list, List.append_assoc]

section Enumerators

open Enumeration (value ofValue)

/-- The last enumerator: its value fits a byte, none is larger, and every number that names an
enumerator is its value. -/
class LastEnumerator (α : Type) [Enumeration α] (last : outParam α) : Prop where
  byte : Word 8 (value last)
  le : ∀ a : α, value a ≤ value last
  value_of_ofValue : ∀ (n : ℕ) (a : α), ofValue n = some a → value a = n

/-- In a list without repetition a member is found at its place. -/
theorem idxOf_of_getElem? [DecidableEq α] {members : List α} (h : members.Nodup) (n : ℕ) (a : α)
    (ha : members[n]? = some a) : members.idxOf a = n := by
  obtain ⟨hn, rfl⟩ := List.getElem?_eq_some_iff.mp ha
  exact h.idxOf_getElem n hn

variable [Enumeration α] {last a : α} [LastEnumerator α last]

/-- An enumerator is read back. -/
theorem reads_enum (a : α) : Reads c (decodeEnum last) (encodeEnum a) a := by
  have hle := LastEnumerator.le a
  have hword : Word 8 (value a) := lt_of_le_of_lt hle LastEnumerator.byte
  refine (reads_u8 hword).last (.guard (by omega) ?_)
  rw [Enumeration.ofValue_value]
  exact reads_pure

/-- An enumerator is accepted only as it is written. -/
theorem canonical_enum : Canonical (decodeEnum last) (encodeEnum (α := α)) fun _ _ => True := by
  intro i a j h
  simp only [decodeEnum, bind_run_ok, guard_run_ok] at h
  obtain ⟨n, i1, hn, -, h⟩ := h
  obtain ⟨-, rfl⟩ := canonical_u8 _ _ _ hn
  split at h
  · rename_i b hb
    obtain ⟨rfl, rfl⟩ := Prod.mk.inj (pure_run_ok.mp h)
    refine ⟨trivial, ?_⟩
    rw [encodeEnum, LastEnumerator.value_of_ofValue n a hb]
  · cases h

end Enumerators

end AcceleratorVirtualization
