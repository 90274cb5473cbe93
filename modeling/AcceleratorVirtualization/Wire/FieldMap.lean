import Mathlib.Data.List.Sort
import Std.Data.ExtTreeMap
import AcceleratorVirtualization.Wire.Frame

/-!
# Field maps

The payload of a control message is a map from keys to typed fields. A writer keeps one entry per
key and lays the entries out in the order of their keys; a reader takes the map apart once and keeps
every field as it came. What a field holds is only looked at when it is asked for, by the accessor
of its type, so every accessor has to cope with a payload of any length.
-/

namespace AcceleratorVirtualization

open Enumeration (value ofValue)

/-! ### Fields -/

/-- `FieldType`; the code of a type is its position. -/
inductive FieldType
  | u64 | i64 | bool | str | bytes | listU64 | listStr | listNested
  deriving DecidableEq, Repr

instance : Enumeration FieldType where
  value
    | .u64 => 1 | .i64 => 2 | .bool => 3 | .str => 4
    | .bytes => 5 | .listU64 => 6 | .listStr => 7 | .listNested => 8
  ofValue
    | 1 => some .u64 | 2 => some .i64 | 3 => some .bool | 4 => some .str
    | 5 => some .bytes | 6 => some .listU64 | 7 => some .listStr | 8 => some .listNested
    | _ => none
  ofValue_value := by
    intro type
    cases type <;> rfl

/-- Text or bytes after their length. -/
def putSized (value : Bytes) : Bytes := putU32 (.ofNat value.length) ++ value

/-- What is written under a key. -/
inductive FieldValue
  | u64 (value : UInt64)
  | i64 (value : Int64)
  | boolean (value : Bool)
  | str (value : Text)
  | bytes (value : Bytes)
  | listU64 (values : List UInt64)
  | listStr (values : List Text)
  | nestedList (items : List Bytes)
  deriving DecidableEq

namespace FieldValue

/-- The type under which a value is written. -/
def type : FieldValue → FieldType
  | u64 _ => .u64
  | i64 _ => .i64
  | boolean _ => .bool
  | str _ => .str
  | bytes _ => .bytes
  | listU64 _ => .listU64
  | listStr _ => .listStr
  | nestedList _ => .listNested

/-- The payload `FieldWriter` produces for a value. -/
def payload : FieldValue → Bytes
  | u64 value => putU64 value
  | i64 value => putU64 value.toUInt64
  | boolean value => [if value then 1 else 0]
  | str value => putSized value
  | bytes value => putSized value
  | listU64 values => putU32 (.ofNat values.length) ++ values.flatMap putU64
  | listStr values => putU32 (.ofNat values.length) ++ values.flatMap putSized
  | nestedList items => putU32 (.ofNat items.length) ++ items.flatMap putSized

end FieldValue

/-! ### Writing -/

/-- One entry of the writer: the key, the type and the payload as bytes. -/
structure FieldWriterEntry where
  key : UInt16
  type : FieldType
  payload : Bytes
  deriving DecidableEq

/-- Writing the same key twice replaces the previous value rather than producing a map the decoder
would have to refuse. -/
def storeField (entries : List FieldWriterEntry) (key : UInt16) (type : FieldType)
    (payload : Bytes) : List FieldWriterEntry :=
  match entries with
  | [] => [⟨key, type, payload⟩]
  | entry :: entries =>
    if entry.key ≠ key then entry :: storeField entries key type payload
    else { entry with type, payload } :: entries

/-- `FieldWriter`. -/
structure FieldWriter where
  entries : List FieldWriterEntry := []
  deriving DecidableEq

namespace FieldWriter

/-- Every method of the writer stores the payload of a value under its type. -/
def write (w : FieldWriter) (key : UInt16) (value : FieldValue) : FieldWriter :=
  { w with entries := storeField w.entries key value.type value.payload }

/-- `FieldWriter::u64`. -/
def u64 (w : FieldWriter) (key : UInt16) (value : UInt64) : FieldWriter := w.write key (.u64 value)
/-- `FieldWriter::i64`. -/
def i64 (w : FieldWriter) (key : UInt16) (value : Int64) : FieldWriter := w.write key (.i64 value)
/-- `FieldWriter::boolean`. -/
def boolean (w : FieldWriter) (key : UInt16) (value : Bool) : FieldWriter :=
  w.write key (.boolean value)
/-- `FieldWriter::str`. -/
def str (w : FieldWriter) (key : UInt16) (value : Text) : FieldWriter := w.write key (.str value)
/-- `FieldWriter::bytes`. -/
def bytes (w : FieldWriter) (key : UInt16) (value : Bytes) : FieldWriter :=
  w.write key (.bytes value)
/-- `FieldWriter::list_u64`. -/
def listU64 (w : FieldWriter) (key : UInt16) (values : List UInt64) : FieldWriter :=
  w.write key (.listU64 values)
/-- `FieldWriter::list_str`. -/
def listStr (w : FieldWriter) (key : UInt16) (values : List Text) : FieldWriter :=
  w.write key (.listStr values)
/-- `FieldWriter::nested_list`. -/
def nestedList (w : FieldWriter) (key : UInt16) (items : List Bytes) : FieldWriter :=
  w.write key (.nestedList items)

/-- `FieldWriter::has`. -/
def has (w : FieldWriter) (key : UInt16) : Bool := w.entries.any fun entry => entry.key = key

/-- `std::sort` by key; no two entries have the same. -/
def sorted (w : FieldWriter) : List FieldWriterEntry :=
  w.entries.insertionSort fun a b => a.key ≤ b.key

/-- One entry on the wire: the key, the type and the sized payload. -/
def encodeEntry (entry : FieldWriterEntry) : Bytes :=
  Encoder.u16 entry.key.toNat ++ (Encoder.u8 (value entry.type) ++ Encoder.raw entry.payload)

/-- Entries are laid out in ascending key order regardless of the order they were written in. -/
def take (w : FieldWriter) : Bytes := Encoder.list w.sorted encodeEntry

end FieldWriter

/-! ### Reading -/

/-- What an accessor does with a payload: it reads past the end of it, which is undefined, or it
answers, after making room for a number of items. -/
inductive Access (α : Type) where
  | outside
  | done (room : ℕ) (value : Option α)
  deriving DecidableEq

/-- One entry of the reader. -/
structure FieldReader.Entry where
  type : FieldType
  payload : Bytes
  deriving DecidableEq

/-- `FieldReader`: the entries by key. -/
structure FieldReader where
  fields : Std.ExtTreeMap UInt16 FieldReader.Entry := ∅
  deriving DecidableEq

namespace FieldReader

/-- The loop of `create`. -/
def readFields (fields : Std.ExtTreeMap UInt16 Entry) :
    ℕ → Decode (Std.ExtTreeMap UInt16 Entry)
  | 0 => return fields
  | count + 1 => do
    let key ← Decoder.u16
    let type ← Decoder.u8
    match (ofValue type : Option FieldType) with
    | none =>
      throw ⟨.malformedFrame, txt "field type " ++ toDecimal type ++ txt " is outside its domain"⟩
    | some type =>
      let payload ← Decoder.rawField
      if UInt16.ofNat key ∈ fields then
        throw ⟨.protocolViolation, txt "field map repeats key " ++ toDecimal key⟩
      readFields (fields.insert (.ofNat key) ⟨type, payload⟩) count

/-- What `FieldReader::create` reads: at most 1024 fields, nothing behind them. -/
def parse : Decode FieldReader := do
  let count ← Decoder.listHeader 1024
  let fields ← readFields ∅ count
  Decoder.depthLeave
  Decoder.requireEnd
  return ⟨fields⟩

/-- `FieldReader::create`. -/
def create (data : Bytes) (limits : DecodeLimits := {}) : Except Status FieldReader :=
  parse.run' (Decoder.of data limits)

/-- `FieldReader::has`. -/
def has (r : FieldReader) (key : UInt16) : Bool := r.fields.contains key

/-- `FieldReader::keys`, in ascending order. -/
def keys (r : FieldReader) : List UInt16 := r.fields.keys

/-- An accessor looks at the payload of the field if there is one of its type. -/
def access {α : Type} (r : FieldReader) (key : UInt16) (type : FieldType)
    (look : Bytes → Access α) : Access α :=
  match r.fields[key]? with
  | none => .done 0 none
  | some entry => if entry.type ≠ type then .done 0 none else look entry.payload

/-! The accessors, by what they do with the payload. -/

/-- A word read at the front of the payload, whatever its length is. -/
def lookU64 (payload : Bytes) : Access UInt64 := .done 0 (some (getU64 payload 0))

/-- The same word, read with its sign. -/
def lookI64 (payload : Bytes) : Access Int64 := .done 0 (some (getU64 payload 0).toInt64)

/-- The first byte of the payload, true when it is not zero. -/
def lookBoolean (payload : Bytes) : Access Bool :=
  match payload[0]? with
  | none => .outside
  | some byte => .done 0 (some (byte ≠ 0))

/-- The length is a 32-bit word and so is its sum with the four bytes it takes itself: the sum of a
length near the end of its range wraps around and passes the check. -/
def lookSized (payload : Bytes) : Access Bytes :=
  let length := getU32 payload 0
  if (length + 4).toNat > payload.length then .done 0 none
  else if 4 + length.toNat > payload.length then .outside
  else .done length.toNat (some ((payload.drop 4).take length.toNat))

/-- The offsets are 32-bit words. -/
def lookListU64 (payload : Bytes) : Access (List UInt64) :=
  let count := getU32 payload 0
  if count.toNat * 8 + 4 ≠ payload.length then .done 0 none
  else .done count.toNat (some ((List.range count.toNat).map fun i =>
    getU64 payload (4 + UInt32.ofNat i * 8).toNat))

/-- The item after its length at an offset, if the payload holds all of it. -/
def itemAt (payload : Bytes) (offset : ℕ) : Option Bytes :=
  if offset + 4 > payload.length then none
  else
    let length := getU32 payload offset
    if offset + 4 + length.toNat > payload.length then none
    else some ((payload.drop (offset + 4)).take length.toNat)

/-- The loop of `list_str`: the items and the offset behind them. -/
def takeItems (payload : Bytes) : ℕ → ℕ → List Text → Option (List Text × ℕ)
  | 0, offset, out => some (out, offset)
  | count + 1, offset, out =>
    match itemAt payload offset with
    | none => none
    | some item => takeItems payload count (offset + 4 + item.length) (out ++ [item])

/-- Room for all the items is made before the first of them is looked for. -/
def lookListStr (payload : Bytes) : Access (List Text) :=
  let count := getU32 payload 0
  match takeItems payload count.toNat 4 [] with
  | none => .done count.toNat none
  | some (out, offset) =>
    if offset ≠ payload.length then .done count.toNat none else .done count.toNat (some out)

/-- The loop of `nested_list`: it stops at the first item that is not all there. -/
def createItems (payload : Bytes) :
    ℕ → ℕ → List (Except Status FieldReader) → List (Except Status FieldReader)
  | 0, _, out => out
  | count + 1, offset, out =>
    match itemAt payload offset with
    | none => out
    | some item => createItems payload count (offset + 4 + item.length) (out ++ [create item])

/-- `FieldReader::u64`. -/
def u64 (r : FieldReader) (key : UInt16) : Access UInt64 := r.access key .u64 lookU64
/-- `FieldReader::i64`. -/
def i64 (r : FieldReader) (key : UInt16) : Access Int64 := r.access key .i64 lookI64
/-- `FieldReader::boolean`. -/
def boolean (r : FieldReader) (key : UInt16) : Access Bool := r.access key .bool lookBoolean
/-- `FieldReader::str`. -/
def str (r : FieldReader) (key : UInt16) : Access Text := r.access key .str lookSized
/-- `FieldReader::bytes`. -/
def bytes (r : FieldReader) (key : UInt16) : Access Bytes := r.access key .bytes lookSized
/-- `FieldReader::list_u64`. -/
def listU64 (r : FieldReader) (key : UInt16) : Access (List UInt64) :=
  r.access key .listU64 lookListU64
/-- `FieldReader::list_str`. -/
def listStr (r : FieldReader) (key : UInt16) : Access (List Text) :=
  r.access key .listStr lookListStr

/-- Nested field maps are returned as readers of their own. -/
def nestedList (r : FieldReader) (key : UInt16) : List (Except Status FieldReader) :=
  match r.fields[key]? with
  | none => []
  | some entry =>
    if entry.type ≠ .listNested then []
    else createItems entry.payload (getU32 entry.payload 0).toNat 4 []

end FieldReader

end AcceleratorVirtualization
