import AcceleratorVirtualization.Lib.LittleEndian

/-!
# Texts, identity renderings and fingerprints

A `std::string` is a list of bytes. This module has the renderings that occur in recorded
reasons (decimal counters, `va-000000000000001f` style identities) and the FNV-1a hash that
fingerprints evidence and projections.
-/

namespace AcceleratorVirtualization

/-- The bytes of a `std::string`. -/
abbrev Text := List UInt8

/-- The bytes of a literal. All literals of the source are ASCII. -/
def txt (s : String) : Text := s.toList.map fun c => UInt8.ofNat c.toNat

/-- `std::to_string` of an unsigned number. -/
def toDecimal (n : ℕ) : Text := (Nat.toDigits 10 n).map fun c => UInt8.ofNat c.toNat

/-- Sixteen lowercase hexadecimal digits, most significant first. -/
def toHex16 (value : ℕ) : Text :=
  (List.range 16).reverse.map fun i => UInt8.ofNat (Nat.digitChar (value / 16 ^ i % 16)).toNat

/-- An identity is rendered with the tag of its kind, so `va-…` never reads as `tn-…`. -/
def renderStrongId (tag : String) (value : ℕ) : Text := txt tag ++ txt "-" ++ toHex16 value

/-- Moments are signed microseconds. -/
abbrev UnixMicros := ℤ

/-- `static_cast<std::uint64_t>` of a signed 64-bit number: the two's complement word. -/
def toWord64 (t : ℤ) : ℕ := (t % 2 ^ 64).toNat

namespace Fnv1a64

/-- The FNV-1a offset basis. -/
def init : ℕ := 0xCBF29CE484222325

/-- Fold bytes into a hash. -/
def update (state : ℕ) (bytes : Text) : ℕ :=
  bytes.foldl (fun h b => (h ^^^ b.toNat) * 0x100000001B3 % 2 ^ 64) state

/-- The hash of a word is the hash of its eight bytes in memory order. -/
def updateWord (state : ℕ) (word : ℕ) : ℕ := update state (LittleEndian.toBytes 8 word)

end Fnv1a64

end AcceleratorVirtualization
