import Mathlib.Data.Nat.Basic
import Mathlib.Data.List.Basic
import Mathlib.Tactic.Ring

/-!
# Little-endian words

A number is laid out as a fixed number of bytes, least significant first. Laying out drops
what does not fit into the width, so reading back gives the number modulo `256 ^ width`; a
number that fits is read back unchanged.
-/

namespace LittleEndian

/-- The `width` low bytes of `n`, least significant first. -/
def toBytes : (width : ℕ) → (n : ℕ) → List UInt8
  | 0, _ => []
  | width + 1, n => UInt8.ofNat n :: toBytes width (n / 256)

/-- The number whose bytes, least significant first, are the given ones. -/
def ofBytes : List UInt8 → ℕ
  | [] => 0
  | b :: bs => b.toNat + 256 * ofBytes bs

/-- As many bytes as asked for. -/
@[simp]
theorem length_toBytes (width n : ℕ) : (toBytes width n).length = width := by
  induction width generalizing n with
  | zero => rfl
  | succ width ih => simp [toBytes, ih]

/-- Reading back a layout gives the number modulo the width. -/
theorem ofBytes_toBytes (width n : ℕ) : ofBytes (toBytes width n) = n % 256 ^ width := by
  induction width generalizing n with
  | zero => simp [toBytes, ofBytes, Nat.mod_one]
  | succ width ih =>
    have hsplit : n % 256 ^ (width + 1) = n % 256 + 256 * (n / 256 % 256 ^ width) := by
      rw [Nat.pow_succ', Nat.mod_mul]
    simp only [toBytes, ofBytes, ih, hsplit]
    simp [UInt8.toNat_ofNat']

/-- A number that fits its width is read back. -/
theorem ofBytes_toBytes_of_lt {width n : ℕ} (h : n < 256 ^ width) :
    ofBytes (toBytes width n) = n := by
  rw [ofBytes_toBytes, Nat.mod_eq_of_lt h]

/-- What is read from some bytes fits their width. -/
theorem ofBytes_lt (bs : List UInt8) : ofBytes bs < 256 ^ bs.length := by
  induction bs with
  | nil => simp [ofBytes]
  | cons b bs ih =>
    have hb : b.toNat < 256 := b.toNat_lt
    simp only [ofBytes, List.length_cons, Nat.pow_succ]
    omega

/-- Laying out what was read gives the bytes back. -/
theorem toBytes_ofBytes (bs : List UInt8) : toBytes bs.length (ofBytes bs) = bs := by
  induction bs with
  | nil => rfl
  | cons b bs ih =>
    have hb : b.toNat < 256 := b.toNat_lt
    have hdiv : (b.toNat + 256 * ofBytes bs) / 256 = ofBytes bs := by omega
    have hhead : UInt8.ofNat (b.toNat + 256 * ofBytes bs) = b := by
      apply UInt8.toNat_inj.mp
      simp only [UInt8.toNat_ofNat']
      omega
    simp only [ofBytes, List.length_cons, toBytes, hdiv, ih, hhead]

/-- The word of the given width that begins at an offset; zero where the bytes end before it. -/
def getAt (width : ℕ) (data : List UInt8) (offset : ℕ) : ℕ :=
  if data.length < offset + width then 0 else ofBytes ((data.drop offset).take width)

/-- What is read at an offset fits the width, also beyond the end. -/
theorem getAt_lt (width : ℕ) (data : List UInt8) (offset : ℕ) :
    getAt width data offset < 256 ^ width := by
  unfold getAt
  split
  · exact Nat.pow_pos (by decide)
  · have hlt := ofBytes_lt ((data.drop offset).take width)
    refine hlt.trans_le (Nat.pow_le_pow_right (by decide) ?_)
    simp

/-- A word is read back where it was laid out. -/
theorem getAt_append {width n : ℕ} (before after : List UInt8) (h : n < 256 ^ width) :
    getAt width (before ++ (toBytes width n ++ after)) before.length = n := by
  have hlong : ¬ (before ++ (toBytes width n ++ after)).length < before.length + width := by
    simp only [List.length_append, length_toBytes]
    omega
  rw [getAt, if_neg hlong, List.drop_left]
  have htake : (toBytes width n ++ after).take width = toBytes width n :=
    List.take_left' (length_toBytes width n)
  rw [htake, ofBytes_toBytes_of_lt h]

/-- A number at the front is read back. -/
theorem getAt_zero {width n : ℕ} (after : List UInt8) (h : n < 256 ^ width) :
    getAt width (toBytes width n ++ after) 0 = n := getAt_append [] after h

/-- What is read at an offset is laid out there. -/
theorem toBytes_getAt {width : ℕ} {data : List UInt8} {offset : ℕ}
    (h : offset + width ≤ data.length) :
    toBytes width (getAt width data offset) = (data.drop offset).take width := by
  have hlength : ((data.drop offset).take width).length = width := by
    simp only [List.length_take, List.length_drop]
    omega
  have hback := toBytes_ofBytes ((data.drop offset).take width)
  rw [hlength] at hback
  rw [getAt, if_neg (by omega), hback]

end LittleEndian
