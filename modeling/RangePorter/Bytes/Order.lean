import Mathlib.Data.Nat.Digits.Defs

/-!
# Byte orders

A number laid out in a fixed number of bytes, and read back, by a host of either byte
order. `fromBe` is what turns a number that the host has read from network order into the
number that was meant (`fromBe_decode`).
-/

namespace Bytes

/-- The lowest bytes of a number, the lowest one first. -/
def littleEndian : Nat → Nat → List UInt8
  | 0, _ => []
  | width + 1, n => .ofNat n :: littleEndian width (n / 256)

/-- The number with these bytes, the lowest one first. -/
def value (bytes : List UInt8) : Nat := Nat.ofDigits 256 (bytes.map UInt8.toNat)

variable {width n : Nat} {bytes : List UInt8}

theorem value_cons (b : UInt8) (bytes : List UInt8) :
    value (b :: bytes) = b.toNat + 256 * value bytes := by
  rw [value, List.map_cons, Nat.ofDigits_cons]
  rfl

@[simp] theorem length_littleEndian (width n : Nat) : (littleEndian width n).length = width := by
  induction width generalizing n with
  | zero => rfl
  | succ width ih => rw [littleEndian, List.length_cons, ih]

theorem value_littleEndian (fits : n < 256 ^ width) : value (littleEndian width n) = n := by
  induction width generalizing n with
  | zero =>
      rw [Nat.pow_zero, Nat.lt_one_iff] at fits
      rw [fits]
      rfl
  | succ width ih =>
      have rest : n / 256 < 256 ^ width := by
        rw [Nat.pow_succ, Nat.mul_comm] at fits
        exact Nat.div_lt_of_lt_mul fits
      rw [littleEndian, value_cons, ih rest, UInt8.toNat_ofNat']
      exact Nat.mod_add_div n 256

theorem littleEndian_value (bytes : List UInt8) :
    littleEndian bytes.length (value bytes) = bytes := by
  induction bytes with
  | nil => rfl
  | cons b bytes ih =>
      have low : b.toNat < 256 := b.toNat_lt
      have quotient : (b.toNat + 256 * value bytes) / 256 = value bytes := by omega
      have byte : UInt8.ofNat (b.toNat + 256 * value bytes) = b := by
        apply UInt8.toNat_inj.mp
        rw [UInt8.toNat_ofNat']
        omega
      rw [List.length_cons, value_cons, littleEndian, quotient, byte, ih]

/-! ### Hosts -/

inductive Endian where
  | little
  | big
  deriving DecidableEq, Repr

namespace Endian

/-- A number in memory. -/
def encode : Endian → Nat → Nat → List UInt8
  | little, width, n => littleEndian width n
  | big, width, n => (littleEndian width n).reverse

/-- The number that a host finds in memory. -/
def decode : Endian → List UInt8 → Nat
  | little, bytes => value bytes
  | big, bytes => value bytes.reverse

variable (e : Endian)

@[simp] theorem length_encode (width n : Nat) : (e.encode width n).length = width := by
  cases e with
  | little => exact length_littleEndian width n
  | big => rw [encode, List.length_reverse, length_littleEndian]

theorem decode_encode (fits : n < 256 ^ width) : e.decode (e.encode width n) = n := by
  cases e with
  | little => exact value_littleEndian fits
  | big => rw [encode, decode, List.reverse_reverse, value_littleEndian fits]

/-- A machine word of whole bytes is read back as it was written. -/
theorem ofNat_decode_encode {bits : Nat} (whole : bits = 8 * width) (x : BitVec bits) :
    BitVec.ofNat bits (e.decode (e.encode width x.toNat)) = x := by
  have fits : x.toNat < 256 ^ width :=
    calc
      x.toNat < 2 ^ bits := x.isLt
      _ = 256 ^ width := by rw [whole, Nat.pow_mul]
  rw [decode_encode e fits, BitVec.ofNat_toNat, BitVec.setWidth_eq]

end Endian

/-- The number whose bytes are those of `n` in the other order. -/
def swapBytes (width n : Nat) : Nat := Endian.little.decode (Endian.big.encode width n)

/-- `from_be` on a host of this byte order. -/
def fromBe : Endian → Nat → Nat → Nat
  | .little, width, n => swapBytes width n
  | .big, _, n => n

/-- What a host has read from network order, it makes the number that was meant. -/
theorem fromBe_decode (e : Endian) (bytes : List UInt8) :
    fromBe e bytes.length (e.decode bytes) = Endian.big.decode bytes := by
  cases e with
  | little =>
      have same : littleEndian bytes.length (value bytes) = bytes := littleEndian_value bytes
      rw [fromBe, swapBytes, Endian.decode, Endian.decode, Endian.decode, Endian.encode, same]
  | big => rfl

end Bytes
