import EnumWire.Wire.Tag

/-! # Variable-length integers

A word is written seven bits at a time, lowest first, every byte but the last with its high bit set.
The sizes are computed apart from the writing, by one rule for 32-bit words and another for 64-bit
words. A negative 32-bit integer is sign-extended to 64 bits first, so it takes ten bytes. -/
namespace EnumWire.Wire

abbrev Bytes := List UInt8

namespace Varint

/-- The longest encoding of a 64-bit word. -/
def maxSize : Nat := 10

theorem toNat_shiftRight_seven (v : UInt64) : (v >>> 7).toNat = v.toNat / 128 := by
  simp [UInt64.toNat_shiftRight, Nat.shiftRight_eq_div_pow]

theorem toNat_shiftRight_seven_lt {v : UInt64} (h : ¬ v < 0x80) : (v >>> 7).toNat < v.toNat := by
  rw [UInt64.not_lt, UInt64.le_iff_toNat_le] at h
  simp only [UInt64.reduceToNat] at h
  rw [toNat_shiftRight_seven]
  omega

/-- The bytes of a 64-bit word. -/
def encode (v : UInt64) : Bytes :=
  if v < 0x80 then [v.toUInt8]
  else ((v.toUInt8 &&& 0x7f) ||| 0x80) :: encode (v >>> 7)
termination_by v.toNat
decreasing_by exact toNat_shiftRight_seven_lt (by assumption)

/-- The number of seven-bit groups of a 64-bit word, at least one. -/
def size64 (v : UInt64) : Nat :=
  if h : v >>> 7 = 0 then 1 else size64 (v >>> 7) + 1
termination_by v.toNat
decreasing_by
  refine toNat_shiftRight_seven_lt fun hlt => h ?_
  apply UInt64.toNat_inj.mp
  rw [UInt64.lt_iff_toNat_lt] at hlt
  simp only [UInt64.reduceToNat] at hlt
  rw [toNat_shiftRight_seven]
  exact Nat.div_eq_of_lt hlt

/-- The number of bytes of a 32-bit word, by the bits above each group of seven. -/
def size32 (v : UInt32) : Nat :=
  if v &&& ((0xffffffff : UInt32) <<< 7) = 0 then 1
  else if v &&& ((0xffffffff : UInt32) <<< 14) = 0 then 2
  else if v &&& ((0xffffffff : UInt32) <<< 21) = 0 then 3
  else if v &&& ((0xffffffff : UInt32) <<< 28) = 0 then 4
  else 5

/-- The 64-bit word whose varint stands for a signed integer. -/
def ofInt32 (v : Int32) : UInt64 := v.toInt64.toUInt64

def encodeInt32 (v : Int32) : Bytes :=
  if 0 ≤ v then encode v.toUInt32.toUInt64 else encode (ofInt32 v)

def int32Size (v : Int32) : Nat :=
  if 0 ≤ v then size32 v.toUInt32 else maxSize

end Varint

/-- The wire type has no bearing on the length of a tag. -/
def Tag.size (number : UInt32) : Nat :=
  Varint.size32 (Tag.make number .varint)

end EnumWire.Wire
