/-! # Field tags

A tag is one 32-bit word: the wire type in the low three bits, the field number above them. Shifting
a number of 30 bits or more into place drops its high bits. -/
namespace EnumWire.Wire

inductive WireType where
  | varint
  | fixed64
  | lengthDelimited
  | startGroup
  | endGroup
  | fixed32
  deriving DecidableEq

abbrev Tag := UInt32

def WireType.code : WireType → UInt32
  | .varint => 0
  | .fixed64 => 1
  | .lengthDelimited => 2
  | .startGroup => 3
  | .endGroup => 4
  | .fixed32 => 5

def WireType.ofCode? (code : UInt32) : Option WireType :=
  match code.toNat with
  | 0 => some .varint
  | 1 => some .fixed64
  | 2 => some .lengthDelimited
  | 3 => some .startGroup
  | 4 => some .endGroup
  | 5 => some .fixed32
  | _ => none

theorem WireType.ofCode?_code (w : WireType) : ofCode? w.code = some w := by
  cases w <;> rfl

namespace Tag

def make (number : UInt32) (wireType : WireType) : Tag :=
  (number <<< 3) ||| wireType.code

def fieldNumber (tag : Tag) : UInt32 := tag >>> 3

def wireCode (tag : Tag) : UInt32 := tag &&& 7

/-- The codes 6 and 7 stand for no wire type. -/
def wireType? (tag : Tag) : Option WireType :=
  WireType.ofCode? (wireCode tag)

theorem toNat_fieldNumber (tag : Tag) : (fieldNumber tag).toNat = tag.toNat / 8 := by
  simp [fieldNumber, UInt32.toNat_shiftRight, Nat.shiftRight_eq_div_pow]

theorem toNat_wireCode (tag : Tag) : (wireCode tag).toNat = tag.toNat % 8 := by
  simp only [wireCode, UInt32.toNat_and]
  exact Nat.and_two_pow_sub_one_eq_mod tag.toNat 3

end Tag
end EnumWire.Wire
