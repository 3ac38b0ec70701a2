import EnumWire.Descriptor.Basic

/-! # How tags lead to fields

A reader goes by the tag. A singular field takes one value behind its tag; a repeated field takes
both encodings, since writers may choose either: elements with a tag each, and packed runs. -/
namespace EnumWire

/-- How what follows a tag is taken into a field. -/
inductive Intake where
  | value
  /-- As many elements as follow each other, all but the first with the tag before them. -/
  | elements
  /-- Elements without tags behind their length; the field may drop what it held before. -/
  | packedRun (replaces : Bool)
  deriving DecidableEq

structure Arm where
  tag : Wire.Tag
  intake : Intake
  deriving DecidableEq

namespace FieldKind

/-- The arm of the encoding that writers use. Only a field declared as packed drops what it held
when it meets a run. -/
def declaredArm (kind : FieldKind) (number : UInt32) : Arm :=
  ⟨Wire.Tag.make number kind.wireType,
   match kind with
   | .singular => .value
   | .repeated => .elements
   | .packed => .packedRun true⟩

/-- The arm of the encoding that a repeated field accepts besides. -/
def alternateArm? (number : UInt32) : FieldKind → Option Arm
  | .singular => none
  | .repeated => some ⟨Wire.Tag.make number .lengthDelimited, .packedRun false⟩
  | .packed => some ⟨Wire.Tag.make number .varint, .elements⟩

def arms (kind : FieldKind) (number : UInt32) : List Arm :=
  kind.declaredArm number :: (kind.alternateArm? number).toList

end FieldKind

namespace Field

def declaredArm (field : Field) : Arm := field.kind.declaredArm field.number

def alternateArm? (field : Field) : Option Arm := field.kind.alternateArm? field.number

def arms (field : Field) : List Arm := field.kind.arms field.number

/-- The tag of one element outside of a packed run. -/
def elementTag (field : Field) : Wire.Tag := Wire.Tag.make field.number .varint

end Field
end EnumWire
