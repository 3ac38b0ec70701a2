import EnumWire.Schema.Package
import EnumWire.Wire.Varint

/-! # Descriptors

Definitions with their names linked: an enumeration value knows its position and its enumeration, a
field knows the value that it defaults to. The wire type and the tag of a field follow from its
number and from whether it is packed. -/
namespace EnumWire

structure EnumValue where
  name : Text
  number : Int32
  /-- Position in the value list of the enumeration. -/
  index : Nat
  enumName : Text
  deriving DecidableEq

structure EnumType where
  name : Text
  values : List EnumValue
  deriving DecidableEq

/-- How a field holds values of its enumeration. -/
inductive FieldKind where
  | singular
  | repeated
  | packed
  deriving DecidableEq

structure Field where
  name : Text
  number : UInt32
  label : Label
  /-- As declared; only honoured for a repeated field. -/
  packed : Bool
  enumName : Text
  defaultValue : EnumValue
  messageName : Text
  deriving DecidableEq

structure Message where
  name : Text
  fields : List Field
  deriving DecidableEq

namespace EnumType

def ofDef (definition : EnumDef) : EnumType where
  name := definition.name
  values := definition.values.mapIdx fun index value =>
    { name := value.name, number := value.number, index := index, enumName := definition.name }

/-- The first declared value with this number. -/
def findNumber? (enum : EnumType) (number : Int32) : Option EnumValue :=
  enum.values.find? fun value => value.number = number

def findName? (enum : EnumType) (name : Text) : Option EnumValue :=
  enum.values.find? fun value => value.name = name

def first? (enum : EnumType) : Option EnumValue := enum.values.head?

end EnumType

/-- The wire type that writers use. -/
def FieldKind.wireType : FieldKind → Wire.WireType
  | .singular => .varint
  | .repeated => .varint
  | .packed => .lengthDelimited

namespace Field

def kind (field : Field) : FieldKind :=
  match field.label with
  | .optional => .singular
  | .repeated => if field.packed then .packed else .repeated

def isRepeated (field : Field) : Bool := field.label = .repeated

def isPacked (field : Field) : Bool := field.isRepeated && field.packed

def wireType (field : Field) : Wire.WireType := field.kind.wireType

def tag (field : Field) : Wire.Tag := Wire.Tag.make field.number field.wireType

def tagSize (field : Field) : Nat := Wire.Tag.size field.number

end Field
end EnumWire
