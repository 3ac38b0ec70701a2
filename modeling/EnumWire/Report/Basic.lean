import EnumWire.Descriptor.Pool
import EnumWire.Generated.Constants

/-! # Reports on a package

How enumerations split into canonical values and aliases, the constants declared for them, and how
fields are encoded. -/
namespace EnumWire.Report

structure AliasReport where
  name : Text
  canonical : Text
  deriving DecidableEq

structure EnumReport where
  name : Text
  canonicalValues : List Text
  aliases : List AliasReport
  constants : List Constants.Declaration
  deriving DecidableEq

structure FieldReport where
  name : Text
  number : UInt32
  kind : FieldKind
  enumName : Text
  tag : Wire.Tag
  tagSize : Nat
  defaultName : Text
  /-- The expression that generated source compares with. -/
  defaultRef : Text
  deriving DecidableEq

structure MessageReport where
  name : Text
  fields : List FieldReport
  deriving DecidableEq

structure PackageReport where
  package : Text
  enumStyle : EnumStyle
  enums : List EnumReport
  messages : List MessageReport
  deriving DecidableEq

/-- The constants declared for an enumeration, those of the canonical values first. -/
def constants (params : Params) (parts : Partition) : List Constants.Declaration :=
  (parts.canonicalValues.map fun value =>
    ⟨Names.constant params value, Text.ofInt value.number.toInt⟩) ++
  parts.aliases.map fun entry =>
    let canonical := Names.constant params entry.canonical
    ⟨Names.constant params entry.value,
      match params.enumStyle with
      | .shell => "Self::" ++ canonical
      | .flat => canonical⟩

def ofEnum (params : Params) (enum : EnumType) : EnumReport :=
  let parts := Partition.ofEnum enum
  { name := enum.name
    canonicalValues := parts.canonicalValues.map EnumValue.name
    aliases := parts.aliases.map fun entry => ⟨entry.value.name, entry.canonical.name⟩
    constants := constants params parts }

def kindOf (field : Field) : FieldKind :=
  match field.label, field.isPacked with
  | .optional, _ => .singular
  | .repeated, false => .repeated
  | .repeated, true => .packed

def ofField (params : Params) (field : Field) : FieldReport where
  name := field.name
  number := field.number
  kind := kindOf field
  enumName := field.enumName
  tag := field.tag
  tagSize := field.tagSize
  defaultName := field.defaultValue.name
  defaultRef := Names.defaultRef params field

def ofMessage (params : Params) (message : Message) : MessageReport :=
  ⟨message.name, message.fields.map (ofField params)⟩

def ofPool (params : Params) (pool : Pool) : PackageReport where
  package := pool.package
  enumStyle := params.enumStyle
  enums := pool.enums.map (ofEnum params)
  messages := pool.messages.map (ofMessage params)

end EnumWire.Report
