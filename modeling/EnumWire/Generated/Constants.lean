import EnumWire.Descriptor.Partition
import EnumWire.Generated.Names
import EnumWire.Printer.Basic

/-! # Constants of an enumeration

Canonical values come first and carry their numbers; aliases follow and name the constant of their
canonical value. -/
namespace EnumWire.Constants

/-- A constant and the expression that gives its value. -/
structure Declaration where
  name : Text
  value : Text
  deriving DecidableEq

def canonicalDeclaration (params : Params) (value : EnumValue) : Declaration :=
  ⟨Names.constant params value, Text.ofInt value.number.toInt⟩

/-- How an alias names its canonical constant: relative to the block in the shell style. -/
def siblingRef (params : Params) (value : EnumValue) : Text :=
  match params.enumStyle with
  | .shell => "Self::" ++ Names.constant params value
  | .flat => Names.constantRef params value

def aliasDeclaration (params : Params) (entry : Alias) : Declaration :=
  ⟨Names.constant params entry.value, siblingRef params entry.canonical⟩

def declarations (params : Params) (enum : EnumType) : List Declaration :=
  let parts := Partition.ofEnum enum
  parts.canonicalValues.map (canonicalDeclaration params) ++
    parts.aliases.map (aliasDeclaration params)

def canonicalScript (declaration : Declaration) : Script :=
  [.print [("name", declaration.name), ("canonical_value", declaration.value)]
    (Text.lines ["pub const $name$: i32 = $canonical_value$;"])]

def aliasScript (declaration : Declaration) : Script :=
  [.print [("name", declaration.name), ("canonical_name", declaration.value)]
    (Text.lines ["pub const $name$: i32 = $canonical_name$;"])]

def body (params : Params) (enum : EnumType) : Script :=
  let parts := Partition.ofEnum enum
  parts.canonicalValues.flatMap (fun value => canonicalScript (canonicalDeclaration params value)) ++
    parts.aliases.flatMap fun entry => aliasScript (aliasDeclaration params entry)

/-- Constants between the lines that open and close an enumeration. -/
def enclosed (params : Params) (enum : EnumType) (body : Script) : Script :=
  let placeholders : Variables := [("classname", Names.enumType enum)]
  [.print placeholders (Text.lines ["/* enum $classname$ */"])] ++
  (match params.enumStyle with
    | .shell =>
      [.print placeholders (Text.lines [
        "#[derive(Debug, Clone, Copy, PartialEq, Eq)]",
        "pub struct $classname$;",
        "",
        "impl $classname$ \x7b"])] ++
      Script.nested body ++ [.raw "\x7d\n"]
    | .flat => body) ++
  [.raw "\n"]

def script (params : Params) (enum : EnumType) : Script :=
  enclosed params enum (body params enum)

end EnumWire.Constants
