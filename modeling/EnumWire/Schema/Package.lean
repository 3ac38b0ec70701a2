import EnumWire.Text.Basic

/-! # Schema files and their packages

What a schema file declares: enumerations, and messages whose fields hold values of an enumeration.
Names are not resolved here, and declaration order is the order of the lists. The files that declare
one package become one file: the definitions of all of them in order, under the description of the
first. The packages are ascending. -/
namespace EnumWire

inductive Label where
  | optional
  | repeated
  deriving DecidableEq

structure EnumValueDef where
  name : Text
  number : Int32
  comment : Option Text := none
  deriving DecidableEq

structure EnumDef where
  name : Text
  values : List EnumValueDef := []
  deriving DecidableEq

structure FieldDef where
  name : Text
  number : UInt32
  /-- The enumeration whose values the field holds. -/
  typeName : Text
  label : Label := .optional
  /-- Only meaningful for a repeated field. -/
  packed : Bool := false
  /-- A value of the enumeration; its first one when absent. -/
  defaultName : Option Text := none
  deriving DecidableEq

structure MessageDef where
  name : Text
  fields : List FieldDef := []
  deriving DecidableEq

structure SchemaFile where
  package : Text
  description : Option Text := none
  enums : List EnumDef := []
  messages : List MessageDef := []
  deriving DecidableEq

namespace SchemaFile

/-! ### Files merged by package -/

/-- The definitions of another file of the package come after the file's own. -/
def append (file other : SchemaFile) : SchemaFile :=
  { file with enums := file.enums ++ other.enums, messages := file.messages ++ other.messages }

/-- Puts a file among merged ones with ascending packages. -/
def insertPackage (file : SchemaFile) : List SchemaFile → List SchemaFile
  | [] => [file]
  | merged :: rest =>
    if file.package = merged.package then merged.append file :: rest
    else if Text.precedes file.package merged.package then file :: merged :: rest
    else merged :: insertPackage file rest

def groupByPackage (files : List SchemaFile) : List SchemaFile :=
  files.foldl (fun merged file => insertPackage file merged) []

end SchemaFile
end EnumWire
