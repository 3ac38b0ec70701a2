import EnumWire.Descriptor.Pool
import EnumWire.Generated.ConstantValues

/-! # Where constants are in scope

A constant is declared in the block of its enumeration or in the module itself. From elsewhere in the
module, a constant of a block is named through the type of the block. -/
namespace EnumWire

/-- One namespace of constants, with the enumerations that declare in it. -/
structure Scope where
  /-- The type that has the block; none for the module. -/
  type? : Option Text
  enums : List EnumType
  deriving DecidableEq

namespace Scope

def values (scope : Scope) : List EnumValue := scope.enums.flatMap EnumType.values

def declarations (params : Params) (scope : Scope) : List Constants.Declaration :=
  scope.enums.flatMap (Constants.declarations params)

/-- How a constant of the scope is named from anywhere in the module. -/
def reference (scope : Scope) (name : Text) : Text :=
  match scope.type? with
  | some type => type ++ "::" ++ name
  | none => name

/-- A block of constants below its type, or for each enumeration its constants and nothing else. -/
def text (params : Params) (scope : Scope) : Text :=
  match scope.type? with
  | some type =>
    Text.lines [
      "/* enum " ++ type ++ " */",
      "#[derive(Debug, Clone, Copy, PartialEq, Eq)]",
      "pub struct " ++ type ++ ";",
      "",
      "impl " ++ type ++ " \x7b"] ++
    Printer.indented 1 true
      (Text.lines ((scope.declarations params).map Constants.Declaration.line)) ++
    Text.lines ["\x7d", ""]
  | none => scope.enums.flatMap fun enum =>
    Text.lines ["/* enum " ++ Names.enumType enum ++ " */"] ++
    Text.lines ((Constants.declarations params enum).map Constants.Declaration.line) ++
    Text.lines [""]

/-- The number of a constant, once all declarations of the scope have been gone through. -/
def number? (params : Params) (scope : Scope) (name : Text) : Option Int32 :=
  (Constants.evaluate params.enumStyle (scope.declarations params)).bind fun known =>
    known.lookup name

end Scope

/-- Every enumeration has a block of its own, or all of them share the module. -/
def Pool.scopes (params : Params) (pool : Pool) : List Scope :=
  match params.enumStyle with
  | .shell => pool.enums.map fun enum => ⟨some (Names.enumType enum), [enum]⟩
  | .flat => [⟨none, pool.enums⟩]

end EnumWire
