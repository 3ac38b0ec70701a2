import EnumWire.Descriptor.Basic
import EnumWire.Params

/-! # Names in generated source

A name that is a keyword of the target language is written as a raw identifier, or with a trailing
underscore where a raw identifier is not allowed. Shell constants live inside the block of their
enumeration and keep their names; flat constants share the module and carry the enumeration's. -/
namespace EnumWire

namespace CaseStyle

/-! ### Case styles

Only ASCII letters have a case here; every other character is kept. An upper-case letter after a
lower-case letter or a digit begins a word in `snake`; an underscore does in `camel`. -/

/-- `afterLower` tells whether the character before was a lower-case letter or a digit. -/
def snakeFrom : (afterLower : Bool) → Text → Text
  | _, [] => []
  | afterLower, c :: rest =>
    if c.isUpper then
      if afterLower then '_' :: c.toLower :: snakeFrom false rest
      else c.toLower :: snakeFrom false rest
    else c :: snakeFrom (c.isLower || c.isDigit) rest

/-- `fooBar`, `FooBar` and `foo_bar` all become `foo_bar`. -/
def snake (name : Text) : Text := snakeFrom false name

/-- `wordStart` tells whether the next character begins a word. -/
def camelFrom : (wordStart : Bool) → Text → Text
  | _, [] => []
  | wordStart, c :: rest =>
    if c = '_' then camelFrom true rest
    else if wordStart then c.toUpper :: camelFrom false rest
    else c :: camelFrom false rest

/-- `foo_bar` becomes `FooBar`. -/
def camel (name : Text) : Text := camelFrom true name

/-- `fontWeight` becomes `FONT_WEIGHT`, and `HTTPStatus` `HTTPSTATUS`. -/
def screaming (name : Text) : Text := (snake name).map Char.toUpper

end CaseStyle

namespace Names

/-! ### Identifiers -/

/-- Keywords that may be written as raw identifiers. -/
def rawKeywords : List Text :=
  (["as", "break", "const", "continue", "else", "enum", "extern", "false", "fn", "for", "if",
    "impl", "in", "let", "loop", "match", "mod", "move", "mut", "pub", "ref", "return", "static",
    "struct", "trait", "true", "type", "unsafe", "use", "where", "while", "async", "await", "dyn",
    "abstract", "become", "box", "do", "final", "macro", "override", "priv", "typeof", "unsized",
    "virtual", "yield", "try", "gen"] : List String).map String.toList

/-- Keywords that may not. -/
def pathKeywords : List Text := ["crate", "self", "Self", "super"]

def escape (name : Text) : Text :=
  if rawKeywords.contains name then "r#" ++ name
  else if pathKeywords.contains name then name ++ "_"
  else name

def field (field : Field) : Text := escape (CaseStyle.snake field.name)

/-- Built from the name before escaping: the field `type` has `has_type`. -/
def presenceAccessor (field : Field) : Text := "has_" ++ CaseStyle.snake field.name

def enumType (enum : EnumType) : Text := escape enum.name

/-- The name of the constant declared for a value. -/
def constant (params : Params) (value : EnumValue) : Text :=
  match params.enumStyle with
  | .shell => escape value.name
  | .flat => CaseStyle.screaming value.enumName ++ "_" ++ value.name

/-- An expression that names the constant of a value from anywhere in the module. -/
def constantRef (params : Params) (value : EnumValue) : Text :=
  match params.enumStyle with
  | .shell => escape value.enumName ++ "::" ++ constant params value
  | .flat => constant params value

def defaultRef (params : Params) (field : Field) : Text := constantRef params field.defaultValue

def sizeCache (messageName : Text) : Text := escape messageName ++ "SizeCache"

end Names
end EnumWire
