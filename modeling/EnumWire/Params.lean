import EnumWire.Text.Basic

/-! # Generator parameters

Parameters are given as `key=value` pairs between commas, with blanks around any part. The last pair
of a key counts; the first pair that is not understood is the error. -/
namespace EnumWire

inductive EnumStyle where
  /-- Constants are associated with a unit struct named after the enumeration. -/
  | shell
  /-- Constants stand in the module and carry the name of the enumeration. -/
  | flat
  deriving DecidableEq

namespace EnumStyle

def name : EnumStyle → Text
  | .shell => "shell"
  | .flat => "flat"

def title : EnumStyle → Text
  | .shell => "Shell"
  | .flat => "Flat"

end EnumStyle

inductive ParamError where
  | missingValue (pair : Text)
  | unknownKey (key : Text)
  | invalidValue (key value : Text)
  deriving DecidableEq

def ParamError.message : ParamError → Text
  | .missingValue pair => "parameter '" ++ pair ++ "' is missing a value (expected key=value)"
  | .unknownKey key => "unknown generator parameter '" ++ key ++ "'"
  | .invalidValue key value => "invalid value '" ++ value ++ "' for parameter '" ++ key ++ "'"

structure Params where
  enumStyle : EnumStyle := .shell
  runtimeCrate : Text := "nano_runtime"
  emitMessages : Bool := true
  deriving DecidableEq

namespace Params

def assign (params : Params) (key value : Text) : Except ParamError Params :=
  if key = "enum_style" then
    if value = "shell" then .ok { params with enumStyle := .shell }
    else if value = "flat" then .ok { params with enumStyle := .flat }
    else .error (.invalidValue key value)
  else if key = "runtime_crate" then
    if value = [] then .error (.invalidValue key value)
    else .ok { params with runtimeCrate := value }
  else if key = "emit_messages" then
    if value = "true" then .ok { params with emitMessages := true }
    else if value = "false" then .ok { params with emitMessages := false }
    else .error (.invalidValue key value)
  else .error (.unknownKey key)

/-- Only the first equals sign of a pair separates. -/
def assignPair (params : Params) (pair : Text) : Except ParamError Params :=
  match Text.splitFirst '=' pair with
  | none => .error (.missingValue pair)
  | some (key, value) => params.assign (Text.trim key) (Text.trim value)

/-- The pairs of a parameter text without the blanks around them; blank ones are left out. -/
def pairs (text : Text) : List Text :=
  ((Text.split ',' text).map Text.trim).filter fun pair => pair ≠ []

def parse (text : Text) : Except ParamError Params :=
  (pairs text).foldlM assignPair {}

end Params
end EnumWire
