import EnumWire.Descriptor.Pool
import EnumWire.Files.Tree
import EnumWire.Printer.Template
import EnumWire.Yaml.Room

/-! # Why a command fails

What the command was at, and the cause that stopped it. -/
namespace EnumWire.Command

open EnumWire.Files

/-- What a written file is for. -/
inductive FileRole where
  | types
  | modules
  deriving DecidableEq

inductive Failure where
  | noFiles
  | read (path : Path) (fault : Fault)
  /-- The text of a file is not a schema. -/
  | parse (path : Path)
  /-- A gap in the text of a file does not fit its scalar. -/
  | overflow
  | resolve (package : Text) (error : ResolveError)
  | create (path : Path) (fault : Fault)
  | write (role : FileRole) (path : Path) (fault : Fault)
  | template (error : TemplateError)
  deriving DecidableEq

namespace Failure

def context : Failure → Text
  | .noFiles => "no schema files given"
  | .read path _ => "failed to read " ++ path
  | .parse path => "failed to parse " ++ path
  | .overflow => "String join would overflow memory bounds"
  | .resolve package _ => "failed to resolve package '" ++ package ++ "'"
  | .create path _ => "failed to create " ++ path
  | .write .types path _ => "failed to write types to " ++ path
  | .write .modules path _ => "failed to write " ++ path
  | .template error => error.message

def cause? : Failure → Option Text
  | .noFiles => none
  | .read _ fault => some fault.message
  | .parse _ => some "not a schema file"
  | .overflow => none
  | .resolve _ error => some error.message
  | .create _ fault => some fault.message
  | .write _ _ fault => some fault.message
  | .template _ => none

def ofFlaw (path : Path) : Yaml.Flaw → Failure
  | .malformed => .parse path
  | .overflow => .overflow

/-- Whether the program breaks off where it is, rather than ends. -/
def breaksOff : Failure → Bool
  | .overflow => true
  | .template _ => true
  | _ => false

def exitCode (failure : Failure) : UInt32 := if failure.breaksOff then 101 else 1

/-- What is reported of a failure, a cause on lines of its own. -/
def report (failure : Failure) : Text :=
  "Error: " ++ failure.context ++
  match failure.cause? with
  | some cause => "\n\nCaused by:\n    " ++ cause ++ "\n"
  | none => "\n"

end Failure
end EnumWire.Command
