import EnumWire.Command.Arguments

/-! # The program

Reads the files of a command, carries its plan out, and reports a failure. -/
open EnumWire EnumWire.Command EnumWire.Files

namespace EnumWire.Program

def fault (error : IO.Error) : Fault :=
  match error with
  | .noFileOrDirectory _ _ _ => .notFound
  | .noSuchThing _ _ _ => .notFound
  | .alreadyExists _ _ _ => .alreadyExists
  | .inappropriateType _ code _ =>
    if code = 20 then .notDirectory else if code = 21 then .isDirectory else .other (toString error)
  | .invalidArgument _ code _ => if code = 36 then .nameTooLong else .other (toString error)
  | error => .other (toString error)

def readText (path : Path) : IO (Except Fault Text) := do
  try
    let bytes ← IO.FS.readBinFile (String.ofList path)
    match String.fromUTF8? bytes with
    | some text => return .ok text.toList
    | none => return .error .notText
  catch error => return .error (fault error)

def readContents (paths : List Path) : IO (List Load.Content) :=
  paths.mapM fun path => do return ⟨path, ← readText path⟩

def createDirectories (path : Path) : IO Unit :=
  if path = [] then return else IO.FS.createDirAll (String.ofList path)

def perform : Step → IO (Except Failure Unit)
  | .print text => do
    IO.print (String.ofList text)
    return .ok ()
  | .create path => do
    try
      createDirectories path
      return .ok ()
    catch error => return .error (.create path (fault error))
  | .write role path text => do
    try
      IO.FS.writeFile (String.ofList path) (String.ofList text)
      return .ok ()
    catch error => return .error (.write role path (fault error))

def carryOut (plan : Plan) : IO (Option Failure) := do
  for step in plan.steps do
    if let .error failure ← perform step then return some failure
  return plan.failure

def run (command : Command) : IO UInt32 := do
  let contents ← readContents command.files
  match ← carryOut (command.plan SchemaFile.ofYaml contents) with
  | none => return 0
  | some failure =>
    IO.eprint (String.ofList failure.report)
    return failure.exitCode

end EnumWire.Program

open EnumWire.Program in
def main (arguments : List String) : IO UInt32 := do
  match Arguments.parse (arguments.map String.toList) with
  | .ok command => run command
  | .error (.help topic) =>
    IO.print (String.ofList topic.text)
    return 0
  | .error .misuse =>
    IO.eprint (String.ofList Topic.program.text)
    return 2
