import EnumWire.Command.Analyze
import EnumWire.Command.Codegen
import EnumWire.Command.Help

/-! # The command line

A command and its options. An option is given by its name behind two dashes, with its value as the
next argument or behind an equals sign, or by its letter behind one dash, where letters without
values may come before it and its value right after it. The first argument that is not understood
is misuse; help that is asked for before it is given. -/
namespace EnumWire

open EnumWire.Files

inductive Command where
  | codegen (options : Command.Codegen.Options)
  | analyze (options : Command.Analyze.Options)
  deriving DecidableEq

namespace Command

def files : Command → List Path
  | .codegen options => options.files
  | .analyze options => options.files

/-- What a command does once its files have been read. -/
def plan (parse : Text → Except Yaml.Flaw SchemaFile) : Command → List Load.Content → Plan
  | .codegen options => Codegen.plan parse options
  | .analyze options => Analyze.plan parse options

/-- Runs a command where it is called. -/
def run (parse : Text → Except Yaml.Flaw SchemaFile) (command : Command) (s : Surroundings) :
    Outcome :=
  (command.plan parse (Load.contents s.tree command.files)).run s

namespace Arguments

/-- What is done instead of a command. -/
inductive Stop where
  | help (topic : Topic)
  | misuse
  deriving DecidableEq

inductive Verb where
  | codegen
  | analyze
  deriving DecidableEq

inductive Name where
  | files
  | output
  | format
  | param
  | verbose
  | help
  deriving DecidableEq

/-- The options that have been given so far. -/
structure Given where
  files : List Path := []
  output : Option Path := none
  format : Option Analyze.Format := none
  params : Option Params := none
  verbose : Bool := false
  deriving DecidableEq

def Verb.allows : Verb → Name → Bool
  | .codegen, .format => false
  | .analyze, .output => false
  | .analyze, .verbose => false
  | _, _ => true

def Verb.topic : Verb → Topic
  | .codegen => .codegen
  | .analyze => .analyze

def Name.ofWord? (word : Text) : Option Name :=
  if word = "files" then some .files
  else if word = "output" then some .output
  else if word = "format" then some .format
  else if word = "param" then some .param
  else if word = "verbose" then some .verbose
  else if word = "help" then some .help
  else none

def Name.ofLetter? (letter : Char) : Option Name :=
  if letter = 'f' then some .files
  else if letter = 'o' then some .output
  else if letter = 'v' then some .verbose
  else if letter = 'h' then some .help
  else none

/-- An option of a command. -/
def Verb.option (verb : Verb) (name? : Option Name) : Except Stop Name :=
  match name? with
  | some name => if verb.allows name then .ok name else .error .misuse
  | none => .error .misuse

def format? (word : Text) : Option Analyze.Format :=
  if word = "text" then some .text
  else if word = "json" then some .json
  else if word = "yaml" then some .yaml
  else none

/-- Sets an option to a value. All but the files may be given once, and paths are not empty. -/
def Given.assign (given : Given) (name : Name) (value : Text) : Except Stop Given :=
  match name with
  | .files => if value = [] then .error .misuse else .ok { given with files := given.files ++ [value] }
  | .output =>
    if given.output.isSome || value = [] then .error .misuse
    else .ok { given with output := some value }
  | .format =>
    match given.format, format? value with
    | none, some format => .ok { given with format := some format }
    | _, _ => .error .misuse
  | .param =>
    match given.params, Params.parse value with
    | none, .ok params => .ok { given with params := some params }
    | _, _ => .error .misuse
  | .verbose | .help => .error .misuse

/-- Sets an option without a value. -/
def Given.switch (given : Given) (verb : Verb) : Name → Except Stop Given
  | .help => .error (.help verb.topic)
  | .verbose => if given.verbose then .error .misuse else .ok { given with verbose := true }
  | _ => .error .misuse

def Name.isSwitch : Name → Bool
  | .verbose | .help => true
  | _ => false

/-- Whether an argument can be no value of the option before it. -/
def isOption : Text → Bool
  | '-' :: _ :: _ => true
  | _ => false

/-- Letters behind one dash. The answer names the option whose value is the next argument. -/
def letters (verb : Verb) (given : Given) : Text → Except Stop (Given × Option Name)
  | [] => .ok (given, none)
  | letter :: rest => do
    let name ← verb.option (Name.ofLetter? letter)
    if name.isSwitch then letters verb (← given.switch verb name) rest
    else match rest with
      | [] => .ok (given, some name)
      | '=' :: value => return (← given.assign name value, none)
      | value => return (← given.assign name value, none)

/-- A word behind two dashes, likewise. -/
def word (verb : Verb) (given : Given) (argument : Text) : Except Stop (Given × Option Name) :=
  match Text.splitFirst '=' argument with
  | some (text, value) => do
    let name ← verb.option (Name.ofWord? text)
    return (← given.assign name value, none)
  | none => do
    let name ← verb.option (Name.ofWord? argument)
    if name.isSwitch then return (← given.switch verb name, none) else return (given, some name)

def option (verb : Verb) (given : Given) : Text → Except Stop (Given × Option Name)
  | '-' :: '-' :: argument => word verb given argument
  | '-' :: argument => if argument = [] then .error .misuse else letters verb given argument
  | _ => .error .misuse

/-- The options of a command, up to two dashes, which nothing may follow. -/
def options (verb : Verb) (given : Given) : List Text → Except Stop Given
  | [] => .ok given
  | argument :: rest =>
    if argument = "--" then if rest = [] then .ok given else .error .misuse
    else do
      match ← option verb given argument, rest with
      | (given, none), rest => options verb given rest
      | (_, some _), [] => .error .misuse
      | (given, some name), value :: rest =>
        if isOption value then .error .misuse else options verb (← given.assign name value) rest

def Verb.command (verb : Verb) (given : Given) : Except Stop Command :=
  if given.files = [] then .error .misuse
  else .ok (match verb with
    | .codegen => .codegen {
        files := given.files, output := given.output.getD "generated",
        params := given.params.getD {}, verbose := given.verbose }
    | .analyze => .analyze {
        files := given.files, format := given.format.getD .text, params := given.params.getD {} })

def verb? (text : Text) : Option Verb :=
  if text = "codegen" then some .codegen else if text = "analyze" then some .analyze else none

/-- The topic of a call for help. -/
def topic? : List Text → Option Topic
  | [] => some .program
  | [text] => if text = "help" then some .help else (verb? text).map Verb.topic
  | _ => none

def parse : List Text → Except Stop Command
  | [] => .error .misuse
  | first :: rest =>
    if first = "--help" || first.take 2 = "-h" then .error (.help .program)
    else if first = "help" then .error (((topic? rest).map Stop.help).getD .misuse)
    else match verb? first with
      | some verb => (options verb {} rest).bind verb.command
      | none => .error .misuse

end Arguments
end Command
end EnumWire
