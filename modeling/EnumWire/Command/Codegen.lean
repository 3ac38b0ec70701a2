import EnumWire.Command.Load
import EnumWire.Command.Plan
import EnumWire.Generated.Module
import EnumWire.Generated.ModuleTree

/-! # Generating code

The module of each package is written into its directory below the output directory, and then the
files that make a tree of the modules. Nothing is written unless everything loads. -/
namespace EnumWire.Command

open EnumWire.Files

namespace Codegen

structure Options where
  files : List Path
  output : Path := "generated"
  params : Params := {}
  verbose : Bool := false
  deriving DecidableEq

/-- The parts of a package as names of a path. -/
def packagePath (package : Text) : Path := package.map fun c => if c = '.' then '/' else c

def typesDirectory (output : Path) (package : Text) : Path := Path.join output (packagePath package)

/-- The root of the tree stands in the output directory itself. -/
def moduleDirectory (output : Path) (package : Text) : Path :=
  if package = [] then output else Path.join output (packagePath package)

def typesSteps (output : Path) (package code : Text) : List Step :=
  let directory := typesDirectory output package
  [.create directory, .write .types (Path.join directory "types.rs") code]

def moduleSteps (output : Path) (file : ModuleTree.ModuleFile) : List Step :=
  let directory := moduleDirectory output file.package
  [.create directory, .write .modules (Path.join directory "mod.rs") file.text]

def treeSteps (output : Path) (packages : List Text) : List Step :=
  (ModuleTree.files packages).flatMap (moduleSteps output)

/-! ### What is printed -/

def note (verbose : Bool) (text : Text) : List Step := if verbose then [.print text] else []

def boolText : Bool → Text
  | true => "true"
  | false => "false"

def heading (options : Options) : Text :=
  Text.lines [
    "Nano Generator - Code Generation Tool",
    "=====================================",
    "",
    "[~] Configuration:",
    "  Output directory: " ++ options.output,
    "  Enum style: " ++ options.params.enumStyle.title,
    "  Runtime crate: " ++ options.params.runtimeCrate,
    "  Emit messages: " ++ boolText options.params.emitMessages,
    "  Input files: " ++ Text.ofNat options.files.length] ++
  Text.lines (options.files.map fun path => "    - " ++ path) ++ "\n"

def packageNote (output : Path) (package : Text) : Text :=
  Text.lines ["[~] Generating code for package '" ++ package ++ "' in " ++ typesDirectory output package]

def closing (output : Path) (packages : List Text) : Text :=
  Text.lines (
    "[✓] Generated Rust code in package directories:" ::
    packages.map fun package => "    - " ++ output ++ "/" ++ packagePath package ++ "/types.rs")

/-! ### The plan -/

def packagePlan (options : Options) (pool : Pool) : Plan :=
  let noted := note options.verbose (packageNote options.output pool.package)
  match Module.text options.params pool with
  | .ok code => { steps := noted ++ typesSteps options.output pool.package code }
  | .error error => { steps := noted, failure := some (.template error) }

def closingSteps (options : Options) (packages : List Text) : List Step :=
  treeSteps options.output packages ++ note options.verbose (closing options.output packages) ++
    [.print (Text.lines ["[✓] Code generation complete!"])]

def poolsPlan (options : Options) (pools : List Pool) : Plan :=
  let last : Plan := { steps := closingSteps options (pools.map Pool.package) }
  let packages := (pools.map (packagePlan options)).foldr Plan.andThen last
  { steps := .create options.output :: packages.steps, failure := packages.failure }

def plan (parse : Text → Except Yaml.Flaw SchemaFile) (options : Options)
    (contents : List Load.Content) : Plan :=
  let start : Plan := { steps := note options.verbose (heading options) }
  match Load.pools parse contents with
  | .error failure => start.andThen (.fail failure)
  | .ok pools => start.andThen (poolsPlan options pools)

end Codegen
end EnumWire.Command
