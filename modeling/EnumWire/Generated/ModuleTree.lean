import EnumWire.Text.Basic

/-! # The module tree of packages

The parts of a package, between dots, are modules inside each other. Every package and every package
above one has a file that declares the modules right below it; a package of its own also declares
and exports its types. -/
namespace EnumWire.ModuleTree

/-- One package and the name of a module right below it. -/
structure Link where
  parent : Text
  child : Text
  deriving DecidableEq

/-- The links from some parts, taken together, down along further ones. -/
def linksBelow (above : List Text) : List Text → List Link
  | [] => []
  | part :: rest => ⟨['.'].intercalate above, part⟩ :: linksBelow (above ++ [part]) rest

def links (package : Text) : List Link := linksBelow [] (Text.split '.' package)

/-- The modules right below a package, ascending. -/
def children (packages : List Text) (package : Text) : List Text :=
  Text.ascending
    (((packages.flatMap links).filter fun link => link.parent = package).map Link.child)

def declaration (child : Text) : Text := "pub mod " ++ child ++ ";\n"

def typesText : Text := "pub mod types;\npub use types::*;\n"

/-- The file of a package: a blank line divides the modules from the types. -/
def text (packages : List Text) (package : Text) : Text :=
  let modules := (children packages package).flatMap declaration
  if packages.contains package then
    modules ++ (if modules = [] then [] else ['\n']) ++ typesText
  else modules

/-- The packages that have a file, ascending. -/
def members (packages : List Text) : List Text :=
  Text.ascending ((packages.flatMap links).map Link.parent ++ packages)

structure ModuleFile where
  package : Text
  text : Text
  deriving DecidableEq

def files (packages : List Text) : List ModuleFile :=
  (members packages).map fun package => ⟨package, text packages package⟩

end EnumWire.ModuleTree
