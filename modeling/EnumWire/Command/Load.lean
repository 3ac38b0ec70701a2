import EnumWire.Command.Failure
import EnumWire.Schema.Package
import EnumWire.Schema.Yaml

/-! # Loading schema files

The files are read and parsed in the order in which they are given; those of one package are merged,
and the packages are resolved in ascending order. The first file or package that cannot be is the
failure. -/
namespace EnumWire.Command.Load

open EnumWire.Files

/-- A path and what comes of reading the file there. -/
structure Content where
  path : Path
  text : Except Fault Text

variable (parse : Text → Except Yaml.Flaw SchemaFile)

def file (content : Content) : Except Failure SchemaFile :=
  match content.text with
  | .error fault => .error (.read content.path fault)
  | .ok text => (parse text).mapError (Failure.ofFlaw content.path)

def resolve (file : SchemaFile) : Except Failure Pool :=
  (Pool.ofSchema file).mapError (Failure.resolve file.package)

/-- One pool per package. -/
def pools (contents : List Content) : Except Failure (List Pool) :=
  if contents.isEmpty then .error .noFiles
  else do
    let files ← contents.mapM (file parse)
    (SchemaFile.groupByPackage files).mapM resolve

/-- What the files of a tree hold. -/
def contents (tree : FileTree) (paths : List Path) : List Content :=
  paths.map fun path => ⟨path, tree.read path⟩

end EnumWire.Command.Load
