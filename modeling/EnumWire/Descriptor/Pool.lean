import EnumWire.Descriptor.Basic

/-! # The descriptors of one package

A pool keeps its enumerations in the order in which their names were first added; adding a name
again replaces the descriptor in its place. Resolving a message links each field to an enumeration
of the pool and to the value that it defaults to, and adds nothing when one of them is missing. -/
namespace EnumWire

inductive ResolveError where
  | unknownEnum (message field typeName : Text)
  | unknownDefault (message field value enumName : Text)
  | emptyEnum (message field enumName : Text)
  deriving DecidableEq

def ResolveError.message : ResolveError → Text
  | .unknownEnum message field typeName =>
    "field '" ++ message ++ "." ++ field ++ "' references unknown enum '" ++ typeName ++ "'"
  | .unknownDefault message field value enumName =>
    "field '" ++ message ++ "." ++ field ++ "' defaults to '" ++ value ++
      "', which is not a value of enum '" ++ enumName ++ "'"
  | .emptyEnum message field enumName =>
    "field '" ++ message ++ "." ++ field ++ "' has enum type '" ++ enumName ++
      "' with no values to default to"

structure Pool where
  package : Text
  enums : List EnumType := []
  messages : List Message := []
  deriving DecidableEq

namespace Pool

def findEnum? (pool : Pool) (name : Text) : Option EnumType :=
  pool.enums.find? fun enum => enum.name = name

/-- Replaces the enumeration of the same name, or comes last. -/
def insertEnum (enum : EnumType) : List EnumType → List EnumType
  | [] => [enum]
  | other :: rest => if other.name = enum.name then enum :: rest else other :: insertEnum enum rest

def addEnum (pool : Pool) (definition : EnumDef) : Pool :=
  { pool with enums := insertEnum (EnumType.ofDef definition) pool.enums }

/-- The value a field of a message defaults to: the named one, or the first. -/
def resolveDefault (message : Text) (field : FieldDef) (enum : EnumType) :
    Except ResolveError EnumValue :=
  match field.defaultName with
  | some name =>
    match enum.findName? name with
    | some value => .ok value
    | none => .error (.unknownDefault message field.name name enum.name)
  | none =>
    match enum.first? with
    | some value => .ok value
    | none => .error (.emptyEnum message field.name enum.name)

def resolveField (pool : Pool) (message : Text) (field : FieldDef) : Except ResolveError Field :=
  match pool.findEnum? field.typeName with
  | none => .error (.unknownEnum message field.name field.typeName)
  | some enum =>
    (resolveDefault message field enum).map fun value =>
      { name := field.name, number := field.number, label := field.label, packed := field.packed,
        enumName := enum.name, defaultValue := value, messageName := message }

def resolveMessage (pool : Pool) (definition : MessageDef) : Except ResolveError Message :=
  (definition.fields.mapM (pool.resolveField definition.name)).map fun fields =>
    { name := definition.name, fields := fields }

def addMessage (pool : Pool) (definition : MessageDef) : Except ResolveError Pool :=
  (pool.resolveMessage definition).map fun message =>
    { pool with messages := pool.messages ++ [message] }

/-- Adds every enumeration before the first message, so that declaration order between them has no
bearing. -/
def ofSchema (file : SchemaFile) : Except ResolveError Pool :=
  file.messages.foldlM addMessage (file.enums.foldl addEnum { package := file.package })

end Pool
end EnumWire
