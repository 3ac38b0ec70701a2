import EnumWire.Schema.Package
import EnumWire.Yaml.Decode

/-! # Schema files in YAML

A schema file is a mapping: its package under `schema`, its definitions under `enums` and
`messages`. Keys of other names are passed over. -/
namespace EnumWire.SchemaFile

open EnumWire.Yaml

def label? (t : Text) : Option Label :=
  if t = "optional" then some .optional else if t = "repeated" then some .repeated else none

variable (document : Document)

def decodeValue (node : Node) : Decode EnumValueDef := do
  let record ← Decode.record document ["name", "number", "comment"] node
  return {
    name := ← record.required "name" (Decode.text document)
    number := ← record.required "number" (Decode.int32 document)
    comment := ← record.optional "comment" none (Decode.optionalText document) }

def decodeEnum (node : Node) : Decode EnumDef := do
  let record ← Decode.record document ["name", "values"] node
  return {
    name := ← record.required "name" (Decode.text document)
    values := ← record.optional "values" [] (Decode.list document (decodeValue document)) }

def decodeField (node : Node) : Decode FieldDef := do
  let record ← Decode.record document ["name", "number", "type", "label", "packed", "default"] node
  return {
    name := ← record.required "name" (Decode.text document)
    number := ← record.required "number" (Decode.uint32 document)
    typeName := ← record.required "type" (Decode.text document)
    label := ← record.optional "label" .optional (Decode.word document label?)
    packed := ← record.optional "packed" false (Decode.bool document)
    defaultName := ← record.optional "default" none (Decode.optionalText document) }

def decodeMessage (node : Node) : Decode MessageDef := do
  let record ← Decode.record document ["name", "fields"] node
  return {
    name := ← record.required "name" (Decode.text document)
    fields := ← record.optional "fields" [] (Decode.list document (decodeField document)) }

/-- The package and the description of a schema file. -/
def decodeAbout (node : Node) : Decode (Text × Option Text) := do
  let record ← Decode.record document ["package", "description"] node
  return (← record.required "package" (Decode.text document),
    ← record.optional "description" none (Decode.optionalText document))

def decode (node : Node) : Decode SchemaFile := do
  let record ← Decode.record document ["schema", "enums", "messages"] node
  let (package, description) ← record.required "schema" (decodeAbout document)
  return {
    package := package
    description := description
    enums := ← record.optional "enums" [] (Decode.list document (decodeEnum document))
    messages := ← record.optional "messages" [] (Decode.list document (decodeMessage document)) }

def ofYaml (text : Text) : Except Flaw SchemaFile := Yaml.decode decode text

end EnumWire.SchemaFile
